/-
A database stays tidy, and so a scope is closed with what lies inside it.

All that is done to a database, but for the restoring of a hierarchy, leaves it tidy
(`tidy_run`).  The theorem at the end says what is there after a scope was closed, in terms of
what was there before.
-/
import DesignStore.Proofs.Minting
import DesignStore.Proofs.Opening

namespace DesignStore

/-! ## Relations of databases along a run -/

namespace Session

open Database

variable {α : Type} {S : Database → Database → Prop}

/-- A relation of the databases of two sessions, whatever their notes are. -/
def OnDb (S : Database → Database → Prop) (s s' : Session) : Prop :=
  S s.db s'.db

instance [IsPreorder Database S] : IsPreorder Session (OnDb S) where
  refl s := refl_of S s.db
  trans _ _ _ h h' := trans_of S h h'

theorem still_onDb {x : Edit α} (hx : Keeps S x) : Keeps (Still (OnDb S)) x :=
  hx.mono fun _ _ h _ => h

theorem Mirrors.keeps {x : Noted α} {y : Edit α} (hx : Mirrors x y) (hy : Keeps S y) :
    Keeps (OnDb S) x := by
  intro s
  rw [OnDb, hx.after_db]
  exact hy s.db

theorem Mirrors.keepsUnless {bad : Failure DbError → Prop} {x : Noted α} {y : Edit α}
    (hx : Mirrors x y) (hy : KeepsUnless bad S y) : KeepsUnless bad (OnDb S) x := by
  intro s hs
  rw [OnDb, hx.after_db]
  refine hy s.db fun e db' hr he => ?_
  cases hxs : x s with
  | ok a t =>
    have hdb := hx s
    rw [hxs, hr] at hdb
    contradiction
  | error e' t =>
    have hdb := hx.error_db hxs
    rw [hr] at hdb
    cases hdb
    exact hs e t hxs he

/-- What an operation with notes keeps of the database is kept by the operation. -/
theorem Mirrors.keeps_of_onDb {x : Noted α} {y : Edit α} (hx : Mirrors x y)
    (h : Keeps (OnDb S) x) : Keeps S y := by
  intro db
  have hs := h (start db)
  rwa [OnDb, hx.after_db] at hs

/-- What is kept where only bodies of records and tables are changed. -/
theorem Naming.of_alike (halike : ∀ {db db'}, Alike db db' → S db db') : Naming (OnDb S) where
  body _ id _ hf := still_onDb ((alike_updateBody hf id).mono fun _ _ => halike)
  symbols id x := still_onDb
    ((alike_onStorageScope id (onTables_onSymbols x)).mono fun _ _ => halike)

theorem Making.of_alike (halike : ∀ {db db'}, Alike db db' → S db db')
    (hcreate : ∀ k t owner, Keeps S (Database.create k t owner)) : Making (OnDb S) where
  toNaming := Naming.of_alike halike
  create k t owner := (mirrors_create k t owner).keeps (hcreate k t owner)

/-- The same with the other changes that open no scope. -/
theorem Local.of_alike (halike : ∀ {db db'}, Alike db db' → S db db')
    (hcreate : ∀ k t owner, Keeps S (Database.create k t owner))
    (hindex : ∀ id, Keeps S (indexObject id))
    (hdestroy : ∀ id, Keeps S (Database.destroy id : Edit Bool))
    (hdestroyScope : ∀ owner, Keeps S (Database.destroyScope owner : Edit Bool))
    (hreset : ∀ db, S db db.reset) : Local (OnDb S) where
  toMaking := Making.of_alike halike hcreate
  polygons id x := still_onDb
    ((alike_onStorageScope id (onTables_onPolygons x)).mono fun _ _ => halike)
  index id := still_onDb (hindex id)
  destroy id := still_onDb (hdestroy id)
  destroyScope owner := still_onDb (hdestroyScope owner)
  reset := still_onDb (Keeps.modify hreset)

theorem Stable.run_onDb [IsPreorder Database S] {bad : Failure DbError → Prop}
    (h : Stable bad (OnDb S)) {cmds : List Command}
    (hc : ∀ c ∈ cmds, c.ByHand → Keeps S c.perform) {db : Database} (hbad : db.Avoids bad cmds) :
    S db (Database.run cmds db) := by
  have hrun := h.run cmds (fun c hm hh => still_onDb (hc c hm hh)) (start db) hbad
  rwa [OnDb, run_db] at hrun

theorem Stable.perform_onDb [IsPreorder Database S] (h : Stable (fun _ => False) (OnDb S))
    {c : Command} (hc : c.ByHand → Keeps S c.perform) : Keeps S c.perform := by
  intro db
  have hcommand : ∀ c' ∈ [c], c'.ByHand → Keeps S c'.perform := by simpa using hc
  exact h.run_onDb hcommand (Database.avoids_nothing db [c])

end Session

namespace Database

open Registry

variable {ε α : Type} {db db' : Database} {id : ObjectId}

/-! ## What all commands keep -/

def Upkeep (db db' : Database) : Prop :=
  db.Tidy → db'.Tidy

instance : IsPreorder Database Upkeep where
  refl _ h := h
  trans _ _ _ h h' ht := h' (h ht)

theorem Steady.upkeep (h : Steady db db') : Upkeep db db' :=
  fun ht => (h ht.sound).tidy ht

theorem tidy_empty {c : StoreConfig} (h : c.pool.Valid) : (empty c).Tidy where
  sound := Registry.sound_empty h
  paired := Hierarchy.paired_empty
  forest := Forest.nil
  pool := by simp [empty]
  bound := by simp [empty, Registry.empty]
  spent := by simp [empty]
  indexed := by simp [empty, Hierarchy.empty]

theorem Tidy.of_adds (h : db.Tidy) {index : ObjectIndex} {t : Hierarchy}
    (hl : db.registry.Live id) (ha : Hierarchy.Adds id index db.hierarchy t) :
    Tidy { db with hierarchy := t } := by
  refine h.of_hierarchy ha.paired fun e he => ?_
  rw [ha.positions] at he
  rcases Assoc.mem_insert he with rfl | he
  · exact h.sound.spent_of_live hl
  · exact h.indexed e he

theorem upkeep_create (k : RecordKind) (t : ObjectType) (owner : ObjectId) :
    Keeps Upkeep (create k t owner) := by
  intro db h
  rcases create_cases h.sound k t owner with ⟨e, he⟩ | ⟨_, _, _, _, r, _, _, _, _, hp, ht, hr⟩
  · rwa [after_error he]
  · rw [after_ok hr]
    exact (SameFrame.of_stores (hp.stores_fresh h.sound ht)).tidy h

theorem upkeep_setActive (a : ActiveScope) (id : Option ObjectId) :
    Keeps Upkeep (modify fun db => { db with hierarchy := db.hierarchy.setActive a id } :
      EStateM ε Database Unit) := by
  refine Keeps.modify fun db h => ?_
  cases a <;> exact h.of_hierarchy (h.paired.of_owners rfl rfl) h.indexed

theorem upkeep_destroyScope (o : ObjectId) :
    Keeps Upkeep (destroyScope o : EStateM ε Database Bool) :=
  fun _ h => h.destroyScope o

theorem upkeep_destroy (id : ObjectId) : Keeps Upkeep (destroy id : EStateM ε Database Bool) := by
  intro db h
  rcases after_destroy (ε := ε) h.sound h.paired id with hr | ⟨_, hd⟩
  · rw [hr]
    exact upkeep_destroyScope id db h
  · exact hd.tidy h

theorem upkeep_reset (db : Database) : Upkeep db db.reset := by
  intro h
  refine ⟨(clear_evolves h.sound).sound, Hierarchy.paired_empty, Forest.nil, ?_, ?_, ?_, ?_⟩
  · simp [reset]
  · simp [reset, clear]
  · simp [reset]
  · simp [reset, Hierarchy.empty]

/-- A live record is given a position if it has none, or nothing is changed. -/
theorem after_indexObject (h : db.Tidy) (id : ObjectId) :
    after (indexObject id) db = db ∨ ∃ index t, db.registry.Live id ∧
      db.hierarchy.indexOf? id = none ∧ Hierarchy.Adds id index db.hierarchy t ∧
      after (indexObject id) db = { db with hierarchy := t } := by
  by_cases hlive : db.isLive id = true
  · have hl := (isLive_iff h.sound id).1 hlive
    cases hi : db.hierarchy.indexOf? id with
    | some index =>
      exact Or.inl (by
        simp only [after, indexObject, bind_apply, get_apply, if_pos hlive, hi, pure_apply])
    | none =>
      have hne : id ≠ ObjectId.null := by
        rintro rfl
        obtain ⟨k, hk, _⟩ := h.sound.spent_of_live hl
        rw [SlotKey.unpack?_null] at hk
        contradiction
      have hinsert : indexObject id db = (some <$> onHierarchy (Hierarchy.insert id)) db := by
        simp only [indexObject, bind_apply, get_apply, if_pos hlive, hi]
      have hafter : after (indexObject id) db =
          { db with hierarchy := after (Hierarchy.insert (ε := DbError) id) db.hierarchy } :=
        calc after (indexObject id) db
            = after (some <$> onHierarchy (Hierarchy.insert id)) db := by
              rw [after, hinsert, after]
          _ = after (onHierarchy (Hierarchy.insert id)) db := after_map some _ db
          _ = _ := after_onHierarchy _ db
      rcases Hierarchy.insert_cases (ε := DbError) h.paired hne hi with ⟨_, he⟩ | ⟨index, t, ht, ha⟩
      · exact Or.inl (by rw [hafter, after_error he])
      · exact Or.inr ⟨index, t, hl, rfl, ha, by rw [hafter, after_ok ht]⟩
  · exact Or.inl (by
      simp only [after, indexObject, bind_apply, get_apply, if_neg hlive, pure_apply])

theorem upkeep_indexObject (id : ObjectId) : Keeps Upkeep (indexObject id) := by
  intro db h
  rcases after_indexObject h id with hr | ⟨index, t, hl, _, ha, hr⟩ <;> rw [hr]
  · exact h
  · exact h.of_adds hl ha

end Database

theorem Session.upkeep_stable : Session.Stable (fun _ => False) (Session.OnDb Database.Upkeep) :=
  (Session.Local.of_alike (fun h => h.steady.upkeep) Database.upkeep_create
    Database.upkeep_indexObject Database.upkeep_destroy Database.upkeep_destroyScope
    Database.upkeep_reset).stable
    (fun a => (mirrors_openScope a).keeps fun _ h => (Database.opening_openScope h a).tidy h)
    (fun a id => still_onDb (Database.upkeep_setActive a id))
    fun parent => (mirrors_openNested parent).keeps fun _ h =>
      (Database.opening_openNested h parent).tidy h

/-- A run that restores no hierarchy ends in a tidy database. -/
theorem Database.tidy_run {c : StoreConfig} {db : Database} (h : Database.new c = .ok db)
    {cmds : List Command} (hcmds : ∀ l, .restoreHierarchy l ∉ cmds) :
    (Database.run cmds db).Tidy := by
  obtain ⟨hc, rfl⟩ := Database.new_eq_ok h
  refine Session.upkeep_stable.run_onDb (fun c hm hh => ?_) (Database.avoids_nothing _ cmds)
    (Database.tidy_empty hc)
  refine Keeps.mono ?_ fun _ _ => Database.Steady.upkeep
  cases c with
  | setOwner id owner => exact (Database.steady_setOwner id owner).discard
  | restoreHierarchy l => exact absurd hm (hcmds l)
  | write k id f => exact (Database.steady_update k id f).discard
  | writeHeader id f => exact (Database.steady_modifyHeader id f).discard
  | editHeader id e => exact (Database.steady_editHeader id e).discard
  | properties id x =>
    exact (Database.alike_onProperties id x).discard.mono fun _ _ => Database.Alike.steady
  | _ => exact hh.elim

/-- Closing a scope, after any run that restores no hierarchy.  The worklist of scopes to
close comes to its end.  The answer is whether the owner has a scope, and without one nothing
is changed.  With one the scopes that are closed are those that lie inside that scope; the
others stay in their order, and only the one around is changed, in which the owner is listed
no longer.  The records that are live are those that were, as they were, less the owner and
all that was in a pool of a closed scope; the same goes for the entries of the hierarchy,
and for the active scopes. -/
theorem destroyScope_closes_subtree {c : StoreConfig} {start : Database}
    (h : Database.new c = .ok start) {cmds : List Command}
    (hcmds : ∀ l, .restoreHierarchy l ∉ cmds) (o : ObjectId) :
    let db := Database.run cmds start
    let db' := after (Database.destroyScope o : Edit Bool) db
    db.Drains [o] (db.subtree o) ∧
      (Database.destroyScope o : Edit Bool) db = .ok (db.scope? o).isSome db' ∧
      (db.scope? o = none → db' = db) ∧
      ∀ s, db.scope? o = some s →
        (∀ t, t ∈ db.doomed o ↔ t ∈ db.scopes ∧ Inside db.scopes o t.owner) ∧
        db'.scopes = (db.scopes.filter (· ∉ db.doomed o)).map
          (fun t => if s.parent = some t.owner then t.without o else t) ∧
        (∀ t ∈ db'.scopes, o ∉ t.children) ∧
        (∀ t, db'.homeScope? o = some t → t.properties.hasProperties o = false) ∧
        (∀ id, db'.isLive id = true ↔ db.isLive id = true ∧ id ≠ o ∧
          ∀ t ∈ db.doomed o, ScopeTag.of? id ≠ some t.tag) ∧
        (∀ id, db'.isLive id = true → db'.header? id = db.header? id ∧
          ∀ k x, db'.resolve k id = .ok (some x) ↔ db.resolve k id = .ok (some x)) ∧
        db'.hierarchy.entries = db.hierarchy.entries.filter
          (fun e => !(db.doomed o).any (·.takes e.2)) ∧
        ∀ a, db'.hierarchy.active a = (db.hierarchy.active a).filter
          (fun id => !(db.doomed o).any (·.owner = id)) := by
  intro db db'
  have ht : db.Tidy := Database.tidy_run h hcmds
  refine ⟨Database.subtree_drains ht.forest o, ?_⟩
  cases ho : db.scope? o with
  | none =>
    have hr := Database.destroyScope_of_none (ε := Failure DbError) ho
    exact ⟨hr.trans (by rw [← after_ok hr]; rfl), fun _ => after_ok hr,
      fun s hs => by contradiction⟩
  | some s =>
    obtain ⟨db₁, r, hc, _, hr⟩ := Database.destroyScope_of_some (ε := Failure DbError) ht ho
    have hdb' : db' = _ := after_ok hr
    refine ⟨hr.trans (by rw [← hdb']; rfl), fun hn => by contradiction, fun s' hs' => ?_⟩
    cases hs'
    refine ⟨fun t => Database.mem_doomed ht.forest, Database.scopes_after_destroyScope ht ho,
      Database.not_mem_children_after_destroyScope ht ho,
      fun t => Database.hasProperties_after_destroyScope ht ho,
      Database.isLive_after_destroyScope ht ho,
      fun id => Database.reads_after_destroyScope ht ho, ?_, ?_⟩
    · rw [hdb']
      exact hc.entries
    · rw [hdb']
      exact hc.active

/-- A cell inside a cell, with an instance of its own that was given a position.  The outer
cell goes with both. -/
theorem destroyScope_closes_subtree_sample :
    let top := Session.firstPage 1 .cell 0 0
    let outer := Session.firstPage 1 .cell 0 1
    let inner := Session.firstPage 2 .cell 0 0
    let inst := Session.firstPage 3 .inst 0 0
    let cmds : List Command := [.initTopCell "top", .createHierCell top "outer",
      .createHierCell outer "inner", .create .inst .inst inner, .indexObject inst]
    let db := Database.run cmds (Database.empty {})
    let db' := after (Database.destroyScope outer : Edit Bool) db
    (∀ l, .restoreHierarchy l ∉ cmds) ∧ db.Drains [outer] [outer, inner] ∧
      (Database.destroyScope outer : Edit Bool) db = .ok true db' ∧
      db.hierarchy.entries = [(⟨1⟩, top), (⟨2⟩, outer), (⟨3⟩, inner), (⟨4⟩, inst)] ∧
      db'.hierarchy.entries = [(⟨1⟩, top)] := by
  intro top outer inner inst cmds db db'
  have hcmds : ∀ l, .restoreHierarchy l ∉ cmds := by simp [cmds]
  obtain ⟨hdrains, hanswer, _, hclosed⟩ := destroyScope_closes_subtree (c := {}) rfl hcmds outer
  have hsubtree : db.subtree outer = [outer, inner] := by decide +kernel
  have hopen : (db.scope? outer).isSome = true := by decide +kernel
  obtain ⟨s, hs⟩ := Option.isSome_iff_exists.1 hopen
  obtain ⟨_, _, _, _, _, _, hentries, _⟩ := hclosed s hs
  refine ⟨hcmds, hsubtree ▸ hdrains, ?_, by decide +kernel, hentries.trans (by decide +kernel)⟩
  rw [hanswer]
  exact congrArg (EStateM.Result.ok · db') hopen

end DesignStore
