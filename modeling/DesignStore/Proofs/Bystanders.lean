/-
Records and scopes that an operation is not about.

An operation that writes to no record and names nothing leaves every record that was there with
what it holds, or without its status; it leaves the scopes with their symbols, or closes them
together with their owners and pools; and what it makes is new (`Spares`).  Most of what can be
asked of a database is of this sort.
-/
import DesignStore.Proofs.OwnerReference

namespace DesignStore

/-- The array that a cell notes for its child cells. -/
def RecordKind.cells? : (k : RecordKind) → k.Body → Option ObjectId
  | .cell, c => (c : Cell).cells
  | _, _ => none

namespace Entry

/-- What a record holds beside its header. -/
def content (e : Entry) : (k : RecordKind) × k.Body :=
  ⟨e.kind, e.record.body⟩

def cells? (e : Entry) : Option ObjectId :=
  e.kind.cells? e.record.body

theorem cells?_of_content {e e' : Entry} (h : e'.content = e.content) : e'.cells? = e.cells? :=
  congrArg (fun c : (k : RecordKind) × k.Body => c.1.cells? c.2) h

theorem cells?_fresh (k : RecordKind) (t : ObjectType) (id : ObjectId) (i : ObjectIndex) :
    (fresh k t id i).cells? = none := by
  cases k <;> rfl

end Entry

/-- By which owner and tag a scope is known, and the symbols in it. -/
def StorageScope.face (s : StorageScope) : ObjectId × ScopeTag × SymbolTable :=
  (s.owner, s.tag, s.symbols)

namespace Registry

variable {r r' : Registry} {id : ObjectId}

theorem Sound.spent_of_stored? (h : r.Sound) {e : Entry} (he : r.stored? id = some e) :
    r.Spent id :=
  h.spent_of_live (isSome_stored?_iff.1 (Option.isSome_of_eq_some he))

/-- A pool that is gone does not come back, so neither do its handles. -/
theorem Spent.lookup?_eq_none (hs : r.Spent id) (he : Evolves r r') (hn : r.lookup? id = none) :
    r'.lookup? id = none := by
  obtain ⟨k, hk, hle, _⟩ := hs
  rw [lookup?_of_unpack? hk] at hn ⊢
  exact he.gone k.scope hle hn

theorem not_live_of_lookup?_none (hn : r.lookup? id = none) : ¬ r.Live id := by
  rintro ⟨o, ho, _⟩
  rw [record?_eq_none hn] at ho
  contradiction

end Registry

namespace Database

open Registry

variable {ε α : Type} {D : ObjectId → Prop} {db db' db'' : Database} {id o : ObjectId}
  {s : StorageScope} {e : Entry}

/-- What was there is there with what it held, or is gone.  A record that owns no scope goes only
with its pool, or if it is one of `D`. -/
structure Spares (D : ObjectId → Prop) (db db' : Database) : Prop where
  evolves : Evolves db.registry db'.registry
  content : ∀ id, db.registry.Spent id → db'.registry.Live id →
    (db'.registry.stored? id).map Entry.content = (db.registry.stored? id).map Entry.content
  /-- No new cell has child cells. -/
  fresh : ∀ id e, ¬ db.registry.Spent id → db'.registry.stored? id = some e → e.cells? = none
  stays : ∀ id, ¬ D id → db.registry.Live id → db.registry.isScopeOwner id = false →
    db'.registry.Live id ∨ db'.registry.lookup? id = none
  owner : ∀ id, db.registry.Spent id → db.registry.isScopeOwner id = false →
    db'.registry.isScopeOwner id = false
  symbols : ∀ s ∈ db'.scopes, db.registry.Spent s.owner →
    ∃ t ∈ db.scopes, t.owner = s.owner ∧ t.symbols = s.symbols
  /-- No new scope has symbols. -/
  blank : ∀ s ∈ db'.scopes, ¬ db.registry.Spent s.owner → s.symbols = {}
  closed : ∀ s ∈ db.scopes, (∃ t ∈ db'.scopes, t.owner = s.owner ∧ t.tag = s.tag) ∨
    ¬ db'.registry.Live s.owner ∧ db'.registry.pool? s.tag = none

def SparesFrom (D : ObjectId → Prop) (db db' : Database) : Prop :=
  db.Anchored → db'.Anchored ∧ Spares D db db'

namespace Spares

/-- A record that was there before holds what it held. -/
theorem exists_of_spent (h : Spares D db db') (hs : db.registry.Sound) (hid : db.registry.Spent id)
    (he : db'.registry.stored? id = some e) :
    ∃ e', db.registry.stored? id = some e' ∧ e'.content = e.content := by
  have hl := isSome_stored?_iff.1 (Option.isSome_of_eq_some he)
  have hl' := (Evolves.refl hs).live_between h.evolves hid hl
  obtain ⟨e', he'⟩ := Option.isSome_iff_exists.1 (isSome_stored?_iff.2 hl')
  have hc := h.content id hid hl
  rw [he, he', Option.map_some, Option.map_some, Option.some.injEq] at hc
  exact ⟨e', he', hc.symm⟩

theorem refl (ha : db.Anchored) : Spares D db db where
  evolves := Evolves.refl ha.sound
  content := fun _ _ _ => rfl
  fresh := fun _ _ hn he => absurd (ha.sound.spent_of_stored? he) hn
  stays := fun _ _ hl _ => Or.inl hl
  owner := fun _ _ hn => hn
  symbols := fun s hs _ => ⟨s, hs, rfl, rfl⟩
  blank := fun s hs hn => absurd (ha.spent s hs) hn
  closed := fun s hs => Or.inl ⟨s, hs, rfl, rfl⟩

theorem trans (ha : db.Anchored) (h : Spares D db db') (h' : Spares D db' db'') :
    Spares D db db'' where
  evolves := h.evolves.trans ha.sound h'.evolves
  content := by
    intro id hs hl
    have hl' := h.evolves.live_between h'.evolves hs hl
    rw [h'.content id (hs.mono h.evolves) hl, h.content id hs hl']
  fresh := by
    intro id e hn he
    by_cases hs : db'.registry.Spent id
    · obtain ⟨e', he', hc⟩ := h'.exists_of_spent h.evolves.sound hs he
      rw [← Entry.cells?_of_content hc]
      exact h.fresh id e' hn he'
    · exact h'.fresh id e hs he
  stays := by
    intro id hd hl hn
    have hs := ha.sound.spent_of_live hl
    rcases h.stays id hd hl hn with hl' | hgone
    · exact h'.stays id hd hl' (h.owner id hs hn)
    · exact Or.inr ((hs.mono h.evolves).lookup?_eq_none h'.evolves hgone)
  owner := fun id hs hn => h'.owner id (hs.mono h.evolves) (h.owner id hs hn)
  symbols := by
    intro s hs hspent
    obtain ⟨t, ht, hto, hts⟩ := h'.symbols s hs (hspent.mono h.evolves)
    obtain ⟨u, hu, huo, hus⟩ := h.symbols t ht (hto ▸ hspent)
    exact ⟨u, hu, huo.trans hto, hus.trans hts⟩
  blank := by
    intro s hs hn
    by_cases hspent : db'.registry.Spent s.owner
    · obtain ⟨t, ht, hto, hts⟩ := h'.symbols s hs hspent
      rw [← hts]
      exact h.blank t ht (hto ▸ hn)
    · exact h'.blank s hs hspent
  closed := by
    intro s hs
    rcases h.closed s hs with ⟨t, ht, hto, htt⟩ | ⟨hl, hp⟩
    · rcases h'.closed t ht with ⟨u, hu, huo, hut⟩ | ⟨hl, hp⟩
      · exact Or.inl ⟨u, hu, huo.trans hto, hut.trans htt⟩
      · exact Or.inr ⟨hto ▸ hl, htt ▸ hp⟩
    · obtain ⟨p, hp₀⟩ := Option.isSome_iff_exists.1 (ha.pool s hs)
      have hle := Nat.le_trans (ha.sound.of_pool? hp₀).2.2.2 h.evolves.issued_le
      have hstale := ((ha.spent s hs).mono h.evolves).stale_of_not_live hl
      exact Or.inr ⟨(hstale.mono h'.evolves).not_live, h'.evolves.gone s.tag hle hp⟩

end Spares

instance : IsPreorder Database (SparesFrom D) where
  refl _ ha := ⟨ha, Spares.refl ha⟩
  trans _ _ _ h h' ha := by
    obtain ⟨ha', hs⟩ := h ha
    obtain ⟨ha'', hs'⟩ := h' ha'
    exact ⟨ha'', hs.trans ha hs'⟩

/-- What operations that write no header keep. -/
theorem anchored_of_follows {x : EStateM ε Database α} (hx : Keeps (Follows fun _ => False) x)
    (ha : db.Anchored) : (after x db).Anchored :=
  (hx db ha).1

/-! ## Changes that leave records as they are -/

theorem exists_of_faces {l l' : List StorageScope}
    (hl : l'.map StorageScope.face = l.map StorageScope.face) (hs : s ∈ l') :
    ∃ t ∈ l, t.owner = s.owner ∧ t.tag = s.tag ∧ t.symbols = s.symbols := by
  have hf := List.mem_map_of_mem (f := StorageScope.face) hs
  rw [hl] at hf
  obtain ⟨t, ht, hts⟩ := List.mem_map.1 hf
  simp only [StorageScope.face, Prod.mk.injEq] at hts
  exact ⟨t, ht, hts⟩

namespace Spares

/-- The scopes stay open, and records change. -/
theorem of_faces (ha : db.Anchored) (he : Evolves db.registry db'.registry)
    (hcontent : ∀ id, db.registry.Spent id → db'.registry.Live id →
      (db'.registry.stored? id).map Entry.content = (db.registry.stored? id).map Entry.content)
    (hfresh : ∀ id e, ¬ db.registry.Spent id → db'.registry.stored? id = some e → e.cells? = none)
    (hlive : ∀ id, ¬ D id → db.registry.Live id → db'.registry.Live id)
    (howners : db'.registry.owners = db.registry.owners)
    (hscopes : db'.scopes.map StorageScope.face = db.scopes.map StorageScope.face) :
    Spares D db db' where
  evolves := he
  content := hcontent
  fresh := hfresh
  stays := fun id hd hl _ => Or.inl (hlive id hd hl)
  owner := fun id _ hn => by rwa [isScopeOwner, howners, ← isScopeOwner]
  symbols := fun s hs _ =>
    let ⟨t, ht, hto, _, hts⟩ := exists_of_faces hscopes hs
    ⟨t, ht, hto, hts⟩
  blank := fun s hs hn =>
    let ⟨t, ht, hto, _⟩ := exists_of_faces hscopes hs
    absurd (hto ▸ ha.spent t ht) hn
  closed := fun s hs =>
    let ⟨t, ht, hto, htt, _⟩ := exists_of_faces hscopes.symm hs
    Or.inl ⟨t, ht, hto, htt⟩

/-- No record is new. -/
theorem fresh_of_stored? (ha : db.Anchored)
    (h : ∀ id, db'.registry.stored? id = none ∨
      db'.registry.stored? id = db.registry.stored? id) (id : ObjectId) (e : Entry)
    (hn : ¬ db.registry.Spent id) (he : db'.registry.stored? id = some e) : e.cells? = none := by
  rcases h id with hnone | hsame
  · rw [hnone] at he
    contradiction
  · rw [hsame] at he
    exact absurd (ha.sound.spent_of_stored? he) hn

/-- No record changes, and of the tables of scopes no symbol table. -/
theorem of_registry (ha : db.Anchored) (hr : db'.registry = db.registry)
    (hscopes : db'.scopes.map StorageScope.face = db.scopes.map StorageScope.face) :
    Spares D db db' := by
  have h := Spares.refl (D := D) ha
  refine of_faces ha ?_ ?_ ?_ ?_ ?_ hscopes <;> rw [hr]
  · exact h.evolves
  · exact h.content
  · exact h.fresh
  · exact fun _ _ hl => hl

/-- A record is placed. -/
theorem of_stores (ha : db.Anchored) {new : List ScopeTag} {r : Registry}
    (hn : ¬ db.registry.Spent id) (hs : Stores id (some e) new db.registry r)
    (he : e.cells? = none) : Spares D db { db with registry := r } := by
  refine of_faces ha hs.evolves (fun j hj _ => ?_) (fun j e' hj he' => ?_)
    (fun j _ hl => hs.live (fun _ => rfl) hl) hs.owners rfl
  · have hne : j ≠ id := by
      rintro rfl
      exact hn hj
    exact congrArg (Option.map Entry.content) (hs.other hne)
  · by_cases hid : j = id
    · rw [hid, show ({ db with registry := r } : Database).registry.stored? id = _ from hs.self,
        Option.some.injEq] at he'
      rwa [← he']
    · rw [show ({ db with registry := r } : Database).registry.stored? j = _ from hs.other hid]
        at he'
      exact absurd (ha.sound.spent_of_stored? he') hj

end Spares

/-! ## New records -/

/-- A record that notes an array of child cells noted it before. -/
def Inherits (db db' : Database) : Prop :=
  db.registry.Sound → db'.registry.Sound ∧ ∀ id e, db'.registry.stored? id = some e →
    e.cells? = none ∨ ∃ e', db.registry.stored? id = some e' ∧ e'.cells? = e.cells?

instance : IsPreorder Database Inherits where
  refl _ h := ⟨h, fun _ e he => Or.inr ⟨e, he, rfl⟩⟩
  trans _ _ _ h h' hs := by
    obtain ⟨hs', hi⟩ := h hs
    obtain ⟨hs'', hi'⟩ := h' hs'
    refine ⟨hs'', fun id e he => ?_⟩
    rcases hi' id e he with hn | ⟨e', he', hc⟩
    · exact Or.inl hn
    · rw [← hc]
      exact hi id e' he'

theorem inherits_of_stored? (hs : db'.registry.Sound)
    (h : ∀ id, db'.registry.stored? id = none ∨
      db'.registry.stored? id = db.registry.stored? id) : Inherits db db' := by
  refine fun _ => ⟨hs, fun id e he => Or.inr ⟨e, ?_, rfl⟩⟩
  rcases h id with hn | hsame
  · rw [hn] at he
    contradiction
  · rwa [← hsame]

theorem inherits_of_registry (h : db'.registry = db.registry) : Inherits db db' := by
  intro hs
  rw [← h] at hs
  exact inherits_of_stored? hs (fun _ => Or.inr (by rw [h])) (h ▸ hs)

theorem inherits_of_stores {new : List ScopeTag} {r : Registry} {x : Option Entry}
    (hs : Stores id x new db.registry r) (hx : ∀ e, x = some e → e.cells? = none) :
    Inherits db { db with registry := r } := by
  refine fun _ => ⟨hs.evolves.sound, fun j e he => ?_⟩
  by_cases hid : j = id
  · exact Or.inl (hx e (hs.self.symm.trans (hid ▸ he)))
  · exact Or.inr ⟨e, (hs.other hid).symm.trans he, rfl⟩

/-- A write that leaves the array of child cells. -/
theorem inherits_update (k : RecordKind) (id : ObjectId) (f : Record k.Body → Record k.Body)
    (hvalid : ∀ x, (f x).isValid = x.isValid) (hcells : ∀ x, k.cells? (f x).body = k.cells? x.body) :
    Keeps Inherits (update k id f : EStateM (Failure ε) Database _) := by
  intro db h
  obtain ⟨r, hr, ht⟩ := after_update (ε := ε) h k id f
  rw [hr]
  have hs := ht.stores fun _ _ hv => Occupant.isValid_write hvalid hv
  refine ⟨ht.sound, fun j e he => ?_⟩
  by_cases hid : j = id
  · obtain ⟨e', he', rfl⟩ := Option.map_eq_some_iff.1 (hs.self.symm.trans (hid ▸ he))
    exact Or.inr ⟨e', hid ▸ he', (Entry.change_write Entry.cells? hcells e').symm⟩
  · exact Or.inr ⟨e, (hs.other hid).symm.trans he, rfl⟩

theorem inherits_updateBody (k : RecordKind) (id : ObjectId) (f : k.Body → k.Body)
    (hf : ∀ b, k.cells? (f b) = k.cells? b) :
    Keeps Inherits (updateBody k id f : EStateM (Failure ε) Database _) :=
  inherits_update k id (fun x => { x with body := f x.body }) (fun _ => rfl) fun x => hf x.body

theorem inherits_updateCell (id : ObjectId) (f : Cell → Cell) (hf : ∀ c, (f c).cells = c.cells) :
    Keeps Inherits (updateCell id f) :=
  (inherits_updateBody .cell id f hf).bind fun _ => (Session.keeps_found id _).discard

theorem inherits_onScopeWhere (p : StorageScope → Bool) (x : EStateM ε StorageScope α) :
    Keeps Inherits (onScopeWhere p x) := by
  intro db
  rw [after_onScopeWhere]
  exact inherits_of_registry rfl

theorem inherits_onHomeScope (id : ObjectId) (x : EStateM ε StorageScope α) :
    Keeps Inherits (onHomeScope id x) := by
  intro db
  rcases after_onHomeScope id x db with h | ⟨tag, _, h⟩ <;> rw [h]
  · exact refl_of Inherits db
  · exact inherits_onScopeWhere _ x db

theorem inherits_onHierarchy (x : EStateM ε Hierarchy α) : Keeps Inherits (onHierarchy x) := by
  intro db
  rw [after_onHierarchy]
  exact inherits_of_registry rfl

theorem inherits_free (id : ObjectId) :
    Keeps Inherits (onRegistry (onIssuer id (Pool.free id)) : EStateM ε Database _) := by
  intro db h
  have ht := touches_free (ε := ε) h id
  rw [after_onRegistry]
  refine inherits_of_stored? ht.sound (fun j => ?_) h
  rw [ht.stored?_of_clear, onEntry]
  split
  · exact Or.inl rfl
  · exact Or.inr rfl

theorem inherits_closeScope (db : Database) (o : ObjectId) : Inherits db (db.closeScope o) := by
  intro h
  unfold closeScope
  cases db.scope? o with
  | none => exact refl_of Inherits db h
  | some s =>
    rcases removePool_spec h s.tag with ⟨_, hr⟩ | ⟨n, r, hr, hd⟩
    · simp only [hr]
      exact inherits_of_registry rfl h
    · simp only [hr]
      have hdrop : Inherits db { db with registry := r } := by
        refine inherits_of_stored? hd.sound fun id => ?_
        simp only [stored?, hd.record?]
        split
        · exact Or.inl rfl
        · exact Or.inr rfl
      exact hdrop h

theorem inherits_destroyScope (o : ObjectId) :
    Keeps Inherits (destroyScope o : EStateM ε Database Bool) :=
  keeps_destroyScope inherits_closeScope (fun p _ => inherits_onScopeWhere p _) o <|
    (inherits_onHomeScope _ _).discard.bind fun _ => (inherits_free o).discard.bind fun _ =>
      Keeps.pure true

theorem inherits_destroy (id : ObjectId) :
    Keeps Inherits (destroy id : EStateM ε Database Bool) := by
  refine Keeps.get_bind fun db => ?_
  split
  · exact inherits_destroyScope id db
  · exact ((inherits_onHomeScope id _).discard.bind fun _ =>
      (inherits_onHierarchy _).discard.bind fun _ => (inherits_free id).bind fun _ =>
      Keeps.pure _) db

theorem inherits_register (o : ObjectId) (tag : ScopeTag) (parent : Option ObjectId) :
    Keeps Inherits (register o tag parent) := by
  have hbind : Keeps Inherits (onRegistry (bindOwner o tag) : Edit Bool) := by
    intro db h
    obtain ⟨b, r, hr, he, hrecord⟩ := bindOwner_spec (ε := Failure DbError) h o tag
    rw [after_onRegistry, after_ok hr]
    exact inherits_of_stored? he.sound (fun id => Or.inr (by simp only [stored?, hrecord])) h
  have hopen (index : ObjectIndex) : Keeps Inherits
      (modify fun db => { db with scopes := { owner := o, tag, index, parent } :: db.scopes } :
        Edit _) :=
    Keeps.modify fun _ => inherits_of_registry rfl
  exact (inherits_onHierarchy _).bind fun index => hbind.discard.bind fun _ =>
    (hopen index).bind fun _ => Keeps.pure index

theorem inherits_create (k : RecordKind) (t : ObjectType) (owner : ObjectId) :
    Keeps Inherits (create k t owner) := by
  intro db h
  rcases create_cases h k t owner with ⟨e, he⟩ | ⟨_, _, key, _, r, _, _, _, _, hp, ht, hr⟩
  · rw [after_error he]
    exact refl_of Inherits db h
  · rw [after_ok hr]
    refine inherits_of_stores (hp.stores_fresh h ht) (fun e he => ?_) h
    cases he
    exact Entry.cells?_fresh k key.type key.pack _

theorem cells?_setHierIndex (a : ActiveScope) (i : ObjectIndex) (b : a.kind.Body) :
    a.kind.cells? (a.kind.setHierIndex i b) = a.kind.cells? b := by
  cases a <;> rfl

theorem inherits_openScope (a : ActiveScope) : Keeps Inherits (openScope a) := by
  have hfound : Keeps Inherits
      (Edit.placing a.type (onRegistry (createPoolWith (Pool.allocate a.kind a.type)))) := by
    intro db h
    rcases found_cases h a with ⟨key, r, _, ho, hp, hr⟩ | hr
    · rw [after_ok hr]
      refine inherits_of_stores ((ho.stores h key.pack).trans h hp.stores) (fun e he => ?_) h
      cases he
      cases a <;> rfl
    · rw [after_error hr]
      exact refl_of Inherits db h
  refine hfound.bind fun p => ?_
  obtain ⟨tag, id⟩ := p
  have hnote (index : ObjectIndex) : Keeps Inherits (update a.kind id fun r =>
      { header := r.header.setOwner index, body := a.kind.setHierIndex index r.body } : Edit _) :=
    inherits_update a.kind id _ (fun _ => rfl) fun r => cells?_setHierIndex a index r.body
  exact (inherits_register id tag none).bind fun index => (hnote index).discard.bind fun _ =>
    Keeps.pure id

theorem inherits_openNested (parent : ObjectId) : Keeps Inherits (openNested parent) := by
  have hpool (id : ObjectId) : Keeps Inherits
      (tryCatch (Edit.placing .cell (onRegistry createPool)) fun e => do
        discard <| destroy id
        throw e : Edit ScopeTag) := by
    refine Keeps.tryCatch (fun db h => ?_) fun e =>
      (inherits_destroy id).discard.bind fun _ => Keeps.throw e
    rcases createPool_cases h .cell with ⟨scope, ho, hr⟩ | ⟨e, hr⟩
    · rw [after_ok hr]
      have hopen : Inherits db { db with registry := db.registry.opened scope } :=
        inherits_of_stored? ho.sound fun id => Or.inr (congrFun (ho.stored? h) id)
      exact hopen h
    · rw [after_error hr]
      exact refl_of Inherits db h
  have hrole (id : ObjectId) : Keeps Inherits
      (updateBody .cell id fun c => { (c : Cell) with role := .hier } : Edit _) :=
    inherits_updateBody .cell id _ fun _ => rfl
  refine (Session.keeps_read _).bind fun around => ?_
  cases around with
  | none => exact Keeps.throw _
  | some around =>
    exact (inherits_create .cell .cell parent).bind fun id =>
      (hrole id).discard.bind fun _ => (hpool id).bind fun tag =>
      (inherits_register id tag _).bind fun index => (inherits_onScopeWhere _ _).discard.bind fun _ =>
      (inherits_updateCell id (fun c => { c with hierIndex := index }) fun _ => rfl).bind fun _ =>
      Keeps.pure id

/-! ## Operations that spare what they are not about -/

theorem sparesFrom_create (k : RecordKind) (t : ObjectType) (owner : ObjectId) :
    Keeps (SparesFrom D) (create k t owner) := by
  intro db ha
  refine ⟨anchored_of_follows (follows_create k t owner) ha, ?_⟩
  rcases create_cases ha.sound k t owner with ⟨e, he⟩ | ⟨_, _, key, _, r, _, _, _, _, hp, ht, hr⟩
  · rw [after_error he]
    exact Spares.refl ha
  · rw [after_ok hr]
    exact Spares.of_stores ha hp.not_spent (hp.stores_fresh ha.sound ht)
      (Entry.cells?_fresh k key.type key.pack _)

/-- The owner is in the header of a record. -/
theorem sparesFrom_setOwner (id owner : ObjectId) : Keeps (SparesFrom D) (setOwner id owner) := by
  intro db ha
  refine ⟨anchored_of_follows (follows_setOwner (fun h => h) owner) ha, ?_⟩
  rcases after_setOwner ha.sound id owner with hr | ⟨index, r, _, hr, ht⟩ <;> rw [hr]
  · exact Spares.refl ha
  · have hs := ht.stores fun _ _ hv => hv
    have hcontent (j : ObjectId) : (r.stored? j).map Entry.content =
        (db.registry.stored? j).map Entry.content := by
      by_cases hj : j = id
      · rw [hj, hs.self, Option.map_map]
        rfl
      · rw [hs.other hj]
    have hlive (j : ObjectId) : r.Live j ↔ db.registry.Live j := by
      rw [← isSome_stored?_iff, ← isSome_stored?_iff, ← Option.isSome_map (f := Entry.content),
        hcontent, Option.isSome_map]
    refine Spares.of_faces ha ht.evolves (fun j _ _ => hcontent j) (fun j e hn he => ?_)
      (fun j _ hl => (hlive j).2 hl) ht.owners rfl
    have hl := (hlive j).1 (isSome_stored?_iff.1 (Option.isSome_of_eq_some he))
    exact absurd (ha.sound.spent_of_live hl) hn

theorem sparesFrom_indexObject (id : ObjectId) : Keeps (SparesFrom D) (indexObject id) := by
  intro db ha
  refine ⟨anchored_of_follows (follows_indexObject id) ha, ?_⟩
  rcases after_indexObject ha.toTidy id with hr | ⟨_, _, _, _, _, hr⟩ <;> rw [hr]
  · exact Spares.refl ha
  · exact Spares.of_registry ha rfl rfl

theorem sparesFrom_setActive (a : ActiveScope) (id : Option ObjectId) :
    Keeps (SparesFrom D) (modify fun db => { db with hierarchy := db.hierarchy.setActive a id } :
      EStateM ε Database Unit) :=
  Keeps.modify fun _ ha => ⟨ha.setActive a id, Spares.of_registry ha rfl rfl⟩

/-- Tables other than those of symbols. -/
theorem sparesFrom_onScopeWhere (p : StorageScope → Bool) {x : EStateM ε StorageScope α}
    (ht : OnTables x) (hx : ∀ s, (after x s).face = s.face) :
    Keeps (SparesFrom D) (onScopeWhere p x) := by
  intro db ha
  refine ⟨ha.of_places (alike_onScopeWhere p ht db ha.sound), ?_⟩
  rw [after_onScopeWhere]
  exact Spares.of_registry ha rfl (map_after_onFirst fun s _ => hx s)

theorem sparesFrom_onPolygons (id : ObjectId) (x : EStateM (Failure ε) PolygonTable α) :
    Keeps (SparesFrom D) (onStorageScope id (StorageScope.onPolygons x)) := by
  intro db
  rcases after_onStorageScope id (StorageScope.onPolygons x) db with hr | ⟨_, _, hr⟩ <;> rw [hr]
  · exact refl_of (SparesFrom D) db
  · refine sparesFrom_onScopeWhere _ (onTables_onPolygons x) (fun s => ?_) db
    simp only [after, StorageScope.onPolygons]
    cases x s.polygons <;> rfl

theorem sparesFrom_onProperties (id : ObjectId) (x : EStateM ε PropertyTable α) :
    Keeps (SparesFrom D) (onHomeScope id (StorageScope.onProperties x)) := by
  intro db
  rcases after_onHomeScope id (StorageScope.onProperties x) db with hr | ⟨_, _, hr⟩ <;> rw [hr]
  · exact refl_of (SparesFrom D) db
  · refine sparesFrom_onScopeWhere _ (onTables_onProperties x) (fun s => ?_) db
    simp only [after, StorageScope.onProperties]
    cases x s.properties <;> rfl

theorem map_face_of_bare {l l' : List StorageScope} (h : l'.map (·.bare) = l.map (·.bare)) :
    l'.map StorageScope.face = l.map StorageScope.face := by
  have hf : StorageScope.face ∘ StorageScope.bare = StorageScope.face := rfl
  rw [← hf, ← List.map_map, h, List.map_map]

theorem Spares.of_discards (ha : db.Anchored) (hd : Discards id db db') (hD : D id) :
    Spares D db db' := by
  refine Spares.of_faces ha hd.stores.evolves (fun j _ hl => ?_) (fresh_of_stored? ha fun j => ?_)
    (fun j hj hl => ?_) hd.stores.owners (map_face_of_bare hd.scopes)
  · rw [hd.stores.other (hd.stores.ne_of_live hl)]
  · by_cases hj : j = id
    · exact Or.inl (hj ▸ hd.stores.self)
    · exact Or.inr (hd.stores.other hj)
  · have hne : j ≠ id := by
      rintro rfl
      exact hj hD
    rw [← isSome_stored?_iff] at hl ⊢
    rwa [hd.stores.other hne]

theorem Spares.destroyScope (ha : db.Anchored) (o : ObjectId) :
    Spares D db (after (destroyScope o : EStateM ε Database Bool) db) := by
  have ha' := ha.destroyScope (ε := ε) o
  have he := (calm_destroyScope (ε := ε) o db ha.sound).1
  cases ho : db.scope? o with
  | none =>
    rw [after_ok (destroyScope_of_none ho)]
    exact Spares.refl ha
  | some s =>
    have htags := tags_after_destroyScope (ε := ε) ha.toTidy ho
    have hscopes := scopes_after_destroyScope (ε := ε) ha.toTidy ho
    have hstays := stays_keepsOf o s
    have hpool (g : StorageScope) (hg : g ∈ db.doomed o) :
        (after (Database.destroyScope o : EStateM ε Database Bool) db).registry.pool? g.tag =
          none := by
      rw [← Option.not_isSome_iff_eq_none, isSome_pool?_iff, htags, List.mem_filter]
      rintro ⟨_, hany⟩
      rw [Bool.not_eq_true', Bool.eq_false_iff] at hany
      exact hany (List.any_eq_true.2 ⟨g, hg, by simp⟩)
    refine
      { evolves := he
        content := fun j _ hl => by rw [stored?_after_destroyScope ha.toTidy ho hl]
        fresh := fun j e hn hj => ?_
        stays := fun j _ hl hn => ?_
        owner := fun j _ hn => ?_
        symbols := fun t ht _ => ?_
        blank := fun t ht hn => ?_
        closed := fun t ht => ?_ }
    · have hl := isSome_stored?_iff.1 (Option.isSome_of_eq_some hj)
      rw [stored?_after_destroyScope ha.toTidy ho hl] at hj
      exact absurd (ha.sound.spent_of_stored? hj) hn
    · cases hany : (db.doomed o).any (·.takes j) with
      | false => exact Or.inl (live_after_destroyScope ha.toTidy ho hl hany)
      | true =>
        obtain ⟨g, hg, htakes⟩ := List.any_eq_true.1 hany
        rcases of_decide_eq_true htakes with rfl | hof
        · exact absurd rfl
            (ha.owner_ne_of_not_owner hn g ((mem_doomed ha.forest).1 hg).1)
        · refine Or.inr ?_
          rw [Registry.lookup?, hof]
          exact hpool g hg
    · rw [Bool.eq_false_iff]
      intro hj
      obtain ⟨t, ht, rfl⟩ := ha'.exists_scope hj
      rw [hscopes] at ht
      obtain ⟨t', ht', rfl⟩ := List.mem_map.1 ht
      exact ha.owner_ne_of_not_owner hn t' (List.mem_filter.1 ht').1 (hstays.owner t').symm
    · rw [hscopes] at ht
      obtain ⟨t', ht', rfl⟩ := List.mem_map.1 ht
      refine ⟨t', (List.mem_filter.1 ht').1, (hstays.owner t').symm, ?_⟩
      unfold keepsOf
      split <;> rfl
    · rw [hscopes] at ht
      obtain ⟨t', ht', rfl⟩ := List.mem_map.1 ht
      rw [hstays.owner] at hn
      exact absurd (ha.spent t' (List.mem_filter.1 ht').1) hn
    · by_cases hd : t ∈ db.doomed o
      · refine Or.inr ⟨?_, hpool t hd⟩
        rw [← isLive_iff ha'.sound, isLive_after_destroyScope ha.toTidy ho]
        rintro ⟨_, hne, hspared⟩
        rcases owner_of_mem_doomed ha.forest hd with howner | ⟨g, hg, hof⟩
        · exact hne howner
        · exact hspared g hg hof
      · refine Or.inl ⟨keepsOf o s t, ?_, hstays.owner t, hstays.tag t⟩
        rw [hscopes]
        exact List.mem_map_of_mem (List.mem_filter.2 ⟨ht, by simpa using hd⟩)

theorem sparesFrom_destroyScope (o : ObjectId) :
    Keeps (SparesFrom D) (destroyScope o : EStateM ε Database Bool) :=
  fun _ ha => ⟨ha.destroyScope o, Spares.destroyScope ha o⟩

theorem sparesFrom_destroy (hD : D id) :
    Keeps (SparesFrom D) (destroy id : EStateM ε Database Bool) := by
  intro db ha
  refine ⟨anchored_of_follows (follows_destroy id) ha, ?_⟩
  rcases after_destroy (ε := ε) ha.sound ha.paired id with hr | ⟨_, hd⟩
  · rw [hr]
    exact Spares.destroyScope ha id
  · exact Spares.of_discards ha hd hD

theorem sparesFrom_reset (db : Database) : SparesFrom D db db.reset := by
  refine fun ha => ⟨ha.reset, ?_⟩
  have hn (id : ObjectId) : db.reset.registry.stored? id = none := stored?_clear db.registry id
  have hlive (id : ObjectId) : ¬ db.reset.registry.Live id := stored?_eq_none_iff.1 (hn id)
  have hpool (t : ScopeTag) : db.reset.registry.pool? t = none := rfl
  exact
    { evolves := clear_evolves ha.sound
      content := fun id _ hl => absurd hl (hlive id)
      fresh := Spares.fresh_of_stored? ha fun id => Or.inl (hn id)
      stays := fun id _ _ _ => Or.inr (by
        cases ht : ScopeTag.of? id with
        | none => simp [Registry.lookup?, ht]
        | some t => simp [Registry.lookup?, ht, hpool])
      owner := fun _ _ _ => rfl
      symbols := by simp [Database.reset]
      blank := by simp [Database.reset]
      closed := fun s _ => Or.inr ⟨hlive s.owner, hpool s.tag⟩ }

theorem Opening.spares {x : Edit ObjectId} {P : StorageScope → Entry → Prop} (ha : db.Anchored)
    (ho : Opening x P db) (hi : Inherits db (after x db)) : Spares D db (after x db) := by
  have hnew (j : ObjectId) (e : Entry) (hn : ¬ db.registry.Spent j)
      (he : (after x db).registry.stored? j = some e) : e.cells? = none := by
    rcases (hi ha.sound).2 j e he with hc | ⟨e', he', _⟩
    · exact hc
    · exact absurd (ha.sound.spent_of_stored? he') hn
  cases ho with
  | refused result =>
    rw [after_error result]
    exact Spares.refl ha
  | undone result same stored scopes =>
    rw [after_error result] at hnew ⊢
    exact Spares.of_faces ha same.evolves (fun j _ _ => by rw [stored]) hnew
      (fun _ _ hl => same.live hl) same.owners (map_face_of_bare scopes)
  | stranded result _ fresh stores =>
    rw [after_error result] at hnew ⊢
    exact Spares.of_stores ha fresh stores (hnew _ _ fresh stores.self)
  | @opened s e db' result opened =>
    rw [after_ok result] at hnew ⊢
    have hother {j : ObjectId} (hj : db.registry.Spent j) : j ≠ s.owner := by
      rintro rfl
      exact opened.fresh hj
    have hstored {j : ObjectId} (hj : db.registry.Spent j) :
        db'.registry.stored? j = db.registry.stored? j := by
      rw [opened.stored, onEntry, if_neg (hother hj)]
    exact
      { evolves := opened.evolves
        content := fun j hj _ => by rw [hstored hj]
        fresh := hnew
        stays := fun j _ hl _ => Or.inl (by
          rw [← isSome_stored?_iff, hstored (ha.sound.spent_of_live hl), isSome_stored?_iff]
          exact hl)
        owner := fun j hj hn => by
          rw [isScopeOwner, opened.owners, Assoc.contains, Assoc.get?_insert, if_neg (hother hj)]
          exact hn
        symbols := fun t ht hspent => by
          rcases opened.mem_scopes.1 ht with rfl | ⟨q, hq, rfl⟩
          · exact absurd hspent opened.fresh
          · refine ⟨q, hq, (Opened.listing_owner s q).symm, ?_⟩
            unfold StorageScope.listing
            split <;> rfl
        blank := fun t ht hn => by
          rcases opened.mem_scopes.1 ht with rfl | ⟨q, hq, rfl⟩
          · exact opened.symbols
          · rw [Opened.listing_owner] at hn
            exact absurd (ha.spent q hq) hn
        closed := fun t ht => Or.inl ⟨s.listing t, opened.listing_mem ht, Opened.listing_owner s t,
          (Opened.stays_listing s).tag t⟩ }

theorem sparesFrom_openScope (a : ActiveScope) : Keeps (SparesFrom D) (openScope a) := by
  intro db ha
  have ho := opening_openScope ha.toTidy a
  exact ⟨(ho.follows (X := fun _ => False) ha ha).1, ho.spares ha (inherits_openScope a db)⟩

theorem sparesFrom_openNested (parent : ObjectId) : Keeps (SparesFrom D) (openNested parent) := by
  intro db ha
  have ho := opening_openNested ha.toTidy parent
  exact ⟨(ho.follows (X := fun _ => False) ha ha).1, ho.spares ha (inherits_openNested parent db)⟩

end Database
end DesignStore
