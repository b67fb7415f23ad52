/-
The owner of a record never becomes another.

A record notes its owner by a position.  While the owner is live it stays at its position,
and when it is gone the position stays empty (`Carries`), whatever is created in the slots it
left.  So, until the record is given another owner, what it notes is its owner while that is
live, and nobody from then on (`ownerId?_never_aliases`).
-/
import DesignStore.Proofs.Owners

namespace DesignStore
namespace Database

open Registry

variable {ε : Type} {db db' db'' : Database} {x : ObjectId} {X : ObjectId → Prop}

/-- What is kept from one state to a later one: owners that are live are still at their
positions, positions came to no other owner, and the record of `x` notes the same position. -/
structure Carries (x : ObjectId) (db db' : Database) : Prop where
  grows : Hierarchy.Grows db.hierarchy db'.hierarchy
  kept : ∀ o i, db.hierarchy.indexOf? o = some i → db'.registry.Live o →
    db'.hierarchy.indexOf? o = some i
  owner : (db'.registry.stored? x).map (·.owner) = (db.registry.stored? x).map (·.owner)

/-- What all commands keep but those by which a record of `X` is given another owner. -/
def Follows (X : ObjectId → Prop) (db db' : Database) : Prop :=
  db.Anchored → db'.Anchored ∧ Evolves db.registry db'.registry ∧
    ∀ x, X x → db.registry.Live x → db'.registry.Live x → Carries x db db'

theorem Carries.trans (h : db.Anchored) (he : Evolves db.registry db'.registry)
    (he' : Evolves db'.registry db''.registry) (hc : Carries x db db') (hc' : Carries x db' db'') :
    Carries x db db'' where
  grows := hc.grows.trans hc'.grows
  kept := by
    intro o i hi hl
    have hspent := h.sound.spent_of_live (h.live o i hi)
    exact hc'.kept o i (hc.kept o i hi (he.live_between he' hspent hl)) hl
  owner := hc'.owner.trans hc.owner

instance : IsPreorder Database (Follows X) where
  refl _ h := ⟨h, Evolves.refl h.sound, fun _ _ _ _ =>
    ⟨Hierarchy.Grows.of_owners rfl, fun _ _ hi _ => hi, rfl⟩⟩
  trans _ _ _ h h' ha := by
    obtain ⟨ha', he, hc⟩ := h ha
    obtain ⟨ha'', he', hc'⟩ := h' ha'
    refine ⟨ha'', he.trans ha.sound he', fun x hx hl hl'' => ?_⟩
    have hl' := he.live_between he' (ha.sound.spent_of_live hl) hl''
    exact (hc x hx hl hl').trans ha he he' (hc' x hx hl' hl'')

/-! ## Changes of records -/

theorem Carries.of_frame (hf : SameFrame db db')
    (howner : (db'.registry.stored? x).map (·.owner) = (db.registry.stored? x).map (·.owner)) :
    Carries x db db' where
  grows := Hierarchy.Grows.of_owners (by rw [hf.hierarchy])
  kept := by
    intro o i hi _
    rwa [hf.hierarchy]
  owner := howner

theorem follows_of_alike (h : Alike db db') : Follows X db db' := by
  intro ha
  have hp := h ha.sound
  refine ⟨ha.of_places hp, hp.evolves, fun x _ _ _ => Carries.of_frame hp.toSameFrame ?_⟩
  have hm := congrArg (Option.map Prod.fst) (hp.marks x)
  rwa [Option.map_map, Option.map_map] at hm

/-- A new record is none of those there were. -/
theorem follows_of_stores (ha : db.Anchored) {id : ObjectId} {e : Entry} {new : List ScopeTag}
    {r : Registry} (hfresh : ¬ db.registry.Spent id)
    (hs : Stores id (some e) new db.registry r) (he : e.owner.toNat < db.hierarchy.size) :
    Follows X db { db with registry := r } := by
  refine fun _ => ⟨ha.of_stores hs (fun _ => rfl) (fun _ h => Option.some.inj h ▸ he), hs.evolves,
    fun x _ hl _ => Carries.of_frame (SameFrame.of_stores hs) ?_⟩
  exact congrArg (Option.map Entry.owner) (hs.other (ha.sound.ne_of_live hl hfresh))

theorem follows_create (k : RecordKind) (t : ObjectType) (owner : ObjectId) :
    Keeps (Follows X) (create k t owner) := by
  intro db ha
  rcases create_cases ha.sound k t owner with ⟨e, he⟩ | ⟨index, _, _, _, r, hi, _, _, _, hp, ht, hr⟩
  · rw [after_error he]
    exact refl_of (Follows X) db ha
  · rw [after_ok hr]
    exact follows_of_stores ha hp.not_spent (hp.stores_fresh ha.sound ht)
      (ha.ownerIndexFor?_lt hi) ha

theorem follows_setOwner {id : ObjectId} (hid : ¬ X id) (owner : ObjectId) :
    Keeps (Follows X) (setOwner id owner) := by
  intro db ha
  rcases after_setOwner ha.sound id owner with hr | ⟨index, r, hi, hr, ht⟩ <;> rw [hr]
  · exact refl_of (Follows X) db ha
  · have hs := ht.stores fun _ _ hv => hv
    refine ⟨ha.of_touches ht (fun _ _ hv => hv) fun _ _ => ha.ownerIndexFor?_lt hi, hs.evolves,
      fun x hx _ _ => Carries.of_frame (SameFrame.of_touches ht) ?_⟩
    have hne : x ≠ id := by
      rintro rfl
      exact hid hx
    exact congrArg (Option.map Entry.owner) (hs.other hne)

/-- A write that leaves the header leaves the position in it. -/
theorem follows_write {k : RecordKind} {f : Record k.Body → Record k.Body}
    (hf : ∀ r, (f r).header = r.header) (id : ObjectId) :
    Keeps (Follows X) (update k id f : EStateM (Failure ε) Database _) := by
  intro db ha
  obtain ⟨r, hr, ht⟩ := after_update (ε := ε) ha.sound k id f
  rw [hr]
  have howner (e : Entry) : (e.change (Change.write k f)).owner = e.owner :=
    Entry.change_write Entry.owner (fun y => congrArg Header.owner (hf y)) e
  have hvalid (o : Occupant) (_ : db.registry.record? id = some o) (hv : o.isValid = true) :
      (Change.write k f o.kind o.record).isValid = true :=
    Occupant.isValid_write (fun y => congrArg Header.isValid (hf y)) hv
  have hs := ht.stores hvalid
  refine ⟨ha.of_touches ht hvalid fun e he => (howner e).symm ▸ ha.owned id e he, hs.evolves,
    fun x _ _ _ => Carries.of_frame (SameFrame.of_touches ht) ?_⟩
  by_cases hid : x = id
  · rw [hid, hs.self, Option.map_map]
    exact congrArg (Option.map · _) (funext howner)
  · exact congrArg (Option.map Entry.owner) (hs.other hid)

/-! ## Changes of the hierarchy -/

theorem Carries.of_adds {id : ObjectId} {index : ObjectIndex}
    (ha : Hierarchy.Adds id index db.hierarchy db'.hierarchy)
    (hn : db.hierarchy.indexOf? id = none)
    (howner : (db'.registry.stored? x).map (·.owner) = (db.registry.stored? x).map (·.owner)) :
    Carries x db db' where
  grows := Hierarchy.Grows.of_adds ha
  kept := fun _ _ hi _ => ha.indexOf?_of_some hn hi
  owner := howner

theorem follows_indexObject (id : ObjectId) : Keeps (Follows X) (indexObject id) := by
  intro db ha
  rcases after_indexObject ha.toTidy id with hr | ⟨index, t, hl, hn, hadds, hr⟩ <;> rw [hr]
  · exact refl_of (Follows X) db ha
  · exact ⟨ha.of_adds hl hn hadds, Evolves.refl ha.sound,
      fun x _ _ _ => show Carries x db { db with hierarchy := t } from
        Carries.of_adds hadds hn rfl⟩

theorem follows_setActive (a : ActiveScope) (id : Option ObjectId) :
    Keeps (Follows X) (modify fun db => { db with hierarchy := db.hierarchy.setActive a id } :
      EStateM ε Database Unit) := by
  refine Keeps.modify fun db ha => ⟨ha.setActive a id, Evolves.refl ha.sound, fun _ _ _ _ => ?_⟩
  cases a <;> exact ⟨Hierarchy.Grows.of_owners rfl, fun _ _ hi _ => hi, rfl⟩

theorem follows_of_discards {id : ObjectId} (hid : db.registry.isScopeOwner id = false)
    (hd : Discards id db db') : Follows X db db' := by
  refine fun ha => ⟨ha.of_discards hd hid, hd.stores.evolves, fun x _ _ hl => ⟨?_, ?_, ?_⟩⟩
  · rw [hd.hierarchy]
    exact Hierarchy.Grows.deleteWhere ha.paired _
  · intro o i hi hl
    have hne : o ≠ id := hd.stores.ne_of_live hl
    rw [hd.hierarchy, Hierarchy.indexOf?_deleteWhere, if_neg (by simpa using hne), hi]
  · exact congrArg (Option.map Entry.owner) (hd.stores.other (hd.stores.ne_of_live hl))

/-! ## Scopes -/

theorem follows_destroyScope (o : ObjectId) :
    Keeps (Follows X) (destroyScope o : EStateM ε Database Bool) := by
  intro db ha
  refine ⟨ha.destroyScope o, (calm_destroyScope o db ha.sound).1, fun x _ _ hl => ?_⟩
  cases ho : db.scope? o with
  | none =>
    rw [after_ok (destroyScope_of_none ho)]
    exact ⟨Hierarchy.Grows.of_owners rfl, fun _ _ hi _ => hi, rfl⟩
  | some s =>
    refine ⟨grows_after_destroyScope ha.toTidy ho, fun id i hi hl => ?_, ?_⟩
    · rw [indexOf?_after_destroyScope ha.toTidy ho,
        not_takes_of_live_after_destroyScope ha.toTidy ho hl]
      exact hi
    · rw [stored?_after_destroyScope ha.toTidy ho hl]

theorem follows_destroy (id : ObjectId) :
    Keeps (Follows X) (destroy id : EStateM ε Database Bool) := by
  intro db ha
  rcases after_destroy (ε := ε) ha.sound ha.paired id with hr | ⟨hid, hd⟩
  · rw [hr]
    exact follows_destroyScope id db ha
  · exact follows_of_discards hid hd ha

theorem follows_reset (db : Database) : Follows X db db.reset := by
  refine fun ha => ⟨ha.reset, clear_evolves ha.sound, fun x _ _ hl => ?_⟩
  have hn : db.reset.registry.stored? x = none := stored?_clear db.registry x
  rw [← isSome_stored?_iff, hn] at hl
  contradiction

theorem Opening.follows {y : Edit ObjectId} {P : StorageScope → Entry → Prop} (ha : db.Anchored)
    (ho : Opening y P db) : Follows X db (after y db) := by
  cases ho with
  | refused result =>
    rw [after_error result]
    exact refl_of (Follows X) db
  | undone result same =>
    rw [after_error result]
    exact follows_of_alike fun _ => same
  | @stranded id e tag r result full fresh stores =>
    rw [after_error result]
    exact follows_of_stores ha fresh stores (Nat.lt_of_lt_of_le e.owner.val.toNat_lt full)
  | @opened s e db' result opened =>
    rw [after_ok result]
    refine fun _ => ⟨ha.of_opened opened, opened.evolves, fun x _ hl _ =>
      Carries.of_adds opened.adds (ha.unindexed_of_fresh opened.fresh) ?_⟩
    rw [opened.stored, onEntry, if_neg (ha.sound.ne_of_live hl opened.fresh)]

end Database

theorem Session.follows_stable (X : ObjectId → Prop) :
    Session.Stable (fun _ => False) (Session.OnDb (Database.Follows X)) :=
  (Session.Local.of_alike Database.follows_of_alike Database.follows_create
    Database.follows_indexObject Database.follows_destroy Database.follows_destroyScope
    Database.follows_reset).stable
    (fun a => (mirrors_openScope a).keeps fun _ ha =>
      (Database.opening_openScope ha.toTidy a).follows ha ha)
    (fun a id => still_onDb (Database.follows_setActive a id))
    fun parent => (mirrors_openNested parent).keeps fun _ ha =>
      (Database.opening_openNested ha.toTidy parent).follows ha ha

namespace Database

open Registry

theorem follows_run {cmds : List Command} (hcmds : ∀ c ∈ cmds, c.LeavesHeaders)
    (hX : ∀ x, X x → ∀ o, .setOwner x o ∉ cmds) (db : Database) :
    Follows X db (Database.run cmds db) := by
  refine (Session.follows_stable X).run_onDb (fun c hm hh => ?_) (avoids_nothing db cmds)
  have hc := hcmds c hm
  cases c with
  | setOwner id owner => exact (follows_setOwner (fun hid => hX id hid owner hm) owner).discard
  | write k id f => exact (follows_write hc id).discard
  | restoreHierarchy l => exact hc.elim
  | writeHeader id f => exact hc.elim
  | editHeader id e => exact hc.elim
  | properties id x => exact (alike_onProperties id x).discard.mono fun _ _ => follows_of_alike
  | _ => exact hh.elim

/-- A run in which no header is written by hand ends in an anchored database. -/
theorem anchored_run {c : StoreConfig} (h : Database.new c = .ok db) {cmds : List Command}
    (hcmds : ∀ c ∈ cmds, c.LeavesHeaders) : (Database.run cmds db).Anchored := by
  obtain ⟨hc, rfl⟩ := new_eq_ok h
  exact (follows_run (X := fun _ => False) hcmds (fun _ hx => hx.elim) _ (anchored_empty hc)).1

/-- The owner of a live record is the one it had, if that is live, and nobody otherwise. -/
theorem Carries.ownerId? (h : db.Anchored) (h' : db'.Anchored) (hc : Carries x db db')
    (hl : db.registry.Live x) :
    db'.ownerId? x = (db.ownerId? x).filter fun o => db'.isLive o := by
  obtain ⟨e, he⟩ := Option.isSome_iff_exists.1 (isSome_stored?_iff.2 hl)
  have howner := hc.owner
  rw [he, Option.map_some] at howner
  obtain ⟨e', he', hee⟩ := Option.map_eq_some_iff.1 howner
  have hlt := h.owned x e he
  rw [ownerId?_eq h.sound, ownerId?_eq h'.sound, he, he', Option.bind_some, Option.bind_some, hee]
  refine Option.ext fun o => ?_
  rw [Option.filter_eq_some_iff, isLive_iff h'.sound, h.paired.idAt?_eq_some_iff]
  constructor
  · intro ho
    exact ⟨h.paired.idAt?_eq_some_iff.1 (hc.grows.idAt? hlt ho),
      h'.live o _ (h'.paired.idAt?_eq_some_iff.1 ho)⟩
  · rintro ⟨ho, hlive⟩
    exact h'.paired.idAt?_eq_some_iff.2 (hc.kept o _ ho hlive)

end Database

/-- Let no hierarchy be restored and no header be written by hand, and let `m` be a record
that was placed at some point.  As long as it is given no other owner from then on, its owner
is the one it had while that is live, and nobody once that is gone; and if it had no owner it
has none.  An owner is live to begin with. -/
theorem ownerId?_never_aliases {c : StoreConfig} {start : Database}
    (h : Database.new c = .ok start) {prior later : List Command}
    (hprior : ∀ c ∈ prior, c.LeavesHeaders) (hlater : ∀ c ∈ later, c.LeavesHeaders) {m : Minting}
    (hm : m ∈ (Session.run prior (Session.start start)).minted)
    (hset : ∀ o, .setOwner m.id o ∉ later) :
    let db := Database.run prior start
    let db' := Database.run later db
    (∀ o, db.ownerId? m.id = some o → db.isLive o = true ∧
      (db'.isLive m.id = true → db'.ownerId? m.id = if db'.isLive o = true then some o else none)) ∧
    (db.ownerId? m.id = none → db'.ownerId? m.id = none) := by
  intro db db'
  have ha : db.Anchored := Database.anchored_run h hprior
  obtain ⟨ha', he, hc⟩ := Database.follows_run (X := (· = m.id)) hlater
    (by rintro _ rfl; exact hset) db ha
  have hspent : db.registry.Spent m.id := by
    obtain ⟨hg, _, _⟩ := Session.onward_run prior _ (Session.good_start h)
    have hs := (hg.holds m hm).spent
    rwa [show (Session.run prior (Session.start start)).db = db from Session.run_db prior _] at hs
  have howner (hl : db'.registry.Live m.id) :
      db'.ownerId? m.id = (db.ownerId? m.id).filter fun o => db'.isLive o := by
    have hl₀ := (Registry.Evolves.refl ha.sound).live_between he hspent hl
    exact (hc m.id rfl hl₀ hl).ownerId? ha ha' hl₀
  constructor
  · intro o ho
    refine ⟨(Database.isLive_iff ha.sound o).2 (ha.live_of_ownerId? ho), fun hl => ?_⟩
    rw [howner ((Database.isLive_iff ha'.sound m.id).1 hl), ho, Option.filter_some]
  · intro hn
    by_cases hl : db'.registry.Live m.id
    · rw [howner hl, hn, Option.filter_none]
    · rw [Database.ownerId?_eq ha'.sound, Registry.stored?_eq_none_iff.2 hl, Option.bind_none]

/-- A pin of an instance.  The instance is destroyed, and another is created in its slot and
given a position. -/
theorem ownerId?_never_aliases_reused :
    let top := Session.firstPage 1 .cell 0 0
    let inst := Session.firstPage 1 .inst 0 0
    let next := Session.firstPage 1 .inst 1 0
    let pin := Session.firstPage 1 .pin 0 0
    let m : Minting := { scope := ⟨1⟩, type := .pin, kind := .pin, id := pin }
    let prior : List Command := [.initTopCell "top", .create .inst .inst top, .indexObject inst,
      .create .pin .pin inst]
    let later : List Command := [.destroy inst, .create .inst .inst top, .indexObject next]
    let db := Database.run prior (Database.empty {})
    let db' := Database.run later db
    (∀ c ∈ prior, c.LeavesHeaders) ∧ (∀ c ∈ later, c.LeavesHeaders) ∧
      (∀ o, .setOwner m.id o ∉ later) ∧ db.ownerId? pin = some inst ∧
      db'.hierarchy.indexOf? next = some ⟨3⟩ ∧ db'.ownerId? pin = none := by
  intro top inst next pin m prior later db db'
  have hprior : ∀ c ∈ prior, c.LeavesHeaders := by simp [prior, Command.LeavesHeaders]
  have hlater : ∀ c ∈ later, c.LeavesHeaders := by simp [later, Command.LeavesHeaders]
  have hset : ∀ o, .setOwner m.id o ∉ later := by simp [later]
  have hm : m ∈ (Session.run prior (Session.start (Database.empty {}))).minted := by
    have he : (Session.run prior (Session.start (Database.empty {}))).minted =
        [m, { scope := ⟨1⟩, type := .inst, kind := .inst, id := inst },
          { scope := ⟨1⟩, type := .cell, kind := .cell, id := top }] := by decide +kernel
    simp [he]
  have howner : db.ownerId? pin = some inst := by decide +kernel
  obtain ⟨hsome, _⟩ := ownerId?_never_aliases (c := {}) rfl hprior hlater hm hset
  obtain ⟨_, hlast⟩ := hsome inst howner
  have hgone : db'.isLive inst = false := by decide +kernel
  refine ⟨hprior, hlater, hset, howner, by decide +kernel, ?_⟩
  rw [hlast (by decide +kernel), if_neg (by rw [hgone]; exact Bool.false_ne_true)]

end DesignStore
