/-
The owners of a record, up to the scope it belongs to.

A record that is created hangs below its owner, so its owners lead to the scope its owner
belongs to, and that is the scope in whose pool it is (`scopeRoot_after_create`).  They do so
by one link more than those of the owner.  The limit on the number of links is compared with
the links of the owner alone, before the record is there: where the owner is at the limit the
record is past it, and its scope is not found.
-/
import DesignStore.Proofs.OwnerReference

namespace DesignStore
namespace Database

open Registry

variable {db db' : Database} {id o root : ObjectId} {s : StorageScope}

/-! ## Going up -/

/-- A root that is found is found with more steps too. -/
theorem climb_mono {n : Nat} {a : Option ObjectId} (h : db.climb n id = some a) :
    db.climb (n + 1) id = some a := by
  induction n generalizing id with
  | zero => contradiction
  | succ n ih =>
    rw [climb_succ] at h ⊢
    cases hs : db.registry.isScopeOwner id with
    | true =>
      rw [hs] at h
      exact h
    | false =>
      rw [hs] at h
      cases ho : db.ownerId? id with
      | none =>
        rw [ho] at h
        exact h
      | some owner =>
        rw [ho] at h
        exact ih h

/-- The way up that comes to a scope ends at the owner of one. -/
theorem isScopeOwner_of_climb {n : Nat} (h : db.climb n id = some (some root)) :
    db.registry.isScopeOwner root = true := by
  induction n generalizing id with
  | zero => contradiction
  | succ n ih =>
    rw [climb_succ] at h
    cases hs : db.registry.isScopeOwner id with
    | true =>
      rw [hs, if_pos rfl] at h
      cases h
      exact hs
    | false =>
      rw [hs, if_neg Bool.false_ne_true] at h
      cases ho : db.ownerId? id with
      | none => simp [ho] at h
      | some owner =>
        rw [ho] at h
        exact ih h

theorem scopeRoot_congr (hconfig : db'.config = db.config)
    (hscope : ∀ x, db'.registry.isScopeOwner x = db.registry.isScopeOwner x)
    (howner : ∀ x, db'.ownerId? x = db.ownerId? x) (id : ObjectId) :
    db'.scopeRoot id = db.scopeRoot id := by
  have hclimb (n : Nat) (x : ObjectId) : db'.climb n x = db.climb n x := by
    induction n generalizing x with
    | zero => rfl
    | succ n ih =>
      rw [climb_succ, climb_succ, hscope, howner]
      cases db.ownerId? x with
      | none => rfl
      | some owner => simp only [ih owner]
  rw [scopeRoot, scopeRoot, hconfig, hclimb]

/-- Going up does not depend on a record that owns nothing, from wherever else one starts. -/
theorem climb_congr (hscope : ∀ x, db'.registry.isScopeOwner x = db.registry.isScopeOwner x)
    (howner : ∀ x, x ≠ id → db'.ownerId? x = db.ownerId? x) (hid : ∀ x, db.ownerId? x ≠ some id)
    (n : Nat) {x : ObjectId} (hx : x ≠ id) : db'.climb n x = db.climb n x := by
  induction n generalizing x with
  | zero => rfl
  | succ n ih =>
    rw [climb_succ, climb_succ, hscope, howner x hx]
    cases ho : db.ownerId? x with
    | none => rfl
    | some owner => simp only [ih (show owner ≠ id from fun e => hid x (e ▸ ho))]

theorem scopeRoot_eq_ok_iff {a : Option ObjectId} :
    db.scopeRoot id = .ok a ↔ db.climb (db.config.maxOwnerDepth + 1) id = some a := by
  unfold scopeRoot
  cases db.climb (db.config.maxOwnerDepth + 1) id <;> simp

theorem homeScope?_of_mem (h : Forest db.scopes) (hs : s ∈ db.scopes)
    (hof : ScopeTag.of? id = some s.tag) : db.homeScope? id = some s :=
  (homeScope?_eq_some_iff h.tags).2 ⟨hs, hof⟩

namespace Anchored

/-- Scope owners have positions. -/
theorem isScopeOwner_of_unindexed (h : db.Anchored) (hn : db.hierarchy.indexOf? id = none) :
    db.registry.isScopeOwner id = false := by
  rw [Bool.eq_false_iff]
  intro hid
  obtain ⟨s, hs, rfl⟩ := h.exists_scope hid
  rw [h.index s hs] at hn
  contradiction

/-- The owner at the position that a record of `o` notes. -/
theorem idAt?_ownerIndexFor? (h : db.Anchored) {i : ObjectIndex}
    (hi : db.ownerIndexFor? o = some i) : db.hierarchy.idAt? i =
      if (db.hierarchy.indexOf? o).isSome = true then some o else db.ownerId? o := by
  cases ho : db.hierarchy.indexOf? o with
  | some j =>
    rw [ownerIndexFor?, ho] at hi
    cases hi
    exact h.paired.idAt?_eq_some_iff.2 ho
  | none =>
    rw [ownerIndexFor?, ho] at hi
    obtain ⟨hi, _⟩ := Option.filter_eq_some_iff.1 hi
    obtain ⟨hd, hhd, rfl⟩ := Option.map_eq_some_iff.1 hi
    simp only [ownerId?, hhd, Option.isSome_none, Bool.false_eq_true, if_false, Option.bind_eq_bind,
      Option.bind_some]

end Anchored

/-! ## Creating a record -/

/-- What creating a record does to the owners, as seen from it and from the others. -/
structure Hangs (id o : ObjectId) (db db' : Database) : Prop where
  config : db'.config = db.config
  hierarchy : db'.hierarchy = db.hierarchy
  scopes : db'.scopes = db.scopes
  isScopeOwner : ∀ x, db'.registry.isScopeOwner x = db.registry.isScopeOwner x
  fresh : ¬ db.registry.Spent id
  owner : db'.ownerId? id =
    if (db.hierarchy.indexOf? o).isSome = true then some o else db.ownerId? o
  other : ∀ x, x ≠ id → db'.ownerId? x = db.ownerId? x

theorem hangs_create (h : db.Anchored) {k : RecordKind} {t : ObjectType}
    (hcreate : create k t o db = .ok id db') :
    Hangs id o db db' ∧ ∃ s ∈ db.scopes, db.scopeRoot o = .ok (some s.owner) ∧
      ScopeTag.of? id = some s.tag := by
  rcases create_cases h.sound k t o with
    ⟨e, he⟩ | ⟨index, root, key, _, r, hi, hroot, hscope, rfl, hp, ht, hr⟩
  · rw [he] at hcreate
    contradiction
  rw [hr] at hcreate
  cases hcreate
  have hs := hp.stores_fresh h.sound ht
  have hsound : ({ db with registry := r } : Database).registry.Sound := hs.evolves.sound
  obtain ⟨s, hmem, rfl, hst⟩ := h.bound _ (Assoc.mem_of_get? hscope)
  refine ⟨⟨rfl, rfl, rfl, fun x => ?_, hp.not_spent, ?_, fun x hx => ?_⟩, s, hmem, hroot, ?_⟩
  · rw [isScopeOwner, hs.owners, isScopeOwner]
  · rw [ownerId?_eq hsound, hs.self]
    exact h.idAt?_ownerIndexFor? hi
  · rw [ownerId?_eq hsound, ownerId?_eq h.sound, hs.other hx]
  · rw [SlotKey.of?_pack hp.key_scope]
    exact congrArg some hst.symm

namespace Hangs

variable (h : db.Anchored) (hh : Hangs id o db db')
include h hh

theorem climb_other (n : Nat) {x : ObjectId} (hx : x ≠ id) : db'.climb n x = db.climb n x :=
  climb_congr hh.isScopeOwner hh.other
    (fun _ ho => h.sound.ne_of_live (h.live_of_ownerId? ho) hh.fresh rfl) n hx

/-- What leads to a scope is not the new record. -/
theorem ne_of_climb {n : Nat} (hroot : db.climb (n + 1) o = some (some root)) : o ≠ id := by
  rintro rfl
  have hl : ¬ db.registry.Live o := fun hl => hh.fresh (h.sound.spent_of_live hl)
  rw [climb_succ, h.isScopeOwner_of_unindexed (h.unindexed_of_fresh hh.fresh),
    ownerId?_eq h.sound, stored?_eq_none_iff.2 hl] at hroot
  simp at hroot

/-- The way up from the new record is the way up from its owner, after one link if the owner
has a position and after none if not. -/
theorem climb_self {n : Nat} (hroot : db.climb (n + 1) o = some (some root)) :
    db'.climb (n + 1) id = if (db.hierarchy.indexOf? o).isSome = true then db.climb n o
      else some (some root) := by
  have hnot : db.registry.isScopeOwner id = false :=
    h.isScopeOwner_of_unindexed (h.unindexed_of_fresh hh.fresh)
  rw [climb_succ, hh.isScopeOwner, hnot, hh.owner]
  cases ho : db.hierarchy.indexOf? o with
  | some i => exact hh.climb_other h n (h.sound.ne_of_live (h.live o i ho) hh.fresh)
  | none =>
    rw [climb_succ, h.isScopeOwner_of_unindexed ho] at hroot
    cases hup : db.ownerId? o with
    | none => simp [hup] at hroot
    | some p =>
      rw [hup] at hroot
      have hne : p ≠ id := h.sound.ne_of_live (h.live_of_ownerId? hup) hh.fresh
      exact (hh.climb_other h n hne).trans hroot

end Hangs
end Database

/-- Let no hierarchy be restored and no header be written by hand, and let a record be
created.  Its owner is the one it was created for, or the owner of that if that has no
position.  The owner leads to a scope, before and after, and the record is in the pool of that
scope.  The record leads there too, unless its owner has a position and is as many links from
there as are allowed: then the record is one too many, and asking for its scope is a fault. -/
theorem scopeRoot_after_create {c : StoreConfig} {start : Database}
    (h : Database.new c = .ok start) {cmds : List Command} (hcmds : ∀ c ∈ cmds, c.LeavesHeaders)
    {k : RecordKind} {t : ObjectType} {owner id : ObjectId} {db' : Database}
    (hcreate : Database.create k t owner (Database.run cmds start) = .ok id db') :
    db'.ownerId? id =
        (if (db'.hierarchy.indexOf? owner).isSome = true then some owner else db'.ownerId? owner) ∧
      ∃ root, (Database.run cmds start).scopeRoot owner = .ok (some root) ∧
        db'.scopeRoot owner = .ok (some root) ∧ (db'.homeScope? id).map (·.owner) = some root ∧
        db'.scopeRoot id =
          if (db'.hierarchy.indexOf? owner).isSome = true ∧
              db'.climb db'.config.maxOwnerDepth owner = none then
            .error (.ownerChain id db'.config.maxOwnerDepth)
          else .ok (some root) := by
  have ha := Database.anchored_run h hcmds
  obtain ⟨hh, s, hs, hroot, hof⟩ := Database.hangs_create ha hcreate
  generalize Database.run cmds start = db at ha hh hs hroot hcreate
  have hclimb := Database.scopeRoot_eq_ok_iff.1 hroot
  have hne : owner ≠ id := hh.ne_of_climb ha hclimb
  have hhome : db'.homeScope? id = some s := by
    rw [Database.homeScope?, hh.scopes]
    exact Database.homeScope?_of_mem ha.forest hs hof
  refine ⟨by rw [hh.owner, hh.hierarchy, hh.other owner hne], s.owner, hroot, ?_,
    by rw [hhome, Option.map_some], ?_⟩
  · rw [Database.scopeRoot_eq_ok_iff, hh.config, hh.climb_other ha _ hne]
    exact hclimb
  · have hself := hh.climb_self ha hclimb
    rw [Database.scopeRoot, hh.config, hself, hh.hierarchy, hh.climb_other ha _ hne]
    cases hindexed : (db.hierarchy.indexOf? owner).isSome with
    | false => simp
    | true =>
      cases hup : db.climb db.config.maxOwnerDepth owner with
      | none => simp
      | some a =>
        -- with one step fewer the way up comes to the same root, if it comes to one
        rw [Database.climb_mono hup] at hclimb
        simp [Option.some.inj hclimb]

/-- A pin of an instance, where two links are allowed. -/
theorem scopeRoot_after_create_within_limit :
    let c : StoreConfig := { maxOwnerDepth := 2 }
    let top := Session.firstPage 1 .cell 0 0
    let inst := Session.firstPage 1 .inst 0 0
    let pin := Session.firstPage 1 .pin 0 0
    let cmds : List Command := [.initTopCell "top", .create .inst .inst top, .indexObject inst]
    let db := Database.run cmds (Database.empty c)
    let db' := after (Database.create .pin .pin inst) db
    Database.new c = .ok (Database.empty c) ∧ (∀ c ∈ cmds, c.LeavesHeaders) ∧
      Database.create .pin .pin inst db = .ok pin db' ∧ db'.ownerId? pin = some inst ∧
      db'.scopeRoot inst = .ok (some top) ∧ db'.scopeRoot pin = .ok (some top) := by
  intro c top inst pin cmds db db'
  have hcmds : ∀ c ∈ cmds, c.LeavesHeaders := by simp [cmds, Command.LeavesHeaders]
  have hcreate : Database.create .pin .pin inst db = .ok pin db' :=
    eq_ok_of_answer (by decide +kernel)
  obtain ⟨howner, root, _, hroot, _, hself⟩ := scopeRoot_after_create (c := c) rfl hcmds hcreate
  have hindexed : (db'.hierarchy.indexOf? inst).isSome = true := by decide +kernel
  have hup : db'.climb db'.config.maxOwnerDepth inst = some (some top) := by decide +kernel
  have htop : root = top := by
    have hclimb := Database.scopeRoot_eq_ok_iff.1 hroot
    rw [Database.climb_mono hup] at hclimb
    exact (Option.some.inj (Option.some.inj hclimb)).symm
  subst htop
  refine ⟨rfl, hcmds, hcreate, ?_, hroot, ?_⟩
  · rw [howner, if_pos hindexed]
  · rw [hself, if_neg]
    rintro ⟨_, hn⟩
    rw [hup] at hn
    contradiction

/-- The same where one link is allowed.  The pin is created, and its scope is not found. -/
theorem scopeRoot_after_create_past_limit :
    let c : StoreConfig := { maxOwnerDepth := 1 }
    let top := Session.firstPage 1 .cell 0 0
    let inst := Session.firstPage 1 .inst 0 0
    let pin := Session.firstPage 1 .pin 0 0
    let cmds : List Command := [.initTopCell "top", .create .inst .inst top, .indexObject inst]
    let db := Database.run cmds (Database.empty c)
    let db' := after (Database.create .pin .pin inst) db
    Database.new c = .ok (Database.empty c) ∧ (∀ c ∈ cmds, c.LeavesHeaders) ∧
      Database.create .pin .pin inst db = .ok pin db' ∧ db'.scopeRoot inst = .ok (some top) ∧
      db'.scopeRoot pin = .error (.ownerChain pin 1) := by
  intro c top inst pin cmds db db'
  exact ⟨rfl, by simp [cmds, Command.LeavesHeaders], eq_ok_of_answer (by decide +kernel),
    by decide +kernel, by decide +kernel⟩

end DesignStore
