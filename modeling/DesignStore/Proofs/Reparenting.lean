/-
Giving a record another owner.

Going up from a record passes some records and comes to the first scope owner (`Way`).  A
record that is given another owner changes one link: the ways that do not pass it stay as
they are, and those that do go on from it as the way of its new owner does.  So the scopes of
all records can be told from the ways there were before (`scopeRoot_after_setOwner`).

That takes a way of the new owner that does not come back to the record.  No operation checks
this: the limit on the number of links is there to end the search for the scope of a record
whose owners go in a circle.
-/
import DesignStore.Proofs.OwnerChain
import DesignStore.Proofs.Positions

namespace DesignStore
namespace Database

open Registry

variable {db db' : Database} {id owner p x y root root' : ObjectId} {l m : List ObjectId}

/-! ## Ways up -/

/-- The records passed on the way up from a record, and the scope owner it ends at. -/
inductive Way (db : Database) : List ObjectId → ObjectId → ObjectId → Prop
  | here {root : ObjectId} : db.registry.isScopeOwner root = true → Way db [] root root
  | up {x o root : ObjectId} {l : List ObjectId} : db.registry.isScopeOwner x = false →
      db.ownerId? x = some o → Way db l o root → Way db (x :: l) x root

theorem climb_eq_some_iff {n : Nat} :
    db.climb n x = some (some root) ↔ ∃ l, db.Way l x root ∧ l.length < n := by
  induction n generalizing x with
  | zero => simp [climb]
  | succ n ih =>
    rw [climb_succ]
    cases hs : db.registry.isScopeOwner x with
    | true =>
      rw [if_pos rfl, Option.some.injEq, Option.some.injEq]
      constructor
      · rintro rfl
        exact ⟨[], .here hs, Nat.succ_pos n⟩
      · rintro ⟨l, hw, _⟩
        cases hw with
        | here => rfl
        | up hn => simp [hs] at hn
    | false =>
      rw [if_neg Bool.false_ne_true]
      cases ho : db.ownerId? x with
      | none =>
        refine ⟨fun h => by simp at h, ?_⟩
        rintro ⟨l, hw, _⟩
        cases hw with
        | here hn => simp [hs] at hn
        | up _ ho' => simp [ho] at ho'
      | some o =>
        refine ih.trans ⟨?_, ?_⟩
        · rintro ⟨l, hw, hl⟩
          exact ⟨x :: l, .up hs ho hw, Nat.succ_lt_succ hl⟩
        · rintro ⟨l, hw, hl⟩
          cases hw with
          | here hn => simp [hs] at hn
          | @up _ o' _ l _ ho' hw =>
            cases ho.symm.trans ho'
            exact ⟨l, hw, Nat.lt_of_succ_lt_succ hl⟩

/-- The scope of a record is found if the way there has no more links than allowed. -/
theorem scopeRoot_eq_some_iff : db.scopeRoot x = .ok (some root) ↔
    ∃ l, db.Way l x root ∧ l.length ≤ db.config.maxOwnerDepth := by
  rw [scopeRoot_eq_ok_iff, climb_eq_some_iff]
  simp only [Nat.lt_succ_iff]

namespace Way

theorem unique (h : db.Way l x root) (h' : db.Way m x root') : l = m ∧ root = root' := by
  induction h generalizing m with
  | here hs =>
    cases h' with
    | here => exact ⟨rfl, rfl⟩
    | up hn => simp [hs] at hn
  | up hn ho _ ih =>
    cases h' with
    | here hs => simp [hs] at hn
    | up _ ho' h' =>
      cases ho.symm.trans ho'
      obtain ⟨rfl, rfl⟩ := ih h'
      exact ⟨rfl, rfl⟩

/-- The way up from a record that is passed is the rest of the way. -/
theorem of_append (h : db.Way (l ++ y :: m) x root) : db.Way (y :: m) y root := by
  induction l generalizing x with
  | nil =>
    cases h with
    | up hn ho h => exact .up hn ho h
  | cons z l ih =>
    cases h with
    | up _ _ h => exact ih h

/-- No record is passed twice. -/
theorem nodup (h : db.Way l x root) : l.Nodup := by
  induction h with
  | here => exact List.nodup_nil
  | @up x o root l hn ho h ih =>
    refine List.nodup_cons.2 ⟨fun hx => ?_, ih⟩
    obtain ⟨l₁, l₂, rfl⟩ := List.append_of_mem hx
    have hlen := congrArg List.length ((up hn ho h).unique h.of_append).1
    simp only [List.length_cons, List.length_append] at hlen
    omega

end Way

/-! ## Changing one link -/

/-- Nothing that ways depend on is changed but the owner of `id`. -/
structure Relinks (id : ObjectId) (db db' : Database) : Prop where
  config : db'.config = db.config
  isScopeOwner : ∀ x, db'.registry.isScopeOwner x = db.registry.isScopeOwner x
  other : ∀ x, x ≠ id → db'.ownerId? x = db.ownerId? x

namespace Way

variable (hr : Relinks id db db')
include hr

theorem of_not_mem (h : db.Way l x root) (hid : id ∉ l) : db'.Way l x root := by
  induction h with
  | here hs => exact .here ((hr.isScopeOwner _).trans hs)
  | up hn ho _ ih =>
    obtain ⟨hne, hid⟩ := List.ne_and_not_mem_of_not_mem_cons hid
    exact .up ((hr.isScopeOwner _).trans hn) ((hr.other _ (Ne.symm hne)).trans ho) (ih hid)

/-- A way that passes the record goes on from there as the record's way does now. -/
theorem through (h : db.Way (l ++ id :: m) x root) (hid : id ∉ l) {new : List ObjectId}
    (hnew : db'.Way new id root') : db'.Way (l ++ new) x root' := by
  induction l generalizing x with
  | nil =>
    cases h with
    | up => exact hnew
  | cons y l ih =>
    obtain ⟨hne, hid⟩ := List.ne_and_not_mem_of_not_mem_cons hid
    cases h with
    | up hn ho h =>
      exact .up ((hr.isScopeOwner _).trans hn) ((hr.other _ (Ne.symm hne)).trans ho) (ih h hid)

end Way

theorem modifyHeader_of_not_live {ε : Type} (h : db.registry.Sound) (hn : ¬ db.registry.Live id)
    (f : Header → Header) : answer (modifyHeader id f : EStateM ε Database _) db = .ok none := by
  have hheader : db.header? id = none := by
    rw [header?_eq_stored? h, stored?_eq_none_iff.2 hn]
    rfl
  simp only [answer, modifyHeader, map_apply, onRegistry_eq, onIssuer]
  cases ht : ScopeTag.of? id with
  | none => rfl
  | some t =>
    simp only [onPool_eq]
    cases hp : db.registry.pools.find? (·.scope = t) with
    | none => rw [onFirst_of_none hp]; rfl
    | some p =>
      have hlookup : db.registry.lookup? id = some p := by
        rw [Registry.lookup?, ht]
        exact hp
      have hdead : p.header? id = none := by simpa [header?, hlookup] using hheader
      rw [onFirst_of_some hp (Pool.modifyHeader_of_not_live hdead f)]
      rfl

/-- A live record is given the position of another owner. -/
theorem setOwner_true (h : db.registry.Sound) (hset : setOwner id owner db = .ok true db') :
    db.registry.Live id ∧ ∃ index r, db.ownerIndexFor? owner = some index ∧
      db' = { db with registry := r } ∧
      Touches id (Change.header (·.setOwner index)) db.registry r := by
  rcases setOwner_cases id owner db with ⟨e, hr⟩ | ⟨index, hi, hr⟩ <;> rw [hr] at hset
  · contradiction
  obtain ⟨a, r, hr', ht⟩ := modifyHeader_ok (ε := Failure DbError) h id (·.setOwner index)
  rw [map_apply, hr'] at hset
  cases a with
  | none => simp at hset
  | some hd =>
    cases hset
    refine ⟨?_, index, r, hi, rfl, ht⟩
    by_contra hl
    have ha := modifyHeader_of_not_live (ε := Failure DbError) h hl (·.setOwner index)
    simp [answer, hr'] at ha

/-- The position that is written is that of the new owner, or of the owner's owner where that
has none; it leads where the new owner leads. -/
theorem Way.of_ownerIndexFor? (hl : db.hierarchy.Located) {index : ObjectIndex}
    (hi : db.ownerIndexFor? owner = some index) (hw : db.Way l owner root)
    (hplaced : db.registry.isScopeOwner owner = true → db.hierarchy.indexOf? owner ≠ none) :
    ∃ p m, db.hierarchy.idAt? index = some p ∧ db.Way m p root ∧
      (p = owner ∨ db.hierarchy.indexOf? owner = none ∧ db.ownerId? owner = some p) := by
  cases ho : db.hierarchy.indexOf? owner with
  | some j =>
    rw [ownerIndexFor?, ho] at hi
    cases hi
    exact ⟨owner, l, hl.idAt? ho, hw, Or.inl rfl⟩
  | none =>
    rw [ownerIndexFor?, ho] at hi
    obtain ⟨hi, _⟩ := Option.filter_eq_some_iff.1 hi
    obtain ⟨hd, hhd, rfl⟩ := Option.map_eq_some_iff.1 hi
    cases hw with
    | here hs => exact absurd ho (hplaced hs)
    | @up _ o _ m _ hup hw =>
      have hat : db.ownerId? owner = db.hierarchy.idAt? hd.owner := by
        simp only [ownerId?, hhd, Option.bind_eq_bind, Option.bind_some]
      exact ⟨o, m, hat.symm.trans hup, hw, Or.inr ⟨rfl, hup⟩⟩

theorem relinks_of_touches (h : db.registry.Sound) (hlive : db.registry.Live id)
    {index : ObjectIndex} {r : Registry}
    (ht : Touches id (Change.header (·.setOwner index)) db.registry r) :
    Relinks id db { db with registry := r } ∧
      ({ db with registry := r } : Database).ownerId? id = db.hierarchy.idAt? index := by
  have hs := ht.stores fun _ _ hv => hv
  have hsound : ({ db with registry := r } : Database).registry.Sound := ht.sound
  obtain ⟨e, he⟩ := Option.isSome_iff_exists.1 (isSome_stored?_iff.2 hlive)
  refine ⟨⟨rfl, fun x => ?_, fun x hx => ?_⟩, ?_⟩
  · rw [isScopeOwner, ht.owners, isScopeOwner]
  · rw [ownerId?_eq hsound, ownerId?_eq h, hs.other hx]
  · rw [ownerId?_eq hsound, hs.self, he]
    rfl

end Database

/-- Let a record be given another owner, after any run.  If it owns a scope it still belongs to
that.  All records whose way up does not pass it belong to the scope they belonged to.

Let the new owner lead to a scope, and have a position if it owns that.  What the record has for
an owner then is the new owner, or the owner's owner if that has no position, and the way up
from there decides the rest.  If the record is not on it, then it leads to the scope of the new
owner, and so do all whose way up passed it.  They belong to that scope as long as their ways
have no more links than allowed. -/
theorem scopeRoot_after_setOwner {c : StoreConfig} {start : Database}
    (h : Database.new c = .ok start) (cmds : List Command) {id owner : ObjectId} {db' : Database}
    (hset : Database.setOwner id owner (Database.run cmds start) = .ok true db') :
    let db := Database.run cmds start
    (db.registry.isScopeOwner id = true → db'.scopeRoot id = .ok (some id)) ∧
    (∀ x q l, db.scopeRoot x = .ok (some q) → db.Way l x q → id ∉ l →
      db'.scopeRoot x = .ok (some q)) ∧
    ∀ root, db.scopeRoot owner = .ok (some root) →
      (db.registry.isScopeOwner owner = true → db.hierarchy.indexOf? owner ≠ none) →
      ∃ p up, (p = owner ∨ db.hierarchy.indexOf? owner = none ∧ db.ownerId? owner = some p) ∧
        db'.ownerId? id = some p ∧ db.Way up p root ∧
        (db.registry.isScopeOwner id = false → id ∉ up →
          ((id :: up).length ≤ db.config.maxOwnerDepth → db'.scopeRoot id = .ok (some root)) ∧
          ∀ x q l₁ l₂, db.Way (l₁ ++ id :: l₂) x q →
            (l₁ ++ id :: up).length ≤ db.config.maxOwnerDepth →
              db'.scopeRoot x = .ok (some root)) := by
  intro db
  have hsound : db.registry.Sound := by
    have hg := (Session.onward_run cmds _ (Session.good_start h)).1.sound
    rwa [Session.run_db] at hg
  obtain ⟨hlive, index, r, hi, rfl, ht⟩ := Database.setOwner_true hsound hset
  obtain ⟨hr, howner⟩ := Database.relinks_of_touches hsound hlive ht
  refine ⟨fun hid => Database.scopeRoot_of_owner ((hr.isScopeOwner id).trans hid),
    fun x q l hx hw hid => ?_, fun root hroot hplaced => ?_⟩
  · obtain ⟨m, hm, hlen⟩ := Database.scopeRoot_eq_some_iff.1 hx
    obtain ⟨rfl, _⟩ := hw.unique hm
    exact Database.scopeRoot_eq_some_iff.2 ⟨l, hw.of_not_mem hr hid, hlen⟩
  · obtain ⟨l, hw, _⟩ := Database.scopeRoot_eq_some_iff.1 hroot
    obtain ⟨p, up, hp, hup, hnoted⟩ :=
      hw.of_ownerIndexFor? (Database.located_run h cmds) hi hplaced
    refine ⟨p, up, hnoted, howner.trans hp, hup, fun hid hnot => ?_⟩
    have hself : ({ db with registry := r } : Database).Way (id :: up) id root :=
      .up ((hr.isScopeOwner id).trans hid) (howner.trans hp) (hup.of_not_mem hr hnot)
    refine ⟨fun hlen => Database.scopeRoot_eq_some_iff.2 ⟨id :: up, hself, hlen⟩,
      fun x q l₁ l₂ hx hlen => ?_⟩
    have hl₁ : id ∉ l₁ := fun hmem =>
      (List.nodup_append.1 hx.nodup).2.2 id hmem id List.mem_cons_self rfl
    exact Database.scopeRoot_eq_some_iff.2 ⟨l₁ ++ id :: up, hx.through hr hl₁ hself, hlen⟩

/-- An instance with a pin is moved from the top cell to the technology library. -/
theorem scopeRoot_after_setOwner_moved :
    let top := Session.firstPage 1 .cell 0 0
    let tech := Session.firstPage 2 .tech 0 0
    let inst := Session.firstPage 1 .inst 0 0
    let pin := Session.firstPage 1 .pin 0 0
    let cmds : List Command := [.initTopCell "top", .initTechLib, .create .inst .inst top,
      .indexObject inst, .create .pin .pin inst]
    let db := Database.run cmds (Database.empty {})
    let db' := after (Database.setOwner inst tech) db
    Database.setOwner inst tech db = .ok true db' ∧ db.scopeRoot tech = .ok (some tech) ∧
      db.hierarchy.indexOf? tech ≠ none ∧ db.scopeRoot pin = .ok (some top) ∧
      db'.scopeRoot top = .ok (some top) ∧ db'.scopeRoot inst = .ok (some tech) ∧
      db'.scopeRoot pin = .ok (some tech) := by
  intro top tech inst pin cmds db db'
  have hset : Database.setOwner inst tech db = .ok true db' := eq_ok_of_answer (by decide +kernel)
  have hroot : db.scopeRoot tech = .ok (some tech) := by decide +kernel
  have hindexed : db.hierarchy.indexOf? tech ≠ none := by decide +kernel
  obtain ⟨_, hother, hmoved⟩ := scopeRoot_after_setOwner (c := {}) rfl cmds hset
  have htop : db.Way [] top top := .here (by decide +kernel)
  have hpin : db.Way ([pin] ++ inst :: []) pin top :=
    .up (by decide +kernel) (by decide +kernel)
      (.up (by decide +kernel) (o := top) (by decide +kernel) htop)
  obtain ⟨p, up, hp, _, hup, hrest⟩ := hmoved tech hroot fun _ => hindexed
  rcases hp with rfl | ⟨hn, _⟩
  · -- the way up from a scope owner passes nothing
    obtain ⟨rfl, _⟩ := hup.unique (.here (by decide +kernel))
    obtain ⟨hself, hthrough⟩ := hrest (by decide +kernel) (by decide +kernel)
    exact ⟨hset, hroot, hindexed, by decide +kernel,
      hother top top [] (by decide +kernel) htop (by decide +kernel), hself (by decide +kernel),
      hthrough pin top [pin] [] hpin (by decide +kernel)⟩
  · exact absurd hn hindexed

/-- An instance is made its own owner.  Its scope is not found any more. -/
theorem scopeRoot_after_setOwner_circle :
    let top := Session.firstPage 1 .cell 0 0
    let inst := Session.firstPage 1 .inst 0 0
    let db := Database.run [.initTopCell "top", .create .inst .inst top, .indexObject inst]
      (Database.empty {})
    let db' := after (Database.setOwner inst inst) db
    db.scopeRoot inst = .ok (some top) ∧ Database.setOwner inst inst db = .ok true db' ∧
      db.registry.isScopeOwner inst = false ∧ db'.scopeRoot inst = .error (.ownerChain inst 64) := by
  intro top inst db db'
  exact ⟨by decide +kernel, eq_ok_of_answer (by decide +kernel), by decide +kernel,
    by decide +kernel⟩

/-- With one link allowed, an instance is given another instance of the top cell for an owner.  The
new owner belongs to the top cell and the instance is not on its way there, but is one link further
down than its scope is looked for. -/
theorem scopeRoot_after_setOwner_too_deep :
    let top := Session.firstPage 1 .cell 0 0
    let above := Session.firstPage 1 .inst 0 0
    let below := Session.firstPage 1 .inst 0 1
    let db := Database.run [.initTopCell "top", .create .inst .inst top, .indexObject above,
      .create .inst .inst top] (Database.empty { maxOwnerDepth := 1 })
    let db' := after (Database.setOwner below above) db
    db.scopeRoot above = .ok (some top) ∧ Database.setOwner below above db = .ok true db' ∧
      db.Way [above] above top ∧ db'.ownerId? below = some above ∧
      db'.scopeRoot below = .error (.ownerChain below 1) := by
  intro top above below db db'
  have hway : db.Way [above] above top :=
    .up (by decide +kernel) (o := top) (by decide +kernel) (.here (by decide +kernel))
  exact ⟨by decide +kernel, eq_ok_of_answer (by decide +kernel), hway, by decide +kernel,
    by decide +kernel⟩

/-- The position of a nested cell is given to an instance when the hierarchy is restored.  The cell
still owns its scope, and what is given the cell for an owner belongs to the top cell. -/
theorem scopeRoot_after_setOwner_displaced :
    let top := Session.firstPage 1 .cell 0 0
    let nested := Session.firstPage 1 .cell 0 1
    let inst := Session.firstPage 1 .inst 0 0
    let db := Database.run [.initTopCell "top", .createHierCell top "core",
      .create .inst .inst top, .restoreHierarchy [(⟨2⟩, inst)]] (Database.empty {})
    let db' := after (Database.setOwner inst nested) db
    db.scopeRoot nested = .ok (some nested) ∧ db.hierarchy.indexOf? nested = none ∧
      Database.setOwner inst nested db = .ok true db' ∧ db'.ownerId? inst = some top ∧
      db'.scopeRoot inst = .ok (some top) := by
  intro top nested inst db db'
  exact ⟨by decide +kernel, by decide +kernel, eq_ok_of_answer (by decide +kernel),
    by decide +kernel, by decide +kernel⟩

end DesignStore
