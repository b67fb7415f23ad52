/-
The scope of a record, from the line of its owners.

From a record one goes to its owner, to the owner of that, and so on (`nthOwner?`).  The scope
of the record is the first on this line that owns a scope, if it is within the limit on the
number of links.  It has none if the line ends before, and the line may end one link past the
limit.  Otherwise there is no answer but a fault (`scopeRoot_walk`).

The limit only decides how much of the line is looked at.  So a larger one gives the same
answer where there is one, and none gives an answer on a line that goes in a circle without
passing a scope owner.
-/
import DesignStore.Proofs.OwnerChain

namespace DesignStore
namespace Database

variable {db : Database} {id o x root : ObjectId} {k m n p d : Nat}

/-! ## The line of owners -/

/-- The record `k` links up from a record. -/
def nthOwner? (db : Database) : Nat → ObjectId → Option ObjectId
  | 0, id => some id
  | k + 1, id => (db.nthOwner? k id).bind db.ownerId?

/-- None of the first `k` records on the line owns a scope. -/
def PassesNoScope (db : Database) (id : ObjectId) (k : Nat) : Prop :=
  ∀ j < k, ∀ x ∈ db.nthOwner? j id, db.registry.isScopeOwner x = false

instance (db : Database) (id : ObjectId) (k : Nat) : Decidable (db.PassesNoScope id k) :=
  inferInstanceAs (Decidable (∀ j < k, ∀ x ∈ db.nthOwner? j id, db.registry.isScopeOwner x = false))

theorem nthOwner?_add (m k : Nat) :
    db.nthOwner? (m + k) id = (db.nthOwner? m id).bind (db.nthOwner? k) := by
  induction k with
  | zero => exact (Option.bind_fun_some (db.nthOwner? m id)).symm
  | succ k ih =>
    rw [← Nat.add_assoc, nthOwner?, ih, Option.bind_assoc]
    rfl

theorem nthOwner?_succ : db.nthOwner? (k + 1) id = (db.ownerId? id).bind (db.nthOwner? k) := by
  rw [Nat.add_comm, nthOwner?_add]
  rfl

theorem passesNoScope_zero : db.PassesNoScope id 0 := by
  intro j hj
  exact absurd hj (Nat.not_lt_zero j)

theorem passesNoScope_succ : db.PassesNoScope id (k + 1) ↔
    db.registry.isScopeOwner id = false ∧ ∀ o ∈ db.ownerId? id, db.PassesNoScope o k := by
  constructor
  · intro h
    refine ⟨h 0 (Nat.succ_pos k) id rfl, fun o ho j hj x hx => ?_⟩
    refine h (j + 1) (Nat.succ_lt_succ hj) x ?_
    rwa [nthOwner?_succ, Option.mem_def.1 ho]
  · rintro ⟨hid, h⟩ j hj x hx
    cases j with
    | zero =>
      cases hx
      exact hid
    | succ j =>
      rw [nthOwner?_succ] at hx
      obtain ⟨o, ho, hx⟩ := Option.bind_eq_some_iff.1 hx
      exact h o ho j (Nat.lt_of_succ_lt_succ hj) x hx

/-! ## Going up -/

/-- Going up ends at the first scope owner of the line. -/
theorem climb_eq_root_iff : db.climb n id = some (some root) ↔
    ∃ k < n, db.nthOwner? k id = some root ∧ db.registry.isScopeOwner root = true ∧
      db.PassesNoScope id k := by
  induction n generalizing id with
  | zero => simp [climb]
  | succ n ih =>
    rw [climb_succ]
    cases hs : db.registry.isScopeOwner id with
    | true =>
      rw [if_pos rfl, Option.some.injEq, Option.some.injEq]
      constructor
      · rintro rfl
        exact ⟨0, Nat.succ_pos n, rfl, hs, passesNoScope_zero⟩
      · rintro ⟨k, _, hk, _, hpasses⟩
        cases k with
        | zero => exact Option.some.inj hk
        | succ k => simp [passesNoScope_succ, hs] at hpasses
    | false =>
      rw [if_neg Bool.false_ne_true]
      constructor
      · intro h
        cases ho : db.ownerId? id with
        | none => simp [ho] at h
        | some o =>
          rw [ho] at h
          obtain ⟨k, hlt, hk, hroot, hpasses⟩ := ih.1 h
          refine ⟨k + 1, Nat.succ_lt_succ hlt, by rwa [nthOwner?_succ, ho], hroot,
            passesNoScope_succ.2 ⟨hs, ?_⟩⟩
          rintro o' ho'
          cases ho.symm.trans ho'
          exact hpasses
      · rintro ⟨k, hlt, hk, hroot, hpasses⟩
        cases k with
        | zero =>
          cases hk
          simp [hs] at hroot
        | succ k =>
          rw [nthOwner?_succ] at hk
          obtain ⟨o, ho, hk⟩ := Option.bind_eq_some_iff.1 hk
          rw [ho]
          exact ih.2 ⟨k, Nat.lt_of_succ_lt_succ hlt, hk, hroot,
            (passesNoScope_succ.1 hpasses).2 o ho⟩

/-- Going up comes to nothing where the line ends and no scope owner is before. -/
theorem climb_eq_end_iff : db.climb n id = some none ↔
    ∃ k ≤ n, db.nthOwner? k id = none ∧ db.PassesNoScope id k := by
  induction n generalizing id with
  | zero => simp [climb, nthOwner?]
  | succ n ih =>
    rw [climb_succ]
    cases hs : db.registry.isScopeOwner id with
    | true =>
      refine ⟨fun h => by simp at h, ?_⟩
      rintro ⟨k, _, hk, hpasses⟩
      cases k with
      | zero => contradiction
      | succ k => simp [passesNoScope_succ, hs] at hpasses
    | false =>
      rw [if_neg Bool.false_ne_true]
      cases ho : db.ownerId? id with
      | none =>
        refine iff_of_true rfl ⟨1, Nat.succ_le_succ (Nat.zero_le n), ?_, ?_⟩
        · rw [nthOwner?_succ, ho, Option.bind_none]
        · simp [passesNoScope_succ, hs, ho]
      | some o =>
        refine ih.trans ⟨?_, ?_⟩
        · rintro ⟨k, hle, hk, hpasses⟩
          refine ⟨k + 1, Nat.succ_le_succ hle, by rwa [nthOwner?_succ, ho],
            passesNoScope_succ.2 ⟨hs, ?_⟩⟩
          rw [ho]
          rintro o' ⟨⟩
          exact hpasses
        · rintro ⟨k, hle, hk, hpasses⟩
          cases k with
          | zero => contradiction
          | succ k =>
            rw [nthOwner?_succ, ho] at hk
            exact ⟨k, Nat.le_of_succ_le_succ hle, hk, (passesNoScope_succ.1 hpasses).2 o ho⟩

/-- Going up does not end where the line goes on and no scope owner is on the part passed. -/
theorem climb_eq_none_iff : db.climb n id = none ↔
    (∀ k ≤ n, db.nthOwner? k id ≠ none) ∧ db.PassesNoScope id n := by
  induction n generalizing id with
  | zero => simp [climb, nthOwner?, passesNoScope_zero]
  | succ n ih =>
    rw [climb_succ, passesNoScope_succ]
    cases hs : db.registry.isScopeOwner id with
    | true => simp
    | false =>
      rw [if_neg Bool.false_ne_true]
      cases ho : db.ownerId? id with
      | none =>
        refine ⟨fun h => by simp at h, ?_⟩
        rintro ⟨h, _⟩
        refine absurd ?_ (h 1 (Nat.succ_le_succ (Nat.zero_le n)))
        rw [nthOwner?_succ, ho, Option.bind_none]
      | some o =>
        refine ih.trans ⟨?_, ?_⟩
        · rintro ⟨h, hpasses⟩
          refine ⟨fun k hk => ?_, rfl, ?_⟩
          · cases k with
            | zero => exact Option.some_ne_none id
            | succ k =>
              rw [nthOwner?_succ, ho]
              exact h k (Nat.le_of_succ_le_succ hk)
          · rintro o' ⟨⟩
            exact hpasses
        · rintro ⟨h, _, hpasses⟩
          refine ⟨fun k hk => ?_, hpasses o rfl⟩
          have hk := h (k + 1) (Nat.succ_le_succ hk)
          rwa [nthOwner?_succ, ho] at hk

theorem scopeRoot_eq_error_iff {f : Fault} :
    db.scopeRoot id = .error f ↔ f = .ownerChain id db.config.maxOwnerDepth ∧
      db.climb (db.config.maxOwnerDepth + 1) id = none := by
  unfold scopeRoot
  cases db.climb (db.config.maxOwnerDepth + 1) id <;> simp [eq_comm]

/-! ## Limits -/

/-- The database with another limit on the number of links.  With its own limit it is itself. -/
def limited (db : Database) (d : Nat) : Database :=
  { db with config := { db.config with maxOwnerDepth := d } }

theorem climb_limited : (db.limited d).climb n id = db.climb n id := by
  induction n generalizing id with
  | zero => rfl
  | succ n ih =>
    rw [climb_succ, climb_succ]
    simp only [ih]
    rfl

theorem scopeRoot_limited_eq_ok_iff {a : Option ObjectId} :
    (db.limited d).scopeRoot id = .ok a ↔ db.climb (d + 1) id = some a := by
  rw [scopeRoot_eq_ok_iff, climb_limited]
  rfl

theorem scopeRoot_limited_eq_error_iff {f : Fault} :
    (db.limited d).scopeRoot id = .error f ↔ f = .ownerChain id d ∧ db.climb (d + 1) id = none := by
  rw [scopeRoot_eq_error_iff, climb_limited]
  rfl

theorem climb_mono_le {a : Option ObjectId} (hle : m ≤ n) (h : db.climb m id = some a) :
    db.climb n id = some a := by
  induction hle with
  | refl => exact h
  | step _ ih => exact climb_mono ih

/-! ## Circles -/

/-- On a line that comes back to itself every record is one of those before. -/
theorem nthOwner?_circle (hp : 0 < p) (hcircle : db.nthOwner? (m + p) id = db.nthOwner? m id)
    (k : Nat) : ∃ j < m + p, db.nthOwner? k id = db.nthOwner? j id := by
  induction k using Nat.strong_induction_on with
  | _ k ih =>
    rcases Nat.lt_or_ge k (m + p) with hlt | hge
    · exact ⟨k, hlt, rfl⟩
    · -- one turn less
      obtain ⟨b, rfl⟩ := Nat.exists_eq_add_of_le hge
      rw [nthOwner?_add, hcircle, ← nthOwner?_add]
      exact ih (m + b) (by omega)

/-- Going up does not end in a circle without a scope owner. -/
theorem climb_circle (hp : 0 < p) (hx : db.nthOwner? m id = some x)
    (hcircle : db.nthOwner? (m + p) id = some x) (hpasses : db.PassesNoScope id (m + p)) :
    db.climb n id = none := by
  have hback (k : Nat) := nthOwner?_circle hp (hcircle.trans hx.symm) k
  refine climb_eq_none_iff.2 ⟨fun k _ => ?_, fun k _ y hy => ?_⟩
  · -- the records before the circle closes are there, since it closes
    obtain ⟨j, hj, hk⟩ := hback k
    obtain ⟨b, hb⟩ := Nat.exists_eq_add_of_lt hj
    rw [hk]
    intro hn
    rw [hb, Nat.add_assoc, nthOwner?_add, hn] at hcircle
    contradiction
  · obtain ⟨j, hj, hk⟩ := hback k
    exact hpasses j hj y (hk ▸ hy)

end Database

/-- From a record let one go to its owner, to the owner of that and so on, in a database in
whatever state and with whatever limit on the number of links.  The scope of the record is the
first of these that owns a scope, if it is not more links away than the limit.  The record has
no scope if the line of its owners ends at most one link past the limit, with no scope owner
before.  Otherwise the line goes on for longer and has no scope owner up to the limit, and
asking for the scope is a fault.

An answer stays the same with a larger limit.  If the line goes in a circle and passes no scope
owner then no limit gives an answer. -/
theorem scopeRoot_walk (db : Database) (id : ObjectId) :
    (∀ d root, (db.limited d).scopeRoot id = .ok (some root) ↔
      ∃ k ≤ d, db.nthOwner? k id = some root ∧ db.registry.isScopeOwner root = true ∧
        db.PassesNoScope id k) ∧
    (∀ d, (db.limited d).scopeRoot id = .ok none ↔
      ∃ k ≤ d + 1, db.nthOwner? k id = none ∧ db.PassesNoScope id k) ∧
    (∀ d f, (db.limited d).scopeRoot id = .error f ↔ f = .ownerChain id d ∧
      (∀ k ≤ d + 1, db.nthOwner? k id ≠ none) ∧ db.PassesNoScope id (d + 1)) ∧
    (∀ d d' a, d ≤ d' → (db.limited d).scopeRoot id = .ok a →
      (db.limited d').scopeRoot id = .ok a) ∧
    ∀ m p x, 0 < p → db.nthOwner? m id = some x → db.nthOwner? (m + p) id = some x →
      db.PassesNoScope id (m + p) →
      ∀ d, (db.limited d).scopeRoot id = .error (.ownerChain id d) := by
  refine ⟨fun d root => ?_, fun d => ?_, fun d f => ?_, fun d d' a hle h => ?_,
    fun m p x hp hx hcircle hpasses d => ?_⟩
  · rw [Database.scopeRoot_limited_eq_ok_iff, Database.climb_eq_root_iff]
    simp only [Nat.lt_succ_iff]
  · rw [Database.scopeRoot_limited_eq_ok_iff, Database.climb_eq_end_iff]
  · rw [Database.scopeRoot_limited_eq_error_iff, Database.climb_eq_none_iff]
  · rw [Database.scopeRoot_limited_eq_ok_iff] at h ⊢
    exact Database.climb_mono_le (Nat.succ_le_succ hle) h
  · exact Database.scopeRoot_limited_eq_error_iff.2
      ⟨rfl, Database.climb_circle hp hx hcircle hpasses⟩

/-- A pin of an instance of the top cell, which is two links from it.  One link is too few to
find the scope.  Afterwards the instance is made its own owner: no limit is large enough. -/
theorem scopeRoot_walk_pin :
    let top := Session.firstPage 1 .cell 0 0
    let inst := Session.firstPage 1 .inst 0 0
    let pin := Session.firstPage 1 .pin 0 0
    let db := Database.run [.initTopCell "top", .create .inst .inst top, .indexObject inst,
      .create .pin .pin inst] (Database.empty {})
    let db' := after (Database.setOwner inst inst) db
    (∀ d, 2 ≤ d → (db.limited d).scopeRoot pin = .ok (some top)) ∧
      (db.limited 1).scopeRoot pin = .error (.ownerChain pin 1) ∧
      ∀ d, (db'.limited d).scopeRoot pin = .error (.ownerChain pin d) := by
  intro top inst pin db db'
  obtain ⟨hroot, _, hfault, hlarger, _⟩ := scopeRoot_walk db pin
  obtain ⟨_, _, _, _, hcircle⟩ := scopeRoot_walk db' pin
  refine ⟨fun d hd => hlarger 2 d _ hd ((hroot 2 top).2 ⟨2, Nat.le_refl 2, ?_, ?_, ?_⟩),
    (hfault 1 _).2 ⟨rfl, ?_, ?_⟩, hcircle 1 1 inst Nat.one_pos ?_ ?_ ?_⟩
  all_goals decide +kernel

end DesignStore
