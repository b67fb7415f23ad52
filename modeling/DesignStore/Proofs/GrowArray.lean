/-
Arrays as lists with room to spare.

An array holds what was pushed, in that order; its capacity only decides when it grows.  Reserving
grows it to exactly what is asked for and a push doubles it when it is full.  So in every history
there is room for what the array holds and for what was reserved, and not more than twice as much
(`holds_pushed`).
-/
import Mathlib
import DesignStore.GrowArray

namespace DesignStore
namespace GrowArray

variable {α : Type} {a : GrowArray α}

/-- What can be asked of an array. -/
inductive Request (α : Type) where
  | reserve (n : Nat)
  | push (x : α)

def Request.perform : Request α → GrowArray α → GrowArray α
  | .reserve n, a => a.reserve n
  | .push x, a => a.push x

/-- The array that a history of requests makes of an empty one. -/
def run (l : List (Request α)) : GrowArray α :=
  l.foldl (fun a q => q.perform a) {}

/-- What was pushed in a history, in that order. -/
def pushed (l : List (Request α)) : List α :=
  l.filterMap fun
    | .reserve _ => none
    | .push x => some x

/-- The capacities that were asked for in a history. -/
def reserved (l : List (Request α)) : List Nat :=
  l.filterMap fun
    | .reserve n => some n
    | .push _ => none

theorem run_concat (l : List (Request α)) (q : Request α) : run (l ++ [q]) = q.perform (run l) :=
  List.foldl_concat ..

/-! ## Elements -/

theorem length_toList (a : GrowArray α) : a.toList.length = a.size :=
  Array.length_toList

theorem get?_eq (a : GrowArray α) (i : Nat) : a.get? i = a.toList[i]? :=
  Array.getElem?_toList.symm

theorem toList_reserve (a : GrowArray α) (n : Nat) : (a.reserve n).toList = a.toList := by
  unfold reserve
  split <;> rfl

theorem toList_push (a : GrowArray α) (x : α) : (a.push x).toList = a.toList ++ [x] := by
  unfold push
  split
  · exact Array.toList_push.trans (congrArg (· ++ [x]) (toList_reserve a _))
  · exact Array.toList_push

theorem size_reserve (a : GrowArray α) (n : Nat) : (a.reserve n).size = a.size := by
  rw [← length_toList, toList_reserve, length_toList]

theorem size_push (a : GrowArray α) (x : α) : (a.push x).size = a.size + 1 := by
  rw [← length_toList, toList_push, List.length_append, length_toList, List.length_singleton]

/-! ## Capacity -/

/-- What is asked for beside the elements there are, where there is room for these, is what is
missing to what is asked for in all. -/
theorem capacity_reserve (h : a.size ≤ a.capacity) (n : Nat) :
    (a.reserve n).capacity = max a.capacity n := by
  unfold reserve
  split
  · show max a.capacity (a.size + (n - a.size)) = _
    omega
  · omega

theorem capacity_push (h : a.size ≤ a.capacity) (x : α) : (a.push x).capacity =
    if a.size = a.capacity then max (2 * a.capacity) minCapacity else a.capacity := by
  by_cases hfull : a.size = a.capacity
  · rw [push, if_pos (show a.items.size = a.capacity from hfull), if_pos hfull]
    show (a.reserve _).capacity = _
    rw [capacity_reserve h]
    omega
  · rw [push, if_neg (show ¬ a.items.size = a.capacity from hfull), if_neg hfull]

theorem capacity_le_perform (h : a.size ≤ a.capacity) (q : Request α) :
    a.capacity ≤ (q.perform a).capacity := by
  cases q with
  | reserve n =>
    rw [Request.perform, capacity_reserve h]
    omega
  | push x =>
    rw [Request.perform, capacity_push h]
    split <;> omega

/-! ## Histories -/

/-- What an array is after a history. -/
structure Fits (a : GrowArray α) (l : List (Request α)) : Prop where
  toList : a.toList = pushed l
  room : a.size ≤ a.capacity
  asked : ∀ n ∈ reserved l, n ≤ a.capacity
  slack : a.capacity ≤ max minCapacity (max (2 * a.size) ((reserved l).foldl max 0))

namespace Fits

variable {l : List (Request α)}

theorem reserve (h : Fits a l) (n : Nat) : Fits (a.reserve n) (l ++ [.reserve n]) := by
  have hroom := h.room
  have hslack := h.slack
  have hcapacity := capacity_reserve hroom n
  have hsize := size_reserve a n
  have hpushed : pushed (l ++ [.reserve n]) = pushed l := by simp [pushed]
  have hreserved : reserved (l ++ [.reserve n]) = reserved l ++ [n] := by
    simp [reserved]
  refine ⟨by rw [toList_reserve, h.toList, hpushed], by omega, fun m hm => ?_, ?_⟩
  · rw [hreserved, List.mem_append, List.mem_singleton] at hm
    rcases hm with hm | rfl
    · have := h.asked m hm
      omega
    · omega
  · rw [hreserved, List.foldl_concat, hcapacity, hsize]
    omega

theorem push (h : Fits a l) (x : α) : Fits (a.push x) (l ++ [.push x]) := by
  have hroom := h.room
  have hslack := h.slack
  have hcapacity := capacity_push hroom x
  have hsize := size_push a x
  have hgrows : a.capacity ≤ (a.push x).capacity := capacity_le_perform hroom (.push x)
  have hmin : minCapacity = 4 := rfl
  have hpushed : pushed (l ++ [.push x]) = pushed l ++ [x] := by simp [pushed]
  have hreserved : reserved (l ++ [.push x]) = reserved l := by
    simp [reserved]
  refine ⟨by rw [toList_push, h.toList, hpushed], ?_, fun m hm => ?_, ?_⟩
  · split at hcapacity <;> omega
  · rw [hreserved] at hm
    exact Nat.le_trans (h.asked m hm) hgrows
  · rw [hreserved]
    split at hcapacity <;> omega

theorem perform (h : Fits a l) (q : Request α) : Fits (q.perform a) (l ++ [q]) := by
  cases q with
  | reserve n => exact h.reserve n
  | push x => exact h.push x

end Fits

theorem fits_run (l : List (Request α)) : Fits (run l) l := by
  induction l using List.reverseRecOn with
  | nil => exact ⟨rfl, Nat.le_refl 0, by simp [reserved], Nat.zero_le _⟩
  | append_singleton l q ih =>
    rw [run_concat]
    exact ih.perform q

theorem capacity_le_run (l l' : List (Request α)) : (run l).capacity ≤ (run (l ++ l')).capacity := by
  induction l' using List.reverseRecOn with
  | nil => rw [List.append_nil]
  | append_singleton l' q ih =>
    rw [← List.append_assoc, run_concat]
    exact Nat.le_trans ih (capacity_le_perform (fits_run (l ++ l')).room q)

/-- After any history of requests an array holds what was pushed, in that order, and reading by
position answers that or is a fault.  To reserve changes no element, and where it grows the array
it is asked for no less than the array holds.  The capacity never shrinks.  It is enough for what
the array holds and for what was ever reserved, and at most the larger of twice what the array
holds, of what was reserved, and of the capacity after a first push; a push that grows the array
at least doubles it.  A copy holds the same and has no room to spare. -/
theorem holds_pushed (l : List (Request α)) :
    let a := run l
    (a.toList = pushed l ∧ a.size = (pushed l).length) ∧
      (∀ (i : Nat) (h : i < (pushed l).length),
        a.get? i = some (pushed l)[i] ∧ a.fetch i = .ok (pushed l)[i]) ∧
      (∀ i, (pushed l).length ≤ i →
        a.get? i = none ∧ a.fetch i = .error (.indexOutOfBounds (pushed l).length i)) ∧
      (∀ n, (a.reserve n).toList = a.toList ∧ (a.capacity < n → a.size ≤ n)) ∧
      (∀ l', a.capacity ≤ (run (l ++ l')).capacity) ∧
      (a.size ≤ a.capacity ∧ (∀ n ∈ reserved l, n ≤ a.capacity) ∧
        a.capacity ≤ max 4 (max (2 * a.size) ((reserved l).foldl max 0))) ∧
      (∀ x, (a.push x).capacity ≠ a.capacity → 2 * a.capacity ≤ (a.push x).capacity) ∧
      a.copy.toList = a.toList ∧ a.copy.capacity = a.size := by
  intro a
  have h : Fits a l := fits_run l
  have hsize : a.size = (pushed l).length := by rw [← h.toList, length_toList]
  refine ⟨⟨h.toList, hsize⟩, fun i hi => ?_, fun i hi => ?_, fun n => ⟨toList_reserve a n, ?_⟩,
    capacity_le_run l, ⟨h.room, h.asked, h.slack⟩, fun x hx => ?_, rfl, rfl⟩
  · have hget : a.get? i = some (pushed l)[i] := by
      rw [get?_eq, h.toList, List.getElem?_eq_getElem hi]
    exact ⟨hget, by rw [fetch, hget]⟩
  · have hget : a.get? i = none := by rw [get?_eq, h.toList, List.getElem?_eq_none hi]
    exact ⟨hget, by rw [fetch, hget, hsize]⟩
  · have hroom := h.room
    omega
  · have hcapacity := capacity_push h.room x
    split at hcapacity
    · omega
    · contradiction

/-- Room is reserved for three elements, then three are pushed and one more, then room is reserved
again, first for less than there is. -/
theorem holds_pushed_past_reserve :
    let l : List (Request UInt32) :=
      [.reserve 3, .push 5, .push 6, .push 7, .push 8, .reserve 2, .reserve 9]
    let a := run l
    pushed l = [5, 6, 7, 8] ∧ a.get? 3 = some 8 ∧ a.fetch 4 = .error (.indexOutOfBounds 4 4) ∧
      (run (l.take 4)).capacity = 3 ∧ (run (l.take 5)).capacity = 6 ∧ a.capacity = 9 ∧
      a.copy.capacity = 4 := by
  intro l a
  obtain ⟨⟨_, hsize⟩, hin, hout, _, _, ⟨_, hreserved, hslack⟩, _, _, hcopy⟩ := holds_pushed l
  have hcapacity : a.capacity = 9 := by
    have hle := hreserved 9 (by decide)
    have hge : a.capacity ≤ 9 := hslack
    exact Nat.le_antisymm hge hle
  exact ⟨rfl, (hin 3 (by decide)).1, (hout 4 (by decide)).2, rfl, rfl, hcapacity,
    hcopy.trans hsize⟩

end GrowArray
end DesignStore
