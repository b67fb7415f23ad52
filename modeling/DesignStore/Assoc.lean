/-
Finite maps that remember the order in which their keys were added.

A key that is added again keeps its position; a key that is removed and added again
goes to the end.  The order is part of what a map shows, so a map is the list of its
pairs.  `get?_insert` and `get?_erase` say what a map answers after a change.
-/

namespace DesignStore

/-- A finite map, as its pairs from the oldest key to the newest. -/
structure Assoc (κ α : Type) where
  entries : List (κ × α) := []
  deriving DecidableEq, Repr

namespace Assoc

variable {κ α : Type} [DecidableEq κ]

instance : Inhabited (Assoc κ α) := ⟨{}⟩

def keys (m : Assoc κ α) : List κ :=
  m.entries.map (·.1)

def values (m : Assoc κ α) : List α :=
  m.entries.map (·.2)

def size (m : Assoc κ α) : Nat :=
  m.entries.length

def isEmpty (m : Assoc κ α) : Bool :=
  m.entries.isEmpty

def get? (m : Assoc κ α) (k : κ) : Option α :=
  (m.entries.find? (·.1 = k)).map (·.2)

def contains (m : Assoc κ α) (k : κ) : Bool :=
  (m.get? k).isSome

/-- The pairs with `k` bound to `v`: in place if `k` is bound already, else at the
end. -/
def put (k : κ) (v : α) : List (κ × α) → List (κ × α)
  | [] => [(k, v)]
  | p :: l => if p.1 = k then (k, v) :: l else p :: put k v l

def insert (m : Assoc κ α) (k : κ) (v : α) : Assoc κ α :=
  { entries := put k v m.entries }

def filter (m : Assoc κ α) (p : κ → α → Bool) : Assoc κ α :=
  { entries := m.entries.filter fun e => p e.1 e.2 }

def erase (m : Assoc κ α) (k : κ) : Assoc κ α :=
  { entries := m.entries.filter (·.1 ≠ k) }

theorem get?_insert (m : Assoc κ α) (k j : κ) (v : α) :
    (m.insert k v).get? j = if j = k then some v else m.get? j := by
  obtain ⟨l⟩ := m
  simp only [insert, get?]
  induction l with
  | nil => by_cases h : j = k <;> simp [put, h, eq_comm]
  | cons p l ih =>
    by_cases hp : p.1 = k
    · by_cases h : j = k
      · simp [put, hp, h]
      · simp [put, hp, h, Ne.symm h]
    · by_cases h : p.1 = j
      · have hj : j ≠ k := h ▸ hp
        simp [put, h, hj]
      · simp [put, hp, h, ih]

theorem get?_erase (m : Assoc κ α) (k j : κ) :
    (m.erase k).get? j = if j = k then none else m.get? j := by
  obtain ⟨l⟩ := m
  simp only [erase, get?]
  induction l with
  | nil => simp
  | cons p l ih =>
    by_cases hp : p.1 = k
    · by_cases h : j = k
      · simp_all
      · simp_all [Ne.symm h]
    · by_cases h : p.1 = j
      · have hj : j ≠ k := h ▸ hp
        simp_all
      · simp_all

end Assoc
end DesignStore
