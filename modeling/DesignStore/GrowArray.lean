/-
Append-only arrays with an exact capacity.

Arrays of this kind are records of the store, and the memory they are charged for is
their capacity.  So the capacity is part of the value: reserving sets it to what was
asked for, and a push on a full array doubles it.
-/
import DesignStore.Fault

namespace DesignStore

/-- The elements of an array in the order they were added, and the number of elements
it can hold before it grows. -/
structure GrowArray (α : Type) where
  items : Array α := #[]
  capacity : Nat := 0
  deriving DecidableEq, Repr

namespace GrowArray

variable {α : Type}

instance : Inhabited (GrowArray α) := ⟨{}⟩

/-- The capacity of an array after its first push. -/
def minCapacity : Nat := 4

/-- The bytes that can be asked for at once: a size is a signed word of 64 bits. -/
def maxBytes : Nat := UInt64.size / 2 - 1

def size (a : GrowArray α) : Nat :=
  a.items.size

def isEmpty (a : GrowArray α) : Bool :=
  a.items.isEmpty

def get? (a : GrowArray α) (i : Nat) : Option α :=
  a.items[i]?

/-- The element at a position.  To read past the end is a fault. -/
def fetch (a : GrowArray α) (i : Nat) : Except Fault α :=
  match a.get? i with
  | some x => .ok x
  | none => .error (.indexOutOfBounds a.size i)

def toList (a : GrowArray α) : List α :=
  a.items.toList

/-- Makes room for `extra` elements beside those there are, and for no more. -/
def extend (a : GrowArray α) (extra : Nat) : GrowArray α :=
  { a with capacity := max a.capacity (a.size + extra) }

/-- Makes room for `n` elements in all. -/
def reserve (a : GrowArray α) (n : Nat) : GrowArray α :=
  if a.capacity < n then a.extend (n - a.size) else a

/-- Adds an element at the end.  A full array first doubles, to at least
`minCapacity`. -/
def push (a : GrowArray α) (x : α) : GrowArray α :=
  let a := if a.items.size = a.capacity then a.reserve (max (2 * a.capacity) minCapacity) else a
  { a with items := a.items.push x }

def copy (a : GrowArray α) : GrowArray α :=
  { a with capacity := a.items.size }

end GrowArray
end DesignStore
