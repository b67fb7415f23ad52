/-
Status bits of a record.

A flag set is a mask of sixteen bits.  Five bits have a meaning; the others are kept
as they are.
-/

namespace DesignStore

inductive Flag where
  | valid
  | selected
  | highlighted
  | modified
  | marked
  deriving DecidableEq, Repr

/-- The statuses of a record, one bit each. -/
structure Flags where
  bits : UInt16
  deriving DecidableEq, Repr, Inhabited

namespace Flags

def empty : Flags := ⟨0⟩

def single : Flag → Flags
  | .valid => ⟨1⟩
  | .selected => ⟨2⟩
  | .highlighted => ⟨4⟩
  | .modified => ⟨8⟩
  | .marked => ⟨16⟩

def insert (f g : Flags) : Flags :=
  ⟨f.bits ||| g.bits⟩

def remove (f g : Flags) : Flags :=
  ⟨f.bits &&& ~~~g.bits⟩

/-- Puts all statuses of `g` on or all of them off. -/
def set (f g : Flags) (on : Bool) : Flags :=
  if on then f.insert g else f.remove g

def contains (f g : Flags) : Bool :=
  f.bits &&& g.bits == g.bits

/-- Whether a record has a status. -/
def has (f : Flags) (s : Flag) : Bool :=
  f.contains (single s)

def ofList (l : List Flag) : Flags :=
  l.foldl (fun f s => f.insert (single s)) empty

end Flags
end DesignStore
