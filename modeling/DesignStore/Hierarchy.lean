/-
The ownership hierarchy: positions and the handles of the owners at them.

A record keeps the position of its owner instead of the owner's handle.  Positions are
handed out in rising order and never again: when an owner goes, its position stays
empty, so a record that still carries the position has no owner rather than a new one.
Position 0 belongs to no owner.

The table also notes which top cell, technology library and timing library are open.
-/
import DesignStore.Assoc
import DesignStore.Fault
import DesignStore.Refusal

namespace DesignStore

inductive ActiveScope where
  | topCell
  | techLib
  | timingLib
  deriving DecidableEq, Repr

/-- Owners and their positions, with the scopes that are active. -/
structure Hierarchy where
  /-- The owner at each position; the null handle where there is none. -/
  owners : Array ObjectId := #[ObjectId.null]
  /-- The newest position of each owner. -/
  positions : Assoc ObjectId ObjectIndex := {}
  topCell : Option ObjectId := none
  techLib : Option ObjectId := none
  timingLib : Option ObjectId := none
  deriving DecidableEq, Repr

namespace Hierarchy

def empty : Hierarchy := {}

instance : Inhabited Hierarchy := ⟨empty⟩

/-! ## Reading -/

/-- The number of positions, the empty ones included. -/
def size (h : Hierarchy) : Nat :=
  h.owners.size

def isEmpty (h : Hierarchy) : Bool :=
  h.owners.size == 1

def liveCount (h : Hierarchy) : Nat :=
  h.positions.size

def indexOf? (h : Hierarchy) (id : ObjectId) : Option ObjectIndex :=
  h.positions.get? id

def idAt? (h : Hierarchy) (i : ObjectIndex) : Option ObjectId := do
  (← h.owners[i.toNat]?).nonNull?

/-- The positions that have an owner, in rising order. -/
def entries (h : Hierarchy) : List (ObjectIndex × ObjectId) :=
  ((h.owners.toList.zipIdx.drop 1).filter fun e => !e.1.isNull).map fun e =>
    (⟨UInt32.ofNat e.2⟩, e.1)

def active (h : Hierarchy) : ActiveScope → Option ObjectId
  | .topCell => h.topCell
  | .techLib => h.techLib
  | .timingLib => h.timingLib

/-! ## Writing -/

variable {ε : Type}

/-- Gives an owner the next position.  An owner that has a position gets another one and
is found at the newer. -/
def insert (id : ObjectId) : EStateM (Failure ε) Hierarchy ObjectIndex := fun h =>
  if id.isNull then .error (.fault .nullIndexed) h
  else if UInt32.size ≤ h.owners.size then .error (.fault .hierarchyFull) h
  else
    let index : ObjectIndex := ⟨UInt32.ofNat h.owners.size⟩
    .ok index
      { h with owners := h.owners.push id, positions := h.positions.insert id index }

/-- Empties the newest position of an owner.  Answers whether it had one. -/
def delete (id : ObjectId) : EStateM ε Hierarchy Bool := fun h =>
  match h.positions.get? id with
  | none => .ok false h
  | some i =>
    .ok true
      { h with
        owners := h.owners.setIfInBounds i.toNat ObjectId.null
        positions := h.positions.erase id }

/-- Puts an owner at a position, adding empty positions up to it.  An owner that was
there, and is not found at another position, is found no longer. -/
def place (index : ObjectIndex) (id : ObjectId) : EStateM (Failure ε) Hierarchy Unit := fun h =>
  if index.isInvalid then .error (.fault .reservedPosition) h
  else if id.isNull then .error (.fault .nullIndexed) h
  else
    let i := index.toNat
    let positions :=
      match h.idAt? index with
      | some previous =>
        if h.indexOf? previous = some index then h.positions.erase previous else h.positions
      | none => h.positions
    let owners := h.owners ++ Array.replicate (i + 1 - h.owners.size) ObjectId.null
    .ok ()
      { h with
        owners := owners.setIfInBounds i id
        positions := positions.insert id index }

def deleteWhere (h : Hierarchy) (p : ObjectId → Bool) : Hierarchy :=
  { h with
    owners := h.positions.entries.foldl
      (fun owners e => if p e.1 then owners.setIfInBounds e.2.toNat ObjectId.null else owners)
      h.owners
    positions := h.positions.filter fun id _ => !p id }

def setActive (h : Hierarchy) (s : ActiveScope) (id : Option ObjectId) : Hierarchy :=
  match s with
  | .topCell => { h with topCell := id }
  | .techLib => { h with techLib := id }
  | .timingLib => { h with timingLib := id }

def clearActive (h : Hierarchy) (id : ObjectId) : Hierarchy :=
  let keep : Option ObjectId → Option ObjectId := Option.filter (· ≠ id)
  { h with
    topCell := keep h.topCell
    techLib := keep h.techLib
    timingLib := keep h.timingLib }

end Hierarchy
end DesignStore
