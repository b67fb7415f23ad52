/-
Creating records, arrays and owners.
-/
import DesignStore.Database.Edit

namespace DesignStore
namespace Database

/-- Creates a blank record of kind `k` owned by `owner`, in the pool of the scope that
`owner` belongs to.  Nothing is changed unless the record is placed. -/
def create (k : RecordKind) (t : ObjectType) (owner : ObjectId) : Edit ObjectId := do
  if owner.isNull then Edit.refuse (.invalidOwner owner)
  let some index := (← get).ownerIndexFor? owner | Edit.refuse (.ownerNotResolved owner)
  let some root ← Edit.read (·.scopeRoot owner) | Edit.refuse (.noPool t owner)
  let placed ← onRegistry (Registry.onPoolOf root (Edit.placing t (Pool.allocate k t)))
  let some id := placed | Edit.refuse (.noPool t owner)
  discard <| modifyHeader id (·.setOwner index)
  return id

/-! ## Owners -/

/-- Gives a live record a position in the hierarchy, so that it can own records.  A
record that has a position keeps it. -/
def indexObject (id : ObjectId) : Edit (Option ObjectIndex) := do
  let db ← get
  if db.isLive id then
    match db.hierarchy.indexOf? id with
    | some index => return some index
    | none => some <$> onHierarchy (Hierarchy.insert id)
  else return none

/-- Makes `owner` the owner of a record, or the owner's owner if it has no position.
Answers whether the record is live. -/
def setOwner (id owner : ObjectId) : Edit Bool := do
  if owner.isNull then throw (.fault (.nullOwner id))
  let some index := (← get).ownerIndexFor? owner | throw (.fault (.unindexedOwner owner id))
  return (← modifyHeader id (·.setOwner index)).isSome

/-- Puts owners back at the positions they were exported from. -/
def restoreHierarchy : List (ObjectIndex × ObjectId) → Edit Unit
  | [] => pure ()
  | e :: l => do
    onHierarchy (Hierarchy.place e.1 e.2)
    restoreHierarchy l

/-! ## Arrays of handles -/

def defaultArrayCapacity : Nat := 4

/-- Makes room for `capacity` handles in an array.  More room than there can be is a
fault. -/
def reserveIds (id : ObjectId) (capacity : Nat) : Edit Unit :=
  if capacity * RecordKind.ids.elementBytes ≤ GrowArray.maxBytes then
    discard <| updateBody .ids id (·.reserve capacity)
  else throw (.fault .capacityOverflow)

/-- Creates an array, and makes room in it once it is placed. -/
def createIdArray (owner : ObjectId) (capacity : Nat) : Edit ObjectId := do
  let id ← create .ids .array owner
  reserveIds id capacity
  return id

/-- Adds a handle to an array, or to a new array of `owner` if none is given.  Answers
the array. -/
def appendId (array : Option ObjectId) (owner value : ObjectId) : Edit ObjectId := do
  let id ← match array with
    | some id => pure id
    | none => createIdArray owner defaultArrayCapacity
  discard <| Edit.found id (← updateBody .ids id (·.push value))
  return id

end Database
end DesignStore
