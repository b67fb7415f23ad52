/-
Broken promises of a caller.

A refusal is an answer: the call was in order and could not be served.  A fault is
not: the caller asked for something that no store can mean, such as reading a record
as another kind, or the ownership data it was handed contains a cycle.  A call that
meets a fault stops there and keeps what it had done so far.
-/
import DesignStore.ObjectType
import DesignStore.Handle
import DesignStore.Record.Kind

namespace DesignStore

inductive Access where
  | resolved
  | iterated
  deriving DecidableEq, Repr

/-- The ways a call can be out of order. -/
inductive Fault where
  /-- Records of `type` are stored as one kind and were asked for as another. -/
  | kindMismatch (type : ObjectType) (stored asked : RecordKind) (access : Access)
  /-- A persisted header was written under another scope than it is restored under. -/
  | foreignOwner (owner : UInt64) (context : ObjectIndex) (id : UInt64)
  /-- A persisted header has an owner and is restored outside any scope. -/
  | ownerWithoutScope (owner id : UInt64)
  | indexOutOfBounds (size index : Nat)
  | nullIndexed
  | reservedPosition
  | hierarchyFull
  | nullOwner (id : ObjectId)
  /-- The owner has no position in the hierarchy, nor an owner to take one from. -/
  | unindexedOwner (owner id : ObjectId)
  /-- The owners of a record do not reach a scope within the allowed number of links. -/
  | ownerChain (id : ObjectId) (limit : Nat)
  /-- There is no asking for as much memory as the elements of an array would take. -/
  | capacityOverflow
  | emptyPage
  /-- A place on the free list was never handed out. -/
  | unissuedFree
  /-- A place that was just handed out holds no slot. -/
  | unissuedPlace
  deriving DecidableEq, Repr

namespace Access

def verb : Access → String
  | .resolved => "resolved"
  | .iterated => "iterated"

end Access

namespace Fault

def message : Fault → String
  | .kindMismatch type stored asked access =>
    s!"record type mismatch: {type.text} is stored as {stored.typeName}, " ++
      s!"{access.verb} as {asked.typeName}"
  | .foreignOwner owner context id => s!"owner id {owner} mismatch {context} in object {id}"
  | .ownerWithoutScope owner id => s!"owner {owner} mismatch null context in object {id}"
  | .indexOutOfBounds size index =>
    s!"index out of bounds: the len is {size} but the index is {index}"
  | .nullIndexed => "cannot index the null object id"
  | .reservedPosition => "hierarchy slot 0 is reserved"
  | .hierarchyFull => "hierarchy table exceeds u32 slots: TryFromIntError(())"
  | .nullOwner id => s!"cannot set null owner on object {id}"
  | .unindexedOwner owner id => s!"owner {owner} of object {id} has no hierarchy index"
  | .ownerChain id limit => s!"owner chain of object {id} exceeds {limit} links"
  | .capacityOverflow => "capacity overflow"
  | .emptyPage => "page_slots >= 1, so a fresh page always fits"
  | .unissuedFree => "free list only holds issued slots"
  | .unissuedPlace => "slot was just issued"

end Fault
end DesignStore
