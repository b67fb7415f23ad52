/-
The header at the front of every record.

A header names its record, says which position of the hierarchy owns it, and carries
its type and its status.  A blank header names nothing.  The pool stamps the handle
and the type when it places a record; the database sets the owner.
-/
import DesignStore.Fault
import DesignStore.Header.Flags

namespace DesignStore

/-- The part of a record that is the same for every kind. -/
structure Header where
  id : ObjectId := ObjectId.null
  owner : ObjectIndex := ObjectIndex.invalid
  type : Option ObjectType := none
  flags : Flags := Flags.empty
  deriving DecidableEq, Repr

/-- A header as it is written to a stream: the position of its owner and the bare
handle, both as 64-bit numbers. -/
structure PersistedHeader where
  owner : UInt64
  id : UInt64
  deriving DecidableEq, Repr

namespace Header

instance : Inhabited Header := ⟨{}⟩

/-- A freshly placed record has a handle and a type, and is live and nothing else. -/
def stamp (h : Header) (id : ObjectId) (type : ObjectType) : Header :=
  { h with id, type := some type, flags := Flags.single .valid }

def isValid (h : Header) : Bool :=
  h.flags.has .valid

def setOwner (h : Header) (owner : ObjectIndex) : Header :=
  { h with owner }

def setFlag (h : Header) (s : Flag) (on : Bool) : Header :=
  { h with flags := h.flags.set (Flags.single s) on }

/-- Whether two headers are of the same record.  The status of a record is no part of
its identity. -/
def same (a b : Header) : Bool :=
  a.id == b.id && a.owner == b.owner && a.type == b.type

def externalize (h : Header) : PersistedHeader :=
  { owner := h.owner.val.toUInt64, id := h.id.raw }

/-- Takes over a persisted header that was written under the scope now being restored,
at position `context`, or outside any scope.  A header written elsewhere is a fault: to
accept it would attach the record to the wrong owner. -/
def restore (h : Header) (p : PersistedHeader) (context : Option ObjectIndex) :
    Except Fault Header :=
  match context with
  | some c =>
    if p.owner = c.val.toUInt64 then .ok { h with owner := c, id := ⟨p.id⟩ }
    else .error (.foreignOwner p.owner c p.id)
  | none =>
    if p.owner = 0 then .ok { h with owner := ObjectIndex.invalid, id := ⟨p.id⟩ }
    else .error (.ownerWithoutScope p.owner p.id)

instance : ToString Header where
  toString h :=
    let type := match h.type with
      | some t => t.text
      | none => "<unstamped>"
    s!"{type}#{h.id}(owner={h.owner})"

end Header

inductive HeaderEdit where
  | stamp (id : ObjectId) (type : ObjectType)
  | setOwner (owner : ObjectIndex)
  | setFlag (flag : Flag) (on : Bool)
  | restore (persisted : PersistedHeader) (context : Option ObjectIndex)
  deriving DecidableEq, Repr

namespace HeaderEdit

def apply : HeaderEdit → Header → Except Fault Header
  | .stamp id type, h => .ok (h.stamp id type)
  | .setOwner owner, h => .ok (h.setOwner owner)
  | .setFlag flag on, h => .ok (h.setFlag flag on)
  | .restore persisted context, h => h.restore persisted context

end HeaderEdit
end DesignStore
