/-
What a handle says about the record it names.

From the top bit down a handle holds the scope tag (16 bits), the tag of the record
type (8), the generation of the slot (8), the page (16) and the slot on that page (16).
`pack` writes these fields and `unpack?` reads them, so a record is found from its
handle without a search.
-/
import DesignStore.ObjectType
import DesignStore.Handle

namespace DesignStore

/-- The place of a slot in an arena. -/
structure Place where
  page : UInt16
  slot : UInt16
  deriving DecidableEq, Repr, Inhabited

/-- The location of a record: the pool, the arena in it, the place in the arena, and
which of the slot's successive occupants is meant. -/
structure SlotKey where
  scope : ScopeTag
  type : ObjectType
  generation : UInt8
  place : Place
  deriving DecidableEq, Repr, Inhabited

namespace SlotKey

def pack (k : SlotKey) : ObjectId :=
  ⟨(k.scope.val.toUInt64 <<< 48) ||| (k.type.tag.toUInt64 <<< 40) |||
    (k.generation.toUInt64 <<< 32) ||| (k.place.page.toUInt64 <<< 16) |||
    k.place.slot.toUInt64⟩

/-- Reads a handle.  There is nothing to read in a handle without a scope tag, the null
handle among them, nor in one whose type byte is no tag. -/
def unpack? (id : ObjectId) : Option SlotKey := do
  let scope ← ScopeTag.of? id
  let type ← ObjectType.ofTag? (id.raw >>> 40).toUInt8
  return {
    scope
    type
    generation := (id.raw >>> 32).toUInt8
    place := { page := (id.raw >>> 16).toUInt16, slot := id.raw.toUInt16 } }

end SlotKey

/-- The record type a handle embeds. -/
def ObjectId.type? (id : ObjectId) : Option ObjectType :=
  (SlotKey.unpack? id).map (·.type)

end DesignStore
