/-
Arenas: all records of one type in one pool.

An arena grows page by page and reuses freed slots, the last freed first.  A slot that
is reused moves to its next generation, which is part of the handle, so the handle of
an earlier occupant does not reach a later one.  Generations are bytes: a slot whose
last generation is freed is retired and never handed out again.

A freed slot keeps its header, without the live status, until it is reused.  Its body
is dropped at once.
-/
import DesignStore.Handle.SlotKey
import DesignStore.Record
import DesignStore.Refusal

namespace DesignStore

/-- A slot of a page, with the generation of its present occupant. -/
structure Slot (β : Type) where
  generation : UInt8
  record : Record β
  deriving DecidableEq, Repr

namespace Slot

variable {β : Type}

instance [Inhabited β] : Inhabited (Slot β) := ⟨{ generation := 0, record := default }⟩

def mapHeader (s : Slot β) (f : Header → Header) : Slot β :=
  { s with record := { s.record with header := f s.record.header } }

/-- Makes the occupant the live record that `k` names. -/
def stamp (k : SlotKey) (s : Slot β) : Slot β :=
  s.mapHeader fun h => h.stamp k.pack k.type

/-- Drops the occupant.  Its header stays, without the live status. -/
def clear [Inhabited β] (s : Slot β) : Slot β :=
  { s with record := { header := s.record.header.setFlag .valid false, body := default } }

end Slot

/-- The records of one type in one pool, with bodies in `β`. -/
structure Arena (β : Type) where
  scope : ScopeTag
  type : ObjectType
  config : PoolConfig
  /-- Pages in the order they were added.  All but the last are full. -/
  pages : Array (Array (Slot β)) := #[]
  freeList : List Place := []
  /-- Records placed and not freed. -/
  live : Nat := 0
  /-- Slots that have used up their generations. -/
  retired : Nat := 0
  deriving DecidableEq, Repr

namespace Arena

variable {β : Type}

def empty (scope : ScopeTag) (type : ObjectType) (config : PoolConfig) : Arena β :=
  { scope, type, config }

/-! ## Slots -/

def slotAt? (a : Arena β) (p : Place) : Option (Slot β) := do
  (← a.pages[p.page.toNat]?)[p.slot.toNat]?

def modifyAt (a : Arena β) (p : Place) (f : Slot β → Slot β) : Arena β :=
  { a with pages := a.pages.modify p.page.toNat fun page => page.modify p.slot.toNat f }

/-- The record a key names, live or freed: the slot is there and still in the key's
generation. -/
def inspect? (a : Arena β) (k : SlotKey) : Option (Record β) :=
  if k.scope = a.scope ∧ k.type = a.type then
    match a.slotAt? k.place with
    | some s => if s.generation = k.generation then some s.record else none
    | none => none
  else none

/-- The live record a key names. -/
def get? (a : Arena β) (k : SlotKey) : Option (Record β) :=
  (a.inspect? k).filter (·.isValid)

def update {ε : Type} (k : SlotKey) (f : Record β → Record β) :
    EStateM ε (Arena β) (Option (Record β)) := fun a =>
  if (a.get? k).isSome then
    let a := a.modifyAt k.place fun s => { s with record := f s.record }
    .ok (a.inspect? k) a
  else .ok none a

def modifyHeader (a : Arena β) (k : SlotKey) (f : Header → Header) : Arena β :=
  if (a.inspect? k).isSome then a.modifyAt k.place (·.mapHeader f) else a

/-- Applies a header change to the record a key names, live or freed. -/
def editHeader {ε : Type} (k : SlotKey) (e : HeaderEdit) :
    EStateM (Failure ε) (Arena β) Unit := fun a =>
  match a.inspect? k with
  | none => .ok () a
  | some r =>
    match e.apply r.header with
    | .ok h => .ok () (a.modifyHeader k fun _ => h)
    | .error f => .error (.fault f) a

/-! ## Placing records -/

variable [Inhabited β]

/-- Takes the next slot that was never used: on the last page, else on a new one.
Places are counted in sixteen bits. -/
def extend : EStateM (Failure PoolError) (Arena β) Place := fun a =>
  let fresh : Slot β := { generation := 0, record := Record.blank }
  let last := a.pages.size - 1
  match a.pages[last]?.map (·.size) with
  | some used =>
    if used < a.config.pageSlots then
      .ok { page := UInt16.ofNat last, slot := UInt16.ofNat used }
        { a with pages := a.pages.modify last (·.push fresh) }
    else addPage fresh a
  | none => addPage fresh a
where
  addPage (fresh : Slot β) : EStateM (Failure PoolError) (Arena β) Place := fun a =>
    if a.config.maxPages ≤ a.pages.size then
      .error (.refused (.capacityExceeded a.type a.pages.size)) a
    else if a.config.pageSlots = 0 then
      .error (.fault .emptyPage) a
    else
      .ok { page := UInt16.ofNat a.pages.size, slot := 0 }
        { a with pages := a.pages.push #[fresh] }

/-- Takes the slot that was freed last and moves it to its next generation, or else a
slot that was never used. -/
def claim : EStateM (Failure PoolError) (Arena β) (Place × UInt8) := fun a =>
  match a.freeList with
  | [] =>
    match extend a with
    | .ok p a => .ok (p, 0) a
    | .error e a => .error e a
  | p :: rest =>
    let a := { a with freeList := rest }
    match (a.slotAt? p).map (·.generation) with
    | some g =>
      .ok (p, g + 1) (a.modifyAt p fun _ => { generation := g + 1, record := Record.blank })
    | none => .error (.fault .unissuedFree) a

/-- Places a blank record, stamps its header, and answers where it is. -/
def allocate : EStateM (Failure PoolError) (Arena β) SlotKey := fun a =>
  match claim a with
  | .error e a => .error e a
  | .ok (place, generation) a =>
    let key : SlotKey := { scope := a.scope, type := a.type, generation, place }
    let a := { a with live := a.live + 1 }
    if (a.slotAt? place).isSome then
      .ok key (a.modifyAt place (Slot.stamp key))
    else .error (.fault .unissuedPlace) a

/-- Places a blank record and applies header changes to it, up to the first that is a
fault.  The record stays placed either way. -/
def allocateWith (edits : List HeaderEdit) :
    EStateM (Failure PoolError) (Arena β) SlotKey := do
  let key ← allocate
  for e in edits do editHeader key e
  return key

def free {ε : Type} (k : SlotKey) : EStateM ε (Arena β) Bool := fun a =>
  if (a.get? k).isSome then
    let live := a.live - 1
    let a := { a.modifyAt k.place Slot.clear with live }
    if k.generation = 255 then .ok true { a with retired := a.retired + 1 }
    else .ok true { a with freeList := k.place :: a.freeList }
  else .ok false a

omit [Inhabited β]

/-! ## Views -/

/-- All slots in use, by page and by slot. -/
def slots (a : Arena β) : List (Slot β) :=
  a.pages.toList.flatMap (·.toList)

def records (a : Arena β) : List (Record β) :=
  (a.slots.map (·.record)).filter (·.isValid)

def liveIds (a : Arena β) : List ObjectId :=
  a.records.map (·.header.id)

end Arena
end DesignStore
