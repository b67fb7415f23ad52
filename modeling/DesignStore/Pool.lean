/-
Pools: all records of one scope.

A pool has an arena for every record type that was placed in it, in the order of their
first use.  The first placement binds the type to a kind of record.  A handle says
which pool issued it and which arena its record is in, so a pool finds a record without
a search and has nothing to say about the handles of other pools.
-/
import DesignStore.Arena
import DesignStore.Focus
import DesignStore.Total

namespace DesignStore

/-- An arena, with the kind of record its type is bound to. -/
structure BoundArena where
  kind : RecordKind
  arena : Arena kind.Body

structure ArenaStats where
  type : ObjectType
  kind : RecordKind
  live : Nat
  free : Nat
  retired : Nat
  pages : Nat
  bytes : Nat
  deriving DecidableEq, Repr

namespace BoundArena

def type (b : BoundArena) : ObjectType :=
  b.arena.type

def as? (b : BoundArena) (k : RecordKind) : Option (Arena k.Body) :=
  if h : b.kind = k then some (h ▸ b.arena) else none

theorem as?_self (k : RecordKind) (a : Arena k.Body) :
    ({ kind := k, arena := a } : BoundArena).as? k = some a := by
  simp [as?]

/-- Places a record of a kind, which must be the one the type is bound to. -/
def allocate (k : RecordKind) : EStateM (Failure PoolError) BoundArena SlotKey := fun b =>
  match b with
  | { kind, arena } =>
    if kind = k then
      match arena.allocate with
      | .ok key arena => .ok key { kind, arena }
      | .error e arena => .error e { kind, arena }
    else .error (.refused (.typeMismatch arena.type kind k)) { kind, arena }

def free {ε : Type} (key : SlotKey) : EStateM ε BoundArena Bool := fun b =>
  match b with
  | { kind, arena } =>
    match arena.free key with
    | .ok r arena => .ok r { kind, arena }
    | .error e arena => .error e { kind, arena }

def update {ε : Type} (k : RecordKind) (key : SlotKey) (f : Record k.Body → Record k.Body) :
    EStateM (Failure ε) BoundArena (Option (Record k.Body)) := fun b =>
  match b.as? k with
  | none => .error (.fault (.kindMismatch b.type b.kind k .resolved)) b
  | some arena =>
    match arena.update key f with
    | .ok r arena => .ok r { kind := k, arena }
    | .error e arena => .error e { kind := k, arena }

def inspect? (b : BoundArena) (key : SlotKey) : Option Header :=
  (b.arena.inspect? key).map (·.header)

def modifyHeader (b : BoundArena) (key : SlotKey) (f : Header → Header) : BoundArena :=
  match b with
  | { kind, arena } => { kind, arena := arena.modifyHeader key f }

def liveIds (b : BoundArena) : List ObjectId :=
  b.arena.liveIds

/-- Bytes of the pages, and of what the live records hold beside their slots. -/
def bytes (b : BoundArena) : Nat :=
  b.arena.pages.size * (b.arena.config.pageSlots * b.kind.slotBytes) +
    total (fun r => b.kind.heapBytes r.body) b.arena.records

def stats (b : BoundArena) : ArenaStats :=
  { type := b.type
    kind := b.kind
    live := b.arena.live
    free := b.arena.freeList.length
    retired := b.arena.retired
    pages := b.arena.pages.size
    bytes := b.bytes }

end BoundArena

/-- The records of one scope, by type. -/
structure Pool where
  scope : ScopeTag
  config : PoolConfig
  arenas : List BoundArena := []

namespace Pool

def empty (scope : ScopeTag) (config : PoolConfig) : Pool :=
  { scope, config }

/-! ## Reading -/

/-- What a handle says, if this pool issued it. -/
def key? (p : Pool) (id : ObjectId) : Option SlotKey :=
  (SlotKey.unpack? id).filter (·.scope = p.scope)

def owns (p : Pool) (id : ObjectId) : Bool :=
  (p.key? id).isSome

def arena? (p : Pool) (t : ObjectType) : Option BoundArena :=
  p.arenas.find? (·.type = t)

/-- The header of the record a handle names.  A freed record is found until its slot is
reused. -/
def inspect? (p : Pool) (id : ObjectId) : Option Header := do
  let key ← p.key? id
  (← p.arena? key.type).inspect? key

def header? (p : Pool) (id : ObjectId) : Option Header :=
  (p.inspect? id).filter (·.isValid)

def isLive (p : Pool) (id : ObjectId) : Bool :=
  (p.header? id).isSome

/-- Reads a live record as one of kind `k`.  To name the wrong kind is a fault even if
the record is gone; for a handle of another pool there is nothing to be wrong about. -/
def resolve (p : Pool) (k : RecordKind) (id : ObjectId) :
    Except Fault (Option (Record k.Body)) :=
  match p.key? id with
  | none => .ok none
  | some key =>
    match p.arena? key.type with
    | none => .ok none
    | some b =>
      match b.as? k with
      | none => .error (.kindMismatch key.type b.kind k .resolved)
      | some a => .ok (a.get? key)

def records (p : Pool) (k : RecordKind) (t : ObjectType) :
    Except Fault (List (Record k.Body)) :=
  match p.arena? t with
  | none => .ok []
  | some b =>
    match b.as? k with
    | none => .error (.kindMismatch t b.kind k .iterated)
    | some a => .ok a.records

/-- The live handles, type by type in the order of first use. -/
def liveIds (p : Pool) : List ObjectId :=
  p.arenas.flatMap (·.liveIds)

def liveCount (p : Pool) : Nat :=
  total (·.arena.live) p.arenas

def stats (p : Pool) : List ArenaStats :=
  p.arenas.map (·.stats)

def bytes (p : Pool) : Nat :=
  total (·.bytes) p.arenas

/-! ## Writing -/

variable {ε α : Type}

def onArena (key : SlotKey) (x : EStateM ε BoundArena α) : EStateM ε Pool (Option α) := fun p =>
  match p with
  | { scope, config, arenas } =>
    match onFirst (·.type = key.type) x arenas with
    | .ok a arenas => .ok a { scope, config, arenas }
    | .error e arenas => .error e { scope, config, arenas }

/-- Places a blank record of kind `k` under a type.  The first placement under a type
makes its arena, whether or not the record then fits. -/
def allocate (k : RecordKind) (t : ObjectType) :
    EStateM (Failure PoolError) Pool ObjectId := fun p =>
  match p with
  | { scope, config, arenas } =>
    let fresh : BoundArena := { kind := k, arena := Arena.empty scope t config }
    match onFirstOr fresh (·.type = t) (BoundArena.allocate k) arenas with
    | .ok key arenas => .ok key.pack { scope, config, arenas }
    | .error e arenas => .error e { scope, config, arenas }

def free (id : ObjectId) : EStateM ε Pool Bool := fun p =>
  match p.key? id with
  | none => .ok false p
  | some key => (onArena key (BoundArena.free key)).map (·.getD false) p

def update (k : RecordKind) (id : ObjectId) (f : Record k.Body → Record k.Body) :
    EStateM (Failure ε) Pool (Option (Record k.Body)) := fun p =>
  match p.key? id with
  | none => .ok none p
  | some key => (onArena key (BoundArena.update k key f)).map (·.join) p

def modifyHeader (id : ObjectId) (f : Header → Header) : EStateM ε Pool (Option Header) := fun p =>
  match p.key? id, p.header? id with
  | some key, some h =>
    (onArena key (modify (·.modifyHeader key f))).map (fun _ => some (f h)) p
  | _, _ => .ok none p

def editHeader (id : ObjectId) (e : HeaderEdit) :
    EStateM (Failure ε) Pool (Option Header) := fun p =>
  match p.header? id with
  | none => .ok none p
  | some h =>
    match e.apply h with
    | .error f => .error (.fault f) p
    | .ok h => modifyHeader id (fun _ => h) p

end Pool
end DesignStore
