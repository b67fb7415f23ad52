/-
Records: a header and a body.

Every body starts blank: numbers are zero, references absent, arrays empty.  Records
refer to each other by handle, never by position, so a record can be moved or freed
without touching the records that name it.
-/
import DesignStore.GrowArray
import DesignStore.Header

namespace DesignStore

/-! Records keep positions in tables as words of 32 bits.  A count is cut to a word where it is
stored, and a word is a count again where it is looked up. -/

scoped instance wordOfCount : CoeHead Nat UInt32 := ⟨UInt32.ofNat⟩

scoped instance countOfWord : CoeTail UInt32 Nat := ⟨UInt32.toNat⟩

/-- The position of a name in the symbol table of a scope. -/
structure SymbolIndex where
  val : UInt32
  deriving DecidableEq, Repr

/-- The position of an outline in the polygon table of a scope. -/
structure PolygonIndex where
  val : UInt32
  deriving DecidableEq, Repr

/-- A placed instance.  Its pins are kept in an array of handles, made with the first
pin. -/
structure Inst where
  x : Int32 := 0
  y : Int32 := 0
  pins : Option ObjectId := none
  deriving DecidableEq, Repr

/-- A net.  The pins on it are kept in an array of handles, made with the first pin. -/
structure Net where
  pins : Option ObjectId := none
  deriving DecidableEq, Repr

/-- A pin, the instance it is on and the net it is connected to. -/
structure Pin where
  inst : Option ObjectId := none
  net : Option ObjectId := none
  deriving DecidableEq, Repr

structure Layer where
  shape : Option PolygonIndex := none
  deriving DecidableEq, Repr

structure TimingCell where
  arcs : UInt32 := 0
  deriving DecidableEq, Repr

structure Placement where
  originX : Int32 := 0
  originY : Int32 := 0
  orient : UInt8 := 0
  pins : Option ObjectId := none
  deriving DecidableEq, Repr

inductive CellRole where
  /-- A cell in the scope of the cell that contains it. -/
  | leaf
  /-- A nested cell with a scope of its own. -/
  | hier
  | top
  deriving DecidableEq, Repr

namespace CellRole

def text : CellRole → String
  | .leaf => "leaf"
  | .hier => "hier"
  | .top => "top"

end CellRole

/-- A design cell.  Its name is a symbol of the scope the cell owns or, for a leaf, of
the scope it is in.  The cells in it are kept in an array of handles. -/
structure Cell where
  role : CellRole := .leaf
  hierIndex : ObjectIndex := ObjectIndex.invalid
  name : Option SymbolIndex := none
  cells : Option ObjectId := none
  deriving DecidableEq, Repr

namespace Cell

def isHier (c : Cell) : Bool :=
  c.role != .leaf

end Cell

/-- The root record of a technology library, with an array of its layers. -/
structure Tech where
  hierIndex : ObjectIndex := ObjectIndex.invalid
  layers : Option ObjectId := none
  deriving DecidableEq, Repr

/-- The root record of a timing library, with an array of its cells. -/
structure Timing where
  hierIndex : ObjectIndex := ObjectIndex.invalid
  models : Option ObjectId := none
  deriving DecidableEq, Repr

/-- A record: the header the pool looks at, and a body it does not. -/
structure Record (β : Type) where
  header : Header
  body : β
  deriving DecidableEq, Repr

namespace Record

def blank {β : Type} [Inhabited β] : Record β :=
  { header := {}, body := default }

instance {β : Type} [Inhabited β] : Inhabited (Record β) := ⟨blank⟩

def isValid {β : Type} (r : Record β) : Bool :=
  r.header.isValid

end Record

namespace RecordKind

@[reducible] def Body : RecordKind → Type
  | .bare => Unit
  | .inst => Inst
  | .net => Net
  | .pin => Pin
  | .layer => Layer
  | .timingCell => TimingCell
  | .placement => Placement
  | .cell => Cell
  | .tech => Tech
  | .timing => Timing
  | .ids => GrowArray ObjectId
  | .bytes => GrowArray UInt8
  | .words => GrowArray UInt32
  | .longs => GrowArray UInt64

def blankBody : (k : RecordKind) → k.Body
  | .bare => ()
  | .inst => ({} : Inst)
  | .net => ({} : Net)
  | .pin => ({} : Pin)
  | .layer => ({} : Layer)
  | .timingCell => ({} : TimingCell)
  | .placement => ({} : Placement)
  | .cell => ({} : Cell)
  | .tech => ({} : Tech)
  | .timing => ({} : Timing)
  | .ids => ({} : GrowArray ObjectId)
  | .bytes => ({} : GrowArray UInt8)
  | .words => ({} : GrowArray UInt32)
  | .longs => ({} : GrowArray UInt64)

instance (k : RecordKind) : Inhabited k.Body := ⟨k.blankBody⟩

/-- Bytes a body holds outside its slot: the room an array has reserved. -/
def heapBytes : (k : RecordKind) → k.Body → Nat
  | .ids, a => a.capacity * RecordKind.ids.elementBytes
  | .bytes, a => a.capacity * RecordKind.bytes.elementBytes
  | .words, a => a.capacity * RecordKind.words.elementBytes
  | .longs, a => a.capacity * RecordKind.longs.elementBytes
  | _, _ => 0

def memory (k : RecordKind) (b : k.Body) : Nat :=
  k.recordBytes + k.heapBytes b

/-- Notes in the root record of a scope which position of the hierarchy the scope has.
Other kinds of record own no scope and stay as they are. -/
def setHierIndex : (k : RecordKind) → ObjectIndex → k.Body → k.Body
  | .cell, i, c => { (c : Cell) with hierIndex := i }
  | .tech, i, t => { (t : Tech) with hierIndex := i }
  | .timing, i, t => { (t : Timing) with hierIndex := i }
  | _, _, b => b

end RecordKind
end DesignStore
