/-
Small netlists and libraries.

The records of a netlist refer to each other in both directions: an instance lists its
pins and a pin names its instance, a net lists its pins and a pin names its net.  The
operations here set both sides.
-/
import DesignStore.Database.Cells

namespace DesignStore
namespace Netlist

open Database

def smallDatabase : Database :=
  Database.empty { pool := { pageSlots := 4 } }

def sampleDesign : Database :=
  match (do discard <| initTopCell "top"; discard initTechLib : Edit Unit) smallDatabase with
  | .ok _ db => db
  | .error _ db => db

def addInst (owner : ObjectId) (x y : Int32) : Edit ObjectId := do
  let id ← create .inst .inst owner
  discard <| updateBody .inst id fun i => { (i : Inst) with x, y }
  return id

def addPin (inst : ObjectId) : Edit ObjectId := do
  let pin ← create .pin .pin inst
  discard <| updateBody .pin pin fun p => { (p : Pin) with inst := some inst }
  let i ← Edit.found inst (← Edit.read (·.resolve .inst inst))
  let pins ← appendId i.body.pins inst pin
  discard <| updateBody .inst inst fun i => { (i : Inst) with pins := some pins }
  return pin

def addNet (owner : ObjectId) : Edit ObjectId :=
  create .net .net owner

/-- Connects a pin to a net: lists it in the net, then names the net in it. -/
def connect (net pin : ObjectId) : Edit Unit := do
  let n ← Edit.found net (← Edit.read (·.resolve .net net))
  let pins ← appendId n.body.pins net pin
  discard <| Edit.found net (← updateBody .net net fun n => { (n : Net) with pins := some pins })
  discard <| Edit.found pin (← updateBody .pin pin fun p => { (p : Pin) with net := some net })

def addLayer (tech : ObjectId) (outline : List Point) : Edit ObjectId := do
  let shape ← Edit.found tech (← onStorageScope tech
    (StorageScope.onPolygons (PolygonTable.add outline)))
  let layer ← create .layer .layer tech
  discard <| updateBody .layer layer fun l => { (l : Layer) with shape := some shape }
  let t ← Edit.found tech (← Edit.read (·.resolve .tech tech))
  let layers ← appendId t.body.layers tech layer
  discard <| Edit.found tech
    (← updateBody .tech tech fun t => { (t : Tech) with layers := some layers })
  return layer

def addTimingCell (timing : ObjectId) : Edit ObjectId := do
  let cell ← create .timingCell .timingCell timing
  let t ← Edit.found timing (← Edit.read (·.resolve .timing timing))
  let models ← appendId t.body.models timing cell
  discard <| Edit.found timing
    (← updateBody .timing timing fun t => { (t : Timing) with models := some models })
  return cell

/-- Adds placement number `i`, to the right of the origin and below it by its number. -/
def addPlacement (owner : ObjectId) (i : Nat) : Edit ObjectId := do
  let id ← create .placement .inst owner
  let d := Int32.ofNat i
  discard <| updateBody .placement id fun p =>
    { (p : Placement) with originX := d, originY := -d }
  return id

/-- Opens a top cell and fills it with `n` placements.  Answers the top cell and the
placements in the order they were made. -/
def populate (n : Nat) : Edit (ObjectId × List ObjectId) := do
  let top ← initTopCell "bench"
  return (top, ← (List.range n).mapM (addPlacement top))

end Netlist
end DesignStore
