/-
The outlines used in a scope.

An outline is stored once and has a fixed position, which is answered as a word of 32
bits; none is ever removed.
-/
import DesignStore.Record
import DesignStore.Total

namespace DesignStore

/-- A layout coordinate in database units. -/
structure Point where
  x : Int32
  y : Int32
  deriving DecidableEq, Repr

structure PolygonTable where
  polygons : Array (List Point) := #[]
  deriving DecidableEq, Repr

namespace PolygonTable

instance : Inhabited PolygonTable := ⟨{}⟩

def size (t : PolygonTable) : Nat :=
  t.polygons.size

def get? (t : PolygonTable) (i : PolygonIndex) : Option (List Point) :=
  t.polygons[(i.val : Nat)]?

/-- Stores an outline at the end of the table, and answers where. -/
def add {ε : Type} (points : List Point) : EStateM ε PolygonTable PolygonIndex := fun t =>
  .ok ⟨t.size⟩ { polygons := t.polygons.push points }

def memory (t : PolygonTable) : Nat :=
  total (fun points => 8 * points.length) t.polygons.toList

end PolygonTable
end DesignStore
