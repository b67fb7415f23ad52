/-
The closed set of record types.

Every stored record carries one `ObjectType`, and every handle embeds its tag, so
the type of a record is known from the handle alone.  Tags are the numbers 1 to 77
without a gap; 0 is no tag, so a zeroed byte never reads as a type.
-/

namespace DesignStore

/-- The type of a stored record, in tag order. -/
inductive ObjectType where
  -- Design hierarchy
  | cell | hierData | floorplan | cellSitePattern | foreign | density | densityLayer
  | terminal | bus | portShape | inst | pin | pinAntennaArea | net | specialNet | wire
  | specialWire | via
  -- Technology
  | tech | units | layer | layerMinArea | viaMaster | viaRule | nonDefaultRule | site | row
  | track | gcellGrid | fill | scanChain | region | physicalConstraint | grid | shape
  | layerGeometry | geometry | marker | group
  -- Timing
  | timing | clock | analysisView | analysisCorner | analysisMode | timingLib | timingCell
  | timingTerminal | timingPowerTerminal | arc | design | libSet | operatingConditions
  | timingUnits | timingCorner | wireLoadTable | wireLoad | wireLoadForArea
  | wireLoadSelection | tableAxis | tableTemplate | timingTable | scaleFactors
  | timingFunction | timingArc | timingArcData | designParasitics | netParasitics
  | parasiticNode | timingSequential
  -- Properties, arrays and format records
  | propertyDefinition | property | array | arraySegment | library | macroCell | component
  | componentPin
  deriving DecidableEq, Repr, Inhabited

namespace ObjectType

def all : Array ObjectType := #[
  .cell, .hierData, .floorplan, .cellSitePattern, .foreign, .density, .densityLayer,
  .terminal, .bus, .portShape, .inst, .pin, .pinAntennaArea, .net, .specialNet, .wire,
  .specialWire, .via, .tech, .units, .layer, .layerMinArea, .viaMaster, .viaRule,
  .nonDefaultRule, .site, .row, .track, .gcellGrid, .fill, .scanChain, .region,
  .physicalConstraint, .grid, .shape, .layerGeometry, .geometry, .marker, .group, .timing,
  .clock, .analysisView, .analysisCorner, .analysisMode, .timingLib, .timingCell,
  .timingTerminal, .timingPowerTerminal, .arc, .design, .libSet, .operatingConditions,
  .timingUnits, .timingCorner, .wireLoadTable, .wireLoad, .wireLoadForArea,
  .wireLoadSelection, .tableAxis, .tableTemplate, .timingTable, .scaleFactors,
  .timingFunction, .timingArc, .timingArcData, .designParasitics, .netParasitics,
  .parasiticNode, .timingSequential, .propertyDefinition, .property, .array, .arraySegment,
  .library, .macroCell, .component, .componentPin]

/-- The byte that stands for a type in handles and records. -/
def tag (t : ObjectType) : UInt8 :=
  UInt8.ofNat (t.ctorIdx + 1)

/-- The type a byte stands for.  Tags are dense, so the byte is a position in `all`. -/
def ofTag? (b : UInt8) : Option ObjectType :=
  if b = 0 then none else all[b.toNat - 1]?

theorem ofTag?_tag (t : ObjectType) : ofTag? t.tag = some t := by
  cases t <;> rfl

def declaredName : ObjectType → String
  | .cell => "Cell"
  | .hierData => "HierData"
  | .floorplan => "Floorplan"
  | .cellSitePattern => "CellSitePattern"
  | .foreign => "Foreign"
  | .density => "Density"
  | .densityLayer => "DensityLayer"
  | .terminal => "Term"
  | .bus => "Bus"
  | .portShape => "Port"
  | .inst => "Inst"
  | .pin => "Pin"
  | .pinAntennaArea => "PinAntennaArea"
  | .net => "Net"
  | .specialNet => "SpecialNet"
  | .wire => "Wire"
  | .specialWire => "SpecialWire"
  | .via => "Via"
  | .tech => "Tech"
  | .units => "Units"
  | .layer => "Layer"
  | .layerMinArea => "LayerMinArea"
  | .viaMaster => "ViaMaster"
  | .viaRule => "ViaRule"
  | .nonDefaultRule => "NonDefaultRule"
  | .site => "Site"
  | .row => "Row"
  | .track => "Track"
  | .gcellGrid => "GcellGrid"
  | .fill => "Fill"
  | .scanChain => "ScanChain"
  | .region => "Region"
  | .physicalConstraint => "PhysicalConstraint"
  | .grid => "Grid"
  | .shape => "Shape"
  | .layerGeometry => "LayerGeometry"
  | .geometry => "Geometry"
  | .marker => "Marker"
  | .group => "Group"
  | .timing => "Timing"
  | .clock => "Clock"
  | .analysisView => "AnalysisView"
  | .analysisCorner => "AnalysisCorner"
  | .analysisMode => "AnalysisMode"
  | .timingLib => "TLib"
  | .timingCell => "TCell"
  | .timingTerminal => "TTerm"
  | .timingPowerTerminal => "TPgTerm"
  | .arc => "Arc"
  | .design => "Design"
  | .libSet => "LibSet"
  | .operatingConditions => "OperatingConditions"
  | .timingUnits => "TUnits"
  | .timingCorner => "TPvt"
  | .wireLoadTable => "WireLoadTable"
  | .wireLoad => "WireLoad"
  | .wireLoadForArea => "WireLoadForArea"
  | .wireLoadSelection => "WireLoadSelection"
  | .tableAxis => "TableAxis"
  | .tableTemplate => "TableTemplate"
  | .timingTable => "TimingTable"
  | .scaleFactors => "ScaleFactors"
  | .timingFunction => "TFunction"
  | .timingArc => "TimingArc"
  | .timingArcData => "TimingArcData"
  | .designParasitics => "DesignParasitics"
  | .netParasitics => "NetParasitics"
  | .parasiticNode => "ParasiticNode"
  | .timingSequential => "TimingSequential"
  | .propertyDefinition => "PropertyDefinition"
  | .property => "Property"
  | .array => "Array"
  | .arraySegment => "ArraySegment"
  | .library => "Library"
  | .macroCell => "Macro"
  | .component => "Component"
  | .componentPin => "ComponentPin"

/-- The name under which design files refer to a type, for the types they refer to. -/
def formatName? : ObjectType → Option String
  | .cell => some "DESIGN"
  | .terminal => some "PORT"
  | .portShape => some "PORTSHAPE"
  | .inst => some "INST"
  | .pin => some "PIN"
  | .net => some "NET"
  | .specialNet => some "SPECIALNET"
  | .via => some "VIA"
  | .layer => some "LAYER"
  | .viaRule => some "VIARULE"
  | .nonDefaultRule => some "NONDEFAULTRULE"
  | .row => some "ROW"
  | .region => some "REGION"
  | .group => some "GROUP"
  | .design => some "DESIGN"
  | .library => some "LIBRARY"
  | .macroCell => some "MACRO"
  | .component => some "COMPONENT"
  | .componentPin => some "COMPONENTPIN"
  | _ => none

def name (t : ObjectType) : String :=
  t.formatName?.getD "UNKNOWN"

/-- The text of a type: its format name, else the name it is declared under. -/
def text (t : ObjectType) : String :=
  t.formatName?.getD t.declaredName

/-- The type with a given format name, whatever the case of its ASCII letters.  Two
types may share a name; the one with the lower tag is meant. -/
def parse? (s : String) : Option ObjectType :=
  all.find? fun t => t.formatName?.any fun n => n.toLower = s.toLower

instance : Ord ObjectType := ⟨fun a b => compare a.tag b.tag⟩

end ObjectType

structure UnknownTypeName where
  name : String
  deriving DecidableEq, Repr

def UnknownTypeName.message (u : UnknownTypeName) : String :=
  s!"unknown object type name: '{u.name}'"

def ObjectType.parse (s : String) : Except UnknownTypeName ObjectType :=
  match parse? s with
  | some t => .ok t
  | none => .error { name := s }

end DesignStore
