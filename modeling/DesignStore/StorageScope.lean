/-
Storage scopes.

A scope is what belongs to one owner: the pool with its records, known by its tag, and
the tables its records share.  Scopes are nested: a nested scope knows the scope around
it, and a scope the scopes directly in it.
-/
import DesignStore.Table.Polygons
import DesignStore.Table.Properties
import DesignStore.Table.Symbols

namespace DesignStore

/-- What belongs to one owner, the pool by its tag. -/
structure StorageScope where
  owner : ObjectId
  tag : ScopeTag
  index : ObjectIndex
  /-- The owner of the scope around this one. -/
  parent : Option ObjectId
  /-- The owners of the scopes directly in this one, in the order they were opened. -/
  children : List ObjectId := []
  symbols : SymbolTable := {}
  polygons : PolygonTable := {}
  properties : PropertyTable := {}
  deriving DecidableEq, Repr

namespace StorageScope

def memory (s : StorageScope) : Nat :=
  s.symbols.memory + s.polygons.memory + s.properties.memory

variable {ε α : Type}

def onSymbols (x : EStateM ε SymbolTable α) : EStateM ε StorageScope α := fun s =>
  match s with
  | { owner, tag, index, parent, children, symbols, polygons, properties } =>
    match x symbols with
    | .ok a symbols =>
      .ok a { owner, tag, index, parent, children, symbols, polygons, properties }
    | .error e symbols =>
      .error e { owner, tag, index, parent, children, symbols, polygons, properties }

def onPolygons (x : EStateM ε PolygonTable α) : EStateM ε StorageScope α := fun s =>
  match s with
  | { owner, tag, index, parent, children, symbols, polygons, properties } =>
    match x polygons with
    | .ok a polygons =>
      .ok a { owner, tag, index, parent, children, symbols, polygons, properties }
    | .error e polygons =>
      .error e { owner, tag, index, parent, children, symbols, polygons, properties }

def onProperties (x : EStateM ε PropertyTable α) : EStateM ε StorageScope α := fun s =>
  match s with
  | { owner, tag, index, parent, children, symbols, polygons, properties } =>
    match x properties with
    | .ok a properties =>
      .ok a { owner, tag, index, parent, children, symbols, polygons, properties }
    | .error e properties =>
      .error e { owner, tag, index, parent, children, symbols, polygons, properties }

end StorageScope
end DesignStore
