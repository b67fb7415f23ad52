/-
Opening scopes, and the cells of a design.
-/
import DesignStore.Database.Create
import DesignStore.Database.Teardown

namespace DesignStore

namespace ActiveScope

def kind : ActiveScope → RecordKind
  | .topCell => .cell
  | .techLib => .tech
  | .timingLib => .timing

def type : ActiveScope → ObjectType
  | .topCell => .cell
  | .techLib => .tech
  | .timingLib => .timing

end ActiveScope

namespace Database

/-- Gives an owner a position and opens its scope there.  The pool is created before. -/
def register (owner : ObjectId) (tag : ScopeTag) (parent : Option ObjectId) :
    Edit ObjectIndex := do
  let index ← onHierarchy (Hierarchy.insert owner)
  discard <| onRegistry (Registry.bindOwner owner tag)
  modify fun db => { db with scopes := { owner, tag, index, parent } :: db.scopes }
  return index

/-- Opens a scope that is in no other, owned by a record in its own pool. -/
def openScope (s : ActiveScope) : Edit ObjectId := do
  let (tag, id) ← Edit.placing s.type
    (onRegistry (Registry.createPoolWith (Pool.allocate s.kind s.type)))
  let index ← register id tag none
  discard <| update s.kind id fun r =>
    { header := r.header.setOwner index, body := s.kind.setHierIndex index r.body }
  return id

/-- Closes the active scope of a sort and opens a new one in its place. -/
def replaceActive (s : ActiveScope) (prepare : ObjectId → Edit Unit) : Edit ObjectId := do
  if let some old := (← get).hierarchy.active s then discard <| destroyScope old
  let id ← openScope s
  prepare id
  modify fun db => { db with hierarchy := db.hierarchy.setActive s (some id) }
  return id

/-! ## Naming -/

def updateCell (id : ObjectId) (f : Cell → Cell) : Edit Unit := do
  discard <| Edit.found id (← updateBody .cell id f)

/-- Names a cell by a symbol of the scope it belongs to, and answers the symbol. -/
def setCellName (cell : ObjectId) (name : String) : Edit SymbolIndex := do
  let symbol ← Edit.found cell (← onStorageScope cell (StorageScope.onSymbols do
    let symbol ← SymbolTable.intern name
    discard <| SymbolTable.addReference symbol cell
    return symbol))
  updateCell cell fun c => { c with name := some symbol }
  return symbol

/-! ## Libraries and cells -/

def initTopCell (name : String) : Edit ObjectId :=
  replaceActive .topCell fun id => do
    updateCell id fun c => { c with role := .top }
    discard <| setCellName id name

def initTechLib : Edit ObjectId :=
  replaceActive .techLib fun _ => pure ()

def initTimingLib : Edit ObjectId :=
  replaceActive .timingLib fun _ => pure ()

/-- Lists a cell among the child cells of `parent`, if that is a cell. -/
def attachCell (parent child : ObjectId) : Edit Unit := do
  if parent.type? = some .cell then
    let c ← Edit.found parent (← Edit.read (·.resolve .cell parent))
    let array ← appendId c.body.cells parent child
    updateCell parent fun c => { c with cells := some array }

def createCell (parent : ObjectId) (name : String) : Edit ObjectId := do
  let id ← create .cell .cell parent
  discard <| setCellName id name
  attachCell parent id
  return id

/-- Creates a nested cell and opens its scope.  The cell is a record of the scope of its
parent and owns a scope for the records in it.  Where no pool can be had the cell is
destroyed again. -/
def openNested (parent : ObjectId) : Edit ObjectId := do
  let some around ← Edit.read (·.scopeRoot parent) | Edit.refuse (.noPool .cell parent)
  let id ← create .cell .cell parent
  discard <| updateBody .cell id fun c => { (c : Cell) with role := .hier }
  let tag ← tryCatch (Edit.placing .cell (onRegistry Registry.createPool)) fun e => do
    discard <| destroy id
    throw e
  let index ← register id tag (some around)
  discard <| onScopeWhere (·.owner = around)
    (modify fun p => { p with children := p.children ++ [id] })
  updateCell id fun c => { c with hierIndex := index }
  return id

/-- Creates a nested cell with a name, and lists it among the child cells of its
parent. -/
def createHierCell (parent : ObjectId) (name : String) : Edit ObjectId := do
  let id ← openNested parent
  discard <| setCellName id name
  attachCell parent id
  return id

end Database
end DesignStore
