/-
The database: the hierarchy, the pools and the scopes of one design run.

A record lives in the pool of a scope and carries the hierarchy position of its owner.
Owners are scope owners (the top cell, nested cells, libraries) or records that were
given a position of their own.  The scope of a record is found by going from owner to
owner until one owns a scope; the number of steps is bounded, since ownership that is
written by hand can go in a circle.

This module holds the state and everything that can be read from it.
-/
import DesignStore.Hierarchy
import DesignStore.Registry
import DesignStore.StorageScope

namespace DesignStore

structure Database where
  config : StoreConfig
  hierarchy : Hierarchy := Hierarchy.empty
  registry : Registry
  /-- The open scopes, the newest first. -/
  scopes : List StorageScope := []

/-- A change to a database.  A change that fails keeps what it had done. -/
abbrev Edit (α : Type) : Type :=
  EStateM (Failure DbError) Database α

namespace Database

def empty (config : StoreConfig) : Database :=
  { config, registry := Registry.empty config.pool }

def new (config : StoreConfig) : Except DbError Database :=
  match config.validate with
  | .error e => .error e
  | .ok () => .ok (empty config)

instance : Inhabited Database := ⟨empty {}⟩

/-! ## Records -/

/-- The header of the record a handle names.  A destroyed record is found until its slot
is reused or its pool removed. -/
def inspect? (db : Database) (id : ObjectId) : Option Header := do
  (← db.registry.lookup? id).inspect? id

def header? (db : Database) (id : ObjectId) : Option Header := do
  (← db.registry.lookup? id).header? id

def isLive (db : Database) (id : ObjectId) : Bool :=
  (db.header? id).isSome

def resolve (db : Database) (k : RecordKind) (id : ObjectId) :
    Except Fault (Option (Record k.Body)) :=
  match db.registry.lookup? id with
  | none => .ok none
  | some pool => pool.resolve k id

def externalize? (db : Database) (id : ObjectId) : Option PersistedHeader :=
  (db.header? id).map (·.externalize)

/-! ## Owners -/

/-- The owner of a live record.  There is none if the owner's position has been
emptied. -/
def ownerId? (db : Database) (id : ObjectId) : Option ObjectId := do
  db.hierarchy.idAt? (← db.header? id).owner

/-- The position a record carries that is owned by `owner`: the owner's own, or else the
position of the owner's owner. -/
def ownerIndexFor? (db : Database) (owner : ObjectId) : Option ObjectIndex :=
  db.hierarchy.indexOf? owner <|>
    ((db.header? owner).map (·.owner)).filter (!·.isInvalid)

/-- Goes from owner to owner until one owns a scope, past at most `n` records: that
owner, or none where the owners end, and no answer where `n` records were passed. -/
def climb (db : Database) : Nat → ObjectId → Option (Option ObjectId)
  | 0, _ => none
  | n + 1, id =>
    if db.registry.isScopeOwner id then some (some id)
    else
      match db.ownerId? id with
      | none => some none
      | some owner => db.climb n owner

/-- The scope owner a record belongs to: the record itself if it owns a scope, else the
first of its owners that does. -/
def scopeRoot (db : Database) (id : ObjectId) : Except Fault (Option ObjectId) :=
  match db.climb (db.config.maxOwnerDepth + 1) id with
  | some root => .ok root
  | none => .error (.ownerChain id db.config.maxOwnerDepth)

/-! ## Scopes -/

def scopesInOrder (db : Database) : List StorageScope :=
  db.scopes.reverse

def scope? (db : Database) (owner : ObjectId) : Option StorageScope :=
  db.scopes.find? (·.owner = owner)

def storageScope (db : Database) (id : ObjectId) : Except Fault (Option StorageScope) :=
  match db.scopeRoot id with
  | .ok root => .ok (root.bind db.scope?)
  | .error f => .error f

/-- The scope whose pool issued a handle.  A record stays in its pool whoever owns it, so
this is where its properties are. -/
def homeScope? (db : Database) (id : ObjectId) : Option StorageScope := do
  let tag ← ScopeTag.of? id
  db.scopes.find? (·.tag = tag)

/-! ## Cells and arrays -/

def idArray (db : Database) (id : ObjectId) : Except Fault (Option (Record (GrowArray ObjectId))) :=
  db.resolve .ids id

/-- The name of a live cell, read in the scope the cell belongs to now. -/
def cellName (db : Database) (cell : ObjectId) : Except Fault (Option String) := do
  let some c ← db.resolve .cell cell | return none
  let some symbol := c.body.name | return none
  let some scope ← db.storageScope cell | return none
  return scope.symbols.name? symbol

/-- The array a live cell keeps its child cells in. -/
def cellArray (db : Database) (cell : ObjectId) : Except Fault (Option ObjectId) := do
  let some c ← db.resolve .cell cell | return none
  return c.body.cells

/-- The child cells of a cell in the order they were created, destroyed ones included. -/
def childCells (db : Database) (cell : ObjectId) : Except Fault (List ObjectId) := do
  let some cells ← db.cellArray cell | return []
  let some array ← db.idArray cells | return []
  return array.body.toList

def liveChildren (db : Database) (cell : ObjectId) : Except Fault (List ObjectId) :=
  (db.childCells cell).map (·.filter db.isLive)

def arrayAt (db : Database) (id : ObjectId) (i : Nat) : Except Fault (Option ObjectId) := do
  let some array ← db.idArray id | return none
  some <$> array.body.fetch i

end Database
end DesignStore
