/-
Destroying records and closing scopes.

Closing a scope closes the scopes in it.  With a scope go its pool, the owners its pool
issued and the tables.  The owner of a nested scope is a record of the scope around it
and is freed there; the owner of any other scope goes with its own pool.
-/
import DesignStore.Database.Edit

namespace DesignStore
namespace Database

/-- The owners of the scopes to close with those in a worklist: each owner is followed,
after the rest of the list, by the owners of the scopes directly in its scope.  A step
takes one owner off the list, at most `n` in all. -/
def nested (db : Database) : Nat → List ObjectId → List ObjectId
  | 0, _ => []
  | _, [] => []
  | n + 1, owner :: rest =>
    let children := ((db.scope? owner).map (·.children)).getD []
    owner :: db.nested n (rest ++ children)

/-- A scope owner and the owners of all scopes in its scope, each after the owner of the
scope around it.  No scope is listed as a child twice, so the lists of children bound
the number of steps. -/
def subtree (db : Database) (owner : ObjectId) : List ObjectId :=
  db.nested (total (·.children.length) db.scopes + 1) [owner]

/-- Closes one scope: drops it and its pool, and empties the hierarchy positions of its
owner and of every record its pool issued. -/
def closeScope (db : Database) (owner : ObjectId) : Database :=
  match db.scope? owner with
  | none => db
  | some scope =>
    let registry :=
      match Registry.removePool scope.tag db.registry with
      | .ok _ registry => registry
      | .error _ registry => registry
    let hierarchy :=
      (db.hierarchy.deleteWhere fun id =>
        id = owner ∨ ScopeTag.of? id = some scope.tag).clearActive owner
    { db with hierarchy, registry, scopes := db.scopes.filter (·.owner ≠ owner) }

variable {ε : Type}

/-- Closes a scope and the scopes in it, the innermost first.  Answers whether there is
such a scope. -/
def destroyScope (owner : ObjectId) : EStateM ε Database Bool := do
  let db ← get
  match db.scope? owner with
  | none => return false
  | some scope =>
    modify fun db => (db.subtree owner).reverse.foldl closeScope db
    if let some parent := scope.parent then
      discard <| onScopeWhere (·.owner = parent)
        (modify fun p => { p with children := p.children.filter (· ≠ owner) })
      discard <| onHomeScope owner (StorageScope.onProperties (PropertyTable.removeAll owner))
      discard <| onRegistry (Registry.onIssuer owner (Pool.free owner))
    return true

/-- Destroys a live record with its properties and its position in the hierarchy; a
scope owner goes with its scope.  Answers whether there was such a record. -/
def destroy (id : ObjectId) : EStateM ε Database Bool := do
  if (← get).registry.isScopeOwner id then destroyScope id
  else
    discard <| onHomeScope id (StorageScope.onProperties (PropertyTable.removeAll id))
    discard <| onHierarchy (Hierarchy.delete id)
    return (← onRegistry (Registry.onIssuer id (Pool.free id))).getD false

/-- Destroys an array of handles.  Answers whether there was one; other records are left
alone. -/
def destroyIdArray (id : ObjectId) : EStateM ε Database Bool :=
  if id.type? = some .array then destroy id else return false

def reset (db : Database) : Database :=
  { db with hierarchy := Hierarchy.empty, registry := db.registry.clear, scopes := [] }

end Database
end DesignStore
