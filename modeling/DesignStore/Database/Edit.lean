/-
The elementary changes to a database.

Changes to the parts of a database are made through the part concerned; the rest of the
state stays as it is.
-/
import DesignStore.Database.Basic

namespace DesignStore

variable {ε α : Type}

namespace Database

def onRegistry (x : EStateM ε Registry α) : EStateM ε Database α := fun db =>
  match db with
  | { config, hierarchy, registry, scopes } =>
    match x registry with
    | .ok a registry => .ok a { config, hierarchy, registry, scopes }
    | .error e registry => .error e { config, hierarchy, registry, scopes }

def onHierarchy (x : EStateM ε Hierarchy α) : EStateM ε Database α := fun db =>
  match db with
  | { config, hierarchy, registry, scopes } =>
    match x hierarchy with
    | .ok a hierarchy => .ok a { config, hierarchy, registry, scopes }
    | .error e hierarchy => .error e { config, hierarchy, registry, scopes }

def onScopeWhere (p : StorageScope → Bool) (x : EStateM ε StorageScope α) :
    EStateM ε Database (Option α) := fun db =>
  match db with
  | { config, hierarchy, registry, scopes } =>
    match onFirst p x scopes with
    | .ok a scopes => .ok a { config, hierarchy, registry, scopes }
    | .error e scopes => .error e { config, hierarchy, registry, scopes }

def onHomeScope (id : ObjectId) (x : EStateM ε StorageScope α) :
    EStateM ε Database (Option α) := fun db =>
  match ScopeTag.of? id with
  | none => .ok none db
  | some tag => onScopeWhere (·.tag = tag) x db

def onStorageScope (id : ObjectId) (x : EStateM (Failure ε) StorageScope α) :
    EStateM (Failure ε) Database (Option α) := fun db =>
  match db.scopeRoot id with
  | .error f => .error (.fault f) db
  | .ok none => .ok none db
  | .ok (some root) => onScopeWhere (·.owner = root) x db

def update (k : RecordKind) (id : ObjectId) (f : Record k.Body → Record k.Body) :
    EStateM (Failure ε) Database (Option (Record k.Body)) :=
  (·.join) <$> onRegistry (Registry.onIssuer id (Pool.update k id f))

/-- Changes the body of a live record of kind `k`, and answers what the record has
become. -/
def updateBody (k : RecordKind) (id : ObjectId) (f : k.Body → k.Body) :
    EStateM (Failure ε) Database (Option (Record k.Body)) :=
  update k id fun r => { r with body := f r.body }

def modifyHeader (id : ObjectId) (f : Header → Header) : EStateM ε Database (Option Header) :=
  (·.join) <$> onRegistry (Registry.onIssuer id (Pool.modifyHeader id f))

def editHeader (id : ObjectId) (e : HeaderEdit) :
    EStateM (Failure ε) Database (Option Header) :=
  (·.join) <$> onRegistry (Registry.onIssuer id (Pool.editHeader id e))

end Database

namespace Edit

def refuse (e : DbError) : Edit α :=
  throw (.refused e)

/-- Reads the state where reading can be a fault. -/
def read (f : Database → Except Fault α) : Edit α := fun db =>
  match f db with
  | .ok a => .ok a db
  | .error f => .error (.fault f) db

/-- The answer, or a refusal that nothing is found under the handle. -/
def found (id : ObjectId) : Option α → Edit α
  | some a => pure a
  | none => refuse (.notFound id)

/-- The same operation, with the refusals of the pool passed on as failed placements. -/
def placing {σ : Type} (t : ObjectType) (x : EStateM (Failure PoolError) σ α) :
    EStateM (Failure DbError) σ α := fun s =>
  match x s with
  | .ok a s => .ok a s
  | .error e s => .error (e.map (.allocation t)) s

end Edit
end DesignStore
