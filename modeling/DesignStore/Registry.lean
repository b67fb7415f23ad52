/-
The registry of pools.

Pools are numbered as they are created, from 1 on, and a number is never used twice,
not even after its pool is gone.  A handle embeds the number of the pool that issued
it, so every handle finds its pool.  Beside that, the registry remembers which pool
belongs to which scope owner.
-/
import DesignStore.Assoc
import DesignStore.Pool

namespace DesignStore

/-- The pools in use, and the tags already spent. -/
structure Registry where
  config : PoolConfig
  /-- The number of pools created so far, which is also the last tag handed out. -/
  issued : Nat := 0
  /-- The pools that were not removed, the newest first. -/
  pools : List Pool := []
  owners : Assoc ObjectId ScopeTag := {}

namespace Registry

/-- The number of tags there are: 16 bits, less tag zero. -/
def maxScopes : Nat := 65535

def empty (config : PoolConfig) : Registry :=
  { config }

def new (config : PoolConfig) : Except PoolError Registry :=
  match config.validate with
  | .error e => .error e
  | .ok () => .ok (empty config)

/-! ## Reading -/

def inOrder (r : Registry) : List Pool :=
  r.pools.reverse

def poolCount (r : Registry) : Nat :=
  r.pools.length

def pool? (r : Registry) (scope : ScopeTag) : Option Pool :=
  r.pools.find? (·.scope = scope)

def lookup? (r : Registry) (id : ObjectId) : Option Pool := do
  r.pool? (← ScopeTag.of? id)

def scopeOf? (r : Registry) (owner : ObjectId) : Option ScopeTag :=
  r.owners.get? owner

def isScopeOwner (r : Registry) (owner : ObjectId) : Bool :=
  r.owners.contains owner

def poolOf? (r : Registry) (owner : ObjectId) : Option Pool := do
  r.pool? (← r.scopeOf? owner)

def liveCount (r : Registry) : Nat :=
  total (·.liveCount) r.pools

def liveIds (r : Registry) : List ObjectId :=
  r.inOrder.flatMap (·.liveIds)

/-! ## Writing -/

variable {ε α : Type}

def onPool (scope : ScopeTag) (x : EStateM ε Pool α) : EStateM ε Registry (Option α) := fun r =>
  match r with
  | { config, issued, pools, owners } =>
    match onFirst (·.scope = scope) x pools with
    | .ok a pools => .ok a { config, issued, pools, owners }
    | .error e pools => .error e { config, issued, pools, owners }

def onPoolOf (owner : ObjectId) (x : EStateM ε Pool α) : EStateM ε Registry (Option α) := fun r =>
  match r.scopeOf? owner with
  | none => .ok none r
  | some scope => onPool scope x r

/-- Runs an operation on the pool that issued a handle, if there is one. -/
def onIssuer (id : ObjectId) (x : EStateM ε Pool α) : EStateM ε Registry (Option α) := fun r =>
  match ScopeTag.of? id with
  | none => .ok none r
  | some scope => onPool scope x r

def nextScope? (r : Registry) : Option ScopeTag :=
  if r.issued < maxScopes then some ⟨UInt16.ofNat (r.issued + 1)⟩ else none

/-- Creates a pool whose first use is `x`.  A pool that fails its first use is dropped;
its tag is spent all the same. -/
def createPoolWith (x : EStateM (Failure PoolError) Pool α) :
    EStateM (Failure PoolError) Registry (ScopeTag × α) := fun r =>
  match r.nextScope? with
  | none => .error (.refused .scopesExhausted) r
  | some scope =>
    let r := { r with issued := r.issued + 1 }
    match x (Pool.empty scope r.config) with
    | .ok a pool => .ok (scope, a) { r with pools := pool :: r.pools }
    | .error e _ => .error e r

/-- Creates an empty pool under a tag that was never used. -/
def createPool : EStateM (Failure PoolError) Registry ScopeTag :=
  (·.1) <$> createPoolWith (pure ())

/-- Binds an owner to a pool, in place of the pool it was bound to.  Answers whether
there is such a pool and owner. -/
def bindOwner (owner : ObjectId) (scope : ScopeTag) : EStateM ε Registry Bool := fun r =>
  if (r.pool? scope).isSome ∧ ¬ owner.isNull then
    .ok true { r with owners := r.owners.insert owner scope }
  else .ok false r

/-- Drops a pool with its records and the owners bound to it.  Answers how many records
were live. -/
def removePool (scope : ScopeTag) : EStateM (Failure PoolError) Registry Nat := fun r =>
  match r.pool? scope with
  | none => .error (.refused (.unknownScope scope)) r
  | some pool =>
    .ok pool.liveCount
      { r with
        pools := r.pools.filter (·.scope ≠ scope)
        owners := r.owners.filter fun _ s => s ≠ scope }

/-- Drops all pools.  Their tags stay spent. -/
def clear (r : Registry) : Registry :=
  { r with pools := [], owners := {} }

end Registry
end DesignStore
