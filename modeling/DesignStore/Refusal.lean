/-
Requests that were in order and could not be served.

Pools refuse in their own terms; the database wraps what a pool refused.  Together with
faults these are all the ways an operation can fail to answer.
-/
import DesignStore.Config
import DesignStore.Fault

namespace DesignStore

inductive PoolError where
  /-- The arena of `type` has no free slot and all the pages it may have. -/
  | capacityExceeded (type : ObjectType) (pages : Nat)
  /-- Records of `type` are stored as one kind and were to be placed as another. -/
  | typeMismatch (type : ObjectType) (stored requested : RecordKind)
  | scopesExhausted
  | unknownScope (scope : ScopeTag)
  | invalidConfig (flaw : PoolConfigFlaw)
  deriving DecidableEq, Repr

namespace PoolError

def message : PoolError → String
  | .capacityExceeded type pages =>
    s!"pool capacity exceeded for {type.text}: {pages} pages in use"
  | .typeMismatch type stored requested =>
    s!"record type mismatch for {type.text}: stored as {stored.typeName}, " ++
      s!"requested {requested.typeName}"
  | .scopesExhausted => "no scope tags left"
  | .unknownScope scope => s!"unknown scope: {scope}"
  | .invalidConfig flaw => s!"invalid pool config: {flaw.message}"

end PoolError

inductive DbError where
  /-- The owner of a record to be created is the null handle. -/
  | invalidOwner (owner : ObjectId)
  /-- The owner is not indexed, nor a live record that has an owner. -/
  | ownerNotResolved (owner : ObjectId)
  /-- The owners of a record to be created do not lead to a scope. -/
  | noPool (type : ObjectType) (owner : ObjectId)
  | allocation (type : ObjectType) (cause : PoolError)
  | notFound (id : ObjectId)
  /-- The database would allow no owner between a record and its scope. -/
  | noOwnerDepth
  | pool (cause : PoolError)
  deriving DecidableEq, Repr

namespace DbError

def message : DbError → String
  | .invalidOwner owner => s!"invalid owner id {owner}"
  | .ownerNotResolved owner => s!"owner {owner} has no hierarchy index"
  | .noPool type owner => s!"no pool for {type.text} owned by {owner}"
  | .allocation type cause => s!"failed to allocate {type.text}: {cause.message}"
  | .notFound id => s!"object {id} not found"
  | .noOwnerDepth => "invalid database config: max_owner_depth must be at least 1"
  | .pool cause => s!"pool error: {cause.message}"

/-- The refusal of a pool that a refusal of the database passes on. -/
def cause? : DbError → Option PoolError
  | .allocation _ cause | .pool cause => some cause
  | _ => none

end DbError

inductive Failure (ε : Type) where
  | refused (e : ε)
  | fault (f : Fault)
  deriving DecidableEq, Repr

namespace Failure

def map {ε δ : Type} (f : ε → δ) : Failure ε → Failure δ
  | .refused e => .refused (f e)
  | .fault g => .fault g

end Failure

def PoolConfig.validate (c : PoolConfig) : Except PoolError Unit :=
  match c.flaw? with
  | some flaw => .error (.invalidConfig flaw)
  | none => .ok ()

def StoreConfig.validate (c : StoreConfig) : Except DbError Unit :=
  match c.pool.validate with
  | .error e => .error (.pool e)
  | .ok () => if c.maxOwnerDepth = 0 then .error .noOwnerDepth else .ok ()

end DesignStore
