/-
What a database holds, scope by scope and type by type.
-/
import DesignStore.Database.Basic

namespace DesignStore

structure ScopeMemory where
  owner : ObjectId
  tag : ScopeTag
  index : ObjectIndex
  records : Nat
  poolBytes : Nat
  tableBytes : Nat
  arenas : List ArenaStats
  deriving DecidableEq, Repr

namespace Database

def memoryReport (db : Database) : List ScopeMemory :=
  db.scopesInOrder.filterMap fun scope =>
    (db.registry.pool? scope.tag).map fun pool =>
      { owner := scope.owner
        tag := scope.tag
        index := scope.index
        records := pool.liveCount
        poolBytes := pool.bytes
        tableBytes := scope.memory
        arenas := pool.stats }

def liveOfType (db : Database) (t : ObjectType) : List ObjectId :=
  db.registry.liveIds.filter fun id => id.type? = some t

end Database
end DesignStore
