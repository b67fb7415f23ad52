/-
Layout limits of pools and databases.

A layout is checked before a registry or a database is built on it.  A lone arena or
pool takes any layout; handles have sixteen bits each for page and slot, so places of
a layout beyond the checked limits share their handles.
-/

namespace DesignStore

/-- How an arena grows: the slots of a page, and the most pages it may have. -/
structure PoolConfig where
  pageSlots : Nat := 1024
  maxPages : Nat := 65536
  deriving DecidableEq, Repr

inductive PoolConfigFlaw where
  | pageSlots (got : Nat)
  | maxPages (got : Nat)
  deriving DecidableEq, Repr

namespace PoolConfigFlaw

def message : PoolConfigFlaw → String
  | .pageSlots got => s!"page_slots must be a power of two in 1..=65536, got {got}"
  | .maxPages got => s!"max_pages must be in 1..=65536, got {got}"

end PoolConfigFlaw

namespace PoolConfig

instance : Inhabited PoolConfig := ⟨{}⟩

def capacity (c : PoolConfig) : Nat :=
  c.pageSlots * c.maxPages

/-- The page sizes a handle can address. -/
def allowedPageSlots : List Nat :=
  (List.range 17).map (1 <<< ·)

/-- The first flaw of a layout, page size before page count. -/
def flaw? (c : PoolConfig) : Option PoolConfigFlaw :=
  if c.pageSlots ∉ allowedPageSlots then some (.pageSlots c.pageSlots)
  else if c.maxPages = 0 ∨ 65536 < c.maxPages then some (.maxPages c.maxPages)
  else none

/-- A layout whose places all have handles of their own. -/
def Valid (c : PoolConfig) : Prop :=
  c.flaw? = none

instance (c : PoolConfig) : Decidable c.Valid :=
  inferInstanceAs (Decidable (c.flaw? = none))

end PoolConfig

/-- The settings of a database: the layout of its pools, and the number of owners that
may stand between a record and the scope it belongs to. -/
structure StoreConfig where
  pool : PoolConfig := {}
  maxOwnerDepth : Nat := 64
  deriving DecidableEq, Repr

namespace StoreConfig

instance : Inhabited StoreConfig := ⟨{}⟩

end StoreConfig
end DesignStore
