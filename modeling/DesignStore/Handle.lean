/-
Handles, hierarchy indices and scope tags.

A handle (`ObjectId`) names one stored record and is compared and ordered, never
computed with.  A hierarchy index (`ObjectIndex`) is the short form a record keeps of
its owner.  A scope tag (`ScopeTag`) names a pool.  Zero is the absent value of the
first two; no pool has tag zero.
-/

namespace DesignStore

/-- A handle of a stored record, as it is written to a stream. -/
structure ObjectId where
  raw : UInt64
  deriving DecidableEq, Repr, Inhabited

namespace ObjectId

def null : ObjectId := ⟨0⟩

def isNull (id : ObjectId) : Bool :=
  id.raw == 0

def nonNull? (id : ObjectId) : Option ObjectId :=
  if id.isNull then none else some id

instance : ToString ObjectId := ⟨fun id => id.raw.toNat.repr⟩

instance : Ord ObjectId := ⟨fun a b => compare a.raw b.raw⟩

end ObjectId

/-- A position in the ownership hierarchy.  Position 0 is never an owner's. -/
structure ObjectIndex where
  val : UInt32
  deriving DecidableEq, Repr, Inhabited

namespace ObjectIndex

def invalid : ObjectIndex := ⟨0⟩

def isInvalid (i : ObjectIndex) : Bool :=
  i.val == 0

def toNat (i : ObjectIndex) : Nat :=
  i.val.toNat

instance : ToString ObjectIndex := ⟨fun i => i.toNat.repr⟩

instance : Ord ObjectIndex := ⟨fun a b => compare a.val b.val⟩

end ObjectIndex

/-- The number of a pool, part of every handle the pool issues. -/
structure ScopeTag where
  val : UInt16
  deriving DecidableEq, Repr, Inhabited

namespace ScopeTag

def toNat (t : ScopeTag) : Nat :=
  t.val.toNat

instance : ToString ScopeTag := ⟨fun t => t.toNat.repr⟩

/-- The tag in the top sixteen bits of a handle, if it is not zero. -/
def of? (id : ObjectId) : Option ScopeTag :=
  let tag := (id.raw >>> 48).toUInt16
  if tag = 0 then none else some ⟨tag⟩

end ScopeTag
end DesignStore
