/-
Properties of the records of a scope.

Few records have properties, so they are kept beside the records, by handle and then by
name.  The properties of a record are listed in the order they were first set, and a
record whose last property goes is forgotten.
-/
import DesignStore.Assoc
import DesignStore.Decimal.Shortest
import DesignStore.Handle
import DesignStore.Total

namespace DesignStore

inductive PropertyValue where
  | int (v : Int64)
  | real (v : Binary64)
  | bool (v : Bool)
  | string (v : String)
  | object (id : ObjectId)
  deriving DecidableEq, Repr

namespace PropertyValue

/-- The text of a value.  Strings are put between quotes as they are. -/
def text : PropertyValue → String
  | .int v => toString v.toInt
  | .real v => v.text
  | .bool v => if v then "true" else "false"
  | .string v => "\"" ++ v ++ "\""
  | .object id => s!"#{id}"

end PropertyValue

/-- Properties by record.  No record is listed without one. -/
structure PropertyTable where
  byObject : Assoc ObjectId (Assoc String PropertyValue) := {}
  deriving DecidableEq, Repr

namespace PropertyTable

instance : Inhabited PropertyTable := ⟨{}⟩

/-- The properties of a record, in the order they were first set. -/
def list (t : PropertyTable) (id : ObjectId) : List (String × PropertyValue) :=
  ((t.byObject.get? id).map (·.entries)).getD []

def get? (t : PropertyTable) (id : ObjectId) (name : String) : Option PropertyValue := do
  (← t.byObject.get? id).get? name

def hasProperties (t : PropertyTable) (id : ObjectId) : Bool :=
  t.byObject.contains id

def objectCount (t : PropertyTable) : Nat :=
  t.byObject.size

variable {ε : Type}

def set (id : ObjectId) (name : String) (value : PropertyValue) :
    EStateM ε PropertyTable (Option PropertyValue) := fun t =>
  let properties := (t.byObject.get? id).getD {}
  .ok (properties.get? name) { byObject := t.byObject.insert id (properties.insert name value) }

def remove (id : ObjectId) (name : String) :
    EStateM ε PropertyTable (Option PropertyValue) := fun t =>
  match t.byObject.get? id with
  | none => .ok none t
  | some properties =>
    let rest := properties.erase name
    .ok (properties.get? name)
      { byObject := if rest.isEmpty then t.byObject.erase id else t.byObject.insert id rest }

/-- Removes all properties of a record, and answers how many there were. -/
def removeAll (id : ObjectId) : EStateM ε PropertyTable Nat := fun t =>
  .ok (t.list id).length { byObject := t.byObject.erase id }

/-- Bytes of the names, and 24 for each value. -/
def memory (t : PropertyTable) : Nat :=
  total (fun properties => total (fun name => name.utf8ByteSize + 24) properties.keys)
    t.byObject.values

end PropertyTable
end DesignStore
