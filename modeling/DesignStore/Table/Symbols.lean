/-
The names used in a scope.

Each name is interned once and has a fixed position from then on.  With it go the
handles of the records that use it, each listed once.  A symbol is the position of a
name cut to 32 bits, so symbols stand for names as long as a table has no more names
than there are words.
-/
import DesignStore.Record
import DesignStore.Total

namespace DesignStore

/-- A name and its users in the order they were added. -/
structure Symbol where
  name : String
  users : List ObjectId := []
  deriving DecidableEq, Repr

/-- Interned names by position, no name twice. -/
structure SymbolTable where
  symbols : Array Symbol := #[]
  deriving DecidableEq, Repr

namespace SymbolTable

instance : Inhabited SymbolTable := ⟨{}⟩

def size (t : SymbolTable) : Nat :=
  t.symbols.size

def find? (t : SymbolTable) (name : String) : Option SymbolIndex :=
  (t.symbols.findIdx? (·.name = name)).map fun n : Nat => ⟨n⟩

def name? (t : SymbolTable) (i : SymbolIndex) : Option String :=
  t.symbols[(i.val : Nat)]?.map (·.name)

/-- The users of a symbol; none for a symbol that is not in the table. -/
def users (t : SymbolTable) (i : SymbolIndex) : List ObjectId :=
  (t.symbols[(i.val : Nat)]?.map (·.users)).getD []

variable {ε : Type}

/-- The symbol for a name, which is added at the end unless it is there. -/
def intern (name : String) : EStateM ε SymbolTable SymbolIndex := fun t =>
  match t.find? name with
  | some i => .ok i t
  | none => .ok ⟨t.size⟩ { symbols := t.symbols.push { name } }

/-- Lists a record as a user of a symbol.  Answers whether there is such a symbol. -/
def addReference (i : SymbolIndex) (id : ObjectId) : EStateM ε SymbolTable Bool := fun t =>
  if (i.val : Nat) < t.size then
    .ok true
      { symbols := t.symbols.modify i.val fun s =>
          if id ∈ s.users then s else { s with users := s.users ++ [id] } }
  else .ok false t

def memory (t : SymbolTable) : Nat :=
  total (fun s => s.name.utf8ByteSize + 8 * s.users.length) t.symbols.toList

end SymbolTable
end DesignStore
