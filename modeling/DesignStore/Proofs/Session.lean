/-
Runs of a database, and a record of the handles they give out.

A run is a list of commands, each carried out in the state the one before left, also when
that failed.  A `Session` is a database together with all placements made so far.  Its
operations are those of the database with a note of what was placed; `run_db` says that
they do the same to the database.  The note is made where the pool is asked for the
record, so what a later step destroys again, or leaves behind when it fails, is noted
too.

`Stable R` lists the changes that all commands are made of, but for those by which a caller
writes to headers, records, properties and the hierarchy.  A preorder that each of them keeps is
kept by every command (`Stable.perform`) and by every run (`Stable.run`).
-/
import DesignStore.Database.Cells
import DesignStore.Proofs.Entry

namespace DesignStore

open Database

/-- What can be asked of a database.  A write takes any function, so it can put anything
in a record and its header. -/
inductive Command where
  | initTopCell (name : String)
  | initTechLib
  | initTimingLib
  | createHierCell (parent : ObjectId) (name : String)
  | createCell (parent : ObjectId) (name : String)
  | setCellName (cell : ObjectId) (name : String)
  | create (k : RecordKind) (t : ObjectType) (owner : ObjectId)
  | createIdArray (owner : ObjectId) (capacity : Nat)
  | appendId (array : Option ObjectId) (owner value : ObjectId)
  | destroy (id : ObjectId)
  | destroyIdArray (id : ObjectId)
  | destroyScope (owner : ObjectId)
  | setOwner (id owner : ObjectId)
  | indexObject (id : ObjectId)
  | restoreHierarchy (entries : List (ObjectIndex × ObjectId))
  | reset
  | write (k : RecordKind) (id : ObjectId) (f : Record k.Body → Record k.Body)
  | writeHeader (id : ObjectId) (f : Header → Header)
  | editHeader (id : ObjectId) (e : HeaderEdit)
  | symbols (id : ObjectId) (x : EStateM (Failure DbError) SymbolTable Unit)
  | polygons (id : ObjectId) (x : EStateM (Failure DbError) PolygonTable Unit)
  | properties (id : ObjectId) (x : EStateM (Failure DbError) PropertyTable Unit)

namespace Command

def perform : Command → Edit Unit
  | initTopCell name => discard (Database.initTopCell name)
  | initTechLib => discard Database.initTechLib
  | initTimingLib => discard Database.initTimingLib
  | createHierCell parent name => discard (Database.createHierCell parent name)
  | createCell parent name => discard (Database.createCell parent name)
  | setCellName cell name => discard (Database.setCellName cell name)
  | create k t owner => discard (Database.create k t owner)
  | createIdArray owner capacity => discard (Database.createIdArray owner capacity)
  | appendId array owner value => discard (Database.appendId array owner value)
  | destroy id => discard (Database.destroy id)
  | destroyIdArray id => discard (Database.destroyIdArray id)
  | destroyScope owner => discard (Database.destroyScope owner)
  | setOwner id owner => discard (Database.setOwner id owner)
  | indexObject id => discard (Database.indexObject id)
  | restoreHierarchy entries => Database.restoreHierarchy entries
  | reset => modify Database.reset
  | write k id f => discard (Database.update k id f)
  | writeHeader id f => discard (Database.modifyHeader id f)
  | editHeader id e => discard (Database.editHeader id e)
  | symbols id x => discard (onStorageScope id (StorageScope.onSymbols x))
  | polygons id x => discard (onStorageScope id (StorageScope.onPolygons x))
  | properties id x => discard (onHomeScope id (StorageScope.onProperties x))

/-- The commands that write what the caller likes to a record, its header, the properties of a
scope or the hierarchy. -/
def ByHand : Command → Prop
  | setOwner _ _ | restoreHierarchy _ | write _ _ _ | writeHeader _ _ | editHeader _ _
  | properties _ _ => True
  | _ => False

end Command

def Database.run (cmds : List Command) (db : Database) : Database :=
  cmds.foldl (fun db c => after c.perform db) db

/-- No command of a run fails in a way that is `bad`. -/
def Database.Avoids (bad : Failure DbError → Prop) : Database → List Command → Prop
  | _, [] => True
  | db, c :: cmds =>
    (∀ e db', c.perform db = .error e db' → ¬ bad e) ∧ Avoids bad (after c.perform db) cmds

instance Database.decidableAvoids (bad : Failure DbError → Prop) [DecidablePred bad] :
    (db : Database) → (cmds : List Command) → Decidable (db.Avoids bad cmds)
  | _, [] => .isTrue trivial
  | db, c :: cmds =>
    have : Decidable (∀ e db', c.perform db = .error e db' → ¬ bad e) :=
      match c.perform db with
      | .ok _ _ => .isTrue fun _ _ h => by contradiction
      | .error e db' => decidable_of_iff (¬ bad e)
          ⟨fun hn _ _ h => by cases h; exact hn, fun h => h e db' rfl⟩
    have := decidableAvoids bad (after c.perform db) cmds
    inferInstanceAs (Decidable (_ ∧ _))

theorem Database.avoids_nothing (db : Database) (cmds : List Command) :
    db.Avoids (fun _ => False) cmds := by
  induction cmds generalizing db with
  | nil => trivial
  | cons c cmds ih => exact ⟨fun _ _ _ h => h, ih _⟩

/-- A record that was placed: the pool and the type it was asked of, its kind, and the
handle that was answered. -/
structure Minting where
  scope : ScopeTag
  type : ObjectType
  kind : RecordKind
  id : ObjectId
  deriving DecidableEq

/-- A database, and the placements made in it, the newest first. -/
structure Session where
  db : Database
  minted : List Minting := []

/-- A change to a database that notes what it places. -/
abbrev Noted (α : Type) : Type :=
  EStateM (Failure DbError) Session α

namespace Session

variable {α β : Type}

/-- Makes a change, and notes the placements that its answer tells of. -/
def noting (f : Database → α → List Minting) (x : Edit α) : Noted α := fun s =>
  match x s.db with
  | .ok a db => .ok a { db, minted := f s.db a ++ s.minted }
  | .error e db => .error e { s with db }

def quietly (x : Edit α) : Noted α :=
  noting (fun _ _ => []) x

/-- Asks the pool bound to a scope owner for a record. -/
def place (root : ObjectId) (k : RecordKind) (t : ObjectType) : Noted (Option ObjectId) :=
  noting
    (fun db placed => match db.registry.scopeOf? root, placed with
      | some scope, some id => [{ scope, type := t, kind := k, id }]
      | _, _ => [])
    (onRegistry (Registry.onPoolOf root (Edit.placing t (Pool.allocate k t))))

/-- Adds a pool and asks it for the record that is to own its scope. -/
def found (a : ActiveScope) : Noted (ScopeTag × ObjectId) :=
  noting (fun _ p => [{ scope := p.1, type := a.type, kind := a.kind, id := p.2 }])
    (Edit.placing a.type (onRegistry (Registry.createPoolWith (Pool.allocate a.kind a.type))))

/-! ## The operations that place records -/

def create (k : RecordKind) (t : ObjectType) (owner : ObjectId) : Noted ObjectId := do
  if owner.isNull then quietly (Edit.refuse (.invalidOwner owner))
  let some index := (← get).db.ownerIndexFor? owner
    | quietly (Edit.refuse (.ownerNotResolved owner))
  let some root ← quietly (Edit.read (·.scopeRoot owner)) | quietly (Edit.refuse (.noPool t owner))
  let placed ← place root k t
  let some id := placed | quietly (Edit.refuse (.noPool t owner))
  quietly (discard <| modifyHeader id (·.setOwner index))
  return id

def createIdArray (owner : ObjectId) (capacity : Nat) : Noted ObjectId := do
  let id ← create .ids .array owner
  quietly (reserveIds id capacity)
  return id

def appendId (array : Option ObjectId) (owner value : ObjectId) : Noted ObjectId := do
  let id ← match array with
    | some id => pure id
    | none => createIdArray owner defaultArrayCapacity
  let updated ← quietly (updateBody .ids id (·.push value))
  quietly (discard <| Edit.found id updated)
  return id

def openScope (a : ActiveScope) : Noted ObjectId := do
  let (tag, id) ← found a
  let index ← quietly (register id tag none)
  quietly (discard <| update a.kind id fun r =>
    { header := r.header.setOwner index, body := a.kind.setHierIndex index r.body })
  return id

def replaceActive (a : ActiveScope) (prepare : ObjectId → Edit Unit) : Noted ObjectId := do
  if let some old := (← get).db.hierarchy.active a then quietly (discard <| destroyScope old)
  let id ← openScope a
  quietly (prepare id)
  quietly (modify fun db => { db with hierarchy := db.hierarchy.setActive a (some id) })
  return id

def attachCell (parent child : ObjectId) : Noted Unit := do
  if parent.type? = some .cell then
    let resolved ← quietly (Edit.read (·.resolve .cell parent))
    let c ← quietly (Edit.found parent resolved)
    let array ← appendId c.body.cells parent child
    quietly (updateCell parent fun c => { c with cells := some array })

def createCell (parent : ObjectId) (name : String) : Noted ObjectId := do
  let id ← create .cell .cell parent
  quietly (discard <| setCellName id name)
  attachCell parent id
  return id

def openNested (parent : ObjectId) : Noted ObjectId := do
  let some around ← quietly (Edit.read (·.scopeRoot parent))
    | quietly (Edit.refuse (.noPool .cell parent))
  let id ← create .cell .cell parent
  quietly (discard <| updateBody .cell id fun c => { (c : Cell) with role := .hier })
  let tag ← quietly (tryCatch (Edit.placing .cell (onRegistry Registry.createPool)) fun e => do
    discard <| destroy id
    throw e)
  let index ← quietly (register id tag (some around))
  quietly (discard <| onScopeWhere (·.owner = around)
    (modify fun p => { p with children := p.children ++ [id] }))
  quietly (updateCell id fun c => { c with hierIndex := index })
  return id

def createHierCell (parent : ObjectId) (name : String) : Noted ObjectId := do
  let id ← openNested parent
  quietly (discard <| setCellName id name)
  attachCell parent id
  return id

def perform : Command → Noted Unit
  | .initTopCell name => discard <| replaceActive .topCell fun id => do
      updateCell id fun c => { c with role := .top }
      discard <| setCellName id name
  | .initTechLib => discard <| replaceActive .techLib fun _ => pure ()
  | .initTimingLib => discard <| replaceActive .timingLib fun _ => pure ()
  | .createHierCell parent name => discard <| createHierCell parent name
  | .createCell parent name => discard <| createCell parent name
  | .create k t owner => discard <| create k t owner
  | .createIdArray owner capacity => discard <| createIdArray owner capacity
  | .appendId array owner value => discard <| appendId array owner value
  | c => quietly c.perform

def firstPage (scope : UInt16) (t : ObjectType) (generation : UInt8) (slot : UInt16) : ObjectId :=
  SlotKey.pack { scope := ⟨scope⟩, type := t, generation, place := { page := 0, slot } }

/-- A session in which nothing was placed yet. -/
def start (db : Database) : Session :=
  { db }

def run (cmds : List Command) (s : Session) : Session :=
  cmds.foldl (fun s c => after (perform c) s) s

/-! ## The notes change nothing -/

def forget {ε : Type} : EStateM.Result ε Session α → EStateM.Result ε Database α
  | .ok a s => .ok a s.db
  | .error e s => .error e s.db

/-- `x` is `y` with notes. -/
def Mirrors (x : Noted α) (y : Edit α) : Prop :=
  ∀ s, forget (x s) = y s.db

theorem mirrors_noting (f : Database → α → List Minting) (x : Edit α) :
    Mirrors (noting f x) x := by
  intro s
  simp only [noting]
  cases x s.db <;> rfl

theorem mirrors_quietly (x : Edit α) : Mirrors (quietly x) x :=
  mirrors_noting _ x

theorem mirrors_pure (a : α) : Mirrors (pure a) (pure a) :=
  fun _ => rfl

theorem Mirrors.bind {x : Noted α} {y : Edit α} {f : α → Noted β} {g : α → Edit β}
    (h : Mirrors x y) (hf : ∀ a, Mirrors (f a) (g a)) : Mirrors (x >>= f) (y >>= g) := by
  intro s
  have hs := h s
  rw [bind_apply, bind_apply, ← hs]
  cases x s with
  | ok a t => exact hf a t
  | error e t => rfl

theorem Mirrors.get_bind {f : Session → Noted β} {g : Database → Edit β}
    (hf : ∀ s, Mirrors (f s) (g s.db)) : Mirrors (get >>= f) (get >>= g) :=
  fun s => hf s s

theorem Mirrors.discard {x : Noted α} {y : Edit α} (h : Mirrors x y) :
    Mirrors (Functor.discard x) (Functor.discard y) := by
  intro s
  have hs := h s
  rw [discard_apply, discard_apply, ← hs]
  cases x s <;> rfl

/-- An operation with notes fails as the operation does. -/
theorem Mirrors.error_db {x : Noted α} {y : Edit α} (h : Mirrors x y) {s t : Session}
    {e : Failure DbError} (hx : x s = .error e t) : y s.db = .error e t.db := by
  rw [← h s, hx]
  rfl

theorem Mirrors.after_db {x : Noted α} {y : Edit α} (h : Mirrors x y) (s : Session) :
    (after x s).db = after y s.db := by
  have hs := h s
  simp only [after, ← hs]
  cases x s <;> rfl

theorem Mirrors.guard {c : Prop} [Decidable c] {x : Noted PUnit} {y : Edit PUnit}
    {f : PUnit → Noted β} {g : PUnit → Edit β} (h : Mirrors x y) (hf : ∀ u, Mirrors (f u) (g u)) :
    Mirrors (if c then x >>= f else f ⟨⟩) (if c then y >>= g else g ⟨⟩) := by
  split
  · exact h.bind hf
  · exact hf ⟨⟩

theorem mirrors_create (k : RecordKind) (t : ObjectType) (owner : ObjectId) :
    Mirrors (create k t owner) (Database.create k t owner) := by
  refine Mirrors.guard (mirrors_quietly _) fun _ => Mirrors.get_bind fun s => ?_
  cases s.db.ownerIndexFor? owner with
  | none => exact mirrors_quietly _
  | some index =>
    refine Mirrors.bind (mirrors_quietly _) fun root => ?_
    cases root with
    | none => exact mirrors_quietly _
    | some root =>
      refine Mirrors.bind (mirrors_noting _ _) fun placed => ?_
      cases placed with
      | none => exact mirrors_quietly _
      | some id => exact (mirrors_quietly _).bind fun _ => mirrors_pure id

theorem mirrors_createIdArray (owner : ObjectId) (capacity : Nat) :
    Mirrors (createIdArray owner capacity) (Database.createIdArray owner capacity) :=
  (mirrors_create _ _ _).bind fun id => (mirrors_quietly _).bind fun _ => mirrors_pure id

theorem mirrors_appendId (array : Option ObjectId) (owner value : ObjectId) :
    Mirrors (appendId array owner value) (Database.appendId array owner value) := by
  have hpush (id : ObjectId) : Mirrors
      (do
        let updated ← quietly (updateBody .ids id (·.push value))
        quietly (discard <| Edit.found id updated)
        return id)
      (do
        discard <| Edit.found id (← updateBody .ids id (·.push value))
        return id) :=
    (mirrors_quietly _).bind fun _ => (mirrors_quietly _).bind fun _ => mirrors_pure id
  cases array with
  | none => exact (mirrors_createIdArray owner _).bind hpush
  | some id => exact (mirrors_pure id).bind hpush

theorem mirrors_openScope (a : ActiveScope) : Mirrors (openScope a) (Database.openScope a) := by
  refine (mirrors_noting _ _).bind fun p => ?_
  obtain ⟨tag, id⟩ := p
  exact (mirrors_quietly _).bind fun _ => (mirrors_quietly _).bind fun _ => mirrors_pure id

theorem mirrors_replaceActive (a : ActiveScope) (prepare : ObjectId → Edit Unit) :
    Mirrors (replaceActive a prepare) (Database.replaceActive a prepare) := by
  have hopen : Mirrors
      (do
        let id ← openScope a
        quietly (prepare id)
        quietly (modify fun db => { db with hierarchy := db.hierarchy.setActive a (some id) })
        return id)
      (do
        let id ← Database.openScope a
        prepare id
        modify fun db => { db with hierarchy := db.hierarchy.setActive a (some id) }
        return id) :=
    (mirrors_openScope a).bind fun id => (mirrors_quietly _).bind fun _ =>
      (mirrors_quietly _).bind fun _ => mirrors_pure id
  refine Mirrors.get_bind fun s => ?_
  cases s.db.hierarchy.active a with
  | none => exact hopen
  | some old => exact (mirrors_quietly _).bind fun _ => hopen

theorem mirrors_attachCell (parent child : ObjectId) :
    Mirrors (attachCell parent child) (Database.attachCell parent child) := by
  unfold attachCell Database.attachCell
  split
  · exact (mirrors_quietly _).bind fun _ => (mirrors_quietly _).bind fun _ =>
      (mirrors_appendId _ _ _).bind fun _ => mirrors_quietly _
  · exact mirrors_pure _

theorem mirrors_nameAndAttach (parent id : ObjectId) (name : String) :
    Mirrors
      (do
        quietly (discard <| setCellName id name)
        attachCell parent id
        return id)
      (do
        discard <| setCellName id name
        Database.attachCell parent id
        return id) :=
  (mirrors_quietly _).bind fun _ => (mirrors_attachCell parent id).bind fun _ => mirrors_pure id

theorem mirrors_createCell (parent : ObjectId) (name : String) :
    Mirrors (createCell parent name) (Database.createCell parent name) :=
  (mirrors_create _ _ _).bind fun id => mirrors_nameAndAttach parent id name

theorem mirrors_openNested (parent : ObjectId) :
    Mirrors (openNested parent) (Database.openNested parent) := by
  refine (mirrors_quietly _).bind fun around => ?_
  cases around with
  | none => exact mirrors_quietly _
  | some around =>
    exact (mirrors_create _ _ _).bind fun id => (mirrors_quietly _).bind fun _ =>
      (mirrors_quietly _).bind fun _ => (mirrors_quietly _).bind fun _ =>
      (mirrors_quietly _).bind fun _ => (mirrors_quietly _).bind fun _ => mirrors_pure id

theorem mirrors_createHierCell (parent : ObjectId) (name : String) :
    Mirrors (createHierCell parent name) (Database.createHierCell parent name) :=
  (mirrors_openNested parent).bind fun id => mirrors_nameAndAttach parent id name

theorem mirrors_perform (c : Command) : Mirrors (perform c) c.perform := by
  cases c with
  | initTopCell name => exact (mirrors_replaceActive _ _).discard
  | initTechLib => exact (mirrors_replaceActive _ _).discard
  | initTimingLib => exact (mirrors_replaceActive _ _).discard
  | createHierCell parent name => exact (mirrors_createHierCell parent name).discard
  | createCell parent name => exact (mirrors_createCell parent name).discard
  | create k t owner => exact (mirrors_create k t owner).discard
  | createIdArray owner capacity => exact (mirrors_createIdArray owner capacity).discard
  | appendId array owner value => exact (mirrors_appendId array owner value).discard
  | _ => exact mirrors_quietly _

/-- A run with notes is the run of the database. -/
theorem run_db (cmds : List Command) (s : Session) : (run cmds s).db = Database.run cmds s.db := by
  induction cmds generalizing s with
  | nil => rfl
  | cons c cmds ih =>
    have hc := (mirrors_perform c).after_db s
    show (run cmds (after (perform c) s)).db = Database.run cmds (after c.perform s.db)
    rw [ih, hc]

/-! ## What every command keeps -/

def Still (R : Session → Session → Prop) (db db' : Database) : Prop :=
  ∀ l, R { db, minted := l } { db := db', minted := l }

instance {R : Session → Session → Prop} [IsPreorder Session R] : IsPreorder Database (Still R) where
  refl _ _ := refl_of R _
  trans _ _ _ h h' l := trans_of R (h l) (h' l)

theorem keeps_quietly {R : Session → Session → Prop} {x : Edit α} (h : Keeps (Still R) x) :
    Keeps R (quietly x) := by
  intro s
  have hs := h s.db s.minted
  simp only [after, quietly, noting] at hs ⊢
  cases hx : x s.db with
  | ok a db =>
    rw [hx] at hs
    exact hs
  | error e db =>
    rw [hx] at hs
    exact hs

section Keeps

variable {S : Database → Database → Prop} [IsPreorder Database S]

theorem keeps_found (id : ObjectId) (a : Option α) : Keeps S (Edit.found id a) := by
  cases a with
  | none => exact Keeps.throw _
  | some a => exact Keeps.pure a

theorem keeps_read (f : Database → Except Fault α) : Keeps S (Edit.read f) := by
  intro db
  simp only [after, Edit.read]
  cases f db <;> exact refl_of S db

theorem keeps_updateCell (h : ∀ k id f, Keeps S (Database.update k id f : Edit _)) (id : ObjectId)
    (f : Cell → Cell) : Keeps S (Database.updateCell id f) :=
  (h .cell id _).bind fun _ => (keeps_found id _).discard

variable {R : Session → Session → Prop} [IsPreorder Session R]

/-- What placing a record and setting its owner keep is kept by creating it. -/
theorem keeps_create (hplace : ∀ root k t, Keeps R (place root k t))
    (hset : ∀ id index, Keeps (Still R) (Database.modifyHeader id (·.setOwner index) : Edit _))
    (k : RecordKind) (t : ObjectType) (owner : ObjectId) : Keeps R (create k t owner) := by
  have hgo (s : Session) : Keeps R
      (do
        let some index := s.db.ownerIndexFor? owner
          | quietly (Edit.refuse (.ownerNotResolved owner))
        let some root ← quietly (Edit.read (·.scopeRoot owner))
          | quietly (Edit.refuse (.noPool t owner))
        let placed ← place root k t
        let some id := placed | quietly (Edit.refuse (.noPool t owner))
        quietly (discard <| Database.modifyHeader id (·.setOwner index))
        return id) := by
    cases s.db.ownerIndexFor? owner with
    | none => exact keeps_quietly (Keeps.throw _)
    | some index =>
      refine (keeps_quietly (keeps_read _)).bind fun root => ?_
      cases root with
      | none => exact keeps_quietly (Keeps.throw _)
      | some root =>
        refine (hplace root k t).bind fun placed => ?_
        cases placed with
        | none => exact keeps_quietly (Keeps.throw _)
        | some id => exact (keeps_quietly (hset id _).discard).bind fun _ => Keeps.pure id
  unfold create
  split
  · exact (keeps_quietly (Keeps.throw _)).bind fun _ => Keeps.get_bind fun s => hgo s s
  · exact Keeps.get_bind fun s => hgo s s

end Keeps

/-- The changes that naming a cell is made of, all of which keep a relation. -/
structure Naming (R : Session → Session → Prop) : Prop where
  body : ∀ k id (f : k.Body → k.Body), (∀ b, k.hierIndex? (f b) = k.hierIndex? b) →
    Keeps (Still R) (updateBody k id f : Edit _)
  symbols : ∀ {α : Type} id (x : EStateM (Failure DbError) SymbolTable α),
    Keeps (Still R) (onStorageScope id (StorageScope.onSymbols x))

/-- The same with the creation of records. -/
structure Making (R : Session → Session → Prop) : Prop extends Naming R where
  create : ∀ k t owner, Keeps R (create k t owner)

/-- The changes that commands are made of and that open no scope, all of which keep a
relation. -/
structure Local (R : Session → Session → Prop) : Prop extends Making R where
  polygons : ∀ {α : Type} id (x : EStateM (Failure DbError) PolygonTable α),
    Keeps (Still R) (onStorageScope id (StorageScope.onPolygons x))
  index : ∀ id, Keeps (Still R) (indexObject id)
  destroy : ∀ id, Keeps (Still R) (Database.destroy id : Edit Bool)
  destroyScope : ∀ owner, Keeps (Still R) (Database.destroyScope owner : Edit Bool)
  reset : Keeps (Still R) (modify Database.reset : Edit Unit)

/-- All changes that commands are made of keep a relation, as long as no scope fails to open
in a way that is `bad`. -/
structure Stable (bad : Failure DbError → Prop) (R : Session → Session → Prop) : Prop
    extends Local R where
  initTopCell : ∀ name, KeepsUnless bad R (perform (.initTopCell name))
  initTechLib : KeepsUnless bad R (perform .initTechLib)
  initTimingLib : KeepsUnless bad R (perform .initTimingLib)
  openNested : ∀ parent, KeepsUnless bad R (openNested parent)

variable {bad : Failure DbError → Prop} {R : Session → Session → Prop} [IsPreorder Session R]

theorem Naming.updateCell (h : Naming R) (id : ObjectId) (f : Cell → Cell)
    (hf : ∀ c, (f c).hierIndex = c.hierIndex) : Keeps (Still R) (Database.updateCell id f) :=
  (h.body .cell id f fun c => congrArg some (hf c)).bind fun _ => (keeps_found id _).discard

theorem Naming.setCellName (h : Naming R) (cell : ObjectId) (name : String) :
    Keeps (Still R) (Database.setCellName cell name) :=
  (h.symbols cell _).bind fun _ => (keeps_found cell _).bind fun symbol =>
    (h.updateCell cell (fun c => { c with name := some symbol }) fun _ => rfl).bind fun _ =>
      Keeps.pure _

theorem Naming.reserveIds (h : Naming R) (id : ObjectId) (capacity : Nat) :
    Keeps (Still R) (Database.reserveIds id capacity) := by
  unfold Database.reserveIds
  split
  · exact (h.body .ids id (·.reserve capacity) fun _ => rfl).discard
  · exact Keeps.throw _

namespace Making

theorem createIdArray (h : Making R) (owner : ObjectId) (capacity : Nat) :
    Keeps R (createIdArray owner capacity) :=
  (h.create .ids .array owner).bind fun id =>
    (keeps_quietly (h.reserveIds id capacity)).bind fun _ => Keeps.pure id

theorem appendId (h : Making R) (array : Option ObjectId) (owner value : ObjectId) :
    Keeps R (appendId array owner value) := by
  have hpush (id : ObjectId) : Keeps R
      (do
        let updated ← quietly (Database.updateBody .ids id (·.push value))
        quietly (discard <| Edit.found id updated)
        return id) :=
    (keeps_quietly (h.body .ids id (·.push value) fun _ => rfl)).bind fun _ =>
      (keeps_quietly (keeps_found id _).discard).bind fun _ => Keeps.pure id
  cases array with
  | none => exact (h.createIdArray owner _).bind hpush
  | some id => exact (Keeps.pure id).bind hpush

theorem attachCell (h : Making R) (parent child : ObjectId) :
    Keeps R (attachCell parent child) := by
  unfold Session.attachCell
  split
  · exact (keeps_quietly (keeps_read _)).bind fun _ =>
      (keeps_quietly (keeps_found parent _)).bind fun _ =>
      (h.appendId _ parent child).bind fun array =>
        keeps_quietly (h.updateCell parent (fun c => { c with cells := some array }) fun _ => rfl)
  · exact Keeps.pure _

theorem nameAndAttach (h : Making R) (parent id : ObjectId) (name : String) :
    Keeps R
      (do
        quietly (discard <| Database.setCellName id name)
        Session.attachCell parent id
        return id) :=
  (keeps_quietly (h.setCellName id name).discard).bind fun _ =>
    (h.attachCell parent id).bind fun _ => Keeps.pure id

theorem createCell (h : Making R) (parent : ObjectId) (name : String) :
    Keeps R (createCell parent name) :=
  (h.create .cell .cell parent).bind fun id => h.nameAndAttach parent id name

end Making

namespace Local

theorem replaceActive (h : Local R) (hopen : ∀ a, Keeps R (openScope a))
    (hset : ∀ a id, Keeps (Still R)
      (modify fun db => { db with hierarchy := db.hierarchy.setActive a id } : Edit Unit))
    (a : ActiveScope) {prepare : ObjectId → Edit Unit}
    (hprepare : ∀ id, Keeps (Still R) (prepare id)) : Keeps R (replaceActive a prepare) := by
  have hnew : Keeps R
      (do
        let id ← Session.openScope a
        quietly (prepare id)
        quietly (modify fun db => { db with hierarchy := db.hierarchy.setActive a (some id) })
        return id) :=
    (hopen a).bind fun id => (keeps_quietly (hprepare id)).bind fun _ =>
      (keeps_quietly (hset a _)).bind fun _ => Keeps.pure id
  refine Keeps.get_bind fun s => ?_
  cases s.db.hierarchy.active a with
  | none => exact hnew s
  | some old => exact (keeps_quietly (h.destroyScope old).discard).bind (fun _ => hnew) s

/-- What the steps keep by which scopes are opened is kept by opening them. -/
theorem stable (h : Local R) (hopen : ∀ a, Keeps R (openScope a))
    (hset : ∀ a id, Keeps (Still R)
      (modify fun db => { db with hierarchy := db.hierarchy.setActive a id } : Edit Unit))
    (hnested : ∀ parent, Keeps R (openNested parent)) : Stable (fun _ => False) R :=
  { h with
    initTopCell := fun name => Keeps.unless (h.replaceActive hopen hset .topCell fun id =>
      (h.updateCell id (fun c => { c with role := .top }) fun _ => rfl).bind fun _ =>
        (h.setCellName id name).discard).discard _
    initTechLib :=
      Keeps.unless (h.replaceActive hopen hset .techLib fun _ => Keeps.pure _).discard _
    initTimingLib :=
      Keeps.unless (h.replaceActive hopen hset .timingLib fun _ => Keeps.pure _).discard _
    openNested := fun parent => (hnested parent).unless _ }

end Local

namespace Stable

theorem createHierCell (h : Stable bad R) (parent : ObjectId) (name : String) :
    KeepsUnless bad R (createHierCell parent name) :=
  (h.openNested parent).bind fun id => h.nameAndAttach parent id name

/-- What the changes keep that commands are made of is kept by every command. -/
theorem perform (h : Stable bad R) {c : Command} (hc : c.ByHand → Keeps (Still R) c.perform) :
    KeepsUnless bad R (perform c) := by
  have hquiet {α : Type} {x : Edit α} (hx : Keeps (Still R) x) :
      KeepsUnless bad R (quietly (discard x : Edit Unit)) :=
    (keeps_quietly hx.discard).unless bad
  cases c with
  | initTopCell name => exact h.initTopCell name
  | initTechLib => exact h.initTechLib
  | initTimingLib => exact h.initTimingLib
  | createHierCell parent name => exact (h.createHierCell parent name).discard
  | createCell parent name => exact (h.createCell parent name).discard.unless bad
  | setCellName cell name => exact hquiet (h.setCellName cell name)
  | create k t owner => exact (h.create k t owner).discard.unless bad
  | createIdArray owner capacity => exact (h.createIdArray owner capacity).discard.unless bad
  | appendId array owner value => exact (h.appendId array owner value).discard.unless bad
  | destroy id => exact hquiet (h.destroy id)
  | destroyIdArray id =>
    refine hquiet ?_
    unfold Database.destroyIdArray
    split
    · exact h.destroy id
    · exact Keeps.pure _
  | destroyScope owner => exact hquiet (h.destroyScope owner)
  | indexObject id => exact hquiet (h.index id)
  | reset => exact (keeps_quietly h.reset).unless bad
  | symbols id x => exact hquiet (h.symbols id x)
  | polygons id x => exact hquiet (h.polygons id x)
  | _ => exact (keeps_quietly (hc trivial)).unless bad

theorem run (h : Stable bad R) (cmds : List Command)
    (hc : ∀ c ∈ cmds, c.ByHand → Keeps (Still R) c.perform) (s : Session)
    (hbad : s.db.Avoids bad cmds) : R s (run cmds s) := by
  induction cmds generalizing s with
  | nil => exact refl_of R s
  | cons c cmds ih =>
    obtain ⟨hfirst, hrest⟩ := hbad
    have hR : R s (after (Session.perform c) s) :=
      h.perform (hc c List.mem_cons_self) s fun e t hr =>
        hfirst e t.db ((mirrors_perform c).error_db hr)
    rw [← (mirrors_perform c).after_db s] at hrest
    exact trans_of R hR (ih (fun c hm => hc c (List.mem_cons_of_mem _ hm)) _ hrest)

end Stable
end Session
end DesignStore
