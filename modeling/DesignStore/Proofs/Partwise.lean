/-
What the elementary changes keep.

All commands are made of a few changes to the registry, the hierarchy and the scopes.  So a relation
that each of these changes keeps is kept by every command, and by a run of them (`Stepwise.run`).
What is said of the open scopes is another matter, since a scope is opened in several steps and what
is said does not hold in between: there the opening of a scope is looked at as a whole
(`Piecewise.run`).

Many relations have nothing to do with what is in the pools.  For those it is enough to know of the
changes of the registry that they leave the configuration of the pools alone, since all of them do
(`Partwise`).
-/
import DesignStore.Proofs.Enumeration
import DesignStore.Proofs.Upkeep

namespace DesignStore

/-! ## The configuration of the pools -/

namespace Registry

variable {ε α : Type}

theorem config_onPool (t : ScopeTag) (x : EStateM ε Pool α) (r : Registry) :
    (after (onPool t x) r).config = r.config := by
  simp only [after, onPool]
  cases onFirst (·.scope = t) x r.pools <;> rfl

theorem config_onIssuer (id : ObjectId) (x : EStateM ε Pool α) (r : Registry) :
    (after (onIssuer id x) r).config = r.config := by
  simp only [after, onIssuer]
  cases ScopeTag.of? id with
  | none => rfl
  | some t => exact config_onPool t x r

theorem config_onPoolOf (owner : ObjectId) (x : EStateM ε Pool α) (r : Registry) :
    (after (onPoolOf owner x) r).config = r.config := by
  simp only [after, onPoolOf]
  cases r.scopeOf? owner with
  | none => rfl
  | some t => exact config_onPool t x r

theorem config_createPoolWith (x : EStateM (Failure PoolError) Pool α) (r : Registry) :
    (after (createPoolWith x) r).config = r.config := by
  simp only [after, createPoolWith]
  cases r.nextScope? with
  | none => rfl
  | some t =>
    simp only
    cases x (Pool.empty t r.config) <;> rfl

theorem config_createPool (r : Registry) : (after createPool r).config = r.config := by
  rw [createPool, after_map]
  exact config_createPoolWith _ r

theorem config_bindOwner (owner : ObjectId) (t : ScopeTag) (r : Registry) :
    (after (bindOwner (ε := ε) owner t) r).config = r.config := by
  rw [after, bindOwner]
  by_cases h : (r.pool? t).isSome = true ∧ ¬ owner.isNull = true
  · rw [if_pos h]
  · rw [if_neg h]

theorem config_removePool (t : ScopeTag) (r : Registry) :
    (after (removePool t) r).config = r.config := by
  simp only [after, removePool]
  cases r.pool? t <;> rfl

end Registry

namespace Database

open Registry

variable {α : Type}

/-- What the elementary changes of a database keep by which no scope is opened, where records are
written to as `W` allows. -/
structure Piecewise (W : Pool.Use → Prop) (R : Database → Database → Prop) : Prop where
  update : ∀ k id (f : Record k.Body → Record k.Body), W (.write k f) →
    Keeps R (update k id f : Edit _)
  modifyHeader : ∀ id f, W (.writeHeader f) → Keeps R (modifyHeader id f : Edit _)
  editHeader : ∀ id e, W (.editHeader e) → Keeps R (editHeader id e : Edit _)
  free : ∀ id, Keeps R (onRegistry (onIssuer id (Pool.free id)) : Edit _)
  place : ∀ root k t, Keeps R (onRegistry (onPoolOf root (Edit.placing t (Pool.allocate k t))))
  insert : ∀ id, Keeps R (onHierarchy (Hierarchy.insert id) : Edit _)
  delete : ∀ id, Keeps R (onHierarchy (Hierarchy.delete id) : Edit _)
  putBack : ∀ i id, Keeps R (onHierarchy (Hierarchy.place i id) : Edit _)
  active : ∀ db a id, R db { db with hierarchy := db.hierarchy.setActive a id }
  scopes : ∀ db l, l.map (·.tag) = db.scopes.map (·.tag) → R db { db with scopes := l }
  closeScope : ∀ db owner, R db (db.closeScope owner)
  reset : ∀ db, R db db.reset

namespace Piecewise

variable {W : Pool.Use → Prop} {R : Database → Database → Prop} (h : Piecewise W R)
include h

theorem onScopeWhere (p : StorageScope → Bool) {x : EStateM (Failure DbError) StorageScope α}
    (hx : ∀ s, (after x s).tag = s.tag) : Keeps R (onScopeWhere p x) := by
  intro db
  rw [after_onScopeWhere]
  exact h.scopes db _ (map_after_onFirst fun s _ => hx s)

variable [IsPreorder Database R]

theorem onHomeScope (id : ObjectId) {x : EStateM (Failure DbError) StorageScope α}
    (hx : ∀ s, (after x s).tag = s.tag) : Keeps R (onHomeScope id x) := by
  intro db
  rcases after_onHomeScope id x db with hr | ⟨tag, _, hr⟩ <;> rw [hr]
  · exact refl_of R db
  · exact h.onScopeWhere _ hx db

theorem onStorageScope (id : ObjectId) {x : EStateM (Failure DbError) StorageScope α}
    (hx : ∀ s, (after x s).tag = s.tag) : Keeps R (onStorageScope id x) := by
  intro db
  rcases after_onStorageScope id x db with hr | ⟨root, _, hr⟩ <;> rw [hr]
  · exact refl_of R db
  · exact h.onScopeWhere _ hx db

theorem onProperties (id : ObjectId) (x : EStateM (Failure DbError) PropertyTable α) :
    Keeps R (Database.onHomeScope id (StorageScope.onProperties x)) :=
  h.onHomeScope id (onTables_onProperties x).tag

theorem destroyScope (owner : ObjectId) : Keeps R (destroyScope owner : Edit Bool) :=
  keeps_destroyScope h.closeScope (fun p _ => h.onScopeWhere p fun _ => rfl) owner <|
    (h.onProperties _ _).discard.bind fun _ => (h.free _).discard.bind fun _ => Keeps.pure true

theorem destroy (id : ObjectId) : Keeps R (destroy id : Edit Bool) := by
  refine Keeps.get_bind fun db => ?_
  split
  · exact h.destroyScope id db
  · exact ((h.onProperties id _).discard.bind fun _ => (h.delete id).discard.bind fun _ =>
      (h.free id).bind fun _ => Keeps.pure _) db

theorem indexObject (id : ObjectId) : Keeps R (indexObject id) := by
  refine Keeps.get_bind fun db => ?_
  split
  · cases db.hierarchy.indexOf? id with
    | none => exact (h.insert id).map _ db
    | some index => exact refl_of R db
  · exact refl_of R db

theorem restoreHierarchy (l : List (ObjectIndex × ObjectId)) : Keeps R (restoreHierarchy l) := by
  induction l with
  | nil => exact Keeps.pure _
  | cons e l ih => exact (h.putBack e.1 e.2).bind fun _ => ih

end Piecewise

/-- What the elementary changes of a database keep, where records are written to as `W` allows. -/
structure Stepwise (W : Pool.Use → Prop) (R : Database → Database → Prop) : Prop where
  update : ∀ k id (f : Record k.Body → Record k.Body), W (.write k f) →
    Keeps R (update k id f : Edit _)
  modifyHeader : ∀ id f, W (.writeHeader f) → Keeps R (modifyHeader id f : Edit _)
  editHeader : ∀ id e, W (.editHeader e) → Keeps R (editHeader id e : Edit _)
  free : ∀ id, Keeps R (onRegistry (onIssuer id (Pool.free id)) : Edit _)
  place : ∀ root k t, Keeps R (onRegistry (onPoolOf root (Edit.placing t (Pool.allocate k t))))
  found : ∀ a : ActiveScope,
    Keeps R (Edit.placing a.type (onRegistry (createPoolWith (Pool.allocate a.kind a.type))))
  addPool : ∀ t, Keeps R (Edit.placing t (onRegistry createPool))
  bindOwner : ∀ owner tag, Keeps R (onRegistry (bindOwner owner tag) : Edit _)
  insert : ∀ id, Keeps R (onHierarchy (Hierarchy.insert id) : Edit _)
  delete : ∀ id, Keeps R (onHierarchy (Hierarchy.delete id) : Edit _)
  putBack : ∀ i id, Keeps R (onHierarchy (Hierarchy.place i id) : Edit _)
  active : ∀ db a id, R db { db with hierarchy := db.hierarchy.setActive a id }
  scopes : ∀ db l, R db { db with scopes := l }
  closeScope : ∀ db owner, R db (db.closeScope owner)
  reset : ∀ db, R db db.reset

namespace Stepwise

variable {W : Pool.Use → Prop} {R : Database → Database → Prop} (h : Stepwise W R)
include h

theorem piecewise : Piecewise W R where
  update := h.update
  modifyHeader := h.modifyHeader
  editHeader := h.editHeader
  free := h.free
  place := h.place
  insert := h.insert
  delete := h.delete
  putBack := h.putBack
  active := h.active
  scopes db l _ := h.scopes db l
  closeScope := h.closeScope
  reset := h.reset

variable [IsPreorder Database R]

theorem register (owner : ObjectId) (tag : ScopeTag) (parent : Option ObjectId) :
    Keeps R (register owner tag parent) := by
  have hopen (index : ObjectIndex) : Keeps R
      (modify fun db => { db with scopes := { owner, tag, index, parent } :: db.scopes } : Edit _) :=
    Keeps.modify fun db => h.scopes db _
  exact (h.insert owner).bind fun index => (h.bindOwner owner tag).discard.bind fun _ =>
    (hopen index).bind fun _ => Keeps.pure _

end Stepwise

/-- What the changes of the parts of a database keep. -/
structure Partwise (R : Database → Database → Prop) : Prop where
  registry : ∀ {α : Type} {x : EStateM (Failure DbError) Registry α},
    (∀ r, (after x r).config = r.config) → Keeps R (onRegistry x)
  insert : ∀ id, Keeps R (onHierarchy (Hierarchy.insert id) : Edit _)
  delete : ∀ id, Keeps R (onHierarchy (Hierarchy.delete id) : Edit _)
  place : ∀ i id, Keeps R (onHierarchy (Hierarchy.place i id) : Edit _)
  active : ∀ db a id, R db { db with hierarchy := db.hierarchy.setActive a id }
  scopes : ∀ db l, R db { db with scopes := l }
  closeScope : ∀ db owner, R db (db.closeScope owner)
  reset : ∀ db, R db db.reset

namespace Partwise

variable {R : Database → Database → Prop} (h : Partwise R)
include h

theorem onIssuer (id : ObjectId) (x : EStateM (Failure DbError) Pool α) :
    Keeps R (onRegistry (onIssuer id x)) :=
  h.registry (config_onIssuer id x)

theorem placing (t : ObjectType) {x : EStateM (Failure PoolError) Registry α}
    (hx : ∀ r, (after x r).config = r.config) : Keeps R (Edit.placing t (onRegistry x)) := by
  rw [placing_onRegistry]
  exact h.registry fun r => by rw [after_placing, hx]

theorem stepwise : Stepwise (fun _ => True) R where
  update _ id _ _ := (h.onIssuer id _).map _
  modifyHeader id _ _ := (h.onIssuer id _).map _
  editHeader id _ _ := (h.onIssuer id _).map _
  free id := h.onIssuer id _
  place _ _ _ := h.registry (config_onPoolOf _ _)
  found a := h.placing a.type (config_createPoolWith _)
  addPool t := h.placing t config_createPool
  bindOwner owner tag := h.registry (config_bindOwner owner tag)
  insert := h.insert
  delete := h.delete
  putBack := h.place
  active := h.active
  scopes := h.scopes
  closeScope := h.closeScope
  reset := h.reset

end Partwise

/-! ## What is said of the registry alone -/

/-- What is said of the registry is still so. -/
def KeepsRegistry (P : Registry → Prop) (db db' : Database) : Prop :=
  P db.registry → P db'.registry

instance (P : Registry → Prop) : IsPreorder Database (KeepsRegistry P) where
  refl _ h := h
  trans _ _ _ h h' hp := h' (h hp)

section KeepsRegistry

variable {P : Registry → Prop}

theorem keepsRegistry_onRegistry {x : EStateM ε Registry α} (hx : ∀ r, P r → P (after x r)) :
    Keeps (KeepsRegistry P) (onRegistry x) := by
  intro db
  rw [after_onRegistry]
  exact hx db.registry

theorem keepsRegistry_onHierarchy (x : EStateM ε Hierarchy α) :
    Keeps (KeepsRegistry P) (onHierarchy x) := by
  intro db
  rw [after_onHierarchy]
  exact id

theorem keepsRegistry_placing {x : EStateM (Failure PoolError) Registry α} (t : ObjectType)
    (hx : ∀ r, P r → P (after x r)) :
    Keeps (KeepsRegistry P) (Edit.placing t (onRegistry x)) := by
  intro db
  rw [after_placing]
  exact keepsRegistry_onRegistry hx db

theorem keepsRegistry_closeScope (hdrop : ∀ r t, P r → P (after (removePool t) r))
    (db : Database) (owner : ObjectId) : KeepsRegistry P db (db.closeScope owner) := by
  cases hs : db.scope? owner with
  | none =>
    rw [closeScope_of_none hs]
    exact refl_of (KeepsRegistry P) db
  | some scope =>
    rw [closeScope_of_scope hs]
    exact hdrop db.registry scope.tag

end KeepsRegistry
end Database

/-! ## Commands -/

namespace Command

/-- The writes of a command to records are as `W` allows. -/
def Writes (W : Pool.Use → Prop) : Command → Prop
  | write k _ f => W (.write k f)
  | writeHeader _ f => W (.writeHeader f)
  | editHeader _ e => W (.editHeader e)
  | _ => True

theorem writes_all (c : Command) : c.Writes fun _ => True := by
  cases c <;> trivial

end Command

namespace Database

open Registry Session

variable {W : Pool.Use → Prop} {R : Database → Database → Prop}

namespace Piecewise

variable (h : Piecewise W R) (hW : ∀ u : Pool.Use, u.Discreet → W u)
include h hW

theorem setHeaderOwner (id : ObjectId) (index : ObjectIndex) :
    Keeps R (Database.modifyHeader id (·.setOwner index) : Edit _) :=
  h.modifyHeader id _ (hW _ fun _ => ⟨rfl, rfl⟩)

theorem updateBody (k : RecordKind) (id : ObjectId) (f : k.Body → k.Body) :
    Keeps R (Database.updateBody k id f : Edit _) :=
  h.update k id _ (hW _ fun _ => ⟨rfl, rfl⟩)

variable [IsPreorder Database R]

theorem setOwner (id owner : ObjectId) : Keeps R (Database.setOwner id owner) := by
  intro db
  rcases setOwner_cases id owner db with ⟨e, hr⟩ | ⟨index, _, hr⟩
  · rw [after_error hr]
    exact refl_of R db
  · rw [after, hr]
    exact (h.setHeaderOwner hW id index).map _ db

theorem create (k : RecordKind) (t : ObjectType) (owner : ObjectId) :
    Keeps R (Database.create k t owner) :=
  (mirrors_create k t owner).keeps_of_onDb <|
    keeps_create (fun root k t => (mirrors_noting _ _).keeps (h.place root k t))
      (fun id index => still_onDb (h.setHeaderOwner hW id index)) k t owner

theorem updateCell (id : ObjectId) (f : Cell → Cell) : Keeps R (Database.updateCell id f) :=
  (h.updateBody hW .cell id f).bind fun _ => (keeps_found id _).discard

theorem making : Local (OnDb R) where
  create k t owner := (mirrors_create k t owner).keeps (h.create hW k t owner)
  body k id f _ := still_onDb (h.updateBody hW k id f)
  symbols id x := still_onDb (h.onStorageScope id (onTables_onSymbols x).tag)
  polygons id x := still_onDb (h.onStorageScope id (onTables_onPolygons x).tag)
  index id := still_onDb (h.indexObject id)
  destroy id := still_onDb (h.destroy id)
  destroyScope owner := still_onDb (h.destroyScope owner)
  reset := still_onDb (Keeps.modify fun db => h.reset db)

/-- What the elementary changes keep is kept by every run whose writes are allowed, if opening a
scope keeps it. -/
theorem run (hopen : ∀ a, Keeps R (openScope a)) (hnested : ∀ parent, Keeps R (openNested parent))
    {cmds : List Command} (hcmds : ∀ c ∈ cmds, c.Writes W) (db : Database) :
    R db (Database.run cmds db) := by
  have hstable : Stable (fun _ => False) (OnDb R) :=
    (h.making hW).stable (fun a => (mirrors_openScope a).keeps (hopen a))
      (fun a id => still_onDb (Keeps.modify fun db => h.active db a id))
      fun parent => (mirrors_openNested parent).keeps (hnested parent)
  refine hstable.run_onDb (fun c hm hc => ?_) (avoids_nothing _ cmds)
  have hwrites := hcmds c hm
  cases c with
  | setOwner id owner => exact (h.setOwner hW id owner).discard
  | restoreHierarchy l => exact h.restoreHierarchy l
  | write k id f => exact (h.update k id f hwrites).discard
  | writeHeader id f => exact (h.modifyHeader id f hwrites).discard
  | editHeader id e => exact (h.editHeader id e hwrites).discard
  | properties id x => exact (h.onProperties id x).discard
  | _ => exact hc.elim

end Piecewise

namespace Stepwise

variable [IsPreorder Database R] (h : Stepwise W R) (hW : ∀ u : Pool.Use, u.Discreet → W u)
include h hW

theorem openScope (a : ActiveScope) : Keeps R (Database.openScope a) := by
  have hindex (id : ObjectId) (index : ObjectIndex) : Keeps R (Database.update a.kind id fun r =>
      { header := r.header.setOwner index, body := a.kind.setHierIndex index r.body } : Edit _) :=
    h.update a.kind id _ (hW _ fun _ => ⟨rfl, rfl⟩)
  refine (h.found a).bind fun p => ?_
  obtain ⟨tag, id⟩ := p
  exact (h.register id tag none).bind fun index =>
    (hindex id index).discard.bind fun _ => Keeps.pure id

theorem openNested (parent : ObjectId) : Keeps R (Database.openNested parent) := by
  have hp := h.piecewise
  have hrole (id : ObjectId) : Keeps R
      (Database.updateBody .cell id fun c => { (c : Cell) with role := .hier } : Edit _) :=
    hp.updateBody hW .cell id _
  have hpool (id : ObjectId) : Keeps R
      (tryCatch (Edit.placing .cell (onRegistry Registry.createPool)) fun e => do
        discard <| Database.destroy id
        throw e : Edit ScopeTag) :=
    (h.addPool .cell).tryCatch fun e => (hp.destroy id).discard.bind fun _ => Keeps.throw e
  refine (keeps_read _).bind fun around => ?_
  cases around with
  | none => exact Keeps.throw _
  | some around =>
    exact (hp.create hW .cell .cell parent).bind fun id =>
      (hrole id).discard.bind fun _ => (hpool id).bind fun tag =>
      (h.register id tag _).bind fun index =>
      (hp.onScopeWhere _ fun _ => rfl).discard.bind fun _ =>
      (hp.updateCell hW id _).bind fun _ => Keeps.pure id

/-- What the elementary changes keep is kept by every run whose writes are allowed. -/
theorem run {cmds : List Command} (hcmds : ∀ c ∈ cmds, c.Writes W) (db : Database) :
    R db (Database.run cmds db) :=
  h.piecewise.run hW (h.openScope hW) (h.openNested hW) hcmds db

end Stepwise

/-- What the changes of the parts keep is kept by every run. -/
theorem Partwise.run [IsPreorder Database R] (h : Partwise R) (cmds : List Command)
    (db : Database) : R db (Database.run cmds db) :=
  h.stepwise.run (fun _ _ => trivial) (fun c _ => c.writes_all) db

end Database
end DesignStore
