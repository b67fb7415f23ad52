/-
Reading a renamed database.

What is read of a database is read of the renamed one at the renamed handles, renamed.  So it is
with the owners of a record, the scopes and the cells, and with the list of the scopes that close
with one, since that is found by reading.
-/
import DesignStore.Proofs.Database
import DesignStore.Proofs.RenamedParts

namespace DesignStore
namespace Renaming

variable {r : Renaming} {db : Database} {id owner : ObjectId}

/-- The tags of the pools and of the scopes are in use. -/
structure TameDatabase (r : Renaming) (db : Database) : Prop where
  registry : r.TameRegistry db.registry
  scopes : ∀ s ∈ db.scopes, r.TameScope s

/-- Another answer and fault in place of those of a read. -/
def reading {α β : Type} (r : Renaming) (fa : α → β) : Except Fault α → Except Fault β
  | .ok a => .ok (fa a)
  | .error f => .error (r.fault f)

/-! ## Records -/

theorem inspect?_database (h : r.TameDatabase db) (id : ObjectId) :
    (r.database db).inspect? (r.id id) = (db.inspect? id).map r.header := by
  show ((r.registry db.registry).lookup? (r.id id)).bind (·.inspect? (r.id id)) =
    ((db.registry.lookup? id).bind (·.inspect? id)).map r.header
  rw [lookup?_registry]
  cases hp : db.registry.lookup? id with
  | none => rfl
  | some p => exact inspect?_pool (h.registry.used_of_lookup? hp) id

theorem header?_database (h : r.TameDatabase db) (id : ObjectId) :
    (r.database db).header? (r.id id) = (db.header? id).map r.header := by
  show ((r.registry db.registry).lookup? (r.id id)).bind (·.header? (r.id id)) =
    ((db.registry.lookup? id).bind (·.header? id)).map r.header
  rw [lookup?_registry]
  cases hp : db.registry.lookup? id with
  | none => rfl
  | some p => exact header?_pool (h.registry.used_of_lookup? hp) id

theorem isLive_database (h : r.TameDatabase db) (id : ObjectId) :
    (r.database db).isLive (r.id id) = db.isLive id := by
  rw [Database.isLive, header?_database h, Option.isSome_map, Database.isLive]

/-- The fault of a read names no handle. -/
theorem resolve_database (h : r.TameDatabase db) (k : RecordKind) (id : ObjectId) :
    (r.database db).resolve k (r.id id) =
      r.reading (Option.map (r.record k)) (db.resolve k id) := by
  have hlookup := lookup?_registry (r := r) (g := db.registry) id
  cases hp : db.registry.lookup? id with
  | none =>
    rw [hp] at hlookup
    simp only [Database.resolve, database, hlookup, hp, Option.map_none, reading]
  | some p =>
    rw [hp] at hlookup
    simp only [Database.resolve, database, hlookup, hp, Option.map_some]
    rw [resolve_pool (h.registry.used_of_lookup? hp)]
    cases hr : p.resolve k id with
    | ok x => rfl
    | error f =>
      simp only [Pool.resolve] at hr
      split at hr
      · cases hr
      · split at hr
        · cases hr
        · split at hr
          · cases hr
            rfl
          · cases hr

/-! ## Owners -/

theorem ownerId?_database (h : r.TameDatabase db) (id : ObjectId) :
    (r.database db).ownerId? (r.id id) = (db.ownerId? id).map r.id := by
  show ((r.database db).header? (r.id id)).bind (fun x => (r.hierarchy db.hierarchy).idAt? x.owner) =
    ((db.header? id).bind fun x => db.hierarchy.idAt? x.owner).map r.id
  rw [header?_database h]
  cases db.header? id with
  | none => rfl
  | some x => exact idAt?_hierarchy x.owner

theorem ownerIndexFor?_database (h : r.TameDatabase db) (owner : ObjectId) :
    (r.database db).ownerIndexFor? (r.id owner) = db.ownerIndexFor? owner := by
  rw [Database.ownerIndexFor?, Database.ownerIndexFor?, header?_database h, Option.map_map]
  exact congrArg (· <|> _) (indexOf?_hierarchy owner)

/-- By induction on the number of records that may be passed. -/
theorem climb_database (h : r.TameDatabase db) (n : Nat) (id : ObjectId) :
    (r.database db).climb n (r.id id) = (db.climb n id).map (Option.map r.id) := by
  induction n generalizing id with
  | zero => rfl
  | succ n ih =>
    have hroot : (r.database db).registry.isScopeOwner (r.id id) = db.registry.isScopeOwner id :=
      isScopeOwner_registry id
    have howner := ownerId?_database h id
    rw [Database.climb, Database.climb, hroot]
    split
    · rfl
    · cases ho : db.ownerId? id with
      | none =>
        rw [ho] at howner
        simp only [howner, Option.map_none, Option.map_some]
      | some owner =>
        rw [ho] at howner
        simp only [howner, Option.map_some, ih]

theorem scopeRoot_database (h : r.TameDatabase db) (id : ObjectId) :
    (r.database db).scopeRoot (r.id id) = r.reading (Option.map r.id) (db.scopeRoot id) := by
  have hclimb := climb_database h (db.config.maxOwnerDepth + 1) id
  cases hc : db.climb (db.config.maxOwnerDepth + 1) id with
  | none =>
    rw [hc] at hclimb
    simp only [Database.scopeRoot, show (r.database db).config = db.config from rfl, hclimb, hc,
      Option.map_none, reading, fault]
  | some root =>
    rw [hc] at hclimb
    simp only [Database.scopeRoot, show (r.database db).config = db.config from rfl, hclimb, hc,
      Option.map_some, reading]

/-! ## Scopes -/

theorem scopesInOrder_database : (r.database db).scopesInOrder = db.scopesInOrder.map r.scope :=
  List.map_reverse.symm

theorem scope?_database (owner : ObjectId) :
    (r.database db).scope? (r.id owner) = (db.scope? owner).map r.scope := by
  have hp : (fun s : StorageScope => decide (s.owner = r.id owner)) ∘ r.scope =
      fun s => decide (s.owner = owner) := funext fun s => decide_eq_decide.2 id_inj
  rw [Database.scope?, show (r.database db).scopes = db.scopes.map r.scope from rfl,
    List.find?_map, hp, Database.scope?]

theorem storageScope_database (h : r.TameDatabase db) (id : ObjectId) :
    (r.database db).storageScope (r.id id) =
      r.reading (Option.map r.scope) (db.storageScope id) := by
  rw [Database.storageScope, Database.storageScope, scopeRoot_database h]
  cases db.scopeRoot id with
  | error f => rfl
  | ok root =>
    cases root with
    | none => rfl
    | some root => exact congrArg Except.ok (scope?_database root)

theorem homeScope?_database (id : ObjectId) :
    (r.database db).homeScope? (r.id id) = (db.homeScope? id).map r.scope := by
  have hp (t : ScopeTag) : (fun s : StorageScope => decide (s.tag = r.tag t)) ∘ r.scope =
      fun s => decide (s.tag = t) := funext fun s => decide_eq_decide.2 tag_inj
  show (ScopeTag.of? (r.id id)).bind (fun t => (db.scopes.map r.scope).find? (·.tag = t)) =
    ((ScopeTag.of? id).bind fun t => db.scopes.find? (·.tag = t)).map r.scope
  rw [r.of?]
  cases ScopeTag.of? id with
  | none => rfl
  | some t =>
    show (db.scopes.map r.scope).find? (fun s => decide (s.tag = r.tag t)) = _
    rw [List.find?_map, hp]
    rfl

/-! ## Cells and arrays -/

section Reading

variable {α α' β β' : Type} {fa : α → α'} {fb : β → β'}

/-- One read after another. -/
theorem reading_bind {x : Except Fault α} {y : Except Fault α'} (h : y = r.reading fa x)
    {f : α → Except Fault β} {g : α' → Except Fault β'}
    (hf : ∀ a, g (fa a) = r.reading fb (f a)) : (y >>= g) = r.reading fb (x >>= f) := by
  subst h
  cases x with
  | error e => rfl
  | ok a => exact hf a

end Reading

theorem idArray_database (h : r.TameDatabase db) (id : ObjectId) :
    (r.database db).idArray (r.id id) =
      r.reading (Option.map (r.record .ids)) (db.idArray id) :=
  resolve_database h .ids id

theorem cellName_database (h : r.TameDatabase db) (cell : ObjectId) :
    (r.database db).cellName (r.id cell) = r.reading (fun n => n) (db.cellName cell) := by
  refine reading_bind (resolve_database h .cell cell) fun c => ?_
  cases c with
  | none => rfl
  | some c =>
    have hname : (r.record .cell c).body.name = c.body.name := rfl
    simp only [Option.map_some, hname]
    cases c.body.name with
    | none => rfl
    | some symbol =>
      refine reading_bind (storageScope_database h cell) fun scope => ?_
      cases scope with
      | none => rfl
      | some scope => exact congrArg Except.ok (name?_symbols symbol)

theorem cellArray_database (h : r.TameDatabase db) (cell : ObjectId) :
    (r.database db).cellArray (r.id cell) = r.reading (Option.map r.id) (db.cellArray cell) := by
  refine reading_bind (resolve_database h .cell cell) fun c => ?_
  cases c <;> rfl

theorem childCells_database (h : r.TameDatabase db) (cell : ObjectId) :
    (r.database db).childCells (r.id cell) = r.reading (List.map r.id) (db.childCells cell) := by
  refine reading_bind (cellArray_database h cell) fun array => ?_
  cases array with
  | none => rfl
  | some array =>
    refine reading_bind (idArray_database h array) fun a => ?_
    cases a with
    | none => rfl
    | some a => exact congrArg Except.ok Array.toList_map

theorem liveChildren_database (h : r.TameDatabase db) (cell : ObjectId) :
    (r.database db).liveChildren (r.id cell) =
      r.reading (List.map r.id) (db.liveChildren cell) := by
  have hlive : (r.database db).isLive ∘ r.id = db.isLive := funext fun id => isLive_database h id
  rw [Database.liveChildren, childCells_database h, Database.liveChildren]
  cases db.childCells cell with
  | error f => rfl
  | ok l =>
    show Except.ok ((l.map r.id).filter (r.database db).isLive) = .ok ((l.filter db.isLive).map r.id)
    rw [List.filter_map, hlive]

theorem arrayAt_database (h : r.TameDatabase db) (id : ObjectId) (i : Nat) :
    (r.database db).arrayAt (r.id id) i = r.reading (Option.map r.id) (db.arrayAt id i) := by
  refine reading_bind (idArray_database h id) fun array => ?_
  cases array with
  | none => rfl
  | some array =>
    have hget : (r.record .ids array).body.get? i = (array.body.get? i).map r.id :=
      Array.getElem?_map
    have hsize : (r.record .ids array).body.size = array.body.size := Array.size_map
    simp only [Option.map_some, GrowArray.fetch, hget, hsize]
    cases array.body.get? i <;> rfl

/-! ## Reports -/

def scopeMemory (r : Renaming) (m : ScopeMemory) : ScopeMemory :=
  { m with owner := r.id m.owner, tag := r.tag m.tag }

theorem memoryReport_database :
    (r.database db).memoryReport = db.memoryReport.map r.scopeMemory := by
  rw [Database.memoryReport, scopesInOrder_database, List.filterMap_map, Database.memoryReport,
    List.map_filterMap]
  refine congrArg (db.scopesInOrder.filterMap ·) (funext fun s => ?_)
  show ((r.registry db.registry).pool? (r.tag s.tag)).map _ = _
  rw [pool?_registry, Option.map_map, Option.map_map]
  refine congrArg (fun f => (db.registry.pool? s.tag).map f) (funext fun p => ?_)
  simp only [Function.comp_apply, scopeMemory, liveCount_pool, bytes_pool, stats_pool, memory_scope]
  rfl

theorem liveOfType_database (t : ObjectType) :
    (r.database db).liveOfType t = (db.liveOfType t).map r.id := by
  rw [Database.liveOfType, show (r.database db).registry = r.registry db.registry from rfl,
    liveIds_registry, List.filter_map, Database.liveOfType]
  refine congrArg (fun f => (db.registry.liveIds.filter f).map r.id) (funext fun id => ?_)
  simp only [Function.comp_apply, r.type?]

/-! ## Scopes that close -/

theorem nested_database (n : Nat) (owners : List ObjectId) :
    (r.database db).nested n (owners.map r.id) = (db.nested n owners).map r.id := by
  induction n generalizing owners with
  | zero => rfl
  | succ n ih =>
    cases owners with
    | nil => rfl
    | cons owner rest =>
      have hchildren : (((r.database db).scope? (r.id owner)).map (·.children)).getD [] =
          (((db.scope? owner).map (·.children)).getD []).map r.id := by
        rw [scope?_database]
        cases db.scope? owner <;> rfl
      simp only [List.map_cons, Database.nested, hchildren, ← List.map_append, ih]

theorem subtree_database (owner : ObjectId) :
    (r.database db).subtree (r.id owner) = (db.subtree owner).map r.id := by
  have htotal : total (·.children.length) (r.database db).scopes =
      total (·.children.length) db.scopes :=
    total_map (g := r.scope) (fun s => List.length_map r.id) db.scopes
  rw [Database.subtree, htotal, Database.subtree]
  exact nested_database _ [owner]

theorem closeScope_database (h : r.TameDatabase db) (owner : ObjectId) :
    r.TameDatabase (db.closeScope owner) ∧
      (r.database db).closeScope (r.id owner) = r.database (db.closeScope owner) := by
  have hscope : (r.database db).scope? (r.id owner) = (db.scope? owner).map r.scope :=
    scope?_database owner
  cases hs : db.scope? owner with
  | none =>
    rw [hs] at hscope
    simp only [Database.closeScope, hscope, hs, Option.map_none]
    exact ⟨h, trivial⟩
  | some scope =>
    rw [hs] at hscope
    have hremove := removePool_registry (r := r) scope.tag db.registry h.registry
    have hemptied : (r.hierarchy db.hierarchy).deleteWhere
        (fun id => decide (id = r.id owner ∨ ScopeTag.of? id = some (r.tag scope.tag))) =
        r.hierarchy (db.hierarchy.deleteWhere fun id =>
          decide (id = owner ∨ ScopeTag.of? id = some scope.tag)) := by
      refine deleteWhere_hierarchy fun x => decide_eq_decide.2 (or_congr id_inj ?_)
      rw [r.of?, ← Option.map_some]
      exact (Option.map_injective r.tag_injective).eq_iff
    have hkept : (db.scopes.map r.scope).filter (fun s => decide (s.owner ≠ r.id owner)) =
        (db.scopes.filter fun s => decide (s.owner ≠ owner)).map r.scope := by
      rw [List.filter_map]
      exact congrArg (fun f => (db.scopes.filter f).map r.scope)
        (funext fun s => decide_eq_decide.2 (not_congr id_inj))
    rw [Database.closeScope_of_scope hs,
      Database.closeScope_of_scope (show _ = some (r.scope scope) from hscope)]
    refine ⟨⟨hremove.keeps, fun s hs => h.scopes s (List.mem_of_mem_filter hs)⟩, ?_⟩
    simp only [database, show (r.scope scope).tag = r.tag scope.tag from rfl, hemptied,
      clearActive_hierarchy, hremove.after_eq, hkept]

/-- By induction on the scopes that are closed. -/
theorem closeScopes_database (h : r.TameDatabase db) (owners : List ObjectId) :
    r.TameDatabase (owners.foldl Database.closeScope db) ∧
      (owners.map r.id).foldl Database.closeScope (r.database db) =
        r.database (owners.foldl Database.closeScope db) := by
  induction owners generalizing db with
  | nil => exact ⟨h, rfl⟩
  | cons owner owners ih =>
    obtain ⟨hclosed, heq⟩ := closeScope_database h owner
    rw [List.map_cons, List.foldl_cons, List.foldl_cons, heq]
    exact ih hclosed

end Renaming
end DesignStore
