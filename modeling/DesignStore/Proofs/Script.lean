/-
Scripts of calls.

A script is a list of calls written down before it is run, so a call cannot name a handle: it names
the answers before it (`Ref`).  Played on a database it gives a list of answers (`play`).

Played on a renamed database a script gives the renamed answers and leaves the renamed database
(`play_database`), since each call does (`perform_alike`, `read_database`).
-/
import DesignStore.Proofs.RenamedEdits

namespace DesignStore
namespace Script

/-- A handle that a call is given: null, or the `i`-th of those in the answers before it. -/
inductive Ref where
  | null
  | answered (i : Nat)
  deriving DecidableEq, Repr

def Ref.resolve (seen : List ObjectId) : Ref → ObjectId
  | null => ObjectId.null
  | answered i => seen.getD i ObjectId.null

/-- What can be read of a database. -/
inductive Read (ι : Type) where
  | inspect (id : ι)
  | header (id : ι)
  | isLive (id : ι)
  | record (k : RecordKind) (id : ι)
  | externalized (id : ι)
  | owner (id : ι)
  | scopeRoot (id : ι)
  | storageScope (id : ι)
  | homeScope (id : ι)
  | scope (owner : ι)
  | scopes
  | isScopeOwner (id : ι)
  | position (owner : ι)
  | positions
  | positionsInUse
  | entries
  | ownerAt (i : ObjectIndex)
  | active (a : ActiveScope)
  | cellName (cell : ι)
  | cellArray (cell : ι)
  | childCells (cell : ι)
  | liveChildren (cell : ι)
  | idArray (id : ι)
  | arrayAt (id : ι) (i : Nat)
  | poolCount
  | liveCount
  | liveIds
  | liveOfType (t : ObjectType)
  | memoryReport

inductive Call (ι : Type) where
  | initTopCell (name : String)
  | initTechLib
  | initTimingLib
  | createHierCell (parent : ι) (name : String)
  | createCell (parent : ι) (name : String)
  | create (k : RecordKind) (t : ObjectType) (owner : ι)
  | createIdArray (owner : ι) (capacity : Nat)
  | appendId (array : Option ι) (owner value : ι)
  | destroy (id : ι)
  | destroyScope (owner : ι)
  | setOwner (id owner : ι)
  | indexObject (id : ι)
  | read (q : Read ι)

section Map

variable {ι κ : Type} (f : ι → κ)

def Read.map : Read ι → Read κ
  | inspect id => .inspect (f id)
  | header id => .header (f id)
  | isLive id => .isLive (f id)
  | record k id => .record k (f id)
  | externalized id => .externalized (f id)
  | owner id => .owner (f id)
  | scopeRoot id => .scopeRoot (f id)
  | storageScope id => .storageScope (f id)
  | homeScope id => .homeScope (f id)
  | scope o => .scope (f o)
  | scopes => .scopes
  | isScopeOwner id => .isScopeOwner (f id)
  | position o => .position (f o)
  | positions => .positions
  | positionsInUse => .positionsInUse
  | entries => .entries
  | ownerAt i => .ownerAt i
  | active a => .active a
  | cellName cell => .cellName (f cell)
  | cellArray cell => .cellArray (f cell)
  | childCells cell => .childCells (f cell)
  | liveChildren cell => .liveChildren (f cell)
  | idArray id => .idArray (f id)
  | arrayAt id i => .arrayAt (f id) i
  | poolCount => .poolCount
  | liveCount => .liveCount
  | liveIds => .liveIds
  | liveOfType t => .liveOfType t
  | memoryReport => .memoryReport

def Call.map : Call ι → Call κ
  | initTopCell name => .initTopCell name
  | initTechLib => .initTechLib
  | initTimingLib => .initTimingLib
  | createHierCell parent name => .createHierCell (f parent) name
  | createCell parent name => .createCell (f parent) name
  | create k t owner => .create k t (f owner)
  | createIdArray owner capacity => .createIdArray (f owner) capacity
  | appendId array owner value => .appendId (array.map f) (f owner) (f value)
  | destroy id => .destroy (f id)
  | destroyScope owner => .destroyScope (f owner)
  | setOwner id owner => .setOwner (f id) (f owner)
  | indexObject id => .indexObject (f id)
  | read q => .read (q.map f)

end Map

inductive Answer where
  | flag (b : Bool)
  | handle (id : ObjectId)
  | found (id : Option ObjectId)
  | handles (l : List ObjectId)
  | position (i : Option ObjectIndex)
  | entries (l : List (ObjectIndex × ObjectId))
  | count (n : Nat)
  | text (s : Option String)
  | header (h : Option Header)
  | externalized (h : Option PersistedHeader)
  | record (k : RecordKind) (x : Option (Record k.Body))
  | scope (s : Option StorageScope)
  | scopes (l : List StorageScope)
  | report (l : List ScopeMemory)
  | failed (e : Failure DbError)

/-! ## Playing -/

def Read.perform (db : Database) : Read ObjectId → Except Fault Answer
  | inspect id => .ok (.header (db.inspect? id))
  | header id => .ok (.header (db.header? id))
  | isLive id => .ok (.flag (db.isLive id))
  | record k id => (db.resolve k id).map (.record k)
  | externalized id => .ok (.externalized (db.externalize? id))
  | owner id => .ok (.found (db.ownerId? id))
  | scopeRoot id => (db.scopeRoot id).map .found
  | storageScope id => (db.storageScope id).map .scope
  | homeScope id => .ok (.scope (db.homeScope? id))
  | scope o => .ok (.scope (db.scope? o))
  | scopes => .ok (.scopes db.scopesInOrder)
  | isScopeOwner id => .ok (.flag (db.registry.isScopeOwner id))
  | position o => .ok (.position (db.hierarchy.indexOf? o))
  | positions => .ok (.count db.hierarchy.size)
  | positionsInUse => .ok (.count db.hierarchy.liveCount)
  | entries => .ok (.entries db.hierarchy.entries)
  | ownerAt i => .ok (.found (db.hierarchy.idAt? i))
  | active a => .ok (.found (db.hierarchy.active a))
  | cellName cell => (db.cellName cell).map .text
  | cellArray cell => (db.cellArray cell).map .found
  | childCells cell => (db.childCells cell).map .handles
  | liveChildren cell => (db.liveChildren cell).map .handles
  | idArray id => (db.idArray id).map (.record .ids)
  | arrayAt id i => (db.arrayAt id i).map .found
  | poolCount => .ok (.count db.registry.poolCount)
  | liveCount => .ok (.count db.registry.liveCount)
  | liveIds => .ok (.handles db.registry.liveIds)
  | liveOfType t => .ok (.handles (db.liveOfType t))
  | memoryReport => .ok (.report db.memoryReport)

def Call.perform : Call ObjectId → Edit Answer
  | initTopCell name => .handle <$> Database.initTopCell name
  | initTechLib => .handle <$> Database.initTechLib
  | initTimingLib => .handle <$> Database.initTimingLib
  | createHierCell parent name => .handle <$> Database.createHierCell parent name
  | createCell parent name => .handle <$> Database.createCell parent name
  | create k t owner => .handle <$> Database.create k t owner
  | createIdArray owner capacity => .handle <$> Database.createIdArray owner capacity
  | appendId array owner value => .handle <$> Database.appendId array owner value
  | destroy id => .flag <$> Database.destroy id
  | destroyScope owner => .flag <$> Database.destroyScope owner
  | setOwner id owner => .flag <$> Database.setOwner id owner
  | indexObject id => .position <$> Database.indexObject id
  | read q => Edit.read fun db => q.perform db

def reply (x : Edit Answer) (db : Database) : Answer :=
  match x db with
  | .ok a _ => a
  | .error e _ => .failed e

/-! ### Handles in answers -/

def bodyIds : (k : RecordKind) → k.Body → List ObjectId
  | .inst, b => (b : Inst).pins.toList
  | .net, b => (b : Net).pins.toList
  | .pin, b => (b : Pin).inst.toList ++ (b : Pin).net.toList
  | .placement, b => (b : Placement).pins.toList
  | .cell, b => (b : Cell).cells.toList
  | .tech, b => (b : Tech).layers.toList
  | .timing, b => (b : Timing).models.toList
  | .ids, b => (b : GrowArray ObjectId).toList
  | _, _ => []

def recordIds (k : RecordKind) (x : Record k.Body) : List ObjectId :=
  x.header.id :: bodyIds k x.body

def valueIds : PropertyValue → List ObjectId
  | .object id => [id]
  | _ => []

def propertyIds (t : PropertyTable) : List ObjectId :=
  t.byObject.entries.flatMap fun e => e.1 :: e.2.entries.flatMap fun v => valueIds v.2

def scopeIds (s : StorageScope) : List ObjectId :=
  s.owner :: (s.parent.toList ++ s.children ++ s.symbols.symbols.toList.flatMap (·.users) ++
    propertyIds s.properties)

def faultIds : Fault → List ObjectId
  | .nullOwner id => [id]
  | .unindexedOwner owner id => [owner, id]
  | .ownerChain id _ => [id]
  | .foreignOwner _ _ id => [⟨id⟩]
  | .ownerWithoutScope _ id => [⟨id⟩]
  | _ => []

def errorIds : DbError → List ObjectId
  | .invalidOwner owner => [owner]
  | .ownerNotResolved owner => [owner]
  | .noPool _ owner => [owner]
  | .notFound id => [id]
  | _ => []

namespace Answer

/-- The handles in an answer. -/
def ids : Answer → List ObjectId
  | handle id => [id]
  | found id => id.toList
  | handles l => l
  | entries l => l.map (·.2)
  | header h => h.toList.map (·.id)
  | externalized h => h.toList.map (⟨·.id⟩)
  | record k x => x.toList.flatMap (recordIds k)
  | scope s => s.toList.flatMap scopeIds
  | scopes l => l.flatMap scopeIds
  | report l => l.map (·.owner)
  | failed (.refused e) => errorIds e
  | failed (.fault f) => faultIds f
  | _ => []

/-- The tags of the scopes in an answer. -/
def scopeTags : Answer → List ScopeTag
  | scope s => s.toList.map (·.tag)
  | scopes l => l.map (·.tag)
  | report l => l.map (·.tag)
  | _ => []

end Answer

/-- Runs a script where the handles `seen` were answered before.  A call that fails is answered by
its failure, and the script goes on. -/
def play : List (Call Ref) → List ObjectId → Database → List Answer × Database
  | [], _, db => ([], db)
  | c :: cs, seen, db =>
    let x := (c.map (·.resolve seen)).perform
    let a := reply x db
    let (l, db') := play cs (seen ++ a.ids) (after x db)
    (a :: l, db')

end Script

/-! ## Playing on a renamed database -/

namespace Renaming

open Script

def persisted (r : Renaming) (h : PersistedHeader) : PersistedHeader :=
  { h with id := (r.id ⟨h.id⟩).raw }

def answer (r : Renaming) : Answer → Answer
  | .flag b => .flag b
  | .handle id => .handle (r.id id)
  | .found id => .found (id.map r.id)
  | .handles l => .handles (l.map r.id)
  | .position i => .position i
  | .entries l => .entries (l.map (Prod.map (fun i => i) r.id))
  | .count n => .count n
  | .text s => .text s
  | .header h => .header (h.map r.header)
  | .externalized h => .externalized (h.map r.persisted)
  | .record k x => .record k (x.map (r.record k))
  | .scope s => .scope (s.map r.scope)
  | .scopes l => .scopes (l.map r.scope)
  | .report l => .report (l.map r.scopeMemory)
  | .failed e => .failed (r.failure r.dbError e)

variable {r : Renaming} {db : Database}

/-! ### Handles in renamed answers -/

theorem bodyIds_body (k : RecordKind) (b : k.Body) :
    bodyIds k (r.body k b) = (bodyIds k b).map r.id := by
  cases k with
  | ids => exact Array.toList_map
  | pin => simp only [bodyIds, body, List.map_append, Option.toList_map]
  | _ => first | exact Option.toList_map | rfl

theorem recordIds_record (k : RecordKind) (x : Record k.Body) :
    recordIds k (r.record k x) = (recordIds k x).map r.id :=
  congrArg (r.id x.header.id :: ·) (bodyIds_body k x.body)

theorem propertyIds_properties (t : PropertyTable) :
    propertyIds (r.properties t) = (propertyIds t).map r.id := by
  have hvalue (v : PropertyValue) : valueIds (r.value v) = (valueIds v).map r.id := by
    cases v <;> rfl
  simp only [propertyIds, properties, Assoc.bimap, List.flatMap_map, List.map_flatMap,
    List.map_cons, hvalue]

theorem scopeIds_scope (s : StorageScope) : scopeIds (r.scope s) = (scopeIds s).map r.id := by
  have husers : (r.symbols s.symbols).symbols.toList.flatMap (·.users) =
      (s.symbols.symbols.toList.flatMap (·.users)).map r.id := by
    rw [symbols, Array.toList_map, List.flatMap_map, List.map_flatMap]
    rfl
  simp only [scopeIds, scope, husers, propertyIds_properties, Option.toList_map, List.map_cons,
    List.map_append]

theorem ids_failed (e : Failure DbError) :
    (r.answer (.failed e)).ids = (Answer.failed e).ids.map r.id := by
  cases e with
  | refused e => cases e <;> rfl
  | fault f => cases f <;> rfl

/-- The handles in a renamed answer are those in the answer, renamed. -/
theorem ids_answer (a : Answer) : (r.answer a).ids = a.ids.map r.id := by
  cases a with
  | found o => exact Option.toList_map
  | entries l =>
    simp only [answer, Answer.ids, List.map_map]
    rfl
  | header h => cases h <;> rfl
  | externalized h => cases h <;> rfl
  | record k x =>
    cases x with
    | none => rfl
    | some x =>
      simp only [answer, Answer.ids, Option.map_some, Option.toList_some, List.flatMap_singleton,
        recordIds_record]
  | scope s =>
    cases s with
    | none => rfl
    | some s =>
      simp only [answer, Answer.ids, Option.map_some, Option.toList_some, List.flatMap_singleton,
        scopeIds_scope]
  | scopes l => simp only [answer, Answer.ids, List.flatMap_map, List.map_flatMap, scopeIds_scope]
  | report l =>
    simp only [answer, Answer.ids, List.map_map]
    rfl
  | failed e => exact ids_failed e
  | _ => rfl

theorem resolve_map (seen : List ObjectId) (x : Ref) :
    x.resolve (seen.map r.id) = r.id (x.resolve seen) := by
  cases x with
  | null => exact r.null.symm
  | answered i =>
    simp only [Ref.resolve, List.getD_eq_getElem?_getD, List.getElem?_map]
    cases seen[i]? with
    | none => exact r.null.symm
    | some id => rfl

theorem map_map (seen : List ObjectId) (c : Call Ref) :
    (c.map (·.resolve seen)).map r.id = c.map (·.resolve (seen.map r.id)) := by
  cases c with
  | read q => cases q <;> simp only [Call.map, Read.map, resolve_map]
  | appendId array owner value =>
    simp only [Call.map, resolve_map, Option.map_map]
    rfl
  | _ => simp only [Call.map, resolve_map]

/-! ### Calls -/

section Reading

variable {α α' : Type} {fa : α → α'}

theorem reading_map {x : Except Fault α} {y : Except Fault α'} (h : y = r.reading fa x)
    {f : α → Answer} {g : α' → Answer} (hf : ∀ a, g (fa a) = r.answer (f a)) :
    y.map g = r.reading r.answer (x.map f) := by
  subst h
  cases x with
  | error e => rfl
  | ok a => exact congrArg Except.ok (hf a)

end Reading

/-- What is read of the renamed database. -/
theorem read_database (h : r.TameDatabase db) (q : Read ObjectId) :
    (q.map r.id).perform (r.database db) = r.reading r.answer (q.perform db) := by
  cases q with
  | inspect id => exact congrArg (Except.ok ∘ Answer.header) (inspect?_database h id)
  | header id => exact congrArg (Except.ok ∘ Answer.header) (header?_database h id)
  | isLive id => exact congrArg (Except.ok ∘ Answer.flag) (isLive_database h id)
  | record k id => exact reading_map (resolve_database h k id) fun _ => rfl
  | externalized id =>
    refine congrArg (Except.ok ∘ Answer.externalized) ?_
    rw [Database.externalize?, header?_database h, Option.map_map, Database.externalize?,
      Option.map_map]
    rfl
  | owner id => exact congrArg (Except.ok ∘ Answer.found) (ownerId?_database h id)
  | scopeRoot id => exact reading_map (scopeRoot_database h id) fun _ => rfl
  | storageScope id => exact reading_map (storageScope_database h id) fun _ => rfl
  | homeScope id => exact congrArg (Except.ok ∘ Answer.scope) (homeScope?_database id)
  | scope owner => exact congrArg (Except.ok ∘ Answer.scope) (scope?_database owner)
  | scopes => exact congrArg (Except.ok ∘ Answer.scopes) scopesInOrder_database
  | position owner => exact congrArg (Except.ok ∘ Answer.position) (indexOf?_hierarchy owner)
  | isScopeOwner id => exact congrArg (Except.ok ∘ Answer.flag) (isScopeOwner_registry id)
  | positions => exact congrArg (Except.ok ∘ Answer.count) Array.size_map
  | positionsInUse => exact congrArg (Except.ok ∘ Answer.count) (List.length_map _)
  | entries => exact congrArg (Except.ok ∘ Answer.entries) entries_hierarchy
  | ownerAt i => exact congrArg (Except.ok ∘ Answer.found) (idAt?_hierarchy i)
  | active a => exact congrArg (Except.ok ∘ Answer.found) (active_hierarchy a)
  | cellName cell => exact reading_map (cellName_database h cell) fun _ => rfl
  | cellArray cell => exact reading_map (cellArray_database h cell) fun _ => rfl
  | childCells cell => exact reading_map (childCells_database h cell) fun _ => rfl
  | liveChildren cell => exact reading_map (liveChildren_database h cell) fun _ => rfl
  | idArray id => exact reading_map (idArray_database h id) fun _ => rfl
  | arrayAt id i => exact reading_map (arrayAt_database h id i) fun _ => rfl
  | poolCount => exact congrArg (Except.ok ∘ Answer.count) (List.length_map _)
  | liveCount => exact congrArg (Except.ok ∘ Answer.count) liveCount_registry
  | liveIds => exact congrArg (Except.ok ∘ Answer.handles) liveIds_registry
  | liveOfType t => exact congrArg (Except.ok ∘ Answer.handles) (liveOfType_database t)
  | memoryReport => exact congrArg (Except.ok ∘ Answer.report) memoryReport_database

theorem perform_alike (c : Call ObjectId) : r.Alike r.answer c.perform (c.map r.id).perform := by
  intro db
  cases c with
  | initTopCell name => exact (initTopCell_alike name db).map fun _ => rfl
  | initTechLib => exact (initTechLib_alike db).map fun _ => rfl
  | initTimingLib => exact (initTimingLib_alike db).map fun _ => rfl
  | createHierCell parent name => exact (createHierCell_alike parent name db).map fun _ => rfl
  | createCell parent name => exact (createCell_alike parent name db).map fun _ => rfl
  | create k t owner => exact (create_alike k t owner db).map fun _ => rfl
  | createIdArray owner capacity => exact (createIdArray_alike owner capacity db).map fun _ => rfl
  | appendId array owner value => exact (appendId_alike array owner value db).map fun _ => rfl
  | destroy id => exact (destroy_alike id db).map fun _ => rfl
  | destroyScope owner => exact (destroyScope_alike owner db).map fun _ => rfl
  | setOwner id owner => exact (setOwner_alike id owner db).map fun _ => rfl
  | indexObject id => exact (indexObject_alike id db).map fun _ => rfl
  | read q => exact AlikeAt.read fun ht => read_database ht q

/-! ### Scripts -/

theorem reply_database {x y : Edit Answer}
    (h : RenamesAt r.TameDatabase r.database r.answer (r.failure r.dbError) x y db) :
    reply y (r.database db) = r.answer (reply x db) := by
  simp only [reply, h.eq]
  cases x db <;> rfl

/-- A script takes no tag back. -/
theorem issued_le_play (r : Renaming) (cs : List (Call Ref)) (seen : List ObjectId) (db : Database) :
    db.registry.issued ≤ (play cs seen db).2.registry.issued := by
  induction cs generalizing seen db with
  | nil => exact Nat.le_refl _
  | cons c cs ih =>
    exact (perform_alike (r := r) (c.map (·.resolve seen)) db).issued_le.trans (ih _ _)

/-- By induction on the calls: the handles in the renamed answers are the renamed ones, so each call
of the script is given the renamed handles. -/
theorem play_database (cs : List (Call Ref)) (seen : List ObjectId) (ht : r.TameDatabase db)
    (hl : (play cs seen db).2.registry.issued ≤ r.last) :
    play cs (seen.map r.id) (r.database db) =
      ((play cs seen db).1.map r.answer, r.database (play cs seen db).2) := by
  induction cs generalizing seen db with
  | nil => rfl
  | cons c cs ih =>
    have hle := (issued_le_play r cs (seen ++ (reply (c.map (·.resolve seen)).perform db).ids)
      (after (c.map (·.resolve seen)).perform db)).trans hl
    have hc := (perform_alike (c.map (·.resolve seen)) db).renames ht hle
    have hrest := ih (seen ++ (reply (c.map (·.resolve seen)).perform db).ids) hc.keeps hl
    rw [map_map] at hc
    rw [List.map_append, ← ids_answer, ← hc.after_eq] at hrest
    simp only [play, reply_database hc, hrest, List.map_cons]

/-! ### Tags of scopes -/

theorem used_of_scope (ht : r.TameDatabase db) {o : Option StorageScope}
    (ho : ∀ s, o = some s → s ∈ db.scopes) : ∀ t ∈ (Answer.scope o).scopeTags, r.Used t := by
  cases o with
  | none => exact fun _ => False.elim ∘ List.not_mem_nil
  | some s => exact List.forall_mem_singleton.2 (ht.scopes s (ho s rfl))

theorem ok_of_map {α : Type} {x : Except Fault α} {f : α → Answer} {a : Answer}
    (h : x.map f = .ok a) : ∃ b, x = .ok b ∧ f b = a := by
  cases x with
  | error e => cases h
  | ok b => exact ⟨b, rfl, Except.ok.inj h⟩

/-- A read answers with scopes of the database only. -/
theorem used_of_read (ht : r.TameDatabase db) (q : Read ObjectId) {a : Answer}
    (ha : q.perform db = .ok a) : ∀ t ∈ a.scopeTags, r.Used t := by
  have hfind {p : StorageScope → Bool} {s : StorageScope} (h : db.scopes.find? p = some s) :
      s ∈ db.scopes := List.mem_of_find?_eq_some h
  cases q with
  | storageScope id =>
    obtain ⟨o, ho, rfl⟩ := ok_of_map ha
    refine used_of_scope ht fun s hs => ?_
    rw [Database.storageScope] at ho
    split at ho
    · obtain ⟨root, _, hroot⟩ := Option.bind_eq_some_iff.1 ((Except.ok.inj ho).trans hs)
      exact hfind hroot
    · cases ho
  | homeScope id =>
    cases ha
    refine used_of_scope ht fun s hs => ?_
    obtain ⟨tag, _, htag⟩ := Option.bind_eq_some_iff.1 hs
    exact hfind htag
  | scope owner =>
    cases ha
    exact used_of_scope ht fun s hs => hfind hs
  | scopes =>
    cases ha
    refine List.forall_mem_map.2 fun s hs => ht.scopes s ?_
    exact List.mem_reverse.1 hs
  | memoryReport =>
    cases ha
    refine List.forall_mem_map.2 fun m hm => ?_
    obtain ⟨s, hs, hm⟩ := List.mem_filterMap.1 hm
    obtain ⟨p, _, rfl⟩ := Option.map_eq_some_iff.1 hm
    exact ht.scopes s (List.mem_reverse.1 hs)
  | record | scopeRoot | cellName | cellArray | childCells | liveChildren | idArray | arrayAt =>
    obtain ⟨_, _, rfl⟩ := ok_of_map ha
    exact fun _ => False.elim ∘ List.not_mem_nil
  | _ =>
    cases ha
    exact fun _ => False.elim ∘ List.not_mem_nil

theorem used_of_reply (ht : r.TameDatabase db) (c : Call ObjectId) :
    ∀ t ∈ (reply c.perform db).scopeTags, r.Used t := by
  have hnone {α : Type} {f : α → Answer} (hf : ∀ a, (f a).scopeTags = []) (x : Edit α) :
      ∀ t ∈ (reply (f <$> x) db).scopeTags, r.Used t := by
    have hnil : (reply (f <$> x) db).scopeTags = [] := by
      simp only [reply, map_apply]
      cases x db with
      | ok a _ => exact hf a
      | error e _ => rfl
    rw [hnil]
    exact fun _ => False.elim ∘ List.not_mem_nil
  cases c with
  | read q =>
    cases hq : q.perform db with
    | error f =>
      have hr : reply (Call.read q).perform db = .failed (.fault f) := by
        simp only [reply, Call.perform, Edit.read, hq]
      rw [hr]
      exact fun _ => False.elim ∘ List.not_mem_nil
    | ok a =>
      have hr : reply (Call.read q).perform db = a := by
        simp only [reply, Call.perform, Edit.read, hq]
      rw [hr]
      exact used_of_read ht q hq
  | _ => exact hnone (fun _ => rfl) _

theorem used_of_play (cs : List (Call Ref)) (seen : List ObjectId) (ht : r.TameDatabase db)
    (hl : (play cs seen db).2.registry.issued ≤ r.last) :
    r.TameDatabase (play cs seen db).2 ∧
      ∀ a ∈ (play cs seen db).1, ∀ t ∈ a.scopeTags, r.Used t := by
  induction cs generalizing seen db with
  | nil => exact ⟨ht, by simp [play]⟩
  | cons c cs ih =>
    have hle := (issued_le_play r cs (seen ++ (reply (c.map (·.resolve seen)).perform db).ids)
      (after (c.map (·.resolve seen)).perform db)).trans hl
    have hc := (perform_alike (c.map (·.resolve seen)) db).renames ht hle
    obtain ⟨htame, hused⟩ := ih _ hc.keeps hl
    exact ⟨htame, List.forall_mem_cons.2 ⟨used_of_reply ht _, hused⟩⟩

end Renaming
end DesignStore
