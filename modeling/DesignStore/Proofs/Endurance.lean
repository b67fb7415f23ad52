/-
Properties that outlive commands.

A command is made of steps that spare what they are not about, of names put in the table of a
scope, and of writes to the bodies of records.  A property of databases that `Lasts` is kept by
the steps and by those writes that it allows, and one that `Endures` by the names too.  Which
writes a command makes is said here once, so that a property is kept by a command if it allows
these (`Lasts.perform`, `Endures.perform`).
-/
import DesignStore.Proofs.Bystanders

namespace DesignStore

section Yields

variable {ε σ α β : Type} {Q : σ → Prop} {N : α → Prop} {M : β → Prop}

/-- What has the property `Q` has it afterwards, and what is answered has the property `N`. -/
def Yields (Q : σ → Prop) (N : α → Prop) (x : EStateM ε σ α) : Prop :=
  ∀ s, Q s → Q (after x s) ∧ ∀ a t, x s = .ok a t → N a

namespace Yields

theorem keeps {x : EStateM ε σ α} (h : Yields Q N x) {s : σ} (hs : Q s) : Q (after x s) :=
  (h s hs).1

theorem of_keeps {x : EStateM ε σ α} (h : ∀ s, Q s → Q (after x s)) :
    Yields Q (fun _ => True) x :=
  fun s hs => ⟨h s hs, fun _ _ _ => trivial⟩

theorem pure {a : α} (ha : N a) : Yields Q N (pure a : EStateM ε σ α) := by
  refine fun s hs => ⟨hs, fun b t hb => ?_⟩
  cases hb
  exact ha

theorem throw (e : ε) : Yields Q N (throw e : EStateM ε σ α) :=
  fun _ hs => ⟨hs, fun _ _ h => by contradiction⟩

theorem bind {x : EStateM ε σ α} {f : α → EStateM ε σ β} (hx : Yields Q N x)
    (hf : ∀ a, N a → Yields Q M (f a)) : Yields Q M (x >>= f) := by
  intro s hs
  obtain ⟨ht, hN⟩ := hx s hs
  cases hr : x s with
  | ok a t =>
    rw [after_ok hr] at ht
    simp only [after, bind_ok hr]
    exact hf a (hN a t hr) t ht
  | error e t =>
    rw [after_error hr] at ht
    simp only [after, bind_error hr]
    exact ⟨ht, fun _ _ h => by contradiction⟩

theorem get_bind {f : σ → EStateM ε σ β} (hf : ∀ s, Yields Q M (f s)) : Yields Q M (get >>= f) :=
  fun s hs => hf s s hs

theorem discard {x : EStateM ε σ α} (h : Yields Q N x) :
    Yields Q (fun _ => True) (Functor.discard x : EStateM ε σ PUnit) :=
  of_keeps fun s hs => by
    rw [after_discard]
    exact (h s hs).1

end Yields
end Yields

/-- The cell that a command names, as the operation that finds or makes it, and the name. -/
def Command.naming? : Command → Option (Edit ObjectId × String)
  | setCellName cell name => some (pure cell, name)
  | createCell parent name => some (Database.create .cell .cell parent, name)
  | createHierCell parent name => some (Database.openNested parent, name)
  | initTopCell name => some (Database.replaceActive .topCell fun _ => pure (), name)
  | _ => none

namespace Database

open Registry

/-- What can be done to the body of a record. -/
abbrev Writes : Type :=
  (k : RecordKind) → ObjectId → (k.Body → k.Body) → Prop

/-- Puts a name in the table of a scope, and a record among its users. -/
def mention (name : String) (id : ObjectId) : EStateM (Failure DbError) SymbolTable SymbolIndex := do
  let symbol ← SymbolTable.intern name
  discard <| SymbolTable.addReference symbol id
  return symbol

variable {D : ObjectId → Prop} {W : Writes} {Q : Database → Prop} {N : ObjectId → Prop}
  {db db' : Database} {id parent : ObjectId}

/-- A property that is kept where it is not concerned, and by the writes in `W`.  To new records
anything may be written but an array of child cells. -/
structure Lasts (D : ObjectId → Prop) (W : Writes) (Q : Database → Prop) : Prop where
  anchored : ∀ {db}, Q db → db.Anchored
  spares : ∀ {db db'}, Q db → db'.Anchored → Spares D db db' → Q db'
  write : ∀ {k id f}, W k id f → ∀ db, Q db → Q (after (updateBody k id f : Edit _) db)
  new : ∀ {db id k f}, Q db → ¬ db.registry.Spent id → (∀ b, k.cells? (f b) = k.cells? b) →
    W k id f

/-- The same for a property that is kept where names are put in tables. -/
structure Endures (D : ObjectId → Prop) (W : Writes) (Q : Database → Prop) : Prop
    extends Lasts D W Q where
  mention : ∀ id name db, Q db →
    Q (after (onStorageScope id (StorageScope.onSymbols (mention name id))) db)

/-- Any name may be written to a cell. -/
def Nameable (W : Writes) (id : ObjectId) : Prop :=
  ∀ symbol, W .cell id fun c => { c with name := some symbol }

/-- A cell may be listed among the child cells of `parent`, in the array there is or in a new
one. -/
structure Attachable (W : Writes) (Q : Database → Prop) (parent : ObjectId) : Prop where
  first : ∀ {db array}, Q db → ¬ db.registry.Spent array →
    W .cell parent fun c => { c with cells := some array }
  next : ∀ {db c array} child, Q db →
    db.registry.stored? parent = some { kind := .cell, record := c } → c.body.cells = some array →
    W .ids array (·.push child) ∧ W .cell parent fun c => { c with cells := some array }

/-- The commands that make no writes but those in `W`.  Of commands by hand it is asked that
they keep `Q`. -/
def Permits (D : ObjectId → Prop) (W : Writes) (Q : Database → Prop) : Command → Prop
  | .setCellName cell _ => Nameable W cell
  | .createCell parent _ | .createHierCell parent _ => Attachable W Q parent
  | .appendId array _ value => ∀ a, array = some a → W .ids a (·.push value)
  | .destroy id | .destroyIdArray id => D id
  | c@(.restoreHierarchy _) | c@(.write _ _ _) | c@(.writeHeader _ _) | c@(.editHeader _ _)
  | c@(.symbols _ _) => ∀ db, Q db → Q (after c.perform db)
  | _ => True

theorem create_fresh (h : db.registry.Sound) {k : RecordKind} {t : ObjectType} {owner : ObjectId}
    (hr : create k t owner db = .ok id db') : ¬ db.registry.Spent id := by
  rcases create_cases h k t owner with ⟨e, he⟩ | ⟨_, _, _, _, _, _, _, _, _, hp, _, hr'⟩
  · cases he.symm.trans hr
  · cases hr'.symm.trans hr
    exact hp.not_spent

theorem Opening.fresh {x : Edit ObjectId} {P : StorageScope → Entry → Prop} (ho : Opening x P db)
    (hr : x db = .ok id db') : ¬ db.registry.Spent id := by
  cases ho with
  | refused result => cases result.symm.trans hr
  | undone result => cases result.symm.trans hr
  | stranded result => cases result.symm.trans hr
  | opened result opened =>
    cases result.symm.trans hr
    exact opened.fresh

theorem setCellName_eq (cell : ObjectId) (name : String) : setCellName cell name = (do
    let symbol ← Edit.found cell (← onStorageScope cell (StorageScope.onSymbols (mention name cell)))
    updateCell cell fun c => { c with name := some symbol }
    return symbol) := rfl

/-- Makes a cell, names it, and lists it among the child cells of `parent`. -/
def making (make : Edit ObjectId) (parent : ObjectId) (name : String) : Edit ObjectId := do
  let id ← make
  discard <| setCellName id name
  attachCell parent id
  return id

theorem createCell_eq (parent : ObjectId) (name : String) :
    createCell parent name = making (create .cell .cell parent) parent name := rfl

theorem createHierCell_eq (parent : ObjectId) (name : String) :
    createHierCell parent name = making (openNested parent) parent name := rfl

theorem yields_found {α : Type} (id : ObjectId) (a : Option α) :
    Yields Q (fun b => a = some b) (Edit.found id a) := by
  cases a with
  | none => exact Yields.throw _
  | some b => exact Yields.pure rfl

namespace Lasts

variable (h : Lasts D W Q)
include h

theorem newCell (hdb : Q db) (hn : ¬ db.registry.Spent id) {f : Cell → Cell}
    (hf : ∀ c, (f c).cells = c.cells) : W .cell id f :=
  h.new hdb hn hf

theorem of_sparesFrom {α : Type} {x : Edit α} (hx : Keeps (SparesFrom D) x) :
    Yields Q (fun _ => True) x :=
  Yields.of_keeps fun db hdb =>
    let ⟨ha, hs⟩ := hx db (h.anchored hdb)
    h.spares hdb ha hs

/-! ## Records that are made -/

/-- What makes a record answers a handle that was not given out before. -/
theorem of_fresh {x : Edit ObjectId} (hx : Keeps (SparesFrom D) x)
    (hfresh : ∀ db id db', db.Anchored → x db = .ok id db' → ¬ db.registry.Spent id)
    (hN : ∀ db id, Q db → ¬ db.registry.Spent id → N id) : Yields Q N x :=
  fun db hdb => ⟨(h.of_sparesFrom hx).keeps hdb, fun id db' hr =>
    hN db id hdb (hfresh db id db' (h.anchored hdb) hr)⟩

theorem create (hN : ∀ db id, Q db → ¬ db.registry.Spent id → N id) (k : RecordKind)
    (t : ObjectType) (owner : ObjectId) : Yields Q N (create k t owner) :=
  h.of_fresh (sparesFrom_create k t owner) (fun _ _ _ ha hr => create_fresh ha.sound hr) hN

theorem openScope (hN : ∀ db id, Q db → ¬ db.registry.Spent id → N id) (a : ActiveScope) :
    Yields Q N (openScope a) :=
  h.of_fresh (sparesFrom_openScope a)
    (fun _ _ _ ha hr => (opening_openScope ha.toTidy a).fresh hr) hN

theorem openNested (hN : ∀ db id, Q db → ¬ db.registry.Spent id → N id) (parent : ObjectId) :
    Yields Q N (openNested parent) :=
  h.of_fresh (sparesFrom_openNested parent)
    (fun _ _ _ ha hr => (opening_openNested ha.toTidy parent).fresh hr) hN

/-! ## Writes -/

theorem updateBody {k : RecordKind} {f : k.Body → k.Body} (hW : W k id f) :
    Yields Q (fun _ => True) (updateBody k id f : Edit _) :=
  Yields.of_keeps (h.write hW)

theorem updateCell {f : Cell → Cell} (hW : W .cell id f) :
    Yields Q (fun _ => True) (updateCell id f) :=
  (h.updateBody hW).bind fun _ _ => (yields_found id _).discard

theorem reserveIds {capacity : Nat} (hW : W .ids id (·.reserve capacity)) :
    Yields Q (fun _ => True) (reserveIds id capacity) := by
  unfold Database.reserveIds
  split
  · exact (h.updateBody hW).discard
  · exact Yields.throw _

theorem createIdArray (hN : ∀ db id, Q db → ¬ db.registry.Spent id → N id) (owner : ObjectId)
    (capacity : Nat) : Yields Q N (createIdArray owner capacity) :=
  (h.create (N := fun id => N id ∧ W .ids id (·.reserve capacity))
    (fun db id hdb hn => ⟨hN db id hdb hn, h.new hdb hn fun _ => rfl⟩) .ids .array owner).bind
    fun _ hid => (h.reserveIds hid.2).bind fun _ _ => Yields.pure hid.1

/-- The array that is answered is the one there was, or one that was not given out before. -/
theorem appendId {array : Option ObjectId} (hN : ∀ db id, Q db → ¬ db.registry.Spent id → N id)
    {owner value : ObjectId} (harray : ∀ a, array = some a → W .ids a (·.push value) ∧ N a) :
    Yields Q N (appendId array owner value) := by
  have hpush (id : ObjectId) (hid : W .ids id (·.push value) ∧ N id) : Yields Q N
      (do
        discard <| Edit.found id (← Database.updateBody .ids id (·.push value))
        return id : Edit ObjectId) :=
    (h.updateBody hid.1).bind fun _ _ => (yields_found id _).discard.bind fun _ _ =>
      Yields.pure hid.2
  cases array with
  | none =>
    exact (h.createIdArray (N := fun id => W .ids id (·.push value) ∧ N id)
      (fun db id hdb hn => ⟨h.new hdb hn fun _ => rfl, hN db id hdb hn⟩) owner _).bind hpush
  | some a => exact (Yields.pure (N := fun id => W .ids id (·.push value) ∧ N id) (harray a rfl)).bind hpush

/-! ## Cells -/

theorem attachCell (hparent : Attachable W Q parent) (child : ObjectId) :
    Yields Q (fun _ => True) (attachCell parent child) := by
  have hread : Yields Q
      (fun c => ∀ x, c = some x → ∀ array, x.body.cells = some array →
        W .ids array (·.push child) ∧ W .cell parent fun c => { c with cells := some array })
      (Edit.read (·.resolve .cell parent)) := by
    intro db hdb
    simp only [after, Edit.read]
    cases hr : db.resolve .cell parent with
    | error f => exact ⟨hdb, fun _ _ h => by contradiction⟩
    | ok c =>
      refine ⟨hdb, fun c' _ hc' x hx array harray => ?_⟩
      cases hc'
      subst hx
      exact hparent.next child hdb ((resolve_eq_some_iff_stored? (h.anchored hdb).sound).1 hr) harray
  unfold Database.attachCell
  split
  · exact hread.bind fun c hc => (yields_found parent c).bind fun x hx =>
      (h.appendId (fun _ _ hdb hn => hparent.first hdb hn) (hc x hx)).bind fun array hW =>
        h.updateCell hW
  · exact Yields.pure trivial

theorem replaceActive (a : ActiveScope) {prepare : ObjectId → Edit Unit}
    (hN : ∀ db id, Q db → ¬ db.registry.Spent id → N id)
    (hprepare : ∀ id, N id → Yields Q (fun _ => True) (prepare id)) :
    Yields Q (fun _ => True) (replaceActive a prepare) := by
  have hopen : Yields Q (fun _ => True)
      (do
        let id ← Database.openScope a
        prepare id
        modify fun db => { db with hierarchy := db.hierarchy.setActive a (some id) }
        return id : Edit ObjectId) :=
    (h.openScope hN a).bind fun id hid => (hprepare id hid).bind fun _ _ =>
      (h.of_sparesFrom (sparesFrom_setActive a (some id))).bind fun _ _ => Yields.pure trivial
  refine Yields.get_bind fun db => ?_
  cases db.hierarchy.active a with
  | none => exact hopen
  | some old =>
    exact (h.of_sparesFrom (sparesFrom_destroyScope old)).discard.bind fun _ _ => hopen

/-- What `Q` allows a command to write is enough for `Q` to be kept by it, if it names no
cell. -/
theorem perform {c : Command} (hn : c.naming? = none) (hc : Permits D W Q c) (hdb : Q db) :
    Q (after c.perform db) := by
  have hquiet {α : Type} {x : Edit α} (hx : Keeps (SparesFrom D) x) :
      Q (after (discard x : Edit Unit) db) :=
    (h.of_sparesFrom hx).discard.keeps hdb
  cases c with
  | initTopCell name => contradiction
  | createHierCell parent name => contradiction
  | createCell parent name => contradiction
  | setCellName cell name => contradiction
  | initTechLib =>
    exact (h.replaceActive (N := fun _ => True) .techLib (fun _ _ _ _ => trivial) fun _ _ =>
      Yields.pure trivial).discard.keeps hdb
  | initTimingLib =>
    exact (h.replaceActive (N := fun _ => True) .timingLib (fun _ _ _ _ => trivial) fun _ _ =>
      Yields.pure trivial).discard.keeps hdb
  | create k t owner => exact hquiet (sparesFrom_create k t owner)
  | createIdArray owner capacity =>
    exact (h.createIdArray (N := fun _ => True) (fun _ _ _ _ => trivial) owner
      capacity).discard.keeps hdb
  | appendId array owner value =>
    exact (h.appendId (N := fun _ => True) (fun _ _ _ _ => trivial) fun a ha =>
      ⟨hc a ha, trivial⟩).discard.keeps hdb
  | destroy id => exact hquiet (sparesFrom_destroy hc)
  | destroyIdArray id =>
    refine hquiet ?_
    unfold destroyIdArray
    split
    · exact sparesFrom_destroy hc
    · exact Keeps.pure _
  | destroyScope owner => exact hquiet (sparesFrom_destroyScope owner)
  | setOwner id owner => exact hquiet (sparesFrom_setOwner id owner)
  | indexObject id => exact hquiet (sparesFrom_indexObject id)
  | reset => exact (h.of_sparesFrom (Keeps.modify sparesFrom_reset)).keeps hdb
  | polygons id x => exact hquiet (sparesFrom_onPolygons id x)
  | properties id x => exact hquiet (sparesFrom_onProperties id x)
  | restoreHierarchy l => exact hc db hdb
  | write k id f => exact hc db hdb
  | writeHeader id f => exact hc db hdb
  | editHeader id e => exact hc db hdb
  | symbols id x => exact hc db hdb

end Lasts

/-! ## Naming -/

namespace Endures

variable (h : Endures D W Q)
include h

theorem setCellName (hW : Nameable W id) (name : String) :
    Yields Q (fun _ => True) (setCellName id name) := by
  rw [setCellName_eq]
  exact (Yields.of_keeps (h.mention id name)).bind fun _ _ => (yields_found id _).bind fun symbol _ =>
    (h.updateCell (hW symbol)).bind fun _ _ => Yields.pure trivial

theorem making {make : Edit ObjectId} (hmake : Yields Q (Nameable W) make)
    (hparent : Attachable W Q parent) (name : String) :
    Yields Q (fun _ => True) (making make parent name) :=
  hmake.bind fun id hW => (h.setCellName hW name).discard.bind fun _ _ =>
    (h.attachCell hparent id).bind fun _ _ => Yields.pure trivial

theorem createCell (hparent : Attachable W Q parent) (name : String) :
    Yields Q (fun _ => True) (createCell parent name) := by
  rw [createCell_eq]
  exact h.making (h.create (N := Nameable W) (fun _ _ hdb hn _ => h.newCell hdb hn fun _ => rfl) .cell
    .cell parent) hparent name

theorem createHierCell (hparent : Attachable W Q parent) (name : String) :
    Yields Q (fun _ => True) (createHierCell parent name) := by
  rw [createHierCell_eq]
  exact h.making (h.openNested (N := Nameable W) (fun _ _ hdb hn _ => h.newCell hdb hn fun _ => rfl)
    parent) hparent name

/-- What `Q` allows a command to write is enough for `Q` to be kept by it. -/
theorem perform {c : Command} (hc : Permits D W Q c) (hdb : Q db) : Q (after c.perform db) := by
  cases c with
  | initTopCell name =>
    exact (h.replaceActive (N := fun id => W .cell id (fun c => { c with role := .top }) ∧
      Nameable W id) .topCell
      (fun _ _ hdb hn => ⟨h.newCell hdb hn fun _ => rfl, fun _ => h.newCell hdb hn fun _ => rfl⟩)
      fun id hid => (h.updateCell hid.1).bind fun _ _ =>
        (h.setCellName hid.2 name).discard).discard.keeps hdb
  | createHierCell parent name => exact (h.createHierCell hc name).discard.keeps hdb
  | createCell parent name => exact (h.createCell hc name).discard.keeps hdb
  | setCellName cell name => exact (h.setCellName hc name).discard.keeps hdb
  | _ => exact h.toLasts.perform rfl hc hdb

end Endures

/-! ## Along a run -/

/-- Each command of a run is as it should be in the database it is carried out in. -/
def Throughout (P : Database → Command → Prop) : Database → List Command → Prop
  | _, [] => True
  | db, c :: cmds => P db c ∧ Throughout P (after c.perform db) cmds

instance decidableThroughout (P : Database → Command → Prop) [∀ db c, Decidable (P db c)] :
    (db : Database) → (cmds : List Command) → Decidable (db.Throughout P cmds)
  | _, [] => .isTrue trivial
  | db, c :: cmds =>
    have := decidableThroughout P (after c.perform db) cmds
    inferInstanceAs (Decidable (_ ∧ _))

theorem run_append (cmds later : List Command) (db : Database) :
    run (cmds ++ later) db = run later (run cmds db) :=
  List.foldl_append

theorem throughout_append {P : Database → Command → Prop} {cmds later : List Command} :
    db.Throughout P (cmds ++ later) ↔ db.Throughout P cmds ∧ (run cmds db).Throughout P later := by
  induction cmds generalizing db with
  | nil => exact (iff_of_eq (true_and _)).symm
  | cons c cmds ih => exact (and_congr_right fun _ => ih).trans and_assoc.symm

/-- What every command of a run keeps, is true at the end if it is true at the beginning. -/
theorem run_of_step {P : Database → Command → Prop} {cmds : List Command}
    (hstep : ∀ c ∈ cmds, ∀ db, P db c → Q db → Q (after c.perform db)) (h : db.Throughout P cmds)
    (hdb : Q db) : Q (run cmds db) := by
  induction cmds generalizing db with
  | nil => exact hdb
  | cons c cmds ih =>
    exact ih (fun c hc => hstep c (List.mem_cons_of_mem _ hc)) h.2
      (hstep c List.mem_cons_self db h.1 hdb)

end Database
end DesignStore
