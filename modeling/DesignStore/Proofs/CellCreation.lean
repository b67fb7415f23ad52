/-
Cells that are refused.

Creating a cell takes several steps.  Until the cell is there, with its scope if it has one, a
step that is refused leaves the contents of the database as they were: what was placed is
destroyed again.  A step after that takes nothing back, and the cell stays, without its name or
without a place among the child cells of its parent (`cell_refused`).
-/
import DesignStore.Proofs.Upkeep

namespace DesignStore

/-- Two readings that give the same where both give an answer. -/
def Agree {α : Type} (a a' : Except Fault α) : Prop :=
  ∀ x x', a = .ok x → a' = .ok x' → x' = x

namespace Agree

variable {α β : Type} {a a' : Except Fault α}

theorem refl (a : Except Fault α) : Agree a a := by
  intro x x' hx hx'
  exact Except.ok.inj (hx'.symm.trans hx)

theorem bind {f f' : α → Except Fault β} (h : Agree a a') (hf : ∀ x, Agree (f x) (f' x)) :
    Agree (a >>= f) (a' >>= f') := by
  intro y y' hy hy'
  cases a with
  | error e => contradiction
  | ok x =>
    cases a' with
    | error e => contradiction
    | ok x' =>
      cases h x x' rfl rfl
      exact hf x y y' hy hy'

/-- Two readings agree if they find the same. -/
theorem of_iff {a a' : Except Fault (Option α)} (h : ∀ x, a' = .ok (some x) ↔ a = .ok (some x)) :
    Agree a a' := by
  intro x x' hx hx'
  cases x' with
  | some x' => exact Except.ok.inj (((h x').1 hx').symm.trans hx)
  | none =>
    cases x with
    | none => rfl
    | some x => exact Except.ok.inj (hx'.symm.trans ((h x).2 hx))

end Agree

namespace Database

open Registry

variable {db db' : Database} {id parent : ObjectId}

/-- What can be read from two databases is the same: the live records, the scopes with what
is in them and their symbols, the hierarchy, and the child cells of cells. -/
structure SameContents (db db' : Database) : Prop where
  isLive : ∀ id, db'.isLive id = db.isLive id
  header? : ∀ id, db'.header? id = db.header? id
  resolve : ∀ k id x, db'.resolve k id = .ok (some x) ↔ db.resolve k id = .ok (some x)
  scopes : db'.scopesInOrder.map (fun s => (s.owner, s.parent, s.children, s.symbols)) =
    db.scopesInOrder.map fun s => (s.owner, s.parent, s.children, s.symbols)
  entries : db'.hierarchy.entries = db.hierarchy.entries
  childCells : ∀ id, Agree (db.childCells id) (db'.childCells id)

theorem SameContents.refl (db : Database) : SameContents db db where
  isLive := fun _ => rfl
  header? := fun _ => rfl
  resolve := fun _ _ _ => Iff.rfl
  scopes := rfl
  entries := rfl
  childCells := fun id => Agree.refl (db.childCells id)

theorem agree_childCells
    (h : ∀ k id x, db'.resolve k id = .ok (some x) ↔ db.resolve k id = .ok (some x))
    (cell : ObjectId) : Agree (db.childCells cell) (db'.childCells cell) := by
  have hcells : Agree (db.cellArray cell) (db'.cellArray cell) := by
    refine (Agree.of_iff (h .cell cell)).bind fun c => ?_
    cases c <;> exact Agree.refl _
  refine hcells.bind fun array => ?_
  cases array with
  | none => exact Agree.refl _
  | some array =>
    refine (Agree.of_iff (h .ids array)).bind fun l => ?_
    cases l <;> exact Agree.refl _

/-- The contents are the live records, the scopes without their properties and the
hierarchy. -/
theorem sameContents_of_stored (h : db.registry.Sound) (h' : db'.registry.Sound)
    (hstored : db'.registry.stored? = db.registry.stored?)
    (hscopes : db'.scopes.map (·.bare) = db.scopes.map (·.bare))
    (hhierarchy : db'.hierarchy = db.hierarchy) : SameContents db db' := by
  have hheader (id : ObjectId) : db'.header? id = db.header? id := by
    rw [header?_eq_stored? h', header?_eq_stored? h, hstored]
  have hresolve (k : RecordKind) (id : ObjectId) (x : Record k.Body) :
      db'.resolve k id = .ok (some x) ↔ db.resolve k id = .ok (some x) := by
    rw [resolve_eq_some_iff_stored? h', resolve_eq_some_iff_stored? h, hstored]
  refine ⟨fun id => by rw [isLive, hheader, isLive], hheader, hresolve, ?_, by rw [hhierarchy],
    agree_childCells hresolve⟩
  have hbare := congrArg
    (fun l => (l.map fun s : StorageScope => (s.owner, s.parent, s.children, s.symbols)).reverse)
    hscopes
  simp only [List.map_map] at hbare
  rw [scopesInOrder, scopesInOrder, List.map_reverse, List.map_reverse]
  exact hbare

/-! ## After the cell was made -/

/-- Records that are live stay live. -/
def Lasting (db db' : Database) : Prop :=
  db.registry.Sound → db'.registry.Sound ∧ ∀ id, db.registry.Live id → db'.registry.Live id

instance : IsPreorder Database Lasting where
  refl _ h := ⟨h, fun _ hl => hl⟩
  trans _ _ _ h h' hs := by
    obtain ⟨hs', hl⟩ := h hs
    obtain ⟨hs'', hl'⟩ := h' hs'
    exact ⟨hs'', fun id hid => hl' id (hl id hid)⟩

theorem lasting_of_alike (h : Alike db db') : Lasting db db' :=
  fun hs => ⟨(h hs).evolves.sound, fun _ => (h hs).live⟩

theorem lasting_create (k : RecordKind) (t : ObjectType) (owner : ObjectId) :
    Keeps Lasting (create k t owner) := by
  intro db h
  rcases create_cases h k t owner with ⟨e, he⟩ | ⟨_, _, _, _, r, _, _, _, _, hp, ht, hr⟩
  · rw [after_error he]
    exact refl_of Lasting db h
  · rw [after_ok hr]
    have hs := hp.stores_fresh h ht
    exact ⟨hs.evolves.sound, fun _ => hs.live fun _ => rfl⟩

theorem lasting_nameAndAttach (parent id : ObjectId) (name : String) :
    Keeps Lasting
      (do
        discard <| setCellName id name
        attachCell parent id
        return id : Edit ObjectId) :=
  (Session.mirrors_nameAndAttach parent id name).keeps_of_onDb
    ((Session.Making.of_alike lasting_of_alike lasting_create).nameAndAttach parent id name)

/-! ## Refusals -/

/-- How an operation that begins by making a record and is refused leaves a database: it is
refused at the beginning, and the contents are what they were; or the record is made, and is
live when the operation ends. -/
inductive Refused (make : Edit ObjectId) (e : DbError) (db db' : Database) : Prop
  | outright {db₁ : Database} (refused : make db = .error (.refused e) db₁)
      (same : SameContents db db')
  | stranded {id : ObjectId} {db₁ : Database} (made : make db = .ok id db₁)
      (new : db.isLive id = false) (live : db'.isLive id = true)

theorem refused_bind {make : Edit ObjectId} {f : ObjectId → Edit ObjectId} {e : DbError}
    (herror : ∀ db₁, make db = .error (.refused e) db₁ → SameContents db db₁)
    (hok : ∀ id db₁, make db = .ok id db₁ →
      db₁.registry.Sound ∧ db.isLive id = false ∧ db₁.registry.Live id)
    (hf : ∀ id, Keeps Lasting (f id)) (hr : (make >>= f) db = .error (.refused e) db') :
    Refused make e db db' := by
  cases hmake : make db with
  | error e' db₁ =>
    rw [bind_error hmake] at hr
    cases hr
    exact .outright hmake (herror db' hmake)
  | ok id db₁ =>
    rw [bind_ok hmake] at hr
    obtain ⟨hsound, hnew, hl⟩ := hok id db₁ hmake
    obtain ⟨hsound', hlasts⟩ := hf id db₁ hsound
    rw [after_error hr] at hsound' hlasts
    exact .stranded hmake hnew ((isLive_iff hsound' id).2 (hlasts id hl))

theorem isLive_of_fresh (h : db.registry.Sound) (hfresh : ¬ db.registry.Spent id) :
    db.isLive id = false := by
  rw [Bool.eq_false_iff, ne_eq, isLive_iff h]
  exact fun hl => hfresh (h.spent_of_live hl)

theorem createCell_refused (h : db.registry.Sound) {name : String} {e : DbError}
    (hr : createCell parent name db = .error (.refused e) db') :
    Refused (create .cell .cell parent) e db db' := by
  have hcases := create_cases h .cell .cell parent
  refine refused_bind (fun db₁ he => ?_) (fun id db₁ hid => ?_)
    (fun id => lasting_nameAndAttach parent id name) hr
  · rcases hcases with ⟨e', he'⟩ | ⟨_, _, _, _, _, _, _, _, _, _, _, hid⟩
    · cases he'.symm.trans he
      exact SameContents.refl db
    · cases hid.symm.trans he
  · rcases hcases with ⟨e', he'⟩ | ⟨_, _, _, _, r, _, _, _, _, hp, ht, hid'⟩
    · cases he'.symm.trans hid
    · cases hid'.symm.trans hid
      have hs := hp.stores_fresh h ht
      exact ⟨hs.evolves.sound, isLive_of_fresh h hp.not_spent,
        isSome_stored?_iff.1 (Option.isSome_of_eq_some hs.self)⟩

theorem createHierCell_refused (h : db.Tidy) {name : String} {e : DbError}
    (hr : createHierCell parent name db = .error (.refused e) db') :
    Refused (openNested parent) e db db' := by
  have hcases := opening_openNested h parent
  refine refused_bind (fun db₁ he => ?_) (fun id db₁ hid => ?_)
    (fun id => lasting_nameAndAttach parent id name) hr
  · cases hcases with
    | refused result =>
      cases result.symm.trans he
      exact SameContents.refl db
    | undone result same stored scopes =>
      cases result.symm.trans he
      exact sameContents_of_stored h.sound same.evolves.sound stored scopes same.hierarchy
    | stranded result => cases result.symm.trans he
    | opened result => cases result.symm.trans he
  · cases hcases with
    | refused result => cases result.symm.trans hid
    | undone result => cases result.symm.trans hid
    | stranded result => cases result.symm.trans hid
    | opened result opened =>
      cases result.symm.trans hid
      exact ⟨opened.evolves.sound, isLive_of_fresh h.sound opened.fresh, opened.live⟩

end Database

/-- Let a cell be refused, after any run.  If it is the record of the cell that is refused,
everything is as it was.  If the record was made, and the cell is then refused a name or a place
among the child cells of its parent, the record is not destroyed again.  The same goes for a
nested cell with its scope, as long as no hierarchy was restored. -/
theorem cell_refused {c : StoreConfig} {start : Database} (h : Database.new c = .ok start)
    (cmds : List Command) (parent : ObjectId) (name : String) (e : DbError) (db' : Database) :
    let db := Database.run cmds start
    (Database.createCell parent name db = .error (.refused e) db' →
      Database.Refused (Database.create .cell .cell parent) e db db') ∧
    ((∀ l, .restoreHierarchy l ∉ cmds) →
      Database.createHierCell parent name db = .error (.refused e) db' →
      Database.Refused (Database.openNested parent) e db db') := by
  intro db
  have hsound : db.registry.Sound := by
    have hg := (Session.onward_run cmds _ (Session.good_start h)).1.sound
    rwa [Session.run_db] at hg
  exact ⟨Database.createCell_refused hsound, fun hcmds =>
    Database.createHierCell_refused (Database.tidy_run h hcmds)⟩

/-- Cells without an owner are refused outright. -/
theorem cell_refused_outright :
    let cmds : List Command := [.initTopCell "top"]
    let db := Database.run cmds (Database.empty {})
    let e : DbError := .invalidOwner ObjectId.null
    let db' := after (Database.createCell ObjectId.null "a") db
    let e₁ : DbError := .noPool .cell ObjectId.null
    let db₁ := after (Database.createHierCell ObjectId.null "a") db
    (∀ l, .restoreHierarchy l ∉ cmds) ∧
      Database.createCell ObjectId.null "a" db = .error (.refused e) db' ∧
      Database.createHierCell ObjectId.null "a" db = .error (.refused e₁) db₁ ∧
      Database.SameContents db db' ∧ Database.SameContents db db₁ := by
  intro cmds db e db' e₁ db₁
  have hcmds : ∀ l, .restoreHierarchy l ∉ cmds := by simp [cmds]
  have hleaf : Database.createCell ObjectId.null "a" db = .error (.refused e) db' :=
    eq_error_of_answer (by decide +kernel)
  have hhier : Database.createHierCell ObjectId.null "a" db = .error (.refused e₁) db₁ :=
    eq_error_of_answer (by decide +kernel)
  refine ⟨hcmds, hleaf, hhier, ?_, ?_⟩
  · cases (cell_refused (c := {}) rfl cmds ObjectId.null "a" e db').1 hleaf with
    | outright _ same => exact same
    | stranded made =>
      have hn : answer (Database.create .cell .cell ObjectId.null) db = .error (.refused e) := by
        decide +kernel
      cases made.symm.trans (eq_error_of_answer hn)
  · cases (cell_refused (c := {}) rfl cmds ObjectId.null "a" e₁ db₁).2 hcmds hhier with
    | outright _ same => exact same
    | stranded made =>
      have hn : answer (Database.openNested ObjectId.null) db = .error (.refused e₁) := by
        decide +kernel
      cases made.symm.trans (eq_error_of_answer hn)

/-- A top cell whose array of child cells was destroyed after its first child.  The next child is
refused, and is live all the same. -/
theorem cell_refused_stranded :
    let top := Session.firstPage 1 .cell 0 0
    let array := Session.firstPage 1 .array 0 0
    let cell := Session.firstPage 1 .cell 0 2
    let db := Database.run [.initTopCell "top", .createCell top "a", .destroyIdArray array]
      (Database.empty {})
    let db' := after (Database.createCell top "b") db
    Database.createCell top "b" db = .error (.refused (.notFound array)) db' ∧
      db.isLive cell = false ∧ db'.isLive cell = true ∧ ¬ Database.SameContents db db' := by
  intro top array cell db db'
  have hbefore : db.isLive cell = false := by decide +kernel
  have hafter : db'.isLive cell = true := by decide +kernel
  refine ⟨eq_error_of_answer (by decide +kernel), hbefore, hafter, fun hsame => ?_⟩
  rw [hsame.isLive, hbefore] at hafter
  contradiction

end DesignStore
