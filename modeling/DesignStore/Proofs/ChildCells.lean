/-
The child cells of a cell.

A cell keeps the handles of its child cells in an array, which is a record of its own.  The
array is made when the first child is attached, in the pool of the scope the cell belongs to at
that moment, and it stays there.  As long as that scope is open the array lists the children that
were created, in that order, whatever became of them (`childCells_complete`).  When the scope is
closed the array goes with it.  A cell that has been moved to another scope since is still live
then, and has lost its list.
-/
import DesignStore.Proofs.Endurance
import DesignStore.Proofs.GrowArray
import DesignStore.Proofs.OwnerChain

namespace DesignStore

/-- The handles that an array of handles lists. -/
def RecordKind.items? : (k : RecordKind) → k.Body → Option (List ObjectId)
  | .ids, l => some (l : GrowArray ObjectId).toList
  | _, _ => none

namespace Entry

def items? (e : Entry) : Option (List ObjectId) :=
  e.kind.items? e.record.body

theorem items?_of_content {e e' : Entry} (h : e'.content = e.content) : e'.items? = e.items? :=
  congrArg (fun c : (k : RecordKind) × k.Body => c.1.items? c.2) h

end Entry

namespace Database

open Registry

variable {db db' : Database} {q p id child array : ObjectId} {s : StorageScope}

/-! ## Attaching a child -/

/-- A child was attached to the cell `q`: what the cell notes is `array`, which is now `x`. -/
structure Attached (q array : ObjectId) (c : Record Cell) (x : Record (GrowArray ObjectId))
    (db db' : Database) : Prop where
  evolves : Evolves db.registry db'.registry
  owners : db'.registry.owners = db.registry.owners
  scopes : db'.scopes = db.scopes
  before : db.registry.stored? q = some { kind := .cell, record := c }
  cell : db'.registry.stored? q =
    some { kind := .cell, record := { c with body := { c.body with cells := some array } } }
  list : db'.registry.stored? array = some { kind := .ids, record := x }
  other : ∀ j, j ≠ q → j ≠ array → db'.registry.stored? j = db.registry.stored? j

/-- How attaching a child to `q` can end: it is refused or there is nothing to attach it to, and
nothing is changed; or it comes at the end of the array of `q`; or it is the first in an array
that is made for it in the pool of the scope `q` belongs to. -/
inductive Attaching (q child : ObjectId) (db : Database) : Prop
  | refused {e : Failure DbError} (result : attachCell q child db = .error e db)
  | skipped (type : q.type? ≠ some .cell) (result : attachCell q child db = .ok ⟨⟩ db)
  | extended {array : ObjectId} {c : Record Cell} {x : Record (GrowArray ObjectId)} {db' : Database}
      (result : attachCell q child db = .ok ⟨⟩ db') (noted : c.body.cells = some array)
      (listed : db.registry.stored? array = some { kind := .ids, record := x })
      (attached : Attached q array c { x with body := x.body.push child } db db')
  | started {array : ObjectId} {c : Record Cell} {x : Record (GrowArray ObjectId)}
      {s : StorageScope} {db' : Database} (result : attachCell q child db = .ok ⟨⟩ db')
      (none : c.body.cells = none) (fresh : ¬ db.registry.Spent array)
      (first : x.body.toList = [child]) (mem : s ∈ db.scopes)
      (root : db.scopeRoot q = .ok (some s.owner)) (tag : ScopeTag.of? array = some s.tag)
      (attached : Attached q array c x db db')

theorem attached_of_stores (h : db.registry.Sound) {c : Record Cell}
    {x : Record (GrowArray ObjectId)} {r r' : Registry}
    (hc : db.registry.stored? q = some { kind := .cell, record := c }) (hne : array ≠ q)
    (hs : Stores array (some { kind := .ids, record := x }) [] db.registry r)
    (hs' : Stores q
      (some { kind := .cell, record := { c with body := { c.body with cells := some array } } }) []
      r r') : Attached q array c x db { db with registry := r' } where
  evolves := hs.evolves.trans h hs'.evolves
  owners := hs'.owners.trans hs.owners
  scopes := rfl
  before := hc
  cell := hs'.self
  list := (hs'.other hne).trans hs.self
  other := fun _ hq ha => (hs'.other hq).trans (hs.other ha)

/-- Puts a handle at the end of an array that is there. -/
def pushing (child array : ObjectId) : Edit ObjectId := do
  discard <| Edit.found array (← updateBody .ids array (·.push child))
  return array

theorem appendId_some (array owner child : ObjectId) :
    appendId (some array) owner child = pushing child array := rfl

theorem appendId_none (owner child : ObjectId) :
    appendId none owner child = createIdArray owner defaultArrayCapacity >>= pushing child := rfl

theorem pushing_ok (h : db.registry.Sound) {x : Record (GrowArray ObjectId)}
    (hx : db.registry.stored? array = some { kind := .ids, record := x }) (child : ObjectId) :
    ∃ r, pushing child array db = .ok array { db with registry := r } ∧
      Stores array (some { kind := .ids, record := { x with body := x.body.push child } }) []
        db.registry r := by
  obtain ⟨y, r, hr, hs⟩ := update_stores (ε := DbError) (k := .ids) h hx
    (f := fun x => { x with body := x.body.push child }) fun _ => rfl
  exact ⟨r, bind_ok hr, hs⟩

/-- The handle comes at the end of the array, or there is no array and nothing is changed. -/
theorem pushing_cases (h : db.registry.Sound) (child array : ObjectId) :
    (∃ e, pushing child array db = .error e db) ∨
      ∃ (x : Record (GrowArray ObjectId)) (r : Registry),
        db.registry.stored? array = some { kind := .ids, record := x } ∧
        pushing child array db = .ok array { db with registry := r } ∧
        Stores array (some { kind := .ids, record := { x with body := x.body.push child } }) []
          db.registry r := by
  by_cases hx : ∃ x, db.registry.stored? array = some { kind := .ids, record := x }
  · obtain ⟨x, hx⟩ := hx
    obtain ⟨r, hr, hs⟩ := pushing_ok h hx child
    exact Or.inr ⟨x, r, hx, hr, hs⟩
  · rcases update_of_not_stored (ε := DbError) h (fun x he => hx ⟨x, he⟩)
      fun x : Record (GrowArray ObjectId) => { x with body := x.body.push child } with ⟨e, hr⟩ | hr
    · exact Or.inl ⟨e, bind_error hr⟩
    · exact Or.inl ⟨_, bind_ok hr⟩

/-- What is done to a record that is read is done to a live record. -/
theorem bind_found_cases {α : Type} (h : db.registry.Sound) (k : RecordKind) (q : ObjectId)
    (f : Record k.Body → Edit α) :
    (∃ e, (do
        let x ← Edit.found q (← Edit.read (·.resolve k q))
        f x : Edit α) db = .error e db) ∨
      ∃ x, db.registry.stored? q = some { kind := k, record := x } ∧
        (do
          let x ← Edit.found q (← Edit.read (·.resolve k q))
          f x : Edit α) db = f x db := by
  cases hr : db.resolve k q with
  | error e => exact Or.inl ⟨.fault e, bind_error (by simp only [Edit.read, hr])⟩
  | ok x =>
    have hread : Edit.read (·.resolve k q) db = .ok x db := by simp only [Edit.read, hr]
    cases x with
    | none => exact Or.inl ⟨_, bind_ok hread⟩
    | some x => exact Or.inr ⟨x, (resolve_eq_some_iff_stored? h).1 hr, bind_ok hread⟩

/-- A record that was created as an array is made room in, and holds no handle. -/
theorem createIdArray_of_create (h : db.registry.Sound) {owner id : ObjectId} {db' : Database}
    (hr : create .ids .array owner db = .ok id db') {capacity : Nat}
    (hc : capacity * RecordKind.ids.elementBytes ≤ GrowArray.maxBytes) :
    ∃ (x : Record (GrowArray ObjectId)) (r : Registry),
      createIdArray owner capacity db = .ok id { db with registry := r } ∧
      Stores id (some { kind := .ids, record := x }) [] db.registry r ∧
      ¬ db.registry.Spent id ∧ x.body.toList = [] := by
  rcases create_stores h .ids .array owner with ⟨e, he⟩ | ⟨id', index, r, hr', hfresh, hs⟩
  · rw [hr] at he
    contradiction
  · cases hr.symm.trans hr'
    have hsound : ({ db with registry := r } : Database).registry.Sound := hs.evolves.sound
    obtain ⟨y, r', hr', hs'⟩ := update_stores (ε := DbError) (k := .ids) hsound hs.self
      (f := fun x => { x with body := x.body.reserve capacity }) fun _ => rfl
    have hreserve : reserveIds id capacity { db with registry := r } =
        .ok ⟨⟩ { db with registry := r' } := by
      rw [reserveIds_of_le hc]
      exact discard_ok hr'
    exact ⟨_, r', (bind_ok hr).trans (bind_ok hreserve), hs.trans h hs', hfresh,
      GrowArray.toList_reserve _ capacity⟩

/-- An array is made with room for some handles and none in it, or nothing is changed. -/
theorem createIdArray_cases (h : db.Anchored) (owner : ObjectId) {capacity : Nat}
    (hc : capacity * RecordKind.ids.elementBytes ≤ GrowArray.maxBytes) :
    (∃ e, createIdArray owner capacity db = .error e db) ∨
      ∃ (id : ObjectId) (x : Record (GrowArray ObjectId)) (r : Registry) (s : StorageScope),
        createIdArray owner capacity db = .ok id { db with registry := r } ∧
        Stores id (some { kind := .ids, record := x }) [] db.registry r ∧
        ¬ db.registry.Spent id ∧ x.body.toList = [] ∧ s ∈ db.scopes ∧
        db.scopeRoot owner = .ok (some s.owner) ∧ ScopeTag.of? id = some s.tag := by
  rcases create_cases h.sound .ids .array owner with
    ⟨e, he⟩ | ⟨_, _, key, _, _, _, _, _, _, _, _, hr⟩
  · exact Or.inl ⟨e, bind_error he⟩
  · obtain ⟨_, s, hmem, hroot, htag⟩ := hangs_create h hr
    obtain ⟨x, r, hr', hs, hfresh, hnil⟩ := createIdArray_of_create h.sound hr hc
    exact Or.inr ⟨key.pack, x, r, s, hr', hs, hfresh, hnil, hmem, hroot, htag⟩

/-- A handle comes at the end of the array that is given, or is the first in a new one, or nothing
is changed. -/
theorem appendId_cases (h : db.registry.Sound) (array : Option ObjectId) (owner value : ObjectId) :
    (∃ e, appendId array owner value db = .error e db) ∨
      ∃ (id : ObjectId) (x : Record (GrowArray ObjectId)) (r : Registry),
        appendId array owner value db = .ok id { db with registry := r } ∧
        Stores id (some { kind := .ids, record := x }) [] db.registry r ∧
        (array = none ∧ ¬ db.registry.Spent id ∧ x.body.toList = [value] ∨
          array = some id ∧ ∃ y, db.registry.stored? id = some { kind := .ids, record := y } ∧
            x.body.toList = y.body.toList ++ [value]) := by
  cases array with
  | some id =>
    rw [appendId_some]
    refine (pushing_cases h value id).imp_right ?_
    rintro ⟨y, r, hy, hr, hs⟩
    exact ⟨id, _, r, hr, hs, Or.inr ⟨rfl, y, hy, GrowArray.toList_push _ _⟩⟩
  | none =>
    rw [appendId_none]
    rcases create_stores h .ids .array owner with ⟨e, he⟩ | ⟨id, _, _, hr, hfresh, _⟩
    · exact Or.inl ⟨e, bind_error (bind_error he)⟩
    · obtain ⟨x, r, hr, hs, hfresh, hnil⟩ :=
        createIdArray_of_create h hr room_defaultArrayCapacity
      have hsound : ({ db with registry := r } : Database).registry.Sound := hs.evolves.sound
      obtain ⟨r', hr', hs'⟩ := pushing_ok hsound hs.self value
      refine Or.inr ⟨id, _, r', (bind_ok hr).trans hr', hs.trans h hs', Or.inl ⟨rfl, hfresh, ?_⟩⟩
      show (x.body.push value).toList = [value]
      rw [GrowArray.toList_push, hnil, List.nil_append]

theorem attaching (h : db.Anchored) (q child : ObjectId) : Attaching q child db := by
  by_cases ht : q.type? = some .cell
  · have hattach : attachCell q child = (do
        let c ← Edit.found q (← Edit.read (·.resolve .cell q))
        let array ← appendId c.body.cells q child
        updateCell q fun c => { c with cells := some array }) := by
      rw [attachCell, if_pos ht]
    rcases bind_found_cases h.sound .cell q fun c : Record Cell => do
        let array ← appendId c.body.cells q child
        updateCell q fun c => { c with cells := some array } with ⟨e, he⟩ | ⟨c, hc, hcell⟩
    · exact .refused (hattach ▸ he)
    rw [← hattach] at hcell
    cases harray : c.body.cells with
    | some array =>
      rw [harray, appendId_some] at hcell
      rcases pushing_cases h.sound child array with ⟨e, he⟩ | ⟨x, r, hx, hr, hs⟩
      · exact .refused (hcell.trans (bind_error he))
      · have hne : q ≠ array := by
          rintro rfl
          cases hc.symm.trans hx
        have hsound : ({ db with registry := r } : Database).registry.Sound := hs.evolves.sound
        obtain ⟨r', hr', hs'⟩ := updateCell_stores hsound ((hs.other hne).trans hc)
          fun c => { c with cells := some array }
        exact .extended (hcell.trans ((bind_ok hr).trans hr')) harray hx
          (attached_of_stores h.sound hc hne.symm hs hs')
    | none =>
      rw [harray, appendId_none] at hcell
      rcases createIdArray_cases h q room_defaultArrayCapacity with
        ⟨e, he⟩ | ⟨array, x, r, s, hr, hs, hfresh, hnil, hmem, hroot, htag⟩
      · exact .refused (hcell.trans (bind_error (bind_error he)))
      · have hne : q ≠ array := by
          rintro rfl
          exact hfresh (h.sound.spent_of_stored? hc)
        have hsound : ({ db with registry := r } : Database).registry.Sound := hs.evolves.sound
        obtain ⟨r', hr', hs'⟩ := pushing_ok hsound hs.self child
        have hs₂ := hs.trans h.sound hs'
        have hsound₂ : ({ db with registry := r' } : Database).registry.Sound := hs'.evolves.sound
        obtain ⟨r'', hr'', hs''⟩ := updateCell_stores hsound₂ ((hs₂.other hne).trans hc)
          fun c => { c with cells := some array }
        refine .started (hcell.trans ((bind_ok ((bind_ok hr).trans hr')).trans hr'')) harray hfresh
          ?_ hmem hroot htag (attached_of_stores h.sound hc hne.symm hs₂ hs'')
        show (x.body.push child).toList = [child]
        rw [GrowArray.toList_push, hnil, List.nil_append]
  · exact .skipped ht (by rw [attachCell, if_neg ht]; rfl)

/-! ## The list of a cell -/

/-- The array `id` is that of the cell `p` and of no other, and lists what was made, unless the
pool it is in is gone.  If `p` owns a scope then the array is in it. -/
structure Holds (p id : ObjectId) (made : List ObjectId) (db : Database) : Prop where
  cell_spent : db.registry.Spent p
  spent : db.registry.Spent id
  sole : ∀ q e, db.registry.stored? q = some e → e.cells? = some id → q = p
  plain : db.registry.isScopeOwner id = false
  listed : (∃ e, db.registry.stored? id = some e ∧ e.items? = some made ∧
    ∃ s ∈ db.scopes, ScopeTag.of? id = some s.tag) ∨ db.registry.lookup? id = none
  own : db.registry.isScopeOwner p = true →
    ∃ s ∈ db.scopes, s.owner = p ∧ ScopeTag.of? id = some s.tag

/-- What the cell `p` notes is `a`, which lists what was made. -/
structure Lists (p : ObjectId) (a : Option ObjectId) (made : List ObjectId) (db : Database) :
    Prop where
  anchored : db.Anchored
  known : ∀ q e id, db.registry.stored? q = some e → e.cells? = some id → db.registry.Spent id
  noted : ∀ e, db.registry.stored? p = some e → e.cells? = a
  empty : a = none → made = []
  holds : ∀ id, a = some id → Holds p id made db

variable {a : Option ObjectId} {made : List ObjectId}

/-- A record that notes an array is one that was there, and noted it before. -/
theorem Spares.exists_of_cells? {D : ObjectId → Prop} (hs : Spares D db db')
    (hsound : db.registry.Sound) {e : Entry} (he : db'.registry.stored? q = some e)
    (hid : e.cells? = some id) : ∃ e', db.registry.stored? q = some e' ∧ e'.cells? = some id := by
  by_cases hq : db.registry.Spent q
  · obtain ⟨e', he', hc⟩ := hs.exists_of_spent hsound hq he
    exact ⟨e', he', (Entry.cells?_of_content hc).trans hid⟩
  · rw [hs.fresh q e hq he] at hid
    contradiction

theorem Holds.of_spares (h : Holds p id made db) (ha : db.Anchored) (ha' : db'.Anchored)
    (hs : Spares (some id ≠ some ·) db db') : Holds p id made db' where
  cell_spent := h.cell_spent.mono hs.evolves
  spent := h.spent.mono hs.evolves
  sole := by
    intro q e he hid
    obtain ⟨e', he', hid'⟩ := hs.exists_of_cells? ha.sound he hid
    exact h.sole q e' he' hid'
  plain := hs.owner id h.spent h.plain
  listed := by
    rcases h.listed with ⟨e, he, hmade, s, hmem, htag⟩ | hgone
    · have hl := isSome_stored?_iff.1 (Option.isSome_of_eq_some he)
      rcases hs.stays id (fun hne => hne rfl) hl h.plain with hl' | hgone
      · obtain ⟨e', he'⟩ := Option.isSome_iff_exists.1 (isSome_stored?_iff.2 hl')
        obtain ⟨_, he'', hc⟩ := hs.exists_of_spent ha.sound h.spent he'
        cases he.symm.trans he''
        rcases hs.closed s hmem with ⟨t, ht, _, htt⟩ | ⟨_, hpool⟩
        · exact Or.inl ⟨e', he', (Entry.items?_of_content hc).symm.trans hmade, t, ht, htt ▸ htag⟩
        · refine Or.inr ?_
          rw [Registry.lookup?, htag]
          exact hpool
      · exact Or.inr hgone
    · exact Or.inr (h.spent.lookup?_eq_none hs.evolves hgone)
  own := by
    intro hp
    have hp₀ : db.registry.isScopeOwner p = true := by
      by_contra hn
      rw [hs.owner p h.cell_spent (by simpa using hn)] at hp
      contradiction
    obtain ⟨s, hmem, rfl, htag⟩ := h.own hp₀
    rcases hs.closed s hmem with ⟨t, ht, hto, htt⟩ | ⟨hn, _⟩
    · exact ⟨t, ht, hto, htt ▸ htag⟩
    · exact absurd (ha'.live_of_isScopeOwner hp) hn

namespace Lists

theorem of_spares (h : Lists p a made db) (ha' : db'.Anchored) (hs : Spares (a ≠ some ·) db db') :
    Lists p a made db' where
  anchored := ha'
  known := by
    intro q e id he hid
    obtain ⟨e', he', hid'⟩ := hs.exists_of_cells? h.anchored.sound he hid
    exact (h.known q e' id he' hid').mono hs.evolves
  noted := by
    intro e he
    by_cases hp : db.registry.Spent p
    · obtain ⟨e', he', hc⟩ := hs.exists_of_spent h.anchored.sound hp he
      exact (Entry.cells?_of_content hc).symm.trans (h.noted e' he')
    · rw [hs.fresh p e hp he]
      cases ha : a with
      | none => rfl
      | some id => exact absurd (h.holds id ha).cell_spent hp
  empty := h.empty
  holds := by
    rintro id rfl
    exact (h.holds id rfl).of_spares h.anchored ha' hs

/-- Tables of scopes may change. -/
theorem of_tables (h : Lists p a made db) (ha' : db'.Anchored) (hr : db'.registry = db.registry)
    (hscopes : ∀ s ∈ db.scopes, ∃ t ∈ db'.scopes, t.owner = s.owner ∧ t.tag = s.tag) :
    Lists p a made db' := by
  refine ⟨ha', ?_, ?_, h.empty, fun id ha => ?_⟩
  · rw [hr]
    exact h.known
  · rw [hr]
    exact h.noted
  · have hh := h.holds id ha
    refine ⟨?_, ?_, ?_, ?_, ?_, ?_⟩ <;> rw [hr]
    · exact hh.cell_spent
    · exact hh.spent
    · exact hh.sole
    · exact hh.plain
    · refine hh.listed.imp_left fun ⟨e, he, hmade, s, hs, htag⟩ => ?_
      obtain ⟨t, ht, _, htt⟩ := hscopes s hs
      exact ⟨e, he, hmade, t, ht, htt ▸ htag⟩
    · intro hp
      obtain ⟨s, hs, hso, htag⟩ := hh.own hp
      obtain ⟨t, ht, hto, htt⟩ := hscopes s hs
      exact ⟨t, ht, hto.trans hso, htt ▸ htag⟩

theorem onSymbols {ε α : Type} (h : Lists p a made db) (id : ObjectId)
    (x : EStateM (Failure ε) SymbolTable α) :
    Lists p a made (after (onStorageScope id (StorageScope.onSymbols x)) db) := by
  have hp := alike_onStorageScope id (onTables_onSymbols x) db h.anchored.sound
  refine h.of_tables (h.anchored.of_places hp) (registry_after_onStorageScope id _ db) fun s hs => ?_
  obtain ⟨t, ht, hto, htt, _⟩ := exists_of_frames hp.frames.symm hs
  exact ⟨t, ht, hto, htt⟩

/-- A write that leaves the array a cell notes, and the elements of the array of `p`. -/
theorem write {ε : Type} {k : RecordKind} {f : Record k.Body → Record k.Body}
    (hheader : ∀ x, (f x).header = x.header) (hcells : ∀ x, k.cells? (f x).body = k.cells? x.body)
    (hitems : a = some id → ∀ x, k.items? (f x).body = k.items? x.body)
    (h : Lists p a made db) :
    Lists p a made (after (update k id f : EStateM (Failure ε) Database _) db) := by
  have ha := anchored_of_follows (follows_write (ε := ε) hheader id) h.anchored
  obtain ⟨r, hr, ht⟩ := after_update (ε := ε) h.anchored.sound k id f
  rw [hr] at ha ⊢
  have hs := ht.stores fun _ _ hv =>
    Occupant.isValid_write (fun y => congrArg Header.isValid (hheader y)) hv
  have hsame (q : ObjectId) (e : Entry) (he : r.stored? q = some e) :
      ∃ e', db.registry.stored? q = some e' ∧ e'.cells? = e.cells? := by
    by_cases hq : q = id
    · obtain ⟨e', he', rfl⟩ := Option.map_eq_some_iff.1 (hs.self.symm.trans (hq ▸ he))
      exact ⟨e', hq ▸ he', (Entry.change_write Entry.cells? hcells e').symm⟩
    · exact ⟨e, (hs.other hq).symm.trans he, rfl⟩
  refine ⟨ha, fun q e i he hi => ?_, fun e he => ?_, h.empty, fun i hi => ?_⟩
  · obtain ⟨e', he', hc⟩ := hsame q e he
    exact (h.known q e' i he' (hc.trans hi)).mono hs.evolves
  · obtain ⟨e', he', hc⟩ := hsame p e he
    exact hc.symm.trans (h.noted e' he')
  · have hh := h.holds i hi
    refine ⟨hh.cell_spent.mono hs.evolves, hh.spent.mono hs.evolves, fun q e he hc => ?_, ?_, ?_, ?_⟩
    · obtain ⟨e', he', hc'⟩ := hsame q e he
      exact hh.sole q e' he' (hc'.trans hc)
    · rw [isScopeOwner, hs.owners]
      exact hh.plain
    · rcases hh.listed with ⟨e, he, hmade, hscope⟩ | hgone
      · left
        by_cases hid : i = id
        · refine ⟨e.change (Change.write k f), ?_, ?_, hscope⟩
          · rw [hid, show ({ db with registry := r } : Database).registry.stored? id = _ from hs.self,
              ← hid, he, Option.map_some]
          · exact (Entry.change_write Entry.items? (hitems (hid ▸ hi)) e).trans hmade
        · exact ⟨e, (hs.other hid).trans he, hmade, hscope⟩
      · exact Or.inr (hh.spent.lookup?_eq_none hs.evolves hgone)
    · rw [isScopeOwner, hs.owners]
      exact hh.own

end Lists

/-- What may be written where the array of `p` is `a`. -/
def Unlisted (a : Option ObjectId) : Writes := fun k id f =>
  (∀ b, k.cells? (f b) = k.cells? b) ∧ (a = some id → ∀ b, k.items? (f b) = k.items? b)

theorem endures_lists (p : ObjectId) (a : Option ObjectId) (made : List ObjectId) :
    Endures (a ≠ some ·) (Unlisted a) (Lists p a made) where
  anchored := Lists.anchored
  spares := Lists.of_spares
  write := fun hW _ h => h.write (fun _ => rfl) (fun x => hW.1 x.body) fun ha x => hW.2 ha x.body
  mention := fun id _ _ h => h.onSymbols id _
  new := fun h hn hf => ⟨hf, fun ha => absurd (h.holds _ ha).spent hn⟩

theorem nameable_unlisted (id : ObjectId) : Nameable (Unlisted a) id :=
  fun _ => ⟨fun _ => rfl, fun _ _ => rfl⟩

/-! ## Children that are made -/

theorem anchored_of_attachCell (h : db.Anchored) (q child : ObjectId) :
    (after (attachCell q child) db).Anchored :=
  anchored_of_follows ((Session.mirrors_attachCell q child).keeps_of_onDb
    ((Session.Making.of_alike follows_of_alike follows_create).attachCell q child)) h

section Attached

variable {c : Record Cell} {x : Record (GrowArray ObjectId)} (hat : Attached q array c x db db')
include hat

/-- What the records note is what they noted, but for the cell that has the child. -/
theorem Attached.of_cells? {j : ObjectId} {e : Entry} (he : db'.registry.stored? j = some e)
    (hid : e.cells? = some id) : j = q ∧ id = array ∨ j ≠ q ∧ db.registry.stored? j = some e := by
  by_cases hj : j = q
  · cases hat.cell.symm.trans (hj ▸ he)
    exact Or.inl ⟨hj, (Option.some.inj hid).symm⟩
  · refine Or.inr ⟨hj, ?_⟩
    by_cases harray : j = array
    · cases hat.list.symm.trans (harray ▸ he)
      contradiction
    · exact (hat.other j hj harray).symm.trans he

theorem Attached.known (ha' : db'.Anchored)
    (h : ∀ j e i, db.registry.stored? j = some e → e.cells? = some i → db.registry.Spent i)
    {j i : ObjectId} {e : Entry} (he : db'.registry.stored? j = some e) (hi : e.cells? = some i) :
    db'.registry.Spent i := by
  rcases hat.of_cells? he hi with ⟨_, rfl⟩ | ⟨_, he⟩
  · exact ha'.sound.spent_of_stored? hat.list
  · exact (h j e i he hi).mono hat.evolves

/-- A child of another cell. -/
theorem Lists.attach_other (h : Lists p a made db) (ha' : db'.Anchored) (hq : q ≠ p)
    (hne : a ≠ some array) (hp : p = array → a = none) : Lists p a made db' where
  anchored := ha'
  known := fun _ _ _ => hat.known ha' h.known
  noted := by
    intro e he
    by_cases harray : p = array
    · cases hat.list.symm.trans (harray ▸ he)
      exact (hp harray).symm
    · exact h.noted e ((hat.other p hq.symm harray).symm.trans he)
  empty := h.empty
  holds := by
    intro id hid
    have hh := h.holds id hid
    refine ⟨hh.cell_spent.mono hat.evolves, hh.spent.mono hat.evolves, fun j e he hc => ?_, ?_, ?_,
      ?_⟩
    · rcases hat.of_cells? he hc with ⟨_, rfl⟩ | ⟨_, he⟩
      · exact absurd hid hne
      · exact hh.sole j e he hc
    · rw [isScopeOwner, hat.owners]
      exact hh.plain
    · rw [hat.scopes]
      rcases hh.listed with ⟨e, he, hmade, hscope⟩ | hgone
      · refine Or.inl ⟨e, (hat.other id ?_ ?_).trans he, hmade, hscope⟩
        · rintro rfl
          cases hat.before.symm.trans he
          contradiction
        · rintro rfl
          exact hne hid
      · exact Or.inr (hh.spent.lookup?_eq_none hat.evolves hgone)
    · rw [isScopeOwner, hat.owners, hat.scopes]
      exact hh.own

end Attached

/-- A child of the cell, in its array or in a new one. -/
theorem Lists.attach_self {c : Record Cell} {x : Record (GrowArray ObjectId)}
    (h : Lists p a made db) (ha' : db'.Anchored) (hat : Attached p array c x db db')
    (hsole : ∀ j e, j ≠ p → db.registry.stored? j = some e → e.cells? ≠ some array)
    (hplain : db.registry.isScopeOwner array = false)
    (hscope : ∃ s ∈ db.scopes, ScopeTag.of? array = some s.tag)
    (hown : db.registry.isScopeOwner p = true →
      ∃ s ∈ db.scopes, s.owner = p ∧ ScopeTag.of? array = some s.tag) :
    Lists p (some array) x.body.toList db' where
  anchored := ha'
  known := fun _ _ _ => hat.known ha' h.known
  noted := by
    intro e he
    cases hat.cell.symm.trans he
    rfl
  empty := fun hn => by contradiction
  holds := by
    intro id hid
    cases hid
    refine ⟨ha'.sound.spent_of_stored? hat.cell, ha'.sound.spent_of_stored? hat.list,
      fun j e he hc => ?_, ?_, Or.inl ⟨_, hat.list, rfl, ?_⟩, ?_⟩
    · rcases hat.of_cells? he hc with ⟨hj, _⟩ | ⟨hj, he⟩
      · exact hj
      · exact absurd hc (hsole j e hj he)
    · rw [isScopeOwner, hat.owners]
      exact hplain
    · rw [hat.scopes]
      exact hscope
    · rw [isScopeOwner, hat.owners, hat.scopes]
      exact hown

namespace Lists

theorem attachCell_other (h : Lists p a made db) (hq : q ≠ p) (child : ObjectId) :
    Lists p a made (after (attachCell q child) db) := by
  have ha' := anchored_of_attachCell h.anchored q child
  cases attaching h.anchored q child with
  | refused result => rwa [after_error result]
  | skipped _ result => rwa [after_ok result]
  | extended result noted listed attached =>
    rw [after_ok result] at ha' ⊢
    refine h.attach_other attached ha' hq (fun hne => ?_) fun harray => ?_
    · exact hq ((h.holds _ hne).sole q _ attached.before noted)
    · exact (h.noted _ (harray ▸ listed)).symm
  | started result none fresh _ _ _ _ attached =>
    rw [after_ok result] at ha' ⊢
    refine h.attach_other attached ha' hq (fun hne => fresh (h.holds _ hne).spent) fun harray => ?_
    cases ha : a with
    | none => rfl
    | some id => exact absurd (h.holds id ha).cell_spent (harray ▸ fresh)

/-- A child of the cell is listed at the end, or nothing is changed. -/
theorem attachCell_self (h : Lists p a made db) (hp : p.type? = some .cell) (child : ObjectId) :
    (∃ e, attachCell p child db = .error e db) ∨
      ∃ a' db', attachCell p child db = .ok ⟨⟩ db' ∧ Lists p a' (made ++ [child]) db' := by
  have ha' := anchored_of_attachCell h.anchored p child
  cases attaching h.anchored p child with
  | refused result => exact Or.inl ⟨_, result⟩
  | skipped type _ => exact absurd hp type
  | @extended array c x db' result noted listed attached =>
    rw [after_ok result] at ha'
    have hh := h.holds array ((h.noted _ attached.before).symm.trans noted)
    rcases hh.listed with ⟨e, he, hmade, hscope⟩ | hgone
    · cases listed.symm.trans he
      cases hmade
      refine Or.inr ⟨some array, db', result, ?_⟩
      rw [← GrowArray.toList_push]
      exact h.attach_self ha' attached (fun j e hj he hc => hj (hh.sole j e he hc)) hh.plain
        (let ⟨s, hs, htag⟩ := hscope; ⟨s, hs, htag⟩) hh.own
    · exact absurd (isSome_stored?_iff.1 (Option.isSome_of_eq_some listed))
        (not_live_of_lookup?_none hgone)
  | @started array c x s db' result none fresh first mem root tag attached =>
    rw [after_ok result] at ha'
    refine Or.inr ⟨some array, db', result, ?_⟩
    rw [h.empty ((h.noted _ attached.before).symm.trans none), List.nil_append, ← first]
    refine h.attach_self ha' attached (fun j e _ he hc => fresh (h.known j e array he hc))
      (h.anchored.isScopeOwner_of_unindexed (h.anchored.unindexed_of_fresh fresh))
      ⟨s, mem, tag⟩ fun hown => ⟨s, mem, ?_, tag⟩
    rw [scopeRoot_of_owner hown, Except.ok.injEq, Option.some.injEq] at root
    exact root.symm

/-- A cell is made, named and attached to the cell `q`.  If `q` is `p` and the cell is answered,
then it is listed at the end. -/
theorem making (h : Lists p a made db) (hp : p.type? = some .cell) {make : Edit ObjectId}
    (hmake : Keeps (SparesFrom (a ≠ some ·)) make) (q : ObjectId) (name : String) :
    ∃ a', Lists p a' (made ++ if q = p then ((answer (making make q name) db).toOption).toList
      else []) (after (making make q name) db) := by
  have hends := endures_lists p a made
  have herror {e : Failure DbError} {db' : Database} (hr : Database.making make q name db = .error e db')
      (hdb' : Lists p a made db') :
      ∃ a', Lists p a' (made ++ if q = p then
          ((answer (Database.making make q name) db).toOption).toList else [])
        (after (Database.making make q name) db) := by
    refine ⟨a, ?_⟩
    rw [after_error hr]
    simp only [answer, hr, Except.toOption, Option.toList_none, ite_self, List.append_nil]
    exact hdb'
  have hmade := (hends.of_sparesFrom hmake).keeps h
  cases hm : make db with
  | error e db₁ =>
    rw [after_error hm] at hmade
    exact herror (bind_error hm) hmade
  | ok id db₁ =>
    rw [after_ok hm] at hmade
    have hnamed := (hends.setCellName (nameable_unlisted id) name).keeps hmade
    cases hn : setCellName id name db₁ with
    | error e db₂ =>
      rw [after_error hn] at hnamed
      exact herror ((bind_ok hm).trans (bind_error (by rw [discard_apply, hn]))) hnamed
    | ok symbol db₂ =>
      rw [after_ok hn] at hnamed
      have hrest : Database.making make q name db =
          (attachCell q id >>= fun _ => pure id : Edit ObjectId) db₂ :=
        (bind_ok hm).trans (bind_ok (discard_ok hn))
      by_cases hq : q = p
      · subst hq
        rcases hnamed.attachCell_self hp id with ⟨e, he⟩ | ⟨a', db₃, hr, hlisted⟩
        · exact herror (hrest.trans (bind_error he)) hnamed
        · have hr := hrest.trans (bind_ok hr)
          refine ⟨a', ?_⟩
          rw [after_ok hr, if_pos rfl]
          simp only [answer, hr, pure_apply, Except.toOption, Option.toList_some]
          exact hlisted
      · refine ⟨a, ?_⟩
        have ha : after (Database.making make q name) db = after (attachCell q id) db₂ := by
          rw [← after_bind_of_still (f := fun _ => (pure id : Edit ObjectId)) (fun _ _ => rfl) db₂]
          simp only [after, hrest]
        rw [ha, if_neg hq, List.append_nil]
        exact hnamed.attachCell_other hq id

end Lists

end Database

/-! ## Along a run -/

namespace Command

/-- The commands that write to no cell by hand which array it notes. -/
def LeavesCells : Command → Prop
  | .write k _ f => ∀ x, k.cells? (f x).body = k.cells? x.body
  | _ => True

/-- The record that a command writes to or destroys as the caller says. -/
def target? : Command → Option ObjectId
  | .write _ id _ | .destroy id | .destroyIdArray id => some id
  | .appendId array _ _ => array
  | _ => none

/-- The child that a command makes for the cell `p` and answers. -/
def child? (p : ObjectId) : Command → Database → Option ObjectId
  | .createCell parent name, db =>
    if parent = p then (answer (Database.createCell parent name) db).toOption else none
  | .createHierCell parent name, db =>
    if parent = p then (answer (Database.createHierCell parent name) db).toOption else none
  | _, _ => none

end Command

namespace Database

open Registry

variable {db db' : Database} {p id : ObjectId} {a : Option ObjectId} {made : List ObjectId}

/-- The children that a run makes for the cell `p`, in the order they are made. -/
def childrenMade (p : ObjectId) : Database → List Command → List ObjectId
  | _, [] => []
  | db, c :: cmds => (c.child? p db).toList ++ childrenMade p (after c.perform db) cmds

/-- The list of the cell `p` is right, or the cell is gone for good. -/
def Keeping (p : ObjectId) (made : List ObjectId) (db : Database) : Prop :=
  db.Anchored ∧ (db.registry.Stale p ∨ ∃ a, Lists p a made db)

theorem Lists.cellArray (h : Lists p a made db) {c : Record Cell}
    (hc : db.resolve .cell p = .ok (some c)) : db.cellArray p = .ok a := by
  have hs := (resolve_eq_some_iff_stored? h.anchored.sound).1 hc
  have ha : c.body.cells = a := h.noted _ hs
  simp only [Database.cellArray, hc, ha, bind, Except.bind, pure, Except.pure]

/-- The array of a live cell is what the cell notes. -/
theorem Lists.cellArray_of_some (h : Lists p (some id) made db) (hl : db.registry.Live p) :
    db.cellArray p = .ok (some id) := by
  obtain ⟨e, he⟩ := Option.isSome_iff_exists.1 (isSome_stored?_iff.2 hl)
  have hid := h.noted e he
  obtain ⟨k, c⟩ := e
  cases k with
  | cell => exact h.cellArray ((resolve_eq_some_iff_stored? h.anchored.sound).2 he)
  | _ => contradiction

/-- The commands by which no child is made write to no array of a live cell, if they are not told
to. -/
theorem Lists.perform (h : Lists p a made db) {c : Command} (hheaders : c.LeavesHeaders)
    (hcells : c.LeavesCells) (htarget : ∀ id ∈ c.target?, a ≠ some id)
    (hmaking : (∀ q n, c ≠ .createCell q n) ∧ ∀ q n, c ≠ .createHierCell q n) :
    Lists p a made (after c.perform db) := by
  refine (endures_lists p a made).perform ?_ h
  cases c with
  | setCellName id n => exact nameable_unlisted id
  | createCell q n => exact absurd rfl (hmaking.1 q n)
  | createHierCell q n => exact absurd rfl (hmaking.2 q n)
  | appendId array owner value =>
    exact fun id hid => ⟨fun _ => rfl, fun ha => absurd ha (htarget id hid)⟩
  | destroy id => exact htarget id rfl
  | destroyIdArray id => exact htarget id rfl
  | write k id f =>
    intro db h
    show Lists p a made (after (discard (update k id f)) db)
    rw [after_discard]
    exact h.write hheaders hcells fun ha => absurd ha (htarget id rfl)
  | symbols id x =>
    intro db h
    show Lists p a made (after (discard (onStorageScope id _)) db)
    rw [after_discard]
    exact h.onSymbols id x
  | restoreHierarchy l => exact hheaders.elim
  | writeHeader id f => exact hheaders.elim
  | editHeader id e => exact hheaders.elim
  | _ => trivial

/-- What a command makes for the cell is listed at the end. -/
theorem Keeping.perform (h : Keeping p made db) (hp : p.type? = some .cell) {c : Command}
    (hheaders : c.LeavesHeaders) (hcells : c.LeavesCells)
    (htarget : ∀ id ∈ c.target?, db.cellArray p ≠ .ok (some id)) :
    Keeping p (made ++ (c.child? p db).toList) (after c.perform db) := by
  obtain ⟨ha, hlist⟩ := h
  have hcmds : ∀ c' ∈ [c], c'.LeavesHeaders := by simpa using hheaders
  obtain ⟨ha', he, _⟩ := follows_run (X := fun _ => False) hcmds (fun _ hx => hx.elim) db ha
  refine ⟨ha', ?_⟩
  by_cases hstale : db.registry.Stale p
  · exact Or.inl (hstale.mono he)
  obtain ⟨a, hlist⟩ := hlist.resolve_left hstale
  right
  have htarget (id : ObjectId) (hid : id ∈ c.target?) : a ≠ some id := by
    rintro rfl
    have hl : db.registry.Live p := by
      by_contra hn
      exact hstale ((hlist.holds id rfl).cell_spent.stale_of_not_live hn)
    exact htarget id hid (hlist.cellArray_of_some hl)
  have hif (q : ObjectId) (o : Option ObjectId) :
      (if q = p then o else none).toList = if q = p then o.toList else [] := by
    split <;> rfl
  cases c with
  | createCell q n =>
    rw [Command.child?, hif]
    show ∃ a, Lists p a _ (after (discard (createCell q n)) db)
    rw [after_discard]
    exact hlist.making hp (sparesFrom_create .cell .cell q) q n
  | createHierCell q n =>
    rw [Command.child?, hif]
    show ∃ a, Lists p a _ (after (discard (createHierCell q n)) db)
    rw [after_discard]
    exact hlist.making hp (sparesFrom_openNested q) q n
  | _ =>
    refine ⟨a, ?_⟩
    simp only [Command.child?, Option.toList_none, List.append_nil]
    refine hlist.perform hheaders hcells htarget ⟨?_, ?_⟩ <;> simp

theorem Keeping.run (h : Keeping p made db) (hp : p.type? = some .cell) {cmds : List Command}
    (hheaders : ∀ c ∈ cmds, c.LeavesHeaders) (hcells : ∀ c ∈ cmds, c.LeavesCells)
    (htarget : db.Throughout (fun db c => ∀ id ∈ c.target?, db.cellArray p ≠ .ok (some id)) cmds) :
    Keeping p (made ++ childrenMade p db cmds) (Database.run cmds db) := by
  induction cmds generalizing db made with
  | nil =>
    rw [childrenMade, List.append_nil]
    exact h
  | cons c cmds ih =>
    rw [childrenMade, ← List.append_assoc]
    exact ih (h.perform hp (hheaders c List.mem_cons_self) (hcells c List.mem_cons_self) htarget.1)
      (fun c hc => hheaders c (List.mem_cons_of_mem _ hc))
      (fun c hc => hcells c (List.mem_cons_of_mem _ hc)) htarget.2

theorem keeping_empty {c : StoreConfig} (h : c.pool.Valid) (p : ObjectId) :
    Keeping p [] (empty c) := by
  have hn (id : ObjectId) (e : Entry) : (empty c).registry.stored? id ≠ some e := by
    rw [show (empty c).registry.stored? id = none from stored?_clear (Registry.empty c.pool) id]
    exact fun he => by contradiction
  exact ⟨anchored_empty h, Or.inr ⟨none, anchored_empty h, fun q e _ he => absurd he (hn q e),
    fun e he => absurd he (hn p e), fun _ => rfl, fun _ hid => by contradiction⟩⟩

theorem childCells_of_none (h : db.cellArray p = .ok none) : db.childCells p = .ok [] := by
  simp only [childCells, h, bind, Except.bind, pure, Except.pure]

/-- The array is there as long as its scope is open, and goes with it. -/
theorem Holds.childCells (h : Holds p id made db) (ha : db.Anchored)
    (hp : db.cellArray p = .ok (some id)) :
    (db.homeScope? id).isSome = true ∧ db.childCells p = .ok made ∨
      db.homeScope? id = none ∧ db.childCells p = .ok [] := by
  rcases h.listed with ⟨⟨k, x⟩, he, hmade, s, hs, htag⟩ | hgone
  · left
    cases k with
    | ids =>
      have hr := (resolve_eq_some_iff_stored? ha.sound).2 he
      have hmade : (x.body : GrowArray ObjectId).toList = made := Option.some.inj hmade
      rw [homeScope?_of_mem ha.forest hs htag]
      refine ⟨rfl, ?_⟩
      simp only [Database.childCells, hp, idArray, hr, hmade, bind, Except.bind, pure, Except.pure]
    | _ => contradiction
  · right
    have hr : db.idArray id = .ok none := by simp only [idArray, resolve, hgone]
    refine ⟨?_, by simp only [Database.childCells, hp, hr, bind, Except.bind, pure, Except.pure]⟩
    cases hhome : db.homeScope? id with
    | none => rfl
    | some s =>
      obtain ⟨tag, htag, hfind⟩ := Option.bind_eq_some_iff.1 hhome
      have hst : s.tag = tag := by simpa using List.find?_some hfind
      have hpool := ha.pool s (List.mem_of_find?_eq_some hfind)
      rw [Registry.lookup?, htag, ← hst] at hgone
      rw [show db.registry.pool? s.tag = none from hgone] at hpool
      contradiction

end Database

/-- Let no hierarchy be restored, and let no header, no array that a cell notes, and no array of
`p` be written or destroyed by hand.  Then a live cell `p` lists all children that were created
for it, in the order they were created, whatever became of them, as long as the scope with its
array is open.  That is always so if `p` owns a scope.  Once that scope is closed `p` lists
nothing. -/
theorem childCells_complete {c : StoreConfig} {start : Database} (h : Database.new c = .ok start)
    {cmds : List Command} (hheaders : ∀ c ∈ cmds, c.LeavesHeaders)
    (hcells : ∀ c ∈ cmds, c.LeavesCells) {p : ObjectId} (htype : p.type? = some .cell)
    (htarget : start.Throughout (fun db c => ∀ id ∈ c.target?, db.cellArray p ≠ .ok (some id)) cmds)
    {x : Record Cell} (hp : (Database.run cmds start).resolve .cell p = .ok (some x)) :
    let db := Database.run cmds start
    let made := Database.childrenMade p start cmds
    ∃ a, db.cellArray p = .ok a ∧ (a = none → made = []) ∧
      ((∀ id ∈ a, (db.homeScope? id).isSome = true) → db.childCells p = .ok made) ∧
      (∀ id ∈ a, db.homeScope? id = none → db.childCells p = .ok []) ∧
      (db.registry.isScopeOwner p = true → db.childCells p = .ok made) := by
  intro db made
  obtain ⟨hvalid, rfl⟩ := Database.new_eq_ok h
  obtain ⟨ha, hlist⟩ := (Database.keeping_empty hvalid p).run htype hheaders hcells htarget
  have hl : db.registry.Live p := Registry.isSome_stored?_iff.1
    (Option.isSome_of_eq_some ((Database.resolve_eq_some_iff_stored? ha.sound).1 hp))
  obtain ⟨a, hlist⟩ := hlist.resolve_left fun hstale => hstale.not_live hl
  have harray := hlist.cellArray hp
  refine ⟨a, harray, hlist.empty, ?_⟩
  cases a with
  | none =>
    have hnone : db.childCells p = .ok made := by
      rw [show made = [] from hlist.empty rfl]
      exact Database.childCells_of_none harray
    exact ⟨fun _ => hnone, fun id hid => by contradiction, fun _ => hnone⟩
  | some id =>
    have hh := hlist.holds id rfl
    rcases hh.childCells ha harray with ⟨hopen, hmade⟩ | ⟨hclosed, hnil⟩
    · refine ⟨fun _ => hmade, fun id' hid' hn => ?_, fun _ => hmade⟩
      cases hid'
      rw [show db.homeScope? id = none from hn] at hopen
      contradiction
    · refine ⟨fun hopen => ?_, fun _ _ _ => hnil, fun hown => ?_⟩
      · have hopen := hopen id rfl
        rw [show db.homeScope? id = none from hclosed] at hopen
        contradiction
      · obtain ⟨s, hs, _, htag⟩ := hh.own hown
        rw [Database.homeScope?_of_mem ha.forest hs htag] at hclosed
        contradiction

/-- A cell has two children, of which one is destroyed, is moved into the other, and has a third. -/
theorem childCells_complete_moved :
    let top := Session.firstPage 1 .cell 0 0
    let p := Session.firstPage 1 .cell 0 1
    let gone := Session.firstPage 1 .cell 0 2
    let nested := Session.firstPage 1 .cell 0 3
    let last := Session.firstPage 2 .cell 0 0
    let array := Session.firstPage 1 .array 0 1
    let cmds : List Command := [.initTopCell "top", .createCell top "p", .createCell p "a",
      .createHierCell p "b", .destroy gone, .setOwner p nested, .createCell p "c"]
    let db := Database.run cmds (Database.empty {})
    (∀ c ∈ cmds, c.LeavesHeaders) ∧ (∀ c ∈ cmds, c.LeavesCells) ∧ p.type? = some .cell ∧
      (Database.empty {}).Throughout
        (fun db c => ∀ id ∈ c.target?, db.cellArray p ≠ .ok (some id)) cmds ∧
      (∃ x, db.resolve .cell p = .ok (some x)) ∧ db.cellArray p = .ok (some array) ∧
      db.childCells p = .ok [gone, nested, last] := by
  intro top p gone nested last array cmds db
  have hheaders : ∀ c ∈ cmds, c.LeavesHeaders := by simp [cmds, Command.LeavesHeaders]
  have hcells : ∀ c ∈ cmds, c.LeavesCells := by simp [cmds, Command.LeavesCells]
  have htype : p.type? = some .cell := by decide +kernel
  have htarget : (Database.empty {}).Throughout
      (fun db c => ∀ id ∈ c.target?, db.cellArray p ≠ .ok (some id)) cmds := by decide +kernel
  have hsome : (db.resolve .cell p).toOption.join.isSome = true := by decide +kernel
  obtain ⟨x, hx⟩ : ∃ x, db.resolve .cell p = .ok (some x) := by
    cases hx : db.resolve .cell p with
    | error fault => simp [hx, Except.toOption] at hsome
    | ok found =>
      cases found with
      | none => simp [hx, Except.toOption] at hsome
      | some x => exact ⟨x, rfl⟩
  have harray : db.cellArray p = .ok (some array) := by decide +kernel
  obtain ⟨a, ha, _, hopen, _, _⟩ := childCells_complete (c := {}) rfl hheaders hcells htype htarget hx
  cases harray.symm.trans ha
  have hmade : Database.childrenMade p (Database.empty {}) cmds = [gone, nested, last] := by
    decide +kernel
  refine ⟨hheaders, hcells, htype, htarget, ⟨x, hx⟩, harray, hmade ▸ hopen fun id hid => ?_⟩
  cases hid
  decide +kernel

/-- A cell comes to be owned by the technology library and has a child.  When the library is
closed the cell is still live, and lists no child. -/
theorem childCells_lost_with_scope :
    let top := Session.firstPage 1 .cell 0 0
    let tech := Session.firstPage 2 .tech 0 0
    let p := Session.firstPage 1 .cell 0 1
    let child := Session.firstPage 2 .cell 0 0
    let cmds : List Command := [.initTopCell "top", .initTechLib, .createCell top "p",
      .setOwner p tech, .createCell p "c", .destroyScope tech]
    let db := Database.run cmds (Database.empty {})
    Database.childrenMade p (Database.empty {}) cmds = [child] ∧ db.isLive p = true ∧
      db.childCells p = .ok [] := by
  intro top tech p child cmds db
  exact ⟨by decide +kernel, by decide +kernel, by decide +kernel⟩

end DesignStore
