/-
Changes that leave the structure of a database as it is.

Most of what is done to a database is done to records and tables.  The scopes stay where
they are, and so do the pools, the owners and the hierarchy (`Steady`).  A change of the
bodies of records and of tables leaves beside that what each record says about its place
in the hierarchy (`Alike`).
-/
import DesignStore.Proofs.Teardown

namespace DesignStore

/-- What a record says about its place: the position of its owner, and the position of its
scope if it is the root of one. -/
def Entry.marks (e : Entry) : ObjectIndex × Option ObjectIndex :=
  (e.owner, e.hierIndex?)

/-- A scope without the properties of its records. -/
def StorageScope.bare (s : StorageScope) : StorageScope :=
  { s with properties := {} }

namespace Database

open Registry

variable {ε α : Type} {db db' db'' : Database}

/-- The scopes, the pools, the owners and the hierarchy are the same; pools may have been
added. -/
structure SameFrame (db db' : Database) : Prop where
  evolves : Evolves db.registry db'.registry
  config : db'.config = db.config
  hierarchy : db'.hierarchy = db.hierarchy
  owners : db'.registry.owners = db.registry.owners
  tags : db.registry.tags ⊆ db'.registry.tags
  frames : db'.scopes.map (·.frame) = db.scopes.map (·.frame)

/-- The frame is the same, no pool was added, and the same records say the same about their
places. -/
structure SamePlaces (db db' : Database) : Prop extends SameFrame db db' where
  tags_eq : db'.registry.tags = db.registry.tags
  marks : ∀ id, (db'.registry.stored? id).map Entry.marks =
    (db.registry.stored? id).map Entry.marks

theorem SamePlaces.live (h : SamePlaces db db') {id : ObjectId} (hl : db.registry.Live id) :
    db'.registry.Live id := by
  rw [← isSome_stored?_iff] at hl ⊢
  rwa [← Option.isSome_map (f := Entry.marks), h.marks, Option.isSome_map]

namespace SameFrame

theorem refl (h : db.registry.Sound) : SameFrame db db where
  evolves := Evolves.refl h
  config := rfl
  hierarchy := rfl
  owners := rfl
  tags := List.Subset.refl _
  frames := rfl

theorem trans (hs : db.registry.Sound) (h : SameFrame db db') (h' : SameFrame db' db'') :
    SameFrame db db'' where
  evolves := h.evolves.trans hs h'.evolves
  config := h'.config.trans h.config
  hierarchy := h'.hierarchy.trans h.hierarchy
  owners := h'.owners.trans h.owners
  tags := List.Subset.trans h.tags h'.tags
  frames := h'.frames.trans h.frames

theorem of_stores {id : ObjectId} {e : Option Entry} {new : List ScopeTag} {r : Registry}
    (h : Stores id e new db.registry r) : SameFrame db { db with registry := r } where
  evolves := h.evolves
  config := rfl
  hierarchy := rfl
  owners := h.owners
  tags := by
    rw [h.tags]
    exact List.subset_append_right _ _
  frames := rfl

theorem of_touches {id : ObjectId} {c : Change} {r : Registry} (h : Touches id c db.registry r) :
    SameFrame db { db with registry := r } where
  evolves := h.evolves
  config := rfl
  hierarchy := rfl
  owners := h.owners
  tags := h.tags ▸ List.Subset.refl _
  frames := rfl

theorem of_scopes (hs : db.registry.Sound) {l : List StorageScope}
    (hl : l.map (·.frame) = db.scopes.map (·.frame)) : SameFrame db { db with scopes := l } :=
  { refl hs with frames := hl }

/-- What makes a database tidy is in its frame. -/
theorem tidy (h : db.Tidy) (hf : SameFrame db db') : db'.Tidy where
  sound := hf.evolves.sound
  paired := by
    rw [hf.hierarchy]
    exact h.paired
  forest := h.forest.of_frames hf.frames
  pool := by
    intro s hs
    obtain ⟨t, ht, _, htag, _⟩ := exists_of_frames hf.frames hs
    rw [isSome_pool?_iff, ← htag]
    exact hf.tags (isSome_pool?_iff.1 (h.pool t ht))
  bound := by
    intro e he
    rw [hf.owners] at he
    obtain ⟨s, hs, hso, hst⟩ := h.bound e he
    obtain ⟨t, ht, howner, htag, _⟩ := exists_of_frames hf.frames.symm hs
    exact ⟨t, ht, howner.trans hso, htag.trans hst⟩
  spent := by
    intro s hs
    obtain ⟨t, ht, howner, _⟩ := exists_of_frames hf.frames hs
    rw [← howner]
    exact (h.spent t ht).mono hf.evolves
  indexed := by
    intro e he
    rw [hf.hierarchy] at he
    exact (h.indexed e he).mono hf.evolves

end SameFrame

def Steady (db db' : Database) : Prop :=
  db.registry.Sound → SameFrame db db'

def Alike (db db' : Database) : Prop :=
  db.registry.Sound → SamePlaces db db'

instance : IsPreorder Database Alike where
  refl _ hs := { SameFrame.refl hs with tags_eq := rfl, marks := fun _ => rfl }
  trans _ _ _ h h' hs :=
    have hf := h hs
    have hf' := h' hf.evolves.sound
    { hf.toSameFrame.trans hs hf'.toSameFrame with
      tags_eq := hf'.tags_eq.trans hf.tags_eq
      marks := fun id => (hf'.marks id).trans (hf.marks id) }

theorem Alike.steady (h : Alike db db') : Steady db db' :=
  fun hs => (h hs).toSameFrame

/-! ## Records -/

theorem steady_update (k : RecordKind) (id : ObjectId) (f : Record k.Body → Record k.Body) :
    Keeps Steady (update k id f : EStateM (Failure ε) Database _) := by
  intro db h
  obtain ⟨r, hr, ht⟩ := after_update (ε := ε) h k id f
  rw [hr]
  exact SameFrame.of_touches ht

theorem steady_modifyHeader (id : ObjectId) (f : Header → Header) :
    Keeps Steady (modifyHeader id f : EStateM ε Database _) := by
  intro db h
  obtain ⟨r, hr, ht⟩ := after_modifyHeader (ε := ε) h id f
  rw [hr]
  exact SameFrame.of_touches ht

theorem steady_editHeader (id : ObjectId) (e : HeaderEdit) :
    Keeps Steady (editHeader id e : EStateM (Failure ε) Database _) := by
  intro db h
  obtain ⟨r, hr, ht⟩ := after_editHeader (ε := ε) h id e
  rw [hr]
  exact SameFrame.of_touches ht

theorem steady_setOwner (id owner : ObjectId) : Keeps Steady (setOwner id owner) := by
  intro db h
  rcases after_setOwner h id owner with hr | ⟨index, r, _, hr, ht⟩ <;> rw [hr]
  · exact SameFrame.refl h
  · exact SameFrame.of_touches ht

/-- A change of a record that stays live and says the same about its place. -/
theorem SamePlaces.of_touches {id : ObjectId} {c : Change} {r : Registry}
    (ht : Touches id c db.registry r)
    (hc : ∀ o, db.registry.record? id = some o → o.isValid = true →
      (c o.kind o.record).isValid = true)
    (hmarks : ∀ e : Entry, (e.change c).marks = e.marks) :
    SamePlaces db { db with registry := r } := by
  have hs := ht.stores hc
  refine { SameFrame.of_touches ht with tags_eq := ht.tags, marks := fun j => ?_ }
  by_cases hj : j = id
  · rw [hj, hs.self, Option.map_map]
    exact congrArg (Option.map · _) (funext hmarks)
  · rw [hs.other hj]

theorem alike_updateBody {k : RecordKind} {f : k.Body → k.Body}
    (hf : ∀ b, k.hierIndex? (f b) = k.hierIndex? b) (id : ObjectId) :
    Keeps Alike (updateBody k id f : EStateM (Failure ε) Database _) := by
  intro db h
  obtain ⟨r, hr, ht⟩ := after_update (ε := ε) h k id fun x => { x with body := f x.body }
  rw [updateBody, hr]
  have ht : Touches id (Change.body k f) db.registry r := ht
  refine SamePlaces.of_touches ht (fun o _ hv => ?_) fun e => ?_
  · rwa [Change.isValid_body]
  · exact Entry.change_write Entry.marks
      (fun x => by simp only [Entry.marks, Entry.owner, Entry.header, Entry.hierIndex?, hf]) e

/-! ## Tables -/

/-- An operation on the tables of a scope. -/
def OnTables (x : EStateM ε StorageScope α) : Prop :=
  ∀ s, (after x s).frame = s.frame

theorem OnTables.tag {x : EStateM ε StorageScope α} (hx : OnTables x) (s : StorageScope) :
    (after x s).tag = s.tag := by
  rw [← stays_frame.tag, hx s, stays_frame.tag]

theorem after_onSymbols (x : EStateM ε SymbolTable α) (s : StorageScope) :
    after (StorageScope.onSymbols x) s = { s with symbols := after x s.symbols } := by
  simp only [after, StorageScope.onSymbols]
  cases x s.symbols <;> rfl

theorem onTables_onSymbols (x : EStateM ε SymbolTable α) : OnTables (StorageScope.onSymbols x) := by
  intro s
  simp only [after, StorageScope.onSymbols]
  cases x s.symbols <;> rfl

theorem onTables_onPolygons (x : EStateM ε PolygonTable α) :
    OnTables (StorageScope.onPolygons x) := by
  intro s
  simp only [after, StorageScope.onPolygons]
  cases x s.polygons <;> rfl

theorem onTables_onProperties (x : EStateM ε PropertyTable α) :
    OnTables (StorageScope.onProperties x) := by
  intro s
  simp only [after, StorageScope.onProperties]
  cases x s.properties <;> rfl

theorem SamePlaces.of_scopes (hs : db.registry.Sound) {l : List StorageScope}
    (hl : l.map (·.frame) = db.scopes.map (·.frame)) : SamePlaces db { db with scopes := l } :=
  { SameFrame.of_scopes hs hl with tags_eq := rfl, marks := fun _ => rfl }

theorem alike_onScopeWhere (p : StorageScope → Bool) {x : EStateM ε StorageScope α}
    (hx : OnTables x) : Keeps Alike (onScopeWhere p x) := by
  intro db hs
  rw [after_onScopeWhere]
  exact SamePlaces.of_scopes hs (map_after_onFirst fun s _ => hx s)

theorem alike_onStorageScope (id : ObjectId) {x : EStateM (Failure ε) StorageScope α}
    (hx : OnTables x) : Keeps Alike (onStorageScope id x) := by
  intro db
  rcases after_onStorageScope id x db with hr | ⟨root, _, hr⟩ <;> rw [hr]
  · exact refl_of Alike db
  · exact alike_onScopeWhere _ hx db

theorem map_scopes_after_onHomeScope {β : Type} {g : StorageScope → β}
    {x : EStateM ε StorageScope α} (hx : ∀ s, g (after x s) = g s) (id : ObjectId)
    (db : Database) : (after (onHomeScope id x) db).scopes.map g = db.scopes.map g := by
  rcases after_onHomeScope id x db with hr | ⟨tag, _, hr⟩ <;> rw [hr]
  rw [after_onScopeWhere]
  exact map_after_onFirst fun s _ => hx s

theorem alike_onHomeScope (id : ObjectId) {x : EStateM ε StorageScope α} (hx : OnTables x) :
    Keeps Alike (onHomeScope id x) := by
  intro db
  rcases after_onHomeScope id x db with hr | ⟨tag, _, hr⟩ <;> rw [hr]
  · exact refl_of Alike db
  · exact alike_onScopeWhere _ hx db

theorem alike_onProperties (id : ObjectId) (x : EStateM ε PropertyTable α) :
    Keeps Alike (onHomeScope id (StorageScope.onProperties x)) :=
  alike_onHomeScope id (onTables_onProperties x)

/-! ## Destroying a record -/

theorem Tidy.of_hierarchy (h : db.Tidy) {t : Hierarchy} (hp : t.Paired)
    (hspent : ∀ e ∈ t.positions.entries, db.registry.Spent e.1) :
    Tidy { db with hierarchy := t } :=
  { h with paired := hp, indexed := hspent }

/-- A record that owns no scope goes, with its position and its properties. -/
structure Discards (id : ObjectId) (db db' : Database) : Prop where
  stores : Stores id none [] db.registry db'.registry
  config : db'.config = db.config
  hierarchy : db'.hierarchy = db.hierarchy.deleteWhere (· = id)
  scopes : db'.scopes.map (·.bare) = db.scopes.map (·.bare)

theorem discards_destroy (h : db.registry.Sound) (hp : db.hierarchy.Paired) {id : ObjectId}
    (hid : db.registry.isScopeOwner id = false) :
    ∃ b db', (destroy id : EStateM ε Database Bool) db = .ok b db' ∧ Discards id db db' := by
  obtain ⟨b, r, hr, _, ht⟩ := destroy_of_not_owner (ε := ε) h hid
  have hconfig := (alike_onProperties (ε := ε) id (PropertyTable.removeAll id) db h).config
  exact ⟨b, _, hr, ht.stores_of_clear, hconfig, Hierarchy.after_delete hp id,
    map_scopes_after_onHomeScope (fun _ => rfl) id db⟩

theorem after_destroy (h : db.registry.Sound) (hp : db.hierarchy.Paired) (id : ObjectId) :
    after (destroy id : EStateM ε Database Bool) db =
        after (destroyScope id : EStateM ε Database Bool) db ∨
      db.registry.isScopeOwner id = false ∧
        Discards id db (after (destroy id : EStateM ε Database Bool) db) := by
  cases hid : db.registry.isScopeOwner id with
  | true => exact Or.inl (by rw [after, destroy_of_owner hid, ← after])
  | false =>
    obtain ⟨b, db', hr, hd⟩ := discards_destroy (ε := ε) h hp hid
    exact Or.inr ⟨rfl, by rwa [after_ok hr]⟩

namespace Discards

variable {id : ObjectId}

theorem frames (hd : Discards id db db') :
    db'.scopes.map (·.frame) = db.scopes.map (·.frame) := by
  have hf : (StorageScope.frame ∘ StorageScope.bare) = StorageScope.frame := rfl
  rw [← hf, ← List.map_map, hd.scopes, List.map_map]

theorem tidy (h : db.Tidy) (hd : Discards id db db') : db'.Tidy := by
  have hf : SameFrame db { db' with hierarchy := db.hierarchy } :=
    { evolves := hd.stores.evolves
      config := hd.config
      hierarchy := rfl
      owners := hd.stores.owners
      tags := hd.stores.tags ▸ List.Subset.refl _
      frames := hd.frames }
  have ht := (hf.tidy h).of_hierarchy (Hierarchy.paired_deleteWhere h.paired (· = id))
    fun e he => (h.indexed e (List.mem_filter.1 he).1).mono hd.stores.evolves
  rwa [← hd.hierarchy] at ht

end Discards
end Database
end DesignStore
