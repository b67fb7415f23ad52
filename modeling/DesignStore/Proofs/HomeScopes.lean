/-
The scope a record stays in.

The properties of a record are kept in the scope whose pool issued the record.  That is its scope
for as long as the record is live: nothing that is done to owners or to the hierarchy changes it,
no pool outlives its scope and no tag is given out twice.  So a record that stays live keeps its
properties, and where a record goes its properties go with it, whatever way it goes (`Abides`).
Headers and the hierarchy may be written by hand all the while, so that nothing can be told here
from owners, positions or the way scopes lie in each other.
-/
import DesignStore.Proofs.Bystanders

namespace DesignStore

/-- A scope as the properties in it see it: whose it is, its tag, and its properties. -/
def StorageScope.core (s : StorageScope) : ObjectId × ScopeTag × PropertyTable :=
  (s.owner, s.tag, s.properties)

/-- A scope with its properties changed, if it is the home of a record. -/
def StorageScope.rewriting (id : ObjectId) (f : PropertyTable → PropertyTable) (s : StorageScope) :
    StorageScope :=
  if ScopeTag.of? id = some s.tag then { s with properties := f s.properties } else s

/-! ## What stays with a record -/

namespace Database

open Registry

variable {ε α : Type} {X : ObjectId → Prop} {db db' db'' : Database} {id owner : ObjectId}

/-- The properties in the home scope of a record. -/
def properties? (db : Database) (id : ObjectId) : Option (Assoc String PropertyValue) := do
  (← db.homeScope? id).properties.byObject.get? id

/-- Scopes have an owner and a tag of their own, which were given out, and the properties in
them are of live records that their pools issued. -/
structure Attributed (db : Database) : Prop where
  sound : db.registry.Sound
  owners : (db.scopes.map (·.owner)).Nodup
  tags : (db.scopes.map (·.tag)).Nodup
  issued : ∀ s ∈ db.scopes, s.tag.toNat ≤ db.registry.issued
  spent : ∀ s ∈ db.scopes, db.registry.Spent s.owner
  live : ∀ s ∈ db.scopes, ∀ id, s.properties.hasProperties id = true →
    db.registry.Live id ∧ ScopeTag.of? id = some s.tag

/-- A record that stays live stays in its scope.  It has the properties it had, and if it is
new it has none, unless it is one of `X`. -/
structure Abides (X : ObjectId → Prop) (db db' : Database) : Prop where
  attributed : db'.Attributed
  evolves : Evolves db.registry db'.registry
  home : ∀ id, db.registry.Live id → db'.registry.Live id →
    (db'.homeScope? id).map (fun s => (s.owner, s.tag)) =
      (db.homeScope? id).map fun s => (s.owner, s.tag)
  properties : ∀ id, ¬ X id → db'.registry.Live id → db'.properties? id = db.properties? id

def AbidesFrom (X : ObjectId → Prop) (db db' : Database) : Prop :=
  db.Attributed → Abides X db db'

namespace Attributed

variable (h : db.Attributed)
include h

theorem homeScope?_eq_some_iff {s : StorageScope} :
    db.homeScope? id = some s ↔ s ∈ db.scopes ∧ ScopeTag.of? id = some s.tag :=
  Database.homeScope?_eq_some_iff h.tags

/-- What is not live has no properties. -/
theorem properties?_eq_none (hn : ¬ db.registry.Live id) : db.properties? id = none := by
  cases hs : db.homeScope? id with
  | none => simp only [properties?, hs, Option.bind_eq_bind, Option.bind_none]
  | some s =>
    have hget : s.properties.byObject.get? id = none := by
      by_contra hget
      have hhas : s.properties.hasProperties id = true :=
        Option.isSome_iff_ne_none.2 hget
      exact hn (h.live s (h.homeScope?_eq_some_iff.1 hs).1 id hhas).1
    simp only [properties?, hs, Option.bind_eq_bind, Option.bind_some, hget]

theorem abides_refl : Abides X db db where
  attributed := h
  evolves := Evolves.refl h.sound
  home := fun _ _ _ => rfl
  properties := fun _ _ _ => rfl

/-- The tag of a live record was given out. -/
theorem tag_le (hl : db.registry.Live id) {t : ScopeTag} (hof : ScopeTag.of? id = some t) :
    t.toNat ≤ db.registry.issued := by
  obtain ⟨k, hk, hle, _⟩ := h.sound.spent_of_live hl
  rw [SlotKey.of?_of_unpack? hk] at hof
  exact Option.some.inj hof ▸ hle

end Attributed

theorem Abides.trans (ha : db.Attributed) (h : Abides X db db') (h' : Abides X db' db'') :
    Abides X db db'' where
  attributed := h'.attributed
  evolves := h.evolves.trans ha.sound h'.evolves
  home := by
    intro id hl hl''
    have hl' := h.evolves.live_between h'.evolves (ha.sound.spent_of_live hl) hl''
    rw [h'.home id hl' hl'', h.home id hl hl']
  properties := by
    intro id hX hl''
    rw [h'.properties id hX hl'']
    by_cases hl' : db'.registry.Live id
    · exact h.properties id hX hl'
    · have hl : ¬ db.registry.Live id := fun hl =>
        hl' (h.evolves.live_between h'.evolves (ha.sound.spent_of_live hl) hl'')
      rw [h.attributed.properties?_eq_none hl', ha.properties?_eq_none hl]

instance : IsPreorder Database (AbidesFrom X) where
  refl _ h := h.abides_refl
  trans _ _ _ h h' ha := (h ha).trans ha (h' (h ha).attributed)

/-! ## Changes that take no status and write no property -/

section Core

variable (hcore : db'.scopes.map (·.core) = db.scopes.map (·.core))
include hcore

theorem exists_of_core {s : StorageScope} (hs : s ∈ db'.scopes) :
    ∃ t ∈ db.scopes, t.core = s.core :=
  List.mem_map.1 (hcore ▸ List.mem_map_of_mem hs)

theorem homeScope?_of_core (id : ObjectId) :
    (db'.homeScope? id).map (·.core) = (db.homeScope? id).map (·.core) := by
  have hfind (l : List StorageScope) (tag : ScopeTag) :
      (l.find? (·.tag = tag)).map (·.core) = (l.map (·.core)).find? (·.2.1 = tag) := by
    rw [List.find?_map]
    rfl
  cases hof : ScopeTag.of? id with
  | none => simp only [homeScope?, hof, Option.bind_eq_bind, Option.bind_none]
  | some tag =>
    simp only [homeScope?, hof, Option.bind_eq_bind, Option.bind_some, hfind, hcore]

theorem Attributed.of_core (h : db.Attributed) (he : Evolves db.registry db'.registry)
    (hl : ∀ id, db.registry.Live id → db'.registry.Live id) : db'.Attributed where
  sound := he.sound
  owners := by
    have howners := congrArg (List.map Prod.fst) hcore
    simp only [List.map_map] at howners
    exact howners ▸ h.owners
  tags := by
    have htags := congrArg (List.map fun c => c.2.1) hcore
    simp only [List.map_map] at htags
    exact htags ▸ h.tags
  issued := by
    intro s hs
    obtain ⟨t, ht, hts⟩ := exists_of_core hcore hs
    simp only [StorageScope.core, Prod.mk.injEq] at hts
    rw [← hts.2.1]
    exact Nat.le_trans (h.issued t ht) he.issued_le
  spent := by
    intro s hs
    obtain ⟨t, ht, hts⟩ := exists_of_core hcore hs
    simp only [StorageScope.core, Prod.mk.injEq] at hts
    rw [← hts.1]
    exact (h.spent t ht).mono he
  live := by
    intro s hs id hid
    obtain ⟨t, ht, hts⟩ := exists_of_core hcore hs
    simp only [StorageScope.core, Prod.mk.injEq] at hts
    rw [← hts.2.2] at hid
    obtain ⟨hlive, hof⟩ := h.live t ht id hid
    exact ⟨hl id hlive, hts.2.1 ▸ hof⟩

theorem Abides.of_core (h : db.Attributed) (he : Evolves db.registry db'.registry)
    (hl : ∀ id, db.registry.Live id → db'.registry.Live id) : Abides X db db' where
  attributed := h.of_core hcore he hl
  evolves := he
  home := by
    intro id _ _
    have hhome := congrArg (Option.map fun c => (c.1, c.2.1)) (homeScope?_of_core hcore id)
    simp only [Option.map_map] at hhome
    exact hhome
  properties := by
    intro id _ _
    have hhome := congrArg (Option.bind · fun c => c.2.2.byObject.get? id)
      (homeScope?_of_core hcore id)
    simp only [Option.bind_map] at hhome
    exact hhome

end Core

theorem abides_of_still (hreg : db'.registry = db.registry)
    (hcore : db'.scopes.map (·.core) = db.scopes.map (·.core)) : AbidesFrom X db db' := by
  intro h
  refine Abides.of_core hcore h ?_ fun id hl => ?_
  · rw [hreg]
    exact Evolves.refl h.sound
  · rwa [hreg]

theorem abides_of_stores {e : Option Entry} {new : List ScopeTag} {r : Registry}
    (h : db.Attributed) (hs : Stores id e new db.registry r)
    (he : db.registry.Live id → e.isSome = true) : Abides X db { db with registry := r } :=
  Abides.of_core rfl h hs.evolves fun _ hl => hs.live he hl

theorem abides_of_touches {c : Change} {r : Registry} (h : db.Attributed)
    (ht : Touches id c db.registry r)
    (hc : ∀ o, db.registry.record? id = some o → o.isValid = true →
      (c o.kind o.record).isValid = true) : Abides X db { db with registry := r } := by
  refine abides_of_stores h (ht.stores hc) fun hl => ?_
  rw [Option.isSome_map]
  exact isSome_stored?_iff.2 hl

theorem abides_onHierarchy (x : EStateM ε Hierarchy α) : Keeps (AbidesFrom X) (onHierarchy x) := by
  intro db
  rw [after_onHierarchy]
  exact abides_of_still rfl rfl

theorem abides_onScopeWhere (p : StorageScope → Bool) {x : EStateM ε StorageScope α}
    (hx : ∀ s, (after x s).core = s.core) : Keeps (AbidesFrom X) (onScopeWhere p x) := by
  intro db
  rw [after_onScopeWhere]
  exact abides_of_still rfl (map_after_onFirst fun s _ => hx s)

theorem abides_onStorageScope (id : ObjectId) {x : EStateM (Failure ε) StorageScope α}
    (hx : ∀ s, (after x s).core = s.core) : Keeps (AbidesFrom X) (onStorageScope id x) := by
  intro db
  rcases after_onStorageScope id x db with hr | ⟨root, _, hr⟩ <;> rw [hr]
  · exact refl_of (AbidesFrom X) db
  · exact abides_onScopeWhere _ hx db

theorem abides_onSymbols (id : ObjectId) (x : EStateM (Failure ε) SymbolTable α) :
    Keeps (AbidesFrom X) (onStorageScope id (StorageScope.onSymbols x)) := by
  refine abides_onStorageScope id fun s => ?_
  rw [after_onSymbols]
  rfl

theorem abides_onPolygons (id : ObjectId) (x : EStateM (Failure ε) PolygonTable α) :
    Keeps (AbidesFrom X) (onStorageScope id (StorageScope.onPolygons x)) := by
  refine abides_onStorageScope id fun s => ?_
  simp only [after, StorageScope.onPolygons]
  cases x s.polygons <;> rfl

theorem abides_update (k : RecordKind) (id : ObjectId) {f : Record k.Body → Record k.Body}
    (hf : ∀ x, (f x).isValid = x.isValid) :
    Keeps (AbidesFrom X) (update k id f : EStateM (Failure ε) Database _) := by
  intro db h
  obtain ⟨r, hr, ht⟩ := after_update (ε := ε) h.sound k id f
  rw [hr]
  exact abides_of_touches h ht fun o _ hv => Occupant.isValid_write hf hv

theorem abides_updateBody (k : RecordKind) (id : ObjectId) (f : k.Body → k.Body) :
    Keeps (AbidesFrom X) (updateBody k id f : EStateM (Failure ε) Database _) :=
  abides_update k id fun _ => rfl

theorem abides_modifyHeader (id : ObjectId) {f : Header → Header}
    (hf : ∀ h, (f h).isValid = h.isValid) :
    Keeps (AbidesFrom X) (modifyHeader id f : EStateM ε Database _) := by
  intro db h
  obtain ⟨r, hr, ht⟩ := after_modifyHeader (ε := ε) h.sound id f
  rw [hr]
  exact abides_of_touches h ht fun o _ hv => (hf o.record.header).trans hv

theorem abides_editHeader (id : ObjectId) {e : HeaderEdit}
    (he : ∀ h, (e.perform h).isValid = h.isValid) :
    Keeps (AbidesFrom X) (editHeader id e : EStateM (Failure ε) Database _) := by
  intro db h
  obtain ⟨r, hr, ht⟩ := after_editHeader (ε := ε) h.sound id e
  rw [hr]
  exact abides_of_touches h ht fun o _ hv => (he o.record.header).trans hv

theorem abides_setOwner (id owner : ObjectId) : Keeps (AbidesFrom X) (setOwner id owner) := by
  intro db h
  rcases after_setOwner h.sound id owner with hr | ⟨index, r, _, hr, ht⟩ <;> rw [hr]
  · exact h.abides_refl
  · exact abides_of_touches h ht fun _ _ hv => hv

theorem abides_create (k : RecordKind) (t : ObjectType) (owner : ObjectId) :
    Keeps (AbidesFrom X) (create k t owner) := by
  intro db h
  rcases create_cases h.sound k t owner with ⟨e, he⟩ | ⟨_, _, _, _, r, _, _, _, _, hp, ht, hr⟩
  · rw [after_error he]
    exact h.abides_refl
  · rw [after_ok hr]
    exact abides_of_stores h (hp.stores_fresh h.sound ht) fun _ => rfl

theorem abides_indexObject (id : ObjectId) : Keeps (AbidesFrom X) (indexObject id) := by
  refine Keeps.get_bind fun db => ?_
  split
  · cases db.hierarchy.indexOf? id with
    | none => exact (abides_onHierarchy _).map _ db
    | some index => exact refl_of (AbidesFrom X) db
  · exact refl_of (AbidesFrom X) db

theorem abides_restoreHierarchy (l : List (ObjectIndex × ObjectId)) :
    Keeps (AbidesFrom X) (restoreHierarchy l) := by
  induction l with
  | nil => exact Keeps.pure _
  | cons e l ih => exact (abides_onHierarchy _).bind fun _ => ih

theorem abides_setActive (a : ActiveScope) (id : Option ObjectId) :
    Keeps (AbidesFrom X) (modify fun db => { db with hierarchy := db.hierarchy.setActive a id } :
      EStateM ε Database Unit) :=
  Keeps.modify fun _ => abides_of_still rfl rfl

/-! ## Records that go -/

/-- The properties of a record are written in its home scope, of which there is at most one. -/
theorem scopes_after_onProperties (htags : (db.scopes.map (·.tag)).Nodup) (id : ObjectId)
    (x : EStateM ε PropertyTable α) :
    (after (onHomeScope id (StorageScope.onProperties x)) db).scopes =
      db.scopes.map (·.rewriting id (after x)) := by
  have hx (s : StorageScope) :
      after (StorageScope.onProperties x) s = { s with properties := after x s.properties } := by
    simp only [after, StorageScope.onProperties]
    cases x s.properties <;> rfl
  cases hof : ScopeTag.of? id with
  | none =>
    have hr : after (onHomeScope id (StorageScope.onProperties x)) db = db := by
      simp only [after, onHomeScope, hof]
    rw [hr]
    refine (List.map_id _).symm.trans (List.map_congr_left fun s _ => ?_)
    simp only [StorageScope.rewriting, hof, id_eq, reduceCtorEq, if_false]
  | some tag =>
    rw [after_onHomeScope_of_tag hof, after_onScopeWhere]
    refine (after_onFirst_eq_map StorageScope.tag htags tag _).trans
      (List.map_congr_left fun s _ => ?_)
    simp only [StorageScope.rewriting, hof, hx, Option.some.injEq, eq_comm]

section Rewriting

variable (f : PropertyTable → PropertyTable)

theorem rewriting_owner (id : ObjectId) (s : StorageScope) : (s.rewriting id f).owner = s.owner := by
  unfold StorageScope.rewriting
  split <;> rfl

theorem rewriting_tag (id : ObjectId) (s : StorageScope) : (s.rewriting id f).tag = s.tag := by
  unfold StorageScope.rewriting
  split <;> rfl

theorem rewriting_self {s : StorageScope} (hof : ScopeTag.of? id = some s.tag) :
    (s.rewriting id f).properties = f s.properties := by
  rw [StorageScope.rewriting, if_pos hof]

theorem rewriting_other {j : ObjectId} {s : StorageScope}
    (hf : (f s.properties).byObject.get? j = s.properties.byObject.get? j) :
    (s.rewriting id f).properties.byObject.get? j = s.properties.byObject.get? j := by
  unfold StorageScope.rewriting
  split
  · exact hf
  · rfl

theorem map_owner_rewriting (id : ObjectId) (l : List StorageScope) :
    (l.map (·.rewriting id f)).map (·.owner) = l.map (·.owner) := by
  rw [List.map_map]
  exact List.map_congr_left fun s _ => rewriting_owner f id s

theorem map_tag_rewriting (id : ObjectId) (l : List StorageScope) :
    (l.map (·.rewriting id f)).map (·.tag) = l.map (·.tag) := by
  rw [List.map_map]
  exact List.map_congr_left fun s _ => rewriting_tag f id s

theorem homeScope?_rewriting {id : ObjectId} (hs : db'.scopes = db.scopes.map (·.rewriting id f))
    (j : ObjectId) : db'.homeScope? j = (db.homeScope? j).map (·.rewriting id f) := by
  cases hof : ScopeTag.of? j with
  | none => simp only [homeScope?, hof, Option.bind_eq_bind, Option.bind_none, Option.map_none]
  | some tag =>
    simp only [homeScope?, hof, Option.bind_eq_bind, Option.bind_some, hs, List.find?_map]
    congr 2
    funext s
    simp only [Function.comp_apply, rewriting_tag]

theorem Attributed.of_rewriting {id : ObjectId} (h : db.Attributed)
    (he : Evolves db.registry db'.registry) (hs : db'.scopes = db.scopes.map (·.rewriting id f))
    (hf : ∀ t j, j ≠ id → (f t).byObject.get? j = t.byObject.get? j)
    (hlive : ∀ j, j ≠ id → db.registry.Live j → db'.registry.Live j)
    (hself : ∀ t, (f t).hasProperties id = true → db'.registry.Live id) : db'.Attributed where
  sound := he.sound
  owners := by
    rw [hs, map_owner_rewriting]
    exact h.owners
  tags := by
    rw [hs, map_tag_rewriting]
    exact h.tags
  issued := by
    rw [hs]
    refine List.forall_mem_map.2 fun s hmem => ?_
    rw [rewriting_tag]
    exact Nat.le_trans (h.issued s hmem) he.issued_le
  spent := by
    rw [hs]
    refine List.forall_mem_map.2 fun s hmem => ?_
    rw [rewriting_owner]
    exact (h.spent s hmem).mono he
  live := by
    rw [hs]
    refine List.forall_mem_map.2 fun s hmem j hj => ?_
    rw [rewriting_tag]
    by_cases hne : j = id
    · subst hne
      by_cases hof : ScopeTag.of? j = some s.tag
      · rw [rewriting_self f hof] at hj
        exact ⟨hself s.properties hj, hof⟩
      · rw [StorageScope.rewriting, if_neg hof] at hj
        exact absurd (h.live s hmem j hj).2 hof
    · rw [PropertyTable.hasProperties, Assoc.contains,
        rewriting_other f (hf s.properties j hne)] at hj
      obtain ⟨hl, hof⟩ := h.live s hmem j hj
      exact ⟨hlive j hne hl, hof⟩

/-- Writing the properties of one record changes those of no other, if the table is changed so,
and it is one of those that are excepted or goes. -/
theorem Abides.of_rewriting {id : ObjectId} (h : db.Attributed)
    (he : Evolves db.registry db'.registry) (hs : db'.scopes = db.scopes.map (·.rewriting id f))
    (hf : ∀ t j, j ≠ id → (f t).byObject.get? j = t.byObject.get? j)
    (hlive : ∀ j, j ≠ id → db.registry.Live j → db'.registry.Live j)
    (hself : ∀ t, (f t).hasProperties id = true → db'.registry.Live id)
    (hX : db'.registry.Live id → X id) : Abides X db db' where
  attributed := h.of_rewriting f he hs hf hlive hself
  evolves := he
  home := by
    intro j _ _
    rw [homeScope?_rewriting f hs, Option.map_map]
    congr 1
    funext s
    simp only [Function.comp_apply, rewriting_owner, rewriting_tag]
  properties := by
    intro j hj hl
    have hne : j ≠ id := by
      rintro rfl
      exact hj (hX hl)
    rw [properties?, properties?, homeScope?_rewriting f hs, Option.bind_eq_bind, Option.bind_map]
    congr 1
    funext s
    exact rewriting_other f (hf s.properties j hne)

end Rewriting

/-- A record goes with its properties. -/
theorem Abides.of_clear (h : db.Attributed) (ht : Touches id Change.clear db.registry db'.registry)
    (hs : db'.scopes = (after (onHomeScope (ε := ε) id
      (StorageScope.onProperties (PropertyTable.removeAll id))) db).scopes) : Abides X db db' := by
  have hstores := ht.stores_of_clear
  have hgone : ¬ db'.registry.Live id := fun hl => hstores.ne_of_live hl rfl
  have herase (t : PropertyTable) (j : ObjectId) :
      (after (PropertyTable.removeAll (ε := ε) id) t).byObject.get? j =
        if j = id then none else t.byObject.get? j := Assoc.get?_erase t.byObject id j
  rw [scopes_after_onProperties h.tags] at hs
  refine Abides.of_rewriting _ h ht.evolves hs (fun t j hj => ?_) (fun j hj hl => ?_)
    (fun t hid => ?_) fun hl => absurd hl hgone
  · rw [herase, if_neg hj]
  · rw [← isSome_stored?_iff] at hl ⊢
    rwa [hstores.other hj]
  · rw [PropertyTable.hasProperties, Assoc.contains, herase, if_pos rfl] at hid
    contradiction

/-! ## Scopes that are closed -/

/-- What a closed scope leaves of the registry. -/
theorem closeScope_of_some (h : db.registry.Sound) {s : StorageScope}
    (ho : db.scope? owner = some s) :
    ∃ t r, db.closeScope owner =
        { db with hierarchy := t, registry := r, scopes := db.scopes.filter (·.owner ≠ owner) } ∧
      Evolves db.registry r ∧
      ∀ id, r.Live id ↔ db.registry.Live id ∧ ScopeTag.of? id ≠ some s.tag := by
  rcases removePool_spec h s.tag with ⟨hn, hr⟩ | ⟨n, r, hr, hd⟩
  · refine ⟨_, db.registry, by simp only [closeScope, ho, hr]; rfl, Evolves.refl h, fun id => ?_⟩
    refine ⟨fun hl => ⟨hl, fun hof => not_live_of_lookup?_none ?_ hl⟩, And.left⟩
    simp only [Registry.lookup?, hof, Option.bind_eq_bind, Option.bind_some, hn]
  · refine ⟨_, r, by simp only [closeScope, ho, hr]; rfl, hd.evolves, fun id => ?_⟩
    simp only [Live, hd.record?]
    by_cases hof : ScopeTag.of? id = some s.tag <;> simp [hof]

section Close

variable {t : Hierarchy} {r : Registry} {scope s : StorageScope}

theorem Attributed.tag_ne (h : db.Attributed) (hscope : scope ∈ db.scopes) (hs : s ∈ db.scopes)
    (hne : s.owner ≠ scope.owner) : s.tag ≠ scope.tag :=
  fun e => hne (congrArg _ (List.inj_on_of_nodup_map h.tags hs hscope e))

theorem Attributed.of_close (h : db.Attributed) (hscope : scope ∈ db.scopes)
    (he : Evolves db.registry r)
    (hlive : ∀ id, r.Live id ↔ db.registry.Live id ∧ ScopeTag.of? id ≠ some scope.tag) :
    Attributed { db with
      hierarchy := t, registry := r, scopes := db.scopes.filter (·.owner ≠ scope.owner) } where
  sound := he.sound
  owners := h.owners.sublist (List.filter_sublist.map _)
  tags := h.tags.sublist (List.filter_sublist.map _)
  issued := fun s hs => Nat.le_trans (h.issued s (List.mem_of_mem_filter hs)) he.issued_le
  spent := fun s hs => (h.spent s (List.mem_of_mem_filter hs)).mono he
  live := by
    intro s hs id hid
    obtain ⟨hs, hne⟩ := List.mem_filter.1 hs
    obtain ⟨hl, hof⟩ := h.live s hs id hid
    refine ⟨(hlive id).2 ⟨hl, fun e => ?_⟩, hof⟩
    exact h.tag_ne hscope hs (of_decide_eq_true hne) (Option.some.inj (hof.symm.trans e))

end Close

theorem Abides.closeScope (h : db.Attributed) (owner : ObjectId) :
    Abides X db (db.closeScope owner) := by
  cases ho : db.scope? owner with
  | none =>
    rw [Database.closeScope_of_none ho]
    exact h.abides_refl
  | some scope =>
    obtain ⟨t, r, hr, he, hlive⟩ := closeScope_of_some h.sound ho
    obtain ⟨hscope, rfl⟩ := of_scope? ho
    rw [hr]
    have ha := h.of_close (t := t) hscope he hlive
    have hhome (id : ObjectId) (hl : r.Live id) : homeScope? { db with
        hierarchy := t, registry := r, scopes := db.scopes.filter (·.owner ≠ scope.owner) } id =
          db.homeScope? id := by
      refine Option.ext fun s => ?_
      rw [ha.homeScope?_eq_some_iff, h.homeScope?_eq_some_iff, List.mem_filter,
        decide_eq_true_eq]
      constructor
      · exact fun hs => ⟨hs.1.1, hs.2⟩
      · rintro ⟨hs, hof⟩
        refine ⟨⟨hs, fun e => ?_⟩, hof⟩
        rw [List.inj_on_of_nodup_map h.owners hs hscope e] at hof
        exact ((hlive id).1 hl).2 hof
    refine ⟨ha, he, fun id _ hl => ?_, fun id _ hl => ?_⟩
    · rw [hhome id hl]
    · rw [properties?, properties?, hhome id hl]

theorem abides_release (owner : ObjectId) :
    Keeps (AbidesFrom X) (release owner : EStateM ε Database Bool) := by
  intro db h
  obtain ⟨a, ha⟩ := onHomeScope_ok (ε := ε) (removeAll_ok owner) owner db
  have hreg := registry_after_onHomeScope (ε := ε) owner
    (StorageScope.onProperties (PropertyTable.removeAll owner)) db
  refine after_bind_ok (discard_ok ha) ?_
  rw [after_bind_of_still fun _ _ => rfl, after_discard, after_onRegistry]
  refine Abides.of_clear (ε := ε) h ?_ rfl
  rw [hreg]
  exact touches_free h.sound owner

theorem abides_destroyScope (owner : ObjectId) :
    Keeps (AbidesFrom X) (destroyScope owner : EStateM ε Database Bool) :=
  keeps_destroyScope (fun _ owner h => Abides.closeScope h owner)
    (fun p _ => abides_onScopeWhere p fun _ => rfl) owner (abides_release owner)

theorem abides_destroy (id : ObjectId) :
    Keeps (AbidesFrom X) (destroy id : EStateM ε Database Bool) := by
  intro db h
  cases hid : db.registry.isScopeOwner id with
  | true =>
    rw [after, destroy_of_owner hid, ← after]
    exact abides_destroyScope id db h
  | false =>
    obtain ⟨b, r, hr, _, ht⟩ := destroy_of_not_owner (ε := ε) h.sound hid
    rw [after_ok hr]
    exact Abides.of_clear h ht rfl

theorem abides_reset (db : Database) : AbidesFrom X db db.reset := by
  intro h
  have hgone (id : ObjectId) : ¬ db.reset.registry.Live id := by
    rintro ⟨o, ho, _⟩
    rw [show db.reset.registry = db.registry.clear from rfl, record?_clear] at ho
    contradiction
  have he : Evolves db.registry db.reset.registry := clear_evolves h.sound
  refine ⟨⟨he.sound, List.nodup_nil, List.nodup_nil, ?_, ?_, ?_⟩, he, ?_, ?_⟩
  · simp [reset]
  · simp [reset]
  · simp [reset]
  · exact fun id _ hl => absurd hl (hgone id)
  · exact fun id _ hl => absurd hl (hgone id)

/-! ## Scopes that are opened -/

/-- An owner is registered with a tag, or nothing is left of that but perhaps a position. -/
theorem after_register (h : db.registry.Sound) (owner : ObjectId) (tag : ScopeTag)
    (parent : Option ObjectId) :
    (∃ t, after (register owner tag parent) db = { db with hierarchy := t }) ∨
      ∃ t index r, after (register owner tag parent) db = { db with
          hierarchy := t
          registry := r
          scopes := { owner, tag, index, parent } :: db.scopes } ∧
        Evolves db.registry r ∧ ∀ id, r.record? id = db.registry.record? id := by
  cases hi : Hierarchy.insert (ε := DbError) owner db.hierarchy with
  | error e t => exact Or.inl ⟨t, by simp only [after, register, bind_apply, onHierarchy, hi]⟩
  | ok index t =>
    obtain ⟨b, r, hr, he, hrecord⟩ := bindOwner_spec (ε := Failure DbError) h owner tag
    refine Or.inr ⟨t, index, r, ?_, he, hrecord⟩
    simp only [after, register, bind_apply, onHierarchy, hi, discard_apply, onRegistry_eq, hr,
      modify_apply, pure_apply]

section Open

variable {t : Hierarchy} {r : Registry} {s : StorageScope}

theorem Attributed.tag_ne_of_not_issued (h : db.Attributed)
    (htag : ¬ s.tag.toNat ≤ db.registry.issued) {s' : StorageScope} (hs' : s' ∈ db.scopes) :
    s'.tag ≠ s.tag :=
  fun e => htag (e ▸ h.issued s' hs')

theorem Attributed.of_open (h : db.Attributed) (he : Evolves db.registry r)
    (hl : ∀ id, db.registry.Live id → r.Live id) (howner : ∀ s' ∈ db.scopes, s'.owner ≠ s.owner)
    (hspent : r.Spent s.owner) (htag : ¬ s.tag.toNat ≤ db.registry.issued)
    (hissued : s.tag.toNat ≤ r.issued) (hs : s.properties = {}) :
    Attributed { db with hierarchy := t, registry := r, scopes := s :: db.scopes } where
  sound := he.sound
  owners := by
    refine List.nodup_cons.2 ⟨fun hmem => ?_, h.owners⟩
    obtain ⟨s', hs', hso⟩ := List.mem_map.1 hmem
    exact howner s' hs' hso
  tags := by
    refine List.nodup_cons.2 ⟨fun hmem => ?_, h.tags⟩
    obtain ⟨s', hs', hst⟩ := List.mem_map.1 hmem
    exact h.tag_ne_of_not_issued htag hs' hst
  issued := List.forall_mem_cons.2 ⟨hissued,
    fun s' hs' => Nat.le_trans (h.issued s' hs') he.issued_le⟩
  spent := List.forall_mem_cons.2 ⟨hspent, fun s' hs' => (h.spent s' hs').mono he⟩
  live := by
    refine List.forall_mem_cons.2 ⟨fun id hid => ?_, fun s' hs' id hid => ?_⟩
    · rw [hs] at hid
      contradiction
    · obtain ⟨hlive, hof⟩ := h.live s' hs' id hid
      exact ⟨hl id hlive, hof⟩

/-- A scope is opened for an owner that has none, with a tag that was not given out. -/
theorem Abides.of_open (h : db.Attributed) (he : Evolves db.registry r)
    (hl : ∀ id, db.registry.Live id → r.Live id) (howner : ∀ s' ∈ db.scopes, s'.owner ≠ s.owner)
    (hspent : r.Spent s.owner) (htag : ¬ s.tag.toNat ≤ db.registry.issued)
    (hissued : s.tag.toNat ≤ r.issued) (hs : s.properties = {}) :
    Abides X db { db with hierarchy := t, registry := r, scopes := s :: db.scopes } := by
  have hhome {id : ObjectId} (hof : ScopeTag.of? id ≠ some s.tag) :
      homeScope? { db with hierarchy := t, registry := r, scopes := s :: db.scopes } id =
        db.homeScope? id := by
    cases hof' : ScopeTag.of? id with
    | none => simp only [homeScope?, hof', Option.bind_eq_bind, Option.bind_none]
    | some tag =>
      have hne : s.tag ≠ tag := fun e => hof (e ▸ hof')
      simp only [homeScope?, hof', Option.bind_eq_bind, Option.bind_some, List.find?_cons, hne,
        decide_false]
  refine ⟨h.of_open he hl howner hspent htag hissued hs, he, fun id hlive _ => ?_,
    fun id _ _ => ?_⟩
  · rw [hhome fun hof => htag (h.tag_le hlive hof)]
  · by_cases hof : ScopeTag.of? id = some s.tag
    · -- no record had this scope for its home, and the scope is opened without properties
      have hnone : db.homeScope? id = none := by
        simp only [homeScope?, hof, Option.bind_eq_bind, Option.bind_some, List.find?_eq_none,
          decide_eq_true_eq]
        exact fun s' hs' => h.tag_ne_of_not_issued htag hs'
      rw [show db.properties? id = none by
        simp only [properties?, hnone, Option.bind_eq_bind, Option.bind_none]]
      simp only [properties?, homeScope?, hof, Option.bind_eq_bind, Option.bind_some,
        List.find?_cons, decide_true, hs]
      rfl
    · rw [properties?, properties?, hhome hof]

theorem Abides.register (h : db.Attributed) {tag : ScopeTag} (he : Evolves db.registry r)
    (hl : ∀ id, db.registry.Live id → r.Live id) (howner : ∀ s ∈ db.scopes, s.owner ≠ owner)
    (hspent : r.Spent owner) (htag : ¬ tag.toNat ≤ db.registry.issued)
    (hissued : tag.toNat ≤ r.issued) (parent : Option ObjectId) :
    Abides X db (after (register owner tag parent) { db with registry := r }) := by
  have hsound : ({ db with registry := r } : Database).registry.Sound := he.sound
  rcases after_register hsound owner tag parent with ⟨t, hr⟩ | ⟨t, index, r', hr, he', hrecord⟩ <;>
    rw [hr]
  · exact Abides.of_core rfl h he hl
  have hl' (id : ObjectId) (hlive : db.registry.Live id) : r'.Live id := by
    obtain ⟨o, ho, hv⟩ := hl id hlive
    exact ⟨o, (hrecord id).trans ho, hv⟩
  exact Abides.of_open h (he.trans h.sound he') hl' howner (hspent.mono he') htag
    (Nat.le_trans hissued he'.issued_le) rfl

end Open

theorem abides_openScope (a : ActiveScope) : Keeps (AbidesFrom X) (openScope a) := by
  intro db h
  rcases found_cases h.sound a with ⟨key, r, _, ho, hp, hr⟩ | hr
  · have hs := (ho.stores h.sound key.pack).trans h.sound hp.stores
    have hfree (s : StorageScope) (hs : s ∈ db.scopes) : s.owner ≠ key.pack := by
      intro e
      have hspent := h.spent s hs
      rw [e] at hspent
      exact hp.not_spent (hspent.mono (ho.evolves h.sound))
    have hissued : key.scope.toNat ≤ r.issued := by
      rw [hp.issued, ho.issued, ho.tag]
    have hregister : AbidesFrom X db
        (after (register key.pack key.scope none) { db with registry := r }) := fun _ =>
      Abides.register h hs.evolves (fun _ hl => hs.live (fun _ => rfl) hl) hfree hp.spent
        ho.not_issued hissued none
    have hnote (index : ObjectIndex) : Keeps (AbidesFrom X) (update a.kind key.pack fun r =>
        { header := r.header.setOwner index, body := a.kind.setHierIndex index r.body } : Edit _) :=
      abides_update a.kind key.pack fun _ => rfl
    have hopen : AbidesFrom X db (after (openScope a) db) := by
      rw [openScope]
      refine after_bind_ok (P := AbidesFrom X db) hr (Keeps.bind_from hregister fun index => ?_)
      exact (hnote index).discard.bind fun _ => Keeps.pure _
    exact hopen h
  · rw [openScope, after_error (bind_error hr)]
    exact h.abides_refl

theorem abides_createPool (t : ObjectType) :
    Keeps (AbidesFrom X) (Edit.placing t (onRegistry createPool)) := by
  intro db h
  rcases createPool_cases h.sound t with ⟨scope, ho, hr⟩ | ⟨e, hr⟩
  · rw [after_ok hr]
    exact abides_of_stores h (ho.stores h.sound ObjectId.null) fun hl =>
      isSome_stored?_iff.2 hl
  · rw [after_error hr]
    exact h.abides_refl

/-- The pool for a nested scope.  Where there is none the owner is destroyed again. -/
def nestedPool (id : ObjectId) : Edit ScopeTag :=
  tryCatch (Edit.placing .cell (onRegistry Registry.createPool)) fun e => do
    discard <| destroy id
    throw e

theorem abides_nestedPool (id : ObjectId) : Keeps (AbidesFrom X) (nestedPool id) :=
  (abides_createPool .cell).tryCatch fun e => (abides_destroy id).discard.bind fun _ => Keeps.throw e

theorem opens_of_nestedPool (h : db.registry.Sound) {tag : ScopeTag}
    (hr : nestedPool id db = .ok tag db') :
    Opens tag db.registry db'.registry ∧ db' = { db with registry := db'.registry } := by
  rw [nestedPool, tryCatch_apply] at hr
  rcases createPool_cases h .cell with ⟨scope, ho, hp⟩ | ⟨e, hp⟩
  · rw [hp] at hr
    cases hr
    exact ⟨ho, rfl⟩
  · rw [hp] at hr
    obtain ⟨_, t, _, hthrow⟩ := ok_of_bind hr
    contradiction

/-- The handle was given out, and owns no scope. -/
def Vacant (id : ObjectId) (db : Database) : Prop :=
  db.registry.Spent id ∧ ∀ s ∈ db.scopes, s.owner ≠ id

theorem Vacant.bind {β : Type} {x : Edit α} {f : α → Edit β} (hv : Vacant id db)
    (hx : Keeps (AbidesFrom X) x) (hscopes : (after x db).scopes = db.scopes)
    (hf : ∀ a db, Vacant id db → AbidesFrom X db (after (f a) db)) :
    AbidesFrom X db (after (x >>= f) db) := by
  intro h
  have ha := hx db h
  cases hr : x db with
  | error e db' =>
    rw [after_error hr] at ha
    exact after_bind_error (P := Abides X db) hr ha
  | ok a db' =>
    rw [after_ok hr] at ha hscopes
    have hv' : Vacant id db' := ⟨hv.1.mono ha.evolves, hscopes ▸ hv.2⟩
    exact after_bind_ok (P := Abides X db) hr (ha.trans h (hf a db' hv' ha.attributed))

/-- A scope is opened for a record that was just placed. -/
theorem Vacant.abides_nest (hv : Vacant id db) (parent : Option ObjectId)
    {f : ScopeTag → ObjectIndex → Edit α} (hf : ∀ tag index, Keeps (AbidesFrom X) (f tag index)) :
    AbidesFrom X db (after (do
      let tag ← nestedPool id
      let index ← register id tag parent
      f tag index) db) := by
  intro h
  have hpool := abides_nestedPool (X := X) id db
  cases hr : nestedPool id db with
  | error e db' =>
    rw [after_error hr] at hpool
    exact after_bind_error (P := Abides X db) hr (hpool h)
  | ok tag db' =>
    obtain ⟨ho, hdb'⟩ := opens_of_nestedPool h.sound hr
    have hs := ho.stores h.sound ObjectId.null
    have hregister : AbidesFrom X db (after (register id tag parent) db') := fun _ => by
      rw [hdb']
      exact Abides.register h hs.evolves
        (fun _ hl => hs.live (fun hl => isSome_stored?_iff.2 hl) hl) hv.2 (hv.1.mono hs.evolves)
        ho.not_issued (Nat.le_of_eq (ho.tag.trans ho.issued.symm)) parent
    exact after_bind_ok (P := AbidesFrom X db) hr (Keeps.bind_from hregister (hf tag)) h

theorem abides_openNested (parent : ObjectId) : Keeps (AbidesFrom X) (openNested parent) := by
  refine (Session.keeps_read _).bind fun around => ?_
  cases around with
  | none => exact Keeps.throw _
  | some around =>
    intro db h
    rcases create_cases h.sound .cell .cell parent with
      ⟨e, hr⟩ | ⟨_, _, key, _, r, _, _, _, _, hp, ht, hr⟩
    · exact after_bind_error (P := Abides X db) hr h.abides_refl
    have hs := hp.stores_fresh h.sound ht
    have hcreate : Abides X db { db with registry := r } := abides_of_stores h hs fun _ => rfl
    have hvacant : Vacant key.pack { db with registry := r } := by
      refine ⟨hs.evolves.sound.spent_of_live ?_, fun s hs e => ?_⟩
      · exact isSome_stored?_iff.1 (Option.isSome_of_eq_some hs.self)
      · have hspent := h.spent s hs
        rw [e] at hspent
        exact hp.not_spent hspent
    have hrole : Keeps (AbidesFrom X)
        (updateBody .cell key.pack fun c => { (c : Cell) with role := .hier } : Edit _) :=
      abides_updateBody .cell key.pack _
    have hlist : Keeps (AbidesFrom X) (onScopeWhere (·.owner = around)
        (modify fun p => { p with children := p.children ++ [key.pack] }) : Edit _) :=
      abides_onScopeWhere _ fun _ => rfl
    have hnote (index : ObjectIndex) : Keeps (AbidesFrom X)
        (updateCell key.pack fun c => { c with hierIndex := index }) :=
      (abides_updateBody .cell key.pack _).bind fun _ => (Session.keeps_found _ _).discard
    refine hcreate.trans h (after_bind_ok (P := Abides X { db with registry := r }) hr ?_)
    refine hvacant.bind hrole.discard ?_ (fun _ db hv => ?_) hcreate.attributed
    · rw [after_discard, updateBody, update, after_map, after_onRegistry]
    · exact hv.abides_nest (some around) fun _ index => hlist.discard.bind fun _ =>
        (hnote index).bind fun _ => Keeps.pure key.pack

end Database

theorem Session.abides_stable (X : ObjectId → Prop) :
    Session.Stable (fun _ => False) (Session.OnDb (Database.AbidesFrom X)) :=
  Session.Local.stable
    { create := fun k t owner => (mirrors_create k t owner).keeps (Database.abides_create k t owner)
      body := fun k id f _ => still_onDb (Database.abides_updateBody k id f)
      symbols := fun id x => still_onDb (Database.abides_onSymbols id x)
      polygons := fun id x => still_onDb (Database.abides_onPolygons id x)
      index := fun id => still_onDb (Database.abides_indexObject id)
      destroy := fun id => still_onDb (Database.abides_destroy id)
      destroyScope := fun owner => still_onDb (Database.abides_destroyScope owner)
      reset := still_onDb (Keeps.modify Database.abides_reset) }
    (fun a => (mirrors_openScope a).keeps (Database.abides_openScope a))
    (fun a id => still_onDb (Database.abides_setActive a id))
    fun parent => (mirrors_openNested parent).keeps (Database.abides_openNested parent)

end DesignStore
