/-
The changes of a database, by what they do to its pools.

Reading a handle is looking up the record it finds in the registry.  A record is placed
in one of two ways, in the pool of a scope owner (`place_cases`) or as the first of a new
pool (`found_cases`).  Every other change is `Calm`: the registry evolves and no record
comes to be.
-/
import DesignStore.Database.Cells
import DesignStore.Proofs.Entry

namespace DesignStore
namespace Database

open Registry

variable {ε α : Type} {db db' : Database}

/-- The settings of a new database are in order, and there is nothing in it. -/
theorem new_eq_ok {c : StoreConfig} (h : new c = .ok db) : c.pool.Valid ∧ db = empty c := by
  unfold new at h
  split at h
  · contradiction
  · rename_i hv
    refine ⟨?_, (Except.ok.inj h).symm⟩
    unfold StoreConfig.validate PoolConfig.validate at hv
    cases hf : c.pool.flaw? with
    | none => exact hf
    | some flaw => simp [hf] at hv

/-! ## Reading -/

theorem inspect?_eq (h : db.registry.Sound) (id : ObjectId) :
    db.inspect? id = (db.registry.record? id).map (·.record.header) :=
  Registry.inspect?_eq h id

theorem header?_eq (h : db.registry.Sound) (id : ObjectId) :
    db.header? id =
      ((db.registry.record? id).filter (·.isValid)).map (·.record.header) :=
  Registry.header?_eq h id

theorem isLive_iff (h : db.registry.Sound) (id : ObjectId) :
    db.isLive id = true ↔ db.registry.Live id :=
  Registry.header?_isSome_iff h id

theorem resolve_eq_some_iff (h : db.registry.Sound) {id : ObjectId} {k : RecordKind}
    {x : Record k.Body} : db.resolve k id = .ok (some x) ↔ x.isValid = true ∧
      ∃ g, db.registry.record? id = some { kind := k, generation := g, record := x } := by
  rw [← Registry.resolve_eq_some_iff h, resolve]
  cases db.registry.lookup? id with
  | none => simp
  | some p => simp

theorem header?_eq_stored? (h : db.registry.Sound) (id : ObjectId) :
    db.header? id = (db.registry.stored? id).map (·.header) := by
  rw [header?_eq h, stored?, Option.map_map]
  rfl

theorem resolve_eq_some_iff_stored? (h : db.registry.Sound) {id : ObjectId} {k : RecordKind}
    {x : Record k.Body} :
    db.resolve k id = .ok (some x) ↔ db.registry.stored? id = some { kind := k, record := x } := by
  rw [resolve_eq_some_iff h]
  constructor
  · rintro ⟨hv, g, hg⟩
    exact stored?_of_record? hg hv
  · intro hs
    obtain ⟨o, ho, he⟩ := Option.map_eq_some_iff.1 hs
    obtain ⟨ho, hv⟩ := Option.filter_eq_some_iff.1 ho
    obtain ⟨k', g, y⟩ := o
    cases he
    exact ⟨hv, g, ho⟩

/-- Reading as the kind the type of a handle is bound to finds nothing but the live record
of the handle. -/
theorem resolve_eq_none (h : db.registry.Sound) {id : ObjectId} {k : RecordKind} {key : SlotKey}
    (hk : SlotKey.unpack? id = some key)
    (hb : ∀ k', db.registry.kind? key.scope key.type = some k' → k' = k)
    (hn : ¬ db.registry.Live id) : db.resolve k id = .ok none := by
  cases hp : db.registry.lookup? id with
  | none => rw [resolve, hp]
  | some p =>
    obtain ⟨x, hx⟩ := Registry.resolve_eq_ok hk hb hp
    have hr : db.resolve k id = .ok x := by simp only [resolve, hp, hx]
    cases x with
    | none => exact hr
    | some x =>
      obtain ⟨hv, g, hg⟩ := (resolve_eq_some_iff h).1 hr
      exact absurd ⟨_, hg, hv⟩ hn

/-! ## Changes of a part -/

theorem onRegistry_eq (x : EStateM ε Registry α) (db : Database) :
    onRegistry x db = match x db.registry with
      | .ok a registry => .ok a { db with registry }
      | .error e registry => .error e { db with registry } := rfl

theorem after_onRegistry (x : EStateM ε Registry α) (db : Database) :
    after (onRegistry x) db = { db with registry := after x db.registry } := by
  simp only [after, onRegistry_eq]
  cases x db.registry <;> rfl

theorem after_placing {σ : Type} (t : ObjectType) (x : EStateM (Failure PoolError) σ α) (s : σ) :
    after (Edit.placing t x) s = after x s := by
  simp only [after, Edit.placing]
  cases x s <;> rfl

theorem placing_onRegistry (t : ObjectType) (x : EStateM (Failure PoolError) Registry α) :
    Edit.placing t (onRegistry x) = onRegistry (Edit.placing t x) := by
  funext db
  simp only [Edit.placing, onRegistry_eq]
  cases x db.registry <;> rfl

theorem after_onHierarchy (x : EStateM ε Hierarchy α) (db : Database) :
    after (onHierarchy x) db = { db with hierarchy := after x db.hierarchy } := by
  simp only [after, onHierarchy]
  cases x db.hierarchy <;> rfl

theorem after_onScopeWhere (p : StorageScope → Bool) (x : EStateM ε StorageScope α)
    (db : Database) :
    after (onScopeWhere p x) db = { db with scopes := after (onFirst p x) db.scopes } := by
  simp only [after, onScopeWhere]
  cases onFirst p x db.scopes <;> rfl

theorem after_onHomeScope_of_tag {id : ObjectId} {tag : ScopeTag} (ht : ScopeTag.of? id = some tag)
    (x : EStateM ε StorageScope α) (db : Database) :
    after (onHomeScope id x) db = after (onScopeWhere (·.tag = tag) x) db := by
  simp only [after, onHomeScope, ht]

theorem after_onHomeScope (id : ObjectId) (x : EStateM ε StorageScope α) (db : Database) :
    after (onHomeScope id x) db = db ∨ ∃ tag, ScopeTag.of? id = some tag ∧
      after (onHomeScope id x) db = after (onScopeWhere (·.tag = tag) x) db := by
  cases ht : ScopeTag.of? id with
  | none => exact Or.inl (by simp only [after, onHomeScope, ht])
  | some tag => exact Or.inr ⟨tag, rfl, after_onHomeScope_of_tag ht x db⟩

theorem after_onStorageScope (id : ObjectId) (x : EStateM (Failure ε) StorageScope α)
    (db : Database) :
    after (onStorageScope id x) db = db ∨ ∃ root, db.scopeRoot id = .ok (some root) ∧
      after (onStorageScope id x) db = after (onScopeWhere (·.owner = root) x) db := by
  cases hr : db.scopeRoot id with
  | error f => exact Or.inl (by simp only [after, onStorageScope, hr])
  | ok root =>
    cases root with
    | none => exact Or.inl (by simp only [after, onStorageScope, hr])
    | some root => exact Or.inr ⟨root, rfl, by simp only [after, onStorageScope, hr]⟩

theorem registry_after_onStorageScope (id : ObjectId)
    (x : EStateM (Failure ε) StorageScope α) (db : Database) :
    (after (onStorageScope id x) db).registry = db.registry := by
  rcases after_onStorageScope id x db with hr | ⟨_, _, hr⟩ <;> rw [hr]
  rw [after_onScopeWhere]

theorem registry_after_onHomeScope (id : ObjectId) (x : EStateM ε StorageScope α) (db : Database) :
    (after (onHomeScope id x) db).registry = db.registry := by
  rcases after_onHomeScope id x db with hr | ⟨_, _, hr⟩ <;> rw [hr]
  rw [after_onScopeWhere]

theorem hierarchy_after_onHomeScope (id : ObjectId) (x : EStateM ε StorageScope α)
    (db : Database) : (after (onHomeScope id x) db).hierarchy = db.hierarchy := by
  rcases after_onHomeScope id x db with hr | ⟨_, _, hr⟩ <;> rw [hr]
  rw [after_onScopeWhere]

theorem onScopeWhere_ok {p : StorageScope → Bool} {x : EStateM ε StorageScope α}
    (hx : ∀ s, ∃ a t, x s = .ok a t) (db : Database) :
    ∃ a, onScopeWhere p x db = .ok a (after (onScopeWhere p x) db) := by
  obtain ⟨a, ha⟩ := onFirst_ok (l := db.scopes) (p := p) fun s _ => hx s
  rw [after_onScopeWhere]
  exact ⟨a, by simp only [onScopeWhere, ha]⟩

theorem onHomeScope_ok {x : EStateM ε StorageScope α} (hx : ∀ s, ∃ a t, x s = .ok a t)
    (id : ObjectId) (db : Database) :
    ∃ a, onHomeScope id x db = .ok a (after (onHomeScope id x) db) := by
  cases ht : ScopeTag.of? id with
  | none => exact ⟨none, by simp only [after, onHomeScope, ht]⟩
  | some tag =>
    obtain ⟨a, ha⟩ := onScopeWhere_ok (p := fun s : StorageScope => s.tag = tag) hx db
    exact ⟨a, by simpa only [after, onHomeScope, ht] using ha⟩

theorem removeAll_ok (id : ObjectId) (s : StorageScope) :
    ∃ a t, (StorageScope.onProperties (PropertyTable.removeAll id) : EStateM ε StorageScope Nat) s =
      .ok a t :=
  ⟨_, _, rfl⟩

/-! ## Placing records -/

/-- A record is asked of the pool of a scope owner: there is no such pool, or the record is
placed under a key of the pool and the type, or the pool refuses and nothing is
changed. -/
theorem place_cases (h : db.registry.Sound) (root : ObjectId) (k : RecordKind) (t : ObjectType) :
    onRegistry (onPoolOf root (Edit.placing t (Pool.allocate k t))) db = .ok none db ∨
      (∃ key r, db.registry.scopeOf? root = some key.scope ∧ key.type = t ∧
        Places k key db.registry r ∧
        onRegistry (onPoolOf root (Edit.placing t (Pool.allocate k t))) db =
          .ok (some key.pack) { db with registry := r }) ∨
      ∃ e, onRegistry (onPoolOf root (Edit.placing t (Pool.allocate k t))) db =
        .error (.refused (.allocation t e)) db := by
  rw [onRegistry_eq, onPoolOf]
  cases hs : db.registry.scopeOf? root with
  | none => exact Or.inl rfl
  | some scope =>
    have hcases := place_spec h scope k t (f := (·.map (.allocation t)))
      (x := Edit.placing t (Pool.allocate k t)) fun p => by
        simp only [Edit.placing]
        cases Pool.allocate k t p <;> rfl
    rcases hcases with hr | ⟨key, r, hr, rfl, ht, hp⟩ | ⟨e, hr⟩
    · exact Or.inl (by simp only [hr])
    · exact Or.inr (Or.inl ⟨key, r, rfl, ht, hp, by simp only [hr]⟩)
    · exact Or.inr (Or.inr ⟨e, by simp only [hr]; rfl⟩)

/-- A pool is added with the record that is to own its scope, or no tag is left and nothing
is changed. -/
theorem found_cases (h : db.registry.Sound) (a : ActiveScope) :
    (∃ key r, key.type = a.type ∧ Opens key.scope db.registry (db.registry.opened key.scope) ∧
        Places a.kind key (db.registry.opened key.scope) r ∧
        Edit.placing a.type (onRegistry (createPoolWith (Pool.allocate a.kind a.type))) db =
          .ok (key.scope, key.pack) { db with registry := r }) ∨
      Edit.placing a.type (onRegistry (createPoolWith (Pool.allocate a.kind a.type))) db =
        .error (.refused (.allocation a.type .scopesExhausted)) db := by
  rcases createPoolWith_spec h a.kind a.type with ⟨key, r, hr, ht, ho, hp⟩ | hr
  · exact Or.inl ⟨key, r, ht, ho, hp, by simp only [Edit.placing, onRegistry_eq, hr]⟩
  · exact Or.inr (by simp only [Edit.placing, onRegistry_eq, hr]; rfl)

/-- An empty pool is added, or no tag is left and nothing is changed. -/
theorem createPool_cases (h : db.registry.Sound) (t : ObjectType) :
    (∃ scope, Opens scope db.registry (db.registry.opened scope) ∧
        Edit.placing t (onRegistry createPool) db =
          .ok scope { db with registry := db.registry.opened scope }) ∨
      ∃ e, Edit.placing t (onRegistry createPool) db = .error e db := by
  rcases createPool_spec h with ⟨scope, hr, ho⟩ | hr
  · exact Or.inl ⟨scope, ho, by simp only [Edit.placing, onRegistry_eq, hr]⟩
  · exact Or.inr ⟨_, by simp only [Edit.placing, onRegistry_eq, hr]; rfl⟩

theorem after_update (h : db.registry.Sound) (k : RecordKind) (id : ObjectId)
    (f : Record k.Body → Record k.Body) :
    ∃ r, after (update k id f : EStateM (Failure ε) Database _) db = { db with registry := r } ∧
      Touches id (Change.write k f) db.registry r := by
  rw [update, after_map, after_onRegistry]
  exact ⟨_, rfl, touches_update h k id f⟩

theorem after_modifyHeader (h : db.registry.Sound) (id : ObjectId) (f : Header → Header) :
    ∃ r, after (modifyHeader id f : EStateM ε Database _) db = { db with registry := r } ∧
      Touches id (Change.header f) db.registry r := by
  rw [modifyHeader, after_map, after_onRegistry]
  exact ⟨_, rfl, touches_modifyHeader h id f⟩

theorem after_editHeader (h : db.registry.Sound) (id : ObjectId) (e : HeaderEdit) :
    ∃ r, after (editHeader id e : EStateM (Failure ε) Database _) db = { db with registry := r } ∧
      Touches id (Change.header e.perform) db.registry r := by
  rw [editHeader, after_map, after_onRegistry]
  exact ⟨_, rfl, touches_editHeader h id e⟩

theorem destroy_of_owner {id : ObjectId} (hid : db.registry.isScopeOwner id = true) :
    (destroy id : EStateM ε Database Bool) db = destroyScope id db := by
  simp only [destroy, bind_apply, get_apply, hid, if_true]

/-- Destroying a record that owns no scope takes it off the properties of the scope it is in
and off the hierarchy, and frees it.  The answer is whether it was live. -/
theorem destroy_eq (h : db.registry.Sound) {id : ObjectId}
    (hid : db.registry.isScopeOwner id = false) :
    ∃ b, (destroy id : EStateM ε Database Bool) db = .ok b
        { after (onHomeScope (ε := ε) id (StorageScope.onProperties (PropertyTable.removeAll id))) db with
          hierarchy := after (Hierarchy.delete (ε := ε) id) db.hierarchy
          registry := after (onIssuer id (Pool.free (ε := ε) id)) db.registry } ∧
      (b = true ↔ db.registry.Live id) := by
  obtain ⟨a₁, h₁⟩ := onHomeScope_ok (ε := ε) (removeAll_ok id) id db
  have hreg := registry_after_onHomeScope (ε := ε) id
    (StorageScope.onProperties (PropertyTable.removeAll id)) db
  have hhier := hierarchy_after_onHomeScope (ε := ε) id
    (StorageScope.onProperties (PropertyTable.removeAll id)) db
  generalize after (onHomeScope id (StorageScope.onProperties
    (PropertyTable.removeAll (ε := ε) id))) db = db₁ at h₁ hreg hhier
  have h₂ : ∃ a, onHierarchy (Hierarchy.delete (ε := ε) id) db₁ =
      .ok a { db₁ with hierarchy := after (Hierarchy.delete (ε := ε) id) db.hierarchy } := by
    simp only [after, onHierarchy, Hierarchy.delete, hhier]
    cases db.hierarchy.positions.get? id <;> exact ⟨_, rfl⟩
  obtain ⟨a₂, h₂⟩ := h₂
  obtain ⟨b, hb, hlive⟩ := free_answer (ε := ε) h id
  refine ⟨b.getD false, ?_, hlive⟩
  simp only [destroy, bind_apply, get_apply, hid, discard_apply, h₁, h₂, onRegistry_eq, hreg, hb,
    Bool.false_eq_true, if_false, pure_apply]

theorem destroy_of_not_owner (h : db.registry.Sound) {id : ObjectId}
    (hid : db.registry.isScopeOwner id = false) :
    ∃ b r, (destroy id : EStateM ε Database Bool) db = .ok b
        { after (onHomeScope (ε := ε) id (StorageScope.onProperties (PropertyTable.removeAll id))) db with
          hierarchy := after (Hierarchy.delete (ε := ε) id) db.hierarchy
          registry := r } ∧
      (b = true ↔ db.registry.Live id) ∧ Touches id Change.clear db.registry r := by
  obtain ⟨b, hr, hlive⟩ := destroy_eq (ε := ε) h hid
  exact ⟨b, _, hr, hlive, touches_free h id⟩

theorem modifyHeader_eq (h : db.registry.Sound) (id : ObjectId) (f : Header → Header) :
    ∃ a, (modifyHeader id f : EStateM ε Database _) db = .ok a { db with
      registry := after (onIssuer id (Pool.modifyHeader (ε := ε) id f)) db.registry } := by
  obtain ⟨a, ha⟩ := onIssuer_ok (r := db.registry) id (x := Pool.modifyHeader (ε := ε) id f)
    fun p hp => Pool.modifyHeader_ok (h.of_lookup? hp) id f
  exact ⟨a.join, by simp only [modifyHeader, map_apply, onRegistry_eq, ha]⟩

theorem modifyHeader_ok (h : db.registry.Sound) (id : ObjectId) (f : Header → Header) :
    ∃ a r, (modifyHeader id f : EStateM ε Database _) db = .ok a { db with registry := r } ∧
      Touches id (Change.header f) db.registry r := by
  obtain ⟨a, ha⟩ := modifyHeader_eq (ε := ε) h id f
  exact ⟨a, _, ha, touches_modifyHeader h id f⟩

/-- Writing to a live record as the kind it has. -/
theorem update_ok (h : db.registry.Sound) {id : ObjectId} {e : Entry}
    (he : db.registry.stored? id = some e) (f : Record e.kind.Body → Record e.kind.Body) :
    ∃ x r, (update e.kind id f : EStateM (Failure ε) Database _) db =
        .ok (some x) { db with registry := r } ∧
      Touches id (Change.write e.kind f) db.registry r := by
  obtain ⟨o, ho, rfl⟩ := Option.map_eq_some_iff.1 he
  obtain ⟨ho, hv⟩ := Option.filter_eq_some_iff.1 ho
  obtain ⟨k, hk, hocc, _⟩ := record?_eq_some_iff.1 ho
  obtain ⟨p, hp, hocc⟩ := Option.bind_eq_some_iff.1 hocc
  have hp : db.registry.pool? k.scope = some p := hp
  have hlive : p.isLive id = true := by
    have hl := (header?_isSome_iff h id).2 ⟨o, ho, hv⟩
    rwa [lookup?_of_unpack? hk, hp] at hl
  obtain ⟨x, t, hx⟩ := Pool.update_of_live (ε := ε) (h.of_pool? hp).1 (key?_of_pool? hk hp)
    (Pool.kind?_of_occupant? hocc) hlive f
  obtain ⟨r, hr⟩ : ∃ r, onIssuer id (Pool.update (ε := ε) o.kind id f) db.registry =
      .ok (some (some x)) r :=
    ⟨_, by rw [onIssuer_of_unpack? hk, onPool_eq, onFirst_of_some hp hx]⟩
  have ht := touches_update (ε := ε) h o.kind id f
  rw [after_ok hr] at ht
  refine ⟨x, r, ?_, ht⟩
  simp only [update, Occupant.entry, map_apply, onRegistry_eq, hr, Option.join_some]

/-- What is written to is a live record of the kind that is asked for. -/
theorem stored?_of_update (h : db.registry.Sound) {id : ObjectId} {k : RecordKind}
    {f : Record k.Body → Record k.Body} {y : Record k.Body}
    (hu : (update k id f : EStateM (Failure ε) Database _) db = .ok (some y) db') :
    ∃ x, db.registry.stored? id = some { kind := k, record := x } := by
  have hres : ∃ x, db.resolve k id = .ok (some x) := by
    simp only [update, map_apply, onRegistry_eq, onIssuer] at hu
    cases ht : ScopeTag.of? id with
    | none => simp [ht] at hu
    | some t =>
      simp only [ht, onPool_eq] at hu
      have hlookup : db.registry.lookup? id = db.registry.pool? t := by
        rw [Registry.lookup?, ht]
        rfl
      rw [resolve, hlookup]
      cases hp : db.registry.pool? t with
      | none =>
        rw [onFirst_of_none (p := fun p : Pool => p.scope = t) hp] at hu
        simp at hu
      | some p =>
        obtain ⟨l₁, l₂, hl, hl₁, hs⟩ := find?_split hp
        rw [hl, onFirst_append hl₁ hs] at hu
        cases hx : (Pool.update k id f : EStateM (Failure ε) Pool _) p with
        | error e t => simp [hx] at hu
        | ok a t =>
          cases a with
          | none => simp [hx] at hu
          | some a => exact Pool.resolve_of_update hx
  obtain ⟨x, hx⟩ := hres
  exact ⟨x, (resolve_eq_some_iff_stored? h).1 hx⟩

/-- Nothing is written where nothing is found. -/
theorem update_of_resolve {id : ObjectId} {k : RecordKind} (hr : db.resolve k id = .ok none)
    (f : Record k.Body → Record k.Body) :
    (update k id f : EStateM (Failure ε) Database _) db = .ok none db := by
  cases ht : ScopeTag.of? id with
  | none => simp only [update, map_apply, onRegistry_eq, onIssuer, ht, Option.join_none]
  | some t =>
    have hlookup : db.registry.lookup? id = db.registry.pool? t := by
      rw [Registry.lookup?, ht]
      rfl
    simp only [update, map_apply, onRegistry_eq, onIssuer, ht, onPool_eq]
    cases hp : db.registry.pool? t with
    | none =>
      rw [onFirst_of_none (p := fun p : Pool => p.scope = t) hp]
      rfl
    | some p =>
      have hpool := Pool.update_of_resolve (ε := ε) (p := p)
        (by simpa only [resolve, hlookup, hp] using hr) f
      have hstill := onFirst_still (p := fun p : Pool => p.scope = t)
        (x := (Pool.update k id f : EStateM (Failure ε) Pool _)) (l := db.registry.pools)
        fun p' hp' => by
          cases hp.symm.trans hp'
          exact after_ok hpool
      rw [onFirst_of_some (p := fun p : Pool => p.scope = t) hp hpool, hstill]
      rfl

/-- Nothing is changed where there is no live record of the kind that is asked for. -/
theorem update_still (h : db.registry.Sound) {k : RecordKind} {id : ObjectId}
    (hn : ∀ x, db.registry.stored? id ≠ some { kind := k, record := x })
    (f : Record k.Body → Record k.Body) :
    after (update k id f : EStateM (Failure ε) Database _) db = db := by
  rw [update, after_map, after_onRegistry, onIssuer_still fun p hp =>
    Pool.update_still (fun x hx => hn x ((resolve_eq_some_iff_stored? h).1 ?_)) f]
  simp only [resolve, hp, hx]

/-- Where there is no live record of the kind that is asked for nothing is answered, if not a
failure. -/
theorem update_of_not_stored (h : db.registry.Sound) {k : RecordKind} {id : ObjectId}
    (hn : ∀ x, db.registry.stored? id ≠ some { kind := k, record := x })
    (f : Record k.Body → Record k.Body) :
    (∃ e, (update k id f : EStateM (Failure ε) Database _) db = .error e db) ∨
      (update k id f : EStateM (Failure ε) Database _) db = .ok none db := by
  have hstill := update_still (ε := ε) h hn f
  cases hr : (update k id f : EStateM (Failure ε) Database _) db with
  | error e db' =>
    rw [after_error hr] at hstill
    exact Or.inl ⟨e, by rw [hstill]⟩
  | ok y db' =>
    rw [after_ok hr] at hstill
    cases y with
    | none => exact Or.inr (by rw [hstill])
    | some y =>
      obtain ⟨x, hx⟩ := stored?_of_update h hr
      exact absurd hx (hn x)

theorem update_stores (h : db.registry.Sound) {id : ObjectId} {k : RecordKind} {x : Record k.Body}
    (he : db.registry.stored? id = some { kind := k, record := x })
    {f : Record k.Body → Record k.Body} (hf : ∀ y, (f y).isValid = y.isValid) :
    ∃ y r, (update k id f : EStateM (Failure ε) Database _) db =
        .ok (some y) { db with registry := r } ∧
      Stores id (some { kind := k, record := f x }) [] db.registry r := by
  obtain ⟨y, r, hr, ht⟩ := update_ok (ε := ε) h he f
  have hs := ht.stores fun _ _ hv => Occupant.isValid_write hf hv
  rw [he, Option.map_some, Entry.change_write_self] at hs
  exact ⟨y, r, hr, hs⟩

theorem updateCell_stores (h : db.registry.Sound) {id : ObjectId} {c : Record Cell}
    (he : db.registry.stored? id = some { kind := .cell, record := c }) (f : Cell → Cell) :
    ∃ r, updateCell id f db = .ok ⟨⟩ { db with registry := r } ∧
      Stores id (some { kind := .cell, record := { c with body := f c.body } }) [] db.registry r := by
  obtain ⟨y, r, hr, hs⟩ := update_stores (ε := DbError) (k := .cell) h he
    (f := fun c => { c with body := f c.body }) fun _ => rfl
  exact ⟨r, bind_ok hr, hs⟩

section Create

variable {k : RecordKind} {t : ObjectType} {owner root : ObjectId} {index : ObjectIndex}

theorem create_of_null (hn : owner.isNull = true) :
    create k t owner db = .error (.refused (.invalidOwner owner)) db := by
  simp only [create, if_pos hn, Edit.refuse, bind_apply, throw_apply]

theorem create_of_unresolved (hn : ¬ owner.isNull = true) (hi : db.ownerIndexFor? owner = none) :
    create k t owner db = .error (.refused (.ownerNotResolved owner)) db := by
  simp only [create, if_neg hn, bind_apply, get_apply, hi, Edit.refuse, throw_apply]

variable (hn : ¬ owner.isNull = true) (hi : db.ownerIndexFor? owner = some index)
include hn hi

theorem create_of_fault {f : Fault} (hroot : db.scopeRoot owner = .error f) :
    create k t owner db = .error (.fault f) db := by
  simp only [create, if_neg hn, bind_apply, get_apply, hi, Edit.read, hroot]

theorem create_of_no_scope (hroot : db.scopeRoot owner = .ok none) :
    create k t owner db = .error (.refused (.noPool t owner)) db := by
  simp only [create, if_neg hn, bind_apply, get_apply, hi, Edit.read, hroot, Edit.refuse,
    throw_apply]

variable (hroot : db.scopeRoot owner = .ok (some root))
include hroot

theorem create_of_no_pool
    (hp : onRegistry (onPoolOf root (Edit.placing t (Pool.allocate k t))) db = .ok none db) :
    create k t owner db = .error (.refused (.noPool t owner)) db := by
  simp only [create, if_neg hn, bind_apply, get_apply, hi, Edit.read, hroot, hp, Edit.refuse,
    throw_apply]

theorem create_of_refused {e : Failure DbError}
    (hp : onRegistry (onPoolOf root (Edit.placing t (Pool.allocate k t))) db = .error e db) :
    create k t owner db = .error e db := by
  simp only [create, if_neg hn, bind_apply, get_apply, hi, Edit.read, hroot, hp]

/-- The record that was placed is given the position of its owner. -/
theorem create_of_placed {id : ObjectId} {r : Registry} (hr : r.Sound)
    (hp : onRegistry (onPoolOf root (Edit.placing t (Pool.allocate k t))) db =
      .ok (some id) { db with registry := r }) :
    create k t owner db = .ok id { db with
      registry :=
        after (onIssuer id (Pool.modifyHeader (ε := Failure DbError) id (·.setOwner index))) r } := by
  let placed : Database := { db with registry := r }
  obtain ⟨a, ha⟩ := modifyHeader_eq (ε := Failure DbError)
    (show placed.registry.Sound from hr) id (·.setOwner index)
  simp only [create, if_neg hn, bind_apply, get_apply, hi, Edit.read, hroot, hp, discard_apply,
    placed, ha, pure_apply]

end Create

/-- A record is created, or nothing is changed: the record is placed in the pool of the
scope the owner belongs to, and is then given the position of the owner. -/
theorem create_steps (h : db.registry.Sound) (k : RecordKind) (t : ObjectType) (owner : ObjectId) :
    (∃ e, create k t owner db = .error e db) ∨
      ∃ index root key r, db.ownerIndexFor? owner = some index ∧
        db.scopeRoot owner = .ok (some root) ∧ db.registry.scopeOf? root = some key.scope ∧
        key.type = t ∧ Places k key db.registry r ∧
        onRegistry (onPoolOf root (Edit.placing t (Pool.allocate k t))) db =
          .ok (some key.pack) { db with registry := r } ∧
        create k t owner db = .ok key.pack { db with
          registry := after (onIssuer key.pack
            (Pool.modifyHeader (ε := Failure DbError) key.pack (·.setOwner index))) r } := by
  by_cases hn : owner.isNull = true
  · exact Or.inl ⟨_, create_of_null hn⟩
  cases hi : db.ownerIndexFor? owner with
  | none => exact Or.inl ⟨_, create_of_unresolved hn hi⟩
  | some index =>
    cases hroot : db.scopeRoot owner with
    | error f => exact Or.inl ⟨_, create_of_fault hn hi hroot⟩
    | ok root =>
      cases root with
      | none => exact Or.inl ⟨_, create_of_no_scope hn hi hroot⟩
      | some root =>
        rcases place_cases h root k t with hp | ⟨key, r, hs, ht, hplaces, hp⟩ | ⟨e, hp⟩
        · exact Or.inl ⟨_, create_of_no_pool hn hi hroot hp⟩
        · exact Or.inr ⟨index, root, key, r, rfl, rfl, hs, ht, hplaces, hp,
            create_of_placed hn hi hroot hplaces.sound hp⟩
        · exact Or.inl ⟨_, create_of_refused hn hi hroot hp⟩

theorem create_cases (h : db.registry.Sound) (k : RecordKind) (t : ObjectType) (owner : ObjectId) :
    (∃ e, create k t owner db = .error e db) ∨
      ∃ index root key r r', db.ownerIndexFor? owner = some index ∧
        db.scopeRoot owner = .ok (some root) ∧ db.registry.scopeOf? root = some key.scope ∧
        key.type = t ∧ Places k key db.registry r ∧
        Touches key.pack (Change.header (·.setOwner index)) r r' ∧
        create k t owner db = .ok key.pack { db with registry := r' } := by
  refine (create_steps h k t owner).imp_right ?_
  rintro ⟨index, root, key, r, hi, hroot, hs, ht, hplaces, _, hr⟩
  exact ⟨index, root, key, r, _, hi, hroot, hs, ht, hplaces,
    touches_modifyHeader hplaces.sound key.pack (·.setOwner index), hr⟩

/-- A record is created under a handle that was not given out before, or nothing is changed. -/
theorem create_stores (h : db.registry.Sound) (k : RecordKind) (t : ObjectType) (owner : ObjectId) :
    (∃ e, create k t owner db = .error e db) ∨
      ∃ id index r, create k t owner db = .ok id { db with registry := r } ∧
        ¬ db.registry.Spent id ∧ Stores id (some (Entry.fresh k t id index)) [] db.registry r := by
  refine (create_cases h k t owner).imp_right ?_
  rintro ⟨index, _, key, _, r, _, _, _, rfl, hp, ht, hr⟩
  exact ⟨key.pack, index, r, hr, hp.not_spent, hp.stores_fresh h ht⟩

theorem reserveIds_of_le {capacity : Nat}
    (hc : capacity * RecordKind.ids.elementBytes ≤ GrowArray.maxBytes) (id : ObjectId) :
    reserveIds id capacity = discard (updateBody .ids id (·.reserve capacity)) :=
  if_pos hc

theorem reserveIds_of_lt {capacity : Nat}
    (hc : GrowArray.maxBytes < capacity * RecordKind.ids.elementBytes) (id : ObjectId) :
    reserveIds id capacity = throw (.fault .capacityOverflow) :=
  if_neg (Nat.not_le.2 hc)

theorem room_defaultArrayCapacity :
    defaultArrayCapacity * RecordKind.ids.elementBytes ≤ GrowArray.maxBytes := by
  decide

/-- An owner is refused, or its position is written to the header. -/
theorem setOwner_cases (id owner : ObjectId) (db : Database) :
    (∃ e, setOwner id owner db = .error e db) ∨ ∃ index, db.ownerIndexFor? owner = some index ∧
      setOwner id owner db =
        (Option.isSome <$> modifyHeader id (·.setOwner index) : Edit Bool) db := by
  by_cases hn : owner.isNull = true
  · exact .inl ⟨_, by simp only [setOwner, if_pos hn, bind_apply, throw_apply]; rfl⟩
  cases hi : db.ownerIndexFor? owner with
  | none =>
    exact .inl ⟨_, by simp only [setOwner, if_neg hn, bind_apply, get_apply, hi, throw_apply]; rfl⟩
  | some index =>
    refine .inr ⟨index, rfl, ?_⟩
    simp only [setOwner, if_neg hn, bind_apply, get_apply, hi]
    rfl

/-- A record is given the position of another owner, or nothing is done. -/
theorem after_setOwner (h : db.registry.Sound) (id owner : ObjectId) :
    after (setOwner id owner) db = db ∨ ∃ index r, db.ownerIndexFor? owner = some index ∧
      after (setOwner id owner) db = { db with registry := r } ∧
      Touches id (Change.header (·.setOwner index)) db.registry r := by
  rcases setOwner_cases id owner db with ⟨e, hr⟩ | ⟨index, hi, hr⟩
  · exact .inl (after_error hr)
  · obtain ⟨a, r, hr', ht⟩ := modifyHeader_ok (ε := Failure DbError) h id (·.setOwner index)
    refine .inr ⟨index, r, hi, ?_, ht⟩
    simp only [after, hr, map_apply, hr']

/-! ## Closing scopes -/

theorem closeScope_of_none {owner : ObjectId} (hs : db.scope? owner = none) :
    db.closeScope owner = db := by
  simp only [closeScope, hs]

/-- A scope is closed by dropping its pool and emptying the positions of its records. -/
theorem closeScope_of_scope {owner : ObjectId} {scope : StorageScope}
    (hs : db.scope? owner = some scope) :
    db.closeScope owner =
      { db with
        hierarchy := (db.hierarchy.deleteWhere fun id =>
          decide (id = owner ∨ ScopeTag.of? id = some scope.tag)).clearActive owner
        registry := after (removePool scope.tag) db.registry
        scopes := db.scopes.filter (·.owner ≠ owner) } := by
  simp only [closeScope, hs, after]
  cases removePool scope.tag db.registry <;> rfl

section Closing

variable {R : Database → Database → Prop} [IsPreorder Database R]

/-- The last steps of closing a nested scope, by which its owner goes. -/
def release (owner : ObjectId) : EStateM ε Database Bool := do
  discard <| onHomeScope owner (StorageScope.onProperties (PropertyTable.removeAll owner))
  discard <| onRegistry (onIssuer owner (Pool.free owner))
  return true

theorem keeps_closeScopes (hclose : ∀ db owner, R db (closeScope db owner))
    (owners : List ObjectId) (db : Database) : R db (owners.foldl closeScope db) := by
  induction owners generalizing db with
  | nil => exact refl_of R db
  | cons owner owners ih => exact trans_of R (hclose db owner) (ih _)

/-- What closing one scope keeps is kept by closing all that lie in a scope, if the lists of
scopes and the properties and the place of the owner do not matter to it either. -/
theorem keeps_destroyScope (hclose : ∀ db owner, R db (closeScope db owner))
    (hlist : ∀ (p : StorageScope → Bool) (owner : ObjectId), Keeps R (onScopeWhere p
      (modify fun s => { s with children := s.children.filter (· ≠ owner) }) :
        EStateM ε Database _))
    (owner : ObjectId) (hrelease : Keeps R (release owner : EStateM ε Database Bool)) :
    Keeps R (destroyScope owner : EStateM ε Database Bool) := by
  refine Keeps.get_bind fun db => ?_
  cases db.scope? owner with
  | none => exact refl_of R db
  | some scope =>
    refine Keeps.bind (Keeps.modify fun db => keeps_closeScopes hclose _ db) (fun _ => ?_) db
    cases scope.parent with
    | none => exact Keeps.pure true
    | some parent => exact (hlist _ owner).discard.bind fun _ => hrelease

end Closing

/-! ## Changes that place nothing -/

def Calm (db db' : Database) : Prop :=
  db.registry.Sound → Evolves db.registry db'.registry ∧ Quiet db.registry db'.registry

instance : IsPreorder Database Calm where
  refl _ h := ⟨Evolves.refl h, fun _ => id⟩
  trans _ _ _ h h' hr := by
    obtain ⟨he, hq⟩ := h hr
    obtain ⟨he', hq'⟩ := h' he.sound
    exact ⟨he.trans hr he', fun id hid => hq id (hq' id hid)⟩

theorem calm_of_registry (h : db'.registry = db.registry) : Calm db db' := by
  intro hr
  rw [h]
  exact ⟨Evolves.refl hr, fun _ => id⟩

theorem calm_onRegistry {x : EStateM ε Registry α}
    (hx : ∀ r : Registry, r.Sound → Evolves r (after x r) ∧ Quiet r (after x r)) :
    Keeps Calm (onRegistry x) := by
  intro db h
  rw [after_onRegistry]
  exact hx db.registry h

theorem calm_onHierarchy (x : EStateM ε Hierarchy α) : Keeps Calm (onHierarchy x) := by
  intro db
  rw [after_onHierarchy]
  exact calm_of_registry rfl

theorem calm_onScopeWhere (p : StorageScope → Bool) (x : EStateM ε StorageScope α) :
    Keeps Calm (onScopeWhere p x) := by
  intro db
  rw [after_onScopeWhere]
  exact calm_of_registry rfl

theorem calm_onHomeScope (id : ObjectId) (x : EStateM ε StorageScope α) :
    Keeps Calm (onHomeScope id x) := by
  intro db
  rcases after_onHomeScope id x db with h | ⟨tag, _, h⟩ <;> rw [h]
  · exact refl_of Calm db
  · exact calm_onScopeWhere _ x db

theorem calm_onStorageScope (id : ObjectId) (x : EStateM (Failure ε) StorageScope α) :
    Keeps Calm (onStorageScope id x) := by
  intro db
  rcases after_onStorageScope id x db with h | ⟨root, _, h⟩ <;> rw [h]
  · exact refl_of Calm db
  · exact calm_onScopeWhere _ x db

theorem calm_touch {x : EStateM ε Registry α} {id : ObjectId} {c : Change}
    (hx : ∀ r : Registry, r.Sound → Touches id c r (after x r)) : Keeps Calm (onRegistry x) :=
  calm_onRegistry fun r h => ⟨(hx r h).evolves, (hx r h).quiet⟩

theorem calm_update (k : RecordKind) (id : ObjectId) (f : Record k.Body → Record k.Body) :
    Keeps Calm (update k id f : EStateM (Failure ε) Database _) :=
  (calm_touch fun _ h => touches_update h k id f).map _

theorem calm_modifyHeader (id : ObjectId) (f : Header → Header) :
    Keeps Calm (modifyHeader id f : EStateM ε Database _) :=
  (calm_touch fun _ h => touches_modifyHeader h id f).map _

theorem calm_editHeader (id : ObjectId) (e : HeaderEdit) :
    Keeps Calm (editHeader id e : EStateM (Failure ε) Database _) :=
  (calm_touch fun _ h => touches_editHeader h id e).map _

theorem calm_free (id : ObjectId) :
    Keeps Calm (onRegistry (onIssuer id (Pool.free id)) : EStateM ε Database _) :=
  calm_touch fun _ h => touches_free h id

theorem calm_createPool (t : ObjectType) : Keeps Calm (Edit.placing t (onRegistry createPool)) := by
  intro db h
  rcases createPool_cases h t with ⟨scope, ho, hr⟩ | ⟨e, hr⟩
  · rw [after_ok hr]
    exact ⟨ho.evolves h, ho.quiet h⟩
  · rw [after_error hr]
    exact ⟨Evolves.refl h, fun _ => id⟩

theorem calm_closeScope (db : Database) (owner : ObjectId) : Calm db (db.closeScope owner) := by
  intro h
  unfold closeScope
  cases db.scope? owner with
  | none => exact refl_of Calm db h
  | some scope =>
    rcases removePool_spec h scope.tag with ⟨_, hr⟩ | ⟨n, r, hr, hd⟩
    · simp only [hr]
      exact ⟨Evolves.refl h, fun _ => id⟩
    · simp only [hr]
      exact ⟨hd.evolves, hd.quiet⟩

theorem calm_destroyScope (owner : ObjectId) :
    Keeps Calm (destroyScope owner : EStateM ε Database Bool) :=
  keeps_destroyScope calm_closeScope (fun p _ => calm_onScopeWhere p _) owner <|
    (calm_onHomeScope _ _).discard.bind fun _ => (calm_free owner).discard.bind fun _ =>
      Keeps.pure true

theorem calm_destroy (id : ObjectId) : Keeps Calm (destroy id : EStateM ε Database Bool) := by
  refine Keeps.get_bind fun db => ?_
  split
  · exact calm_destroyScope id db
  · exact ((calm_onHomeScope id _).discard.bind fun _ => (calm_onHierarchy _).discard.bind
      fun _ => (calm_free id).bind fun _ => Keeps.pure _) db

theorem calm_indexObject (id : ObjectId) : Keeps Calm (indexObject id) := by
  refine Keeps.get_bind fun db => ?_
  split
  · cases db.hierarchy.indexOf? id with
    | none => exact (calm_onHierarchy _).map _ db
    | some index => exact refl_of Calm db
  · exact refl_of Calm db

theorem calm_setOwner (id owner : ObjectId) : Keeps Calm (setOwner id owner) := by
  intro db h
  rcases after_setOwner h id owner with hr | ⟨index, r, _, hr, ht⟩ <;> rw [hr]
  · exact refl_of Calm db h
  · exact ⟨ht.evolves, ht.quiet⟩

theorem calm_restoreHierarchy (l : List (ObjectIndex × ObjectId)) :
    Keeps Calm (restoreHierarchy l) := by
  induction l with
  | nil => exact Keeps.pure _
  | cons e l ih => exact (calm_onHierarchy _).bind fun _ => ih

theorem bindOwner_spec {r : Registry} (h : r.Sound) (owner : ObjectId) (tag : ScopeTag) :
    ∃ b r', bindOwner (ε := ε) owner tag r = .ok b r' ∧ Evolves r r' ∧
      ∀ id, r'.record? id = r.record? id := by
  by_cases hp : (r.pool? tag).isSome = true ∧ ¬ owner.isNull = true
  · refine ⟨true, { r with owners := r.owners.insert owner tag }, ?_,
      Evolves.of_same_pools ⟨h.config, h.issued_le, h.pool, h.tag⟩ rfl rfl, fun _ => rfl⟩
    exact bindOwner_of_pool hp
  · exact ⟨false, r, bindOwner_of_not hp, Evolves.refl h, fun _ => rfl⟩

theorem calm_register (owner : ObjectId) (tag : ScopeTag) (parent : Option ObjectId) :
    Keeps Calm (register owner tag parent) := by
  have hbind : Keeps Calm (onRegistry (bindOwner owner tag) : Edit Bool) := by
    refine calm_onRegistry fun r h => ?_
    obtain ⟨b, r', hr, he, hrecord⟩ := bindOwner_spec (ε := Failure DbError) h owner tag
    rw [after_ok hr]
    exact ⟨he, fun id hid => hrecord id ▸ hid⟩
  have hopen (index : ObjectIndex) : Keeps Calm
      (modify fun db => { db with scopes := { owner, tag, index, parent } :: db.scopes } : Edit _) :=
    Keeps.modify fun _ => calm_of_registry rfl
  exact (calm_onHierarchy _).bind fun index => hbind.discard.bind fun _ =>
    (hopen index).bind fun _ => Keeps.pure index

theorem calm_reset (db : Database) : Calm db db.reset :=
  fun h => ⟨clear_evolves h, clear_quiet db.registry⟩

end Database
end DesignStore
