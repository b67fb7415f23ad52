/-
The books that a database keeps of its records and scopes.

What a database reports of its memory is put together from three sides: the open scopes, the pools
with their tags, and what each pool keeps of its records.  That the three agree is due to two
things.

Every pool counts its records as they are found, whatever is done with the database, as long as
nothing is written to the handle or the status of a record (`counted_run`).

The pools of the open scopes are there, in the order in which the scopes were opened, and a record
that owns a scope is of a kind that can own one (`shelved_run`).  Neither of these holds while a
scope is being opened: its pool is there before it is, and its owner is bound before it is listed.
`Ready` is what holds just before that.
-/
import DesignStore.Proofs.PoolLayout

namespace DesignStore

variable {ε α : Type}

/-! ## Records that are counted -/

namespace Registry

variable {r r' : Registry}

/-- Every pool counts its records as they are found. -/
structure Counted (r : Registry) : Prop where
  config : r.config.Valid
  pool : ∀ p ∈ r.pools, p.Counted

theorem counted_empty {c : PoolConfig} (h : c.Valid) : (empty c).Counted where
  config := h
  pool := by simp [empty]

namespace Counted

theorem onPool (h : r.Counted) (s : ScopeTag) {x : EStateM ε Pool α}
    (hx : ∀ p : Pool, p.Counted → (after x p).Counted) : (after (onPool s x) r).Counted where
  config := by
    rw [config_onPool]
    exact h.config
  pool := by
    rw [after_onPool]
    exact forall_after_onFirst (fun p _ => hx p) h.pool

theorem route (h : r.Counted) (route : Route) {x : EStateM ε Pool α}
    (hx : ∀ p : Pool, p.Counted → (after x p).Counted) : (after (route.run x) r).Counted := by
  cases hs : route.scope? r with
  | none => rwa [after_ok (Route.run_of_none hs x)]
  | some s =>
    have hr : after (route.run x) r = after (Registry.onPool s x) r := by
      simp only [after, Route.run_of_scope hs]
    rw [hr]
    exact h.onPool s hx

/-- A pool that is added was empty before its first use. -/
theorem createPoolWith (h : r.Counted) {x : EStateM (Failure PoolError) Pool α}
    (hx : ∀ p : Pool, p.Counted → (after x p).Counted) :
    (after (createPoolWith x) r).Counted := by
  cases hs : r.nextScope? with
  | none => rwa [after_error (createPoolWith_of_exhausted hs x)]
  | some s =>
    have hp := hx (Pool.empty s r.config) (Pool.counted_empty s h.config)
    cases hx : x (Pool.empty s r.config) with
    | error e p =>
      rw [after_error (createPoolWith_of_error hs hx)]
      exact ⟨h.config, h.pool⟩
    | ok a p =>
      rw [after_ok (createPoolWith_of_ok hs hx)]
      rw [after_ok hx] at hp
      exact ⟨h.config, List.forall_mem_cons.2 ⟨hp, h.pool⟩⟩

theorem createPool (h : r.Counted) : (after Registry.createPool r).Counted := by
  rw [Registry.createPool, after_map]
  exact h.createPoolWith fun _ hp => hp

theorem bindOwner (h : r.Counted) (owner : ObjectId) (s : ScopeTag) :
    (after (Registry.bindOwner (ε := ε) owner s) r).Counted := by
  by_cases hp : (r.pool? s).isSome = true ∧ ¬ owner.isNull = true
  · rw [after_ok (bindOwner_of_pool hp)]
    exact ⟨h.config, h.pool⟩
  · rwa [after_ok (bindOwner_of_not hp)]

theorem removePool (h : r.Counted) (s : ScopeTag) :
    (after (Registry.removePool s) r).Counted := by
  cases hp : r.pool? s with
  | none => rwa [after_error (removePool_of_none hp)]
  | some p =>
    rw [after_ok (removePool_of_some hp)]
    exact ⟨h.config, fun p hp => h.pool p (List.mem_filter.1 hp).1⟩

end Counted
end Registry

namespace Database

open Registry

variable {db db' : Database} {id owner : ObjectId} {tag : ScopeTag}

def KeepsCount (db db' : Database) : Prop :=
  db.registry.Counted → db'.registry.Counted

instance : IsPreorder Database KeepsCount :=
  inferInstanceAs (IsPreorder Database (KeepsRegistry Registry.Counted))

theorem keepsCount_stepwise : Stepwise Pool.Use.Discreet KeepsCount where
  update k id f hf := (keepsRegistry_onRegistry fun _ h =>
    h.route (.issuer id) fun _ hp => (Pool.recounts_update hp id hf).counted).map _
  modifyHeader id f hf := (keepsRegistry_onRegistry fun _ h =>
    h.route (.issuer id) fun _ hp => (Pool.recounts_modifyHeader hp id fun hd _ => hf hd).counted).map _
  editHeader id e he := (keepsRegistry_onRegistry fun _ h =>
    h.route (.issuer id) fun _ hp => (Pool.recounts_editHeader hp id he).counted).map _
  free id := keepsRegistry_onRegistry fun _ h =>
    h.route (.issuer id) fun _ hp => (Pool.recounts_free hp id).counted
  place root k t := keepsRegistry_onRegistry fun _ h => h.route (.owner root) fun p hp => by
    rw [after_placing]
    exact (Pool.counted_allocate hp k t).1
  found a := keepsRegistry_placing a.type fun _ h =>
    h.createPoolWith fun _ hp => (Pool.counted_allocate hp a.kind a.type).1
  addPool t := keepsRegistry_placing t fun _ h => h.createPool
  bindOwner owner tag := keepsRegistry_onRegistry fun _ h => h.bindOwner owner tag
  insert _ := keepsRegistry_onHierarchy _
  delete _ := keepsRegistry_onHierarchy _
  putBack _ _ := keepsRegistry_onHierarchy _
  active _ _ _ h := h
  scopes _ _ h := h
  closeScope := keepsRegistry_closeScope fun _ t h => h.removePool t
  reset _ h := ⟨h.config, by simp [reset, Registry.clear]⟩

/-- Whatever is done with a new database, its pools count their records, as long as nothing is
written to the handle or the status of a record. -/
theorem counted_run {c : StoreConfig} {start : Database} (h : Database.new c = .ok start)
    {cmds : List Command} (hcmds : ∀ c ∈ cmds, c.Writes Pool.Use.Discreet) :
    (Database.run cmds start).registry.Counted := by
  obtain ⟨hc, rfl⟩ := new_eq_ok h
  exact keepsCount_stepwise.run (fun _ hu => hu) hcmds _ (counted_empty hc)

end Database

/-! ## Scopes and their pools -/

namespace Registry

variable {r r' : Registry} {id : ObjectId}

/-- The record of the handle is of a kind that can own a scope, or was before its pool went. -/
def Heads (r : Registry) (id : ObjectId) : Prop :=
  ∃ key, SlotKey.unpack? id = some key ∧ key.scope.toNat ≤ r.issued ∧
    (r.pool? key.scope = none ∨ ∃ a : ActiveScope, r.kind? key.scope key.type = some a.kind)

theorem Heads.mono (h : r.Heads id) (he : Evolves r r') : r'.Heads id := by
  obtain ⟨key, hk, hissued, hkind⟩ := h
  refine ⟨key, hk, Nat.le_trans hissued he.issued_le, ?_⟩
  rcases hkind with hp | ⟨a, ha⟩
  · exact Or.inl (he.gone key.scope hissued hp)
  · exact (he.kind key.scope key.type a.kind ha).imp_right fun ha' => ⟨a, ha'⟩

theorem Places.heads {a : ActiveScope} {key : SlotKey} (h : Places a.kind key r r') :
    r'.Heads key.pack := by
  obtain ⟨p, hp⟩ := Option.isSome_iff_exists.1 ((h.pool key.scope).trans h.key_pool)
  exact ⟨key, h.unpack?_pack, (h.sound.of_pool? hp).2.2.2,
    Or.inr ⟨a, by rw [h.kind, if_pos ⟨rfl, rfl⟩]⟩⟩

/-- What is read under the handle is a record of such a kind. -/
theorem Heads.kind_of_resolve (h : r.Heads id) {p : Pool} (hp : r.lookup? id = some p)
    {k : RecordKind} {x : Record k.Body} (hx : p.resolve k id = .ok (some x)) :
    ∃ a : ActiveScope, k = a.kind := by
  obtain ⟨key, hk, _, hkind⟩ := h
  rw [lookup?_of_unpack? hk] at hp
  rcases hkind with hn | ⟨a, ha⟩
  · rw [hn] at hp
    contradiction
  · simp only [Registry.kind?, hp, Option.bind_some, Pool.kind?, Option.map_eq_some_iff] at ha
    obtain ⟨b, hb, hkb⟩ := ha
    simp only [Pool.resolve, key?_of_pool? hk hp, hb] at hx
    by_cases hbk : b.kind = k
    · exact ⟨a, hbk.symm.trans hkb⟩
    · have hnone : b.as? k = none := dif_neg hbk
      simp [hnone] at hx

end Registry

namespace Database

open Registry

variable {db db' : Database} {id owner : ObjectId} {tag : ScopeTag}

/-- The pools of the open scopes are there, in the order of the scopes, and every owner of a scope
is of a kind that can own one. -/
structure Shelved (db : Database) : Prop where
  orderly : db.registry.Orderly
  pools : (db.scopes.map (·.tag)).Sublist db.registry.tags
  heads : ∀ o s, db.registry.scopeOf? o = some s → db.registry.Heads o

theorem shelved_empty {c : StoreConfig} (h : c.pool.Valid) : (empty c).Shelved where
  orderly := orderly_empty h
  pools := List.Sublist.refl _
  heads := by simp [empty, Registry.empty, scopeOf?, Assoc.get?]

namespace Shelved

theorem congr (h : db.Shelved) (he : Evolves db.registry db'.registry)
    (howners : db'.registry.owners = db.registry.owners)
    (htags : db'.registry.tags = db.registry.tags)
    (hscopes : db'.scopes.map (·.tag) = db.scopes.map (·.tag)) : db'.Shelved where
  orderly :=
    { sound := he.sound
      newest := htags ▸ h.orderly.newest
      keys := howners ▸ h.orderly.keys
      bound := fun o s hs => by
        rw [scopeOf?, howners] at hs
        exact htags ▸ h.orderly.bound o s hs }
  pools := by
    rw [hscopes, htags]
    exact h.pools
  heads o s hs := by
    rw [scopeOf?, howners] at hs
    exact (h.heads o s hs).mono he

theorem nodup (h : db.Shelved) : (db.scopes.map (·.tag)).Nodup :=
  have htags : db.registry.tags.Nodup := by
    refine h.orderly.newest.imp ?_
    rintro s _ hlt rfl
    exact Nat.lt_irrefl _ hlt
  h.pools.nodup htags

/-- The later a scope was opened, the greater is its tag. -/
theorem newest (h : db.Shelved) :
    db.scopes.Pairwise fun s t => t.tag.toNat < s.tag.toNat :=
  List.pairwise_map.1 (h.orderly.newest.sublist h.pools)

theorem exists_pool (h : db.Shelved) {s : StorageScope} (hs : s ∈ db.scopes) :
    ∃ p, db.registry.pool? s.tag = some p :=
  Option.isSome_iff_exists.1 (isSome_pool?_iff.2 (h.pools.subset (List.mem_map_of_mem hs)))

end Shelved

/-- The scopes stay on their pools, and what could own a scope still can. -/
def KeepsShelves (db db' : Database) : Prop :=
  db.Shelved → db'.Shelved ∧ ∀ id, db.registry.Heads id → db'.registry.Heads id

instance : IsPreorder Database KeepsShelves where
  refl _ h := ⟨h, fun _ hid => hid⟩
  trans _ _ _ h h' hs :=
    have hk := h hs
    have hk' := h' hk.1
    ⟨hk'.1, fun id hid => hk'.2 id (hk.2 id hid)⟩

namespace KeepsShelves

theorem of_evolves (he : db.registry.Sound → Evolves db.registry db'.registry)
    (howners : db'.registry.owners = db.registry.owners)
    (htags : db'.registry.tags = db.registry.tags)
    (hscopes : db'.scopes.map (·.tag) = db.scopes.map (·.tag)) : KeepsShelves db db' := fun h =>
  have he := he h.orderly.sound
  ⟨h.congr he howners htags hscopes, fun _ hid => hid.mono he⟩

theorem of_scopes (hr : db'.registry = db.registry)
    (hscopes : db'.scopes.map (·.tag) = db.scopes.map (·.tag)) : KeepsShelves db db' :=
  of_evolves (fun hs => by rw [hr]; exact Evolves.refl hs) (by rw [hr]) (by rw [hr]) hscopes

theorem of_touches {c : Change} {r : Registry} (ht : Touches id c db.registry r) :
    KeepsShelves db { db with registry := r } :=
  of_evolves (fun _ => ht.evolves) ht.owners ht.tags rfl

theorem of_places {k : RecordKind} {key : SlotKey} {r : Registry}
    (hp : Places k key db.registry r) : KeepsShelves db { db with registry := r } :=
  of_evolves (fun _ => hp.evolves) hp.owners hp.tags rfl

end KeepsShelves

theorem keepsShelves_onHierarchy (x : EStateM ε Hierarchy α) :
    Keeps KeepsShelves (onHierarchy x) := by
  intro db
  rw [after_onHierarchy]
  exact .of_scopes rfl rfl

/-- A scope goes with its pool. -/
theorem keepsShelves_closeScope (db : Database) (owner : ObjectId) :
    KeepsShelves db (db.closeScope owner) := by
  intro h
  cases hs : db.scope? owner with
  | none =>
    rw [closeScope_of_none hs]
    exact refl_of KeepsShelves db h
  | some scope =>
    have hmem : scope ∈ db.scopes := List.mem_of_find?_eq_some hs
    have howner : scope.owner = owner := by simpa using List.find?_some hs
    obtain ⟨p, hp⟩ := h.exists_pool hmem
    rw [closeScope_of_scope hs, after_ok (removePool_of_some hp)]
    have hdrops := drops_less h.orderly.sound scope.tag
    refine ⟨⟨h.orderly.step (.dropped hdrops), ?_, fun o s ho => ?_⟩, fun _ hid =>
      hid.mono hdrops.evolves⟩
    · have hall : ∀ t ∈ (db.scopes.filter (·.owner ≠ owner)).map (·.tag),
          decide (t ≠ scope.tag) = true := by
        simp only [List.mem_map, List.mem_filter, decide_eq_true_eq]
        rintro _ ⟨s, ⟨hs, hne⟩, rfl⟩ he
        exact hne (List.inj_on_of_nodup_map h.nodup hs hmem he ▸ howner)
      show List.Sublist ((db.scopes.filter (·.owner ≠ owner)).map (·.tag)) _
      rw [hdrops.tags, ← List.filter_eq_self.2 hall]
      exact ((List.filter_sublist.map _).trans h.pools).filter _
    · have ho' : db.registry.scopeOf? o = some s := by
        rw [scopeOf?, hdrops.owners] at ho
        exact ((Assoc.get?_filter_iff h.orderly.keys).1 ho).1
      exact (h.heads o s ho').mono hdrops.evolves

theorem keepsShelves_reset (db : Database) : KeepsShelves db db.reset := fun h =>
  have he := clear_evolves h.orderly.sound
  ⟨⟨h.orderly.step .cleared, List.nil_sublist _, fun o s ho => by
    simp [reset, Registry.clear, scopeOf?, Assoc.get?] at ho⟩, fun _ hid => hid.mono he⟩

theorem keepsShelves_piecewise : Piecewise (fun _ => True) KeepsShelves where
  update k id f _ db h := by
    obtain ⟨r, hr, ht⟩ := after_update (ε := DbError) h.orderly.sound k id f
    rw [hr]
    exact KeepsShelves.of_touches ht h
  modifyHeader id f _ db h := by
    obtain ⟨r, hr, ht⟩ := after_modifyHeader (ε := Failure DbError) h.orderly.sound id f
    rw [hr]
    exact KeepsShelves.of_touches ht h
  editHeader id e _ db h := by
    obtain ⟨r, hr, ht⟩ := after_editHeader (ε := DbError) h.orderly.sound id e
    rw [hr]
    exact KeepsShelves.of_touches ht h
  free id db h := by
    rw [after_onRegistry]
    exact KeepsShelves.of_touches (touches_free h.orderly.sound id) h
  place root k t db h := by
    rcases place_cases h.orderly.sound root k t with hr | ⟨key, r, _, _, hp, hr⟩ | ⟨e, hr⟩
    · rw [after_ok hr]
      exact refl_of KeepsShelves db h
    · rw [after_ok hr]
      exact KeepsShelves.of_places hp h
    · rw [after_error hr]
      exact refl_of KeepsShelves db h
  insert _ := keepsShelves_onHierarchy _
  delete _ := keepsShelves_onHierarchy _
  putBack _ _ := keepsShelves_onHierarchy _
  active _ _ _ := .of_scopes rfl rfl
  scopes _ _ hl := .of_scopes rfl hl
  closeScope := keepsShelves_closeScope
  reset := keepsShelves_reset

/-! ### Opening a scope -/

/-- The pool of the scope to be opened was added, and its owner placed. -/
structure Ready (owner : ObjectId) (tag : ScopeTag) (db : Database) : Prop extends Shelved db where
  next : (tag :: db.scopes.map (·.tag)).Sublist db.registry.tags
  head : db.registry.Heads owner

/-- An owner gets a position, is bound to its pool, and has its scope listed, unless there is no
position left. -/
theorem register_shape (owner : ObjectId) (tag : ScopeTag) (parent : Option ObjectId)
    (db : Database) : ∃ t, after (register owner tag parent) db = { db with hierarchy := t } ∨
      ∃ index, after (register owner tag parent) db =
        { db with
          hierarchy := t
          registry := after (bindOwner (ε := Failure DbError) owner tag) db.registry
          scopes := { owner, tag, index, parent } :: db.scopes } := by
  refine ⟨after (Hierarchy.insert (ε := DbError) owner) db.hierarchy, ?_⟩
  have hbind : ∃ b r, bindOwner (ε := Failure DbError) owner tag db.registry = .ok b r := by
    by_cases hp : (db.registry.pool? tag).isSome = true ∧ ¬ owner.isNull = true
    · exact ⟨_, _, bindOwner_of_pool hp⟩
    · exact ⟨_, _, bindOwner_of_not hp⟩
  obtain ⟨b, r, hb⟩ := hbind
  cases hi : Hierarchy.insert (ε := DbError) owner db.hierarchy with
  | error e t =>
    left
    rw [after_error hi]
    simp only [after, register, bind_apply, onHierarchy, hi]
  | ok index t =>
    right
    refine ⟨index, ?_⟩
    rw [after_ok hi, after_ok hb]
    simp only [register, after, bind_apply, onHierarchy, hi, discard_apply, onRegistry_eq, hb,
      modify_apply, pure_apply]

theorem Ready.register (h : db'.Ready owner tag)
    (hheads : ∀ id, db.registry.Heads id → db'.registry.Heads id) (parent : Option ObjectId) :
    KeepsShelves db (after (register owner tag parent) db') := by
  intro _
  obtain ⟨t, hr | ⟨index, hr⟩⟩ := register_shape owner tag parent db' <;> rw [hr]
  · exact ⟨⟨h.orderly, h.pools, h.heads⟩, hheads⟩
  · by_cases hp : (db'.registry.pool? tag).isSome = true ∧ ¬ owner.isNull = true
    · rw [after_ok (bindOwner_of_pool hp)]
      refine ⟨⟨h.orderly.step (.bound hp), h.next, fun o s ho => ?_⟩, hheads⟩
      rw [scopeOf?, Assoc.get?_insert] at ho
      by_cases heq : o = owner
      · exact heq ▸ h.head
      · rw [if_neg heq] at ho
        exact h.heads o s ho
    · rw [after_ok (bindOwner_of_not hp)]
      exact ⟨⟨h.orderly, h.next, h.heads⟩, hheads⟩

/-- A pool that is added lies on top of the others. -/
theorem Shelved.ready (h : db.Shelved) {r : Registry} (he : Evolves db.registry r)
    (howners : r.owners = db.registry.owners) (htags : r.tags = tag :: db.registry.tags)
    (htag : tag.toNat = db.registry.issued + 1) (hid : r.Heads id) :
    Ready id tag { db with registry := r } where
  orderly :=
    { sound := he.sound
      newest := by
        rw [htags]
        refine List.pairwise_cons.2 ⟨fun t ht => ?_, h.orderly.newest⟩
        have := (h.orderly.sound.mem_tags ht).2
        omega
      keys := howners ▸ h.orderly.keys
      bound := fun o s hs => by
        rw [scopeOf?, howners] at hs
        rw [htags]
        exact List.mem_cons_of_mem tag (h.orderly.bound o s hs) }
  pools := by
    rw [htags]
    exact h.pools.cons tag
  heads o s hs := by
    rw [scopeOf?, howners] at hs
    exact (h.heads o s hs).mono he
  next := by
    rw [htags]
    exact h.pools.cons_cons tag
  head := hid

theorem keepsShelves_openScope (a : ActiveScope) : Keeps KeepsShelves (openScope a) := by
  have hindex (id : ObjectId) (index : ObjectIndex) : Keeps KeepsShelves
      (update a.kind id fun r =>
        { header := r.header.setOwner index, body := a.kind.setHierIndex index r.body } : Edit _) :=
    keepsShelves_piecewise.update a.kind id _ trivial
  intro db h
  have hs := h.orderly.sound
  rcases found_cases hs a with ⟨key, r, _, ho, hp, hr⟩ | hr
  · have he : Evolves db.registry r := (ho.evolves hs).trans hs hp.evolves
    have hready : Ready key.pack key.scope { db with registry := r } :=
      h.ready he (hp.owners.trans ho.owners) (hp.tags.trans ho.tags) ho.tag hp.heads
    have hkeeps : KeepsShelves db _ := hready.register (fun _ hid => hid.mono he) none
    exact after_bind_ok (P := KeepsShelves db) hr (Keeps.bind_from (R := KeepsShelves) hkeeps
      fun index => (hindex key.pack index).discard.bind fun _ => Keeps.pure key.pack) h
  · exact after_bind_error (P := KeepsShelves db) hr (refl_of KeepsShelves db) h

/-- The scopes stay on their pools, if the record of a handle can own a scope. -/
def KeepsShelvesOf (id : ObjectId) (db db' : Database) : Prop :=
  db.registry.Heads id → KeepsShelves db db'

instance (id : ObjectId) : IsPreorder Database (KeepsShelvesOf id) where
  refl db _ := refl_of KeepsShelves db
  trans _ _ _ h h' hid hs :=
    have hk := h hid hs
    have hk' := h' (hk.2 id hid) hk.1
    ⟨hk'.1, fun j hj => hk'.2 j (hk.2 j hj)⟩

theorem KeepsShelves.of {x : EStateM ε Database α} (h : Keeps KeepsShelves x) (id : ObjectId) :
    Keeps (KeepsShelvesOf id) x :=
  fun db _ => h db

theorem keepsShelves_openNested (parent : ObjectId) : Keeps KeepsShelves (openNested parent) := by
  have hp := keepsShelves_piecewise
  have hall (u : Pool.Use) (_ : u.Discreet) : True := trivial
  refine (Session.keeps_read _).bind fun around => ?_
  cases around with
  | none => exact Keeps.throw _
  | some around =>
    have hrole (id : ObjectId) : Keeps KeepsShelves
        (updateBody .cell id fun c => { (c : Cell) with role := .hier } : Edit _) :=
      hp.updateBody hall .cell id _
    have hlist (id : ObjectId) (index : ObjectIndex) : Keeps KeepsShelves (do
        discard <| onScopeWhere (·.owner = around)
          (modify fun p => { p with children := p.children ++ [id] })
        updateCell id fun c => { c with hierIndex := index }
        return id : Edit ObjectId) :=
      (hp.onScopeWhere _ fun _ => rfl).discard.bind fun _ =>
        (hp.updateCell hall id _).bind fun _ => Keeps.pure id
    -- the pool is added and its scope listed in one go, since in between it has no scope
    have hopen (id : ObjectId) : Keeps (KeepsShelvesOf id) (do
        let tag ← tryCatch (Edit.placing .cell (onRegistry Registry.createPool)) fun e => do
          discard <| destroy id
          throw e
        let index ← register id tag (some around)
        discard <| onScopeWhere (·.owner = around)
          (modify fun p => { p with children := p.children ++ [id] })
        updateCell id fun c => { c with hierIndex := index }
        return id : Edit ObjectId) := by
      intro db hid h
      have hs := h.orderly.sound
      rcases createPool_cases hs .cell with ⟨tag, ho, hr⟩ | ⟨e, hr⟩
      · have he := ho.evolves hs
        have hready := h.ready he ho.owners ho.tags ho.tag (hid.mono he)
        have hkeeps : KeepsShelves db _ := hready.register (fun _ hj => hj.mono he) (some around)
        exact after_bind_ok (P := KeepsShelves db) (by rw [tryCatch_apply, hr])
          (Keeps.bind_from (R := KeepsShelves) hkeeps (hlist id)) h
      · obtain ⟨e', he'⟩ : ∃ e', (do discard <| destroy id; throw e : Edit ScopeTag) db =
            .error e' (after (destroy id : Edit Bool) db) := by
          simp only [after, bind_apply, discard_apply]
          cases (destroy id : Edit Bool) db <;> exact ⟨_, rfl⟩
        exact after_bind_error (P := KeepsShelves db) (by rw [tryCatch_apply, hr]; exact he')
          (hp.destroy id db) h
    intro db h
    rcases create_cases h.orderly.sound .cell .cell parent with
      ⟨e, hr⟩ | ⟨_, _, key, r, r', _, _, _, _, hplaces, ht, hr⟩
    · exact after_bind_error (P := KeepsShelves db) hr (refl_of KeepsShelves db) h
    · have htouched : KeepsShelves { db with registry := r } { db with registry := r' } :=
        .of_touches ht
      have hplaced : KeepsShelves db { db with registry := r' } :=
        trans_of KeepsShelves (.of_places hplaces) htouched
      have hhead : r'.Heads key.pack := (hplaces.heads (a := .topCell)).mono ht.evolves
      have hrest := (KeepsShelves.of (hrole key.pack) key.pack).discard.bind fun _ => hopen key.pack
      exact after_bind_ok (P := KeepsShelves db) hr (trans_of KeepsShelves hplaced (hrest _ hhead)) h

/-- Whatever is done with a new database, the pools of its open scopes are there, in the order in
which the scopes were opened, and its scopes are owned by records of a kind that can own one. -/
theorem shelved_run {c : StoreConfig} {start : Database} (h : Database.new c = .ok start)
    (cmds : List Command) : (Database.run cmds start).Shelved := by
  obtain ⟨hc, rfl⟩ := new_eq_ok h
  exact (keepsShelves_piecewise.run (fun _ _ => trivial) keepsShelves_openScope
    keepsShelves_openNested (fun c _ => c.writes_all) _ (shelved_empty hc)).1

end Database
end DesignStore
