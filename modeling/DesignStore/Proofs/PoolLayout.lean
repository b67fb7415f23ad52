/-
The layout of all pools of a database.

The arenas of a pool have the layout of the pool, which is that of the database, and their pages
are filled one after the other (`Laid`).  Only placing records changes the pages.  Together with
what all registries keep, that owners are bound to pools that are there, this holds in every
state that a new database comes to (`laid_run`).
-/
import DesignStore.Proofs.Layout
import DesignStore.Proofs.Partwise
import DesignStore.Proofs.Routing

namespace DesignStore

variable {ε α : Type} {c : PoolConfig}

/-! ## Arenas of any kind -/

namespace BoundArena

/-- The arena has a layout, and fills its pages one after the other. -/
def Laid (c : PoolConfig) (b : BoundArena) : Prop :=
  b.arena.config = c ∧ b.arena.Packed

theorem Laid.congr {kind : RecordKind} {a b : Arena kind.Body} (h : Laid c ⟨kind, a⟩)
    (hs : Arena.SamePages a b) : Laid c ⟨kind, b⟩ :=
  ⟨hs.config.trans h.1, h.2.congr hs⟩

theorem laid_update {b : BoundArena} (h : b.Laid c) (k : RecordKind) (key : SlotKey)
    (f : Record k.Body → Record k.Body) :
    (after (update k key f : EStateM (Failure ε) BoundArena _) b).Laid c := by
  obtain ⟨kind, a⟩ := b
  by_cases hkind : kind = k
  · subst hkind
    rw [after_update_self]
    exact h.congr (Arena.samePages_update key f a)
  · rwa [after_update_other hkind]

theorem laid_modifyHeader {b : BoundArena} (h : b.Laid c) (key : SlotKey) (f : Header → Header) :
    (b.modifyHeader key f).Laid c :=
  h.congr (Arena.samePages_modifyHeader key f b.arena)

theorem laid_free {b : BoundArena} (h : b.Laid c) (key : SlotKey) :
    (after (free key : EStateM ε BoundArena Bool) b).Laid c := by
  obtain ⟨kind, a⟩ := b
  have hs := Arena.samePages_free (ε := ε) key a
  simp only [after, free] at hs ⊢
  cases hr : (Arena.free key : EStateM ε _ Bool) a <;> rw [hr] at hs <;> exact h.congr hs

theorem laid_allocate {b : BoundArena} (h : b.Laid c) (hs : b.arena.Sound) (k : RecordKind) :
    (after (allocate k) b).Laid c := by
  obtain ⟨kind, a⟩ := b
  by_cases hk : kind = k
  · rcases Arena.allocate_packed hs h.2 with ⟨key, b, hr, _, _, hb, hconfig, _⟩ | ⟨_, _, hr⟩
    · simp only [after, allocate, if_pos hk, hr]
      exact ⟨hconfig.trans h.1, hb⟩
    · simpa only [after, allocate, if_pos hk, hr] using h
  · simpa only [after, allocate, if_neg hk] using h

end BoundArena

/-! ## Pools -/

namespace Pool

variable {p : Pool} {id : ObjectId} {key : SlotKey}

/-- All arenas have the layout of the pool. -/
structure Laid (c : PoolConfig) (p : Pool) : Prop where
  config : p.config = c
  arena : ∀ b ∈ p.arenas, b.Laid c

theorem laid_empty (scope : ScopeTag) (c : PoolConfig) : (empty scope c).Laid c where
  config := rfl
  arena := by simp [empty]

theorem laid_onArena (h : p.Laid c) {x : EStateM ε BoundArena α}
    (hx : ∀ b, b.Laid c → (after x b).Laid c) : (after (onArena key x) p).Laid c := by
  rw [after_onArena]
  exact ⟨h.config, forall_after_onFirst (fun b _ => hx b) h.arena⟩

theorem laid_update (h : p.Laid c) (k : RecordKind) (id : ObjectId)
    (f : Record k.Body → Record k.Body) :
    (after (update k id f : EStateM (Failure ε) Pool _) p).Laid c := by
  cases hkey : p.key? id with
  | none => rwa [after_ok (update_of_no_key hkey k f)]
  | some key =>
    rw [after_update hkey]
    exact laid_onArena h fun b hb => BoundArena.laid_update hb k key f

theorem laid_modifyHeader (h : p.Laid c) (id : ObjectId) (f : Header → Header) :
    (after (modifyHeader id f : EStateM ε Pool _) p).Laid c := by
  cases hkey : p.key? id with
  | none => rwa [after_ok (modifyHeader_of_no_key hkey f)]
  | some key =>
    cases hh : p.header? id with
    | none => rwa [after_ok (modifyHeader_of_not_live hh f)]
    | some hd =>
      rw [after_modifyHeader hkey hh]
      exact laid_onArena h fun b hb => BoundArena.laid_modifyHeader hb key f

theorem laid_editHeader (h : p.Laid c) (id : ObjectId) (e : HeaderEdit) :
    (after (editHeader id e : EStateM (Failure ε) Pool _) p).Laid c := by
  rcases after_editHeader (ε := ε) id e p with hr | ⟨_, hd', _, _, hr⟩ <;> rw [hr]
  · exact h
  · exact laid_modifyHeader h id fun _ => hd'

theorem laid_free (h : p.Laid c) (id : ObjectId) :
    (after (free id : EStateM ε Pool Bool) p).Laid c := by
  cases hkey : p.key? id with
  | none => rwa [after_ok (free_of_no_key hkey)]
  | some key =>
    rw [after_free hkey]
    exact laid_onArena h fun b hb => BoundArena.laid_free hb key

theorem laid_allocate (h : p.Laid c) (hs : p.Sound) (k : RecordKind) (t : ObjectType) :
    (after (allocate k t) p).Laid c := by
  refine ⟨(follows_allocate hs k t).config.trans h.config, ?_⟩
  rw [arenas_after_allocate]
  refine forall_after_onFirstOr ?_ (fun b hb hl => ?_) h.arena
  · exact BoundArena.laid_allocate (b := ⟨k, _⟩)
      ⟨h.config, Arena.packed_empty p.scope t p.config⟩ (Arena.sound_empty p.scope t hs.config) k
  · exact BoundArena.laid_allocate hl (hs.arena b (List.mem_of_find?_eq_some hb)) k

end Pool

/-! ## Registries -/

namespace Registry

variable {r r' : Registry} {id : ObjectId}

theorem Orderly.passed (h : r.Orderly) (hp : Passes r r') : r'.Orderly :=
  -- what was passed on does not matter
  h.step (q := .inPool (.issuer .null) (.use .null .free)) (.passed hp)

theorem Touches.passes {ch : Change} (h : Touches id ch r r') : Passes r r' :=
  ⟨h.config, h.issued, h.owners, h.sound, h.tags⟩

/-- All pools have the layout of the registry. -/
structure Laid (r : Registry) : Prop extends Orderly r where
  pool : ∀ p ∈ r.pools, p.Laid r.config

theorem laid_empty (h : c.Valid) : (empty c).Laid where
  toOrderly := orderly_empty h
  pool := by simp [empty]

namespace Laid

variable {s : ScopeTag} {x : EStateM ε Pool α}

theorem onPool (h : r.Laid) (hp : Passes r (after (onPool s x) r))
    (hx : ∀ p, p.Sound → p.Laid r.config → (after x p).Laid r.config) :
    (after (Registry.onPool s x) r).Laid where
  toOrderly := h.passed hp
  pool := by
    rw [hp.config, after_onPool]
    exact forall_after_onFirst
      (fun p hfind hl => hx p (h.sound.pool p (List.mem_of_find?_eq_some hfind)) hl) h.pool

theorem route (h : r.Laid) (route : Route) (hp : Passes r (after (route.run x) r))
    (hx : ∀ p, p.Sound → p.Laid r.config → (after x p).Laid r.config) :
    (after (route.run x) r).Laid := by
  cases hs : route.scope? r with
  | none => rwa [after_ok (Route.run_of_none hs x)]
  | some s =>
    have hr : after (route.run x) r = after (Registry.onPool s x) r := by
      simp only [after, Route.run_of_scope hs]
    rw [hr] at hp ⊢
    exact h.onPool hp hx

theorem update (h : r.Laid) (k : RecordKind) (id : ObjectId) (f : Record k.Body → Record k.Body) :
    (after (onIssuer id (Pool.update (ε := ε) k id f)) r).Laid :=
  h.route (.issuer id) (touches_update h.sound k id f).passes
    fun _ _ hl => Pool.laid_update hl k id f

theorem modifyHeader (h : r.Laid) (id : ObjectId) (f : Header → Header) :
    (after (onIssuer id (Pool.modifyHeader (ε := ε) id f)) r).Laid :=
  h.route (.issuer id) (touches_modifyHeader h.sound id f).passes
    fun _ _ hl => Pool.laid_modifyHeader hl id f

theorem editHeader (h : r.Laid) (id : ObjectId) (e : HeaderEdit) :
    (after (onIssuer id (Pool.editHeader (ε := ε) id e)) r).Laid :=
  h.route (.issuer id) (touches_editHeader h.sound id e).passes
    fun _ _ hl => Pool.laid_editHeader hl id e

theorem free (h : r.Laid) (id : ObjectId) :
    (after (onIssuer id (Pool.free (ε := ε) id)) r).Laid :=
  h.route (.issuer id) (touches_free h.sound id).passes
    fun _ _ hl => Pool.laid_free hl id

/-- A record is placed, however a refusal is then reported. -/
theorem place (h : r.Laid) (route : Route) (k : RecordKind) (t : ObjectType)
    {x : EStateM ε Pool ObjectId} (hx : ∀ p, after x p = after (Pool.allocate k t) p) :
    (after (route.run x) r).Laid := by
  refine h.route route (passes_route h.sound route fun p hp => ?_) fun p hp hl => ?_
  · rw [hx]
    exact Pool.follows_allocate hp k t
  · rw [hx]
    exact Pool.laid_allocate hl hp k t

theorem opened (h : r.Laid) (hs : r.nextScope? = some s) : (r.opened s).Laid where
  toOrderly := h.step (.opened hs (nextScope?_spec h.sound hs))
  pool := List.forall_mem_cons.2 ⟨Pool.laid_empty s r.config, h.pool⟩

theorem createPool (h : r.Laid) : (after Registry.createPool r).Laid := by
  cases hs : r.nextScope? with
  | none => rwa [after_error (createPool_of_exhausted hs)]
  | some s =>
    rw [after_ok (createPool_of_next h.sound hs).1]
    exact h.opened hs

/-- The first record is placed in the pool that was added, which is the first of the list. -/
theorem found (h : r.Laid) (k : RecordKind) (t : ObjectType) :
    (after (createPoolWith (Pool.allocate k t)) r).Laid := by
  cases hs : r.nextScope? with
  | none => rwa [after_error (createPoolWith_of_exhausted hs _)]
  | some s =>
    have hempty : (Pool.empty s r.config).Sound := Pool.sound_empty s h.sound.config
    obtain ⟨key, p, hp, _⟩ := Pool.allocate_of_new (t := t) hempty k rfl
    have hr : after (createPoolWith (Pool.allocate k t)) r =
        after (Route.run (Pool.allocate k t) (.tag s)) (r.opened s) := by
      have hscope : decide ((Pool.empty s r.config).scope = s) = true := decide_eq_true rfl
      rw [after_ok (createPoolWith_of_ok hs hp)]
      simp only [after, hp, Route.run, onPool_eq, Registry.opened, onFirst, if_pos hscope]
    rw [hr]
    exact (h.opened hs).place (.tag s) k t fun _ => rfl

theorem bindOwner (h : r.Laid) (owner : ObjectId) (s : ScopeTag) :
    (after (Registry.bindOwner (ε := ε) owner s) r).Laid := by
  by_cases hp : (r.pool? s).isSome = true ∧ ¬ owner.isNull = true
  · rw [after_ok (bindOwner_of_pool hp)]
    exact ⟨h.step (.bound hp), h.pool⟩
  · rwa [after_ok (bindOwner_of_not hp)]

theorem removePool (h : r.Laid) (s : ScopeTag) : (after (Registry.removePool s) r).Laid := by
  cases hp : r.pool? s with
  | none => rwa [after_error (removePool_of_none hp)]
  | some p =>
    rw [after_ok (removePool_of_some hp)]
    exact ⟨h.step (.dropped (drops_less h.sound s)), fun p hp => h.pool p (List.mem_filter.1 hp).1⟩

theorem clear (h : r.Laid) : r.clear.Laid where
  toOrderly := h.step .cleared
  pool := by simp [Registry.clear]

end Laid
end Registry

/-! ## Databases -/

namespace Database

open Registry

variable {db : Database}

/-- All pools keep the layout of the database. -/
def KeepsLayout (db db' : Database) : Prop :=
  db.registry.Laid → db'.registry.Laid

instance : IsPreorder Database KeepsLayout :=
  inferInstanceAs (IsPreorder Database (KeepsRegistry Registry.Laid))

theorem keepsLayout_stepwise : Stepwise (fun _ => True) KeepsLayout where
  update k id f _ := (keepsRegistry_onRegistry fun _ h => h.update k id f).map _
  modifyHeader id f _ := (keepsRegistry_onRegistry fun _ h => h.modifyHeader id f).map _
  editHeader id e _ := (keepsRegistry_onRegistry fun _ h => h.editHeader id e).map _
  free id := keepsRegistry_onRegistry fun _ h => h.free id
  place root k t := keepsRegistry_onRegistry fun _ h =>
    h.place (.owner root) k t (after_placing t (Pool.allocate k t))
  found a := keepsRegistry_placing a.type fun _ h => h.found a.kind a.type
  addPool t := keepsRegistry_placing t fun _ h => h.createPool
  bindOwner owner tag := keepsRegistry_onRegistry fun _ h => h.bindOwner owner tag
  insert _ := keepsRegistry_onHierarchy _
  delete _ := keepsRegistry_onHierarchy _
  putBack _ _ := keepsRegistry_onHierarchy _
  active _ _ _ h := h
  scopes _ _ h := h
  closeScope := keepsRegistry_closeScope fun _ t h => h.removePool t
  reset _ h := h.clear

/-- Whatever is done with a new database, its pools have its layout, and its scope owners are bound
to pools that are there. -/
theorem laid_run {c : StoreConfig} {start : Database} (h : Database.new c = .ok start)
    (cmds : List Command) : (Database.run cmds start).registry.Laid := by
  obtain ⟨hc, rfl⟩ := new_eq_ok h
  exact keepsLayout_stepwise.run (fun _ _ => trivial) (fun c _ => c.writes_all) _ (laid_empty hc)

end Database
end DesignStore
