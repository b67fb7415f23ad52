/-
Where a registry finds its pools.

A history is a list of requests, each carried out on the registry that the one before left.
Tags are handed out in rising order and each at most once, so the pools that are left are
listed in the order in which they were created, and a handle leads to the pool that issued it
until that is dropped and to none ever after.  An owner that is bound is bound to a pool that
is left: a pool takes its owners with it.  All of this is `Routes`, which holds after every
history (`routes_run`).

The registry is `Orderly` throughout, which is kept by every `Step`.  What is left after a
history follows from what one step leaves of the tags (`Step.mem_tags`) and of the owners
(`Step.scopeOf?`).
-/
import DesignStore.Proofs.Positions
import DesignStore.Proofs.Requests

namespace DesignStore

namespace Registry

variable {r r' : Registry} {q : Request} {s : ScopeTag} {o : ObjectId}

/-- What is kept in every history.  The pools are listed the newest first, and owners are
bound to pools that are there. -/
structure Orderly (r : Registry) : Prop where
  sound : r.Sound
  newest : r.tags.Pairwise fun s t => t.toNat < s.toNat
  keys : r.owners.keys.Nodup
  bound : ∀ o s, r.scopeOf? o = some s → s ∈ r.tags

theorem orderly_empty {c : PoolConfig} (h : c.Valid) : (empty c).Orderly where
  sound := sound_empty h
  newest := List.Pairwise.nil
  keys := List.nodup_nil
  bound := by simp [empty, scopeOf?, Assoc.get?]

theorem Sound.mem_tags (h : r.Sound) (hs : s ∈ r.tags) : s.val ≠ 0 ∧ s.toNat ≤ r.issued := by
  obtain ⟨p, hp, rfl⟩ := List.mem_map.1 hs
  exact h.tag p hp

theorem pool?_eq_none_iff : r.pool? s = none ↔ s ∉ r.tags := by
  rw [← isSome_pool?_iff, Option.not_isSome_iff_eq_none]

theorem lt_of_nextScope? (hs : r.nextScope? = some s) : r.issued < maxScopes := by
  by_contra hn
  rw [nextScope?_eq_none_iff.2 hn] at hs
  contradiction

/-! ## What a step leaves -/

namespace Step

theorem sound (hr : r.Sound) (h : Step q r r') : r'.Sound := by
  cases h with
  | opened _ opens => exact opens.sound
  | exhausted => exact hr
  | bound => exact ⟨hr.config, hr.issued_le, hr.pool, hr.tag⟩
  | unbound => exact hr
  | dropped drops => exact drops.sound
  | unknown => exact hr
  | cleared => exact ⟨hr.config, hr.issued_le, by simp [clear], by simp [clear]⟩
  | passed passes => exact passes.sound

/-- A tag is spent by every pool that is created, while there is one. -/
theorem issued (hr : r.Sound) (h : Step q r r') :
    r'.issued = min (r.issued + if q.isCreate = true then 1 else 0) maxScopes := by
  have hle : r.issued ≤ 65535 := hr.issued_le
  have hsame : r.issued = min (r.issued + 0) maxScopes := by
    show r.issued = min (r.issued + 0) 65535
    omega
  cases h with
  | opened next opens =>
    rw [opens.issued, Request.isCreate, if_pos rfl, Nat.min_eq_left (lt_of_nextScope? next)]
  | exhausted next =>
    have hlt : ¬ r.issued < 65535 := nextScope?_eq_none_iff.1 next
    show r.issued = min (r.issued + 1) 65535
    omega
  | bound => exact hsame
  | unbound => exact hsame
  | dropped drops =>
    rw [drops.issued]
    exact hsame
  | unknown => exact hsame
  | cleared => exact hsame
  | passed passes =>
    rw [passes.issued]
    exact hsame

/-- A pool is there after a request if it was there and is not dropped, or is new. -/
theorem mem_tags (h : Step q r r') : s ∈ r'.tags ↔
    (q = .createPool ∧ r.nextScope? = some s) ∨ (s ∈ r.tags ∧ ¬ q.Drops s) := by
  cases h with
  | opened next opens =>
    rw [opens.tags, List.mem_cons, next, Option.some.injEq, eq_comm]
    simp [Request.Drops]
  | exhausted next => simp [next, Request.Drops]
  | bound => simp [Request.Drops, tags]
  | unbound => simp [Request.Drops]
  | dropped drops =>
    rw [drops.tags, List.mem_filter]
    simp [Request.Drops]
  | unknown none =>
    rw [pool?_eq_none_iff] at none
    simp only [reduceCtorEq, false_and, false_or, Request.Drops]
    exact ⟨fun hs => ⟨hs, fun e => none (e ▸ hs)⟩, fun hs => hs.1⟩
  | cleared => simp [Request.Drops, clear, tags]
  | passed passes =>
    rw [passes.tags]
    simp [Request.Drops]

theorem not_binds {t : ScopeTag} (hq : ∀ o s, q ≠ .bindOwner o s) : ¬ q.Binds r o t :=
  fun h => hq o t h.1

/-- An owner is bound after a request as it is bound by it, or as it was before if the pool
is not dropped. -/
theorem scopeOf? (hr : r.Orderly) (h : Step q r r') : r'.scopeOf? o = some s ↔
    q.Binds r o s ∨ (r.scopeOf? o = some s ∧ ¬ q.Drops s ∧ ∀ t, ¬ q.Binds r o t) := by
  have hstays (howners : r'.owners = r.owners) (hdrops : ¬ q.Drops s)
      (hq : ∀ o s, q ≠ .bindOwner o s) : r'.scopeOf? o = some s ↔
        q.Binds r o s ∨ (r.scopeOf? o = some s ∧ ¬ q.Drops s ∧ ∀ t, ¬ q.Binds r o t) := by
    have hn (t : ScopeTag) : ¬ q.Binds r o t := not_binds hq
    simp [Registry.scopeOf?, howners, hdrops, hn]
  cases h with
  | opened _ opens => exact hstays opens.owners (by simp [Request.Drops]) (by simp)
  | exhausted => exact hstays rfl (by simp [Request.Drops]) (by simp)
  | @bound _ owner scope pool =>
    have hbinds (t : ScopeTag) :
        (Request.bindOwner owner scope).Binds r o t ↔ owner = o ∧ scope = t := by
      constructor
      · rintro ⟨hq, _⟩
        simpa using hq
      · rintro ⟨rfl, rfl⟩
        exact ⟨rfl, _, bindOwner_of_pool pool⟩
    have hget : Registry.scopeOf? { r with owners := r.owners.insert owner scope } o =
        if o = owner then some scope else r.scopeOf? o := Assoc.get?_insert r.owners owner o scope
    rw [hget]
    simp only [hbinds]
    by_cases ho : o = owner
    · simp [ho]
    · simp [ho, Ne.symm ho, Request.Drops]
  | @unbound _ owner scope none =>
    have hn (t : ScopeTag) : ¬ (Request.bindOwner owner scope).Binds r o t := by
      rintro ⟨hq, r', hr⟩
      cases hq
      rw [bindOwner_of_not none] at hr
      cases hr
    simp [hn, Request.Drops]
  | @dropped _ _ scope drops =>
    have hn (t : ScopeTag) : ¬ (Request.removePool scope).Binds r o t := not_binds (by simp)
    rw [Registry.scopeOf?, drops.owners, Assoc.get?_filter_iff hr.keys]
    simp [hn, Request.Drops, Registry.scopeOf?]
  | @unknown _ scope none =>
    have hn (t : ScopeTag) : ¬ (Request.removePool scope).Binds r o t := not_binds (by simp)
    have hne (ho : r.scopeOf? o = some s) : s ≠ scope := by
      rintro rfl
      exact pool?_eq_none_iff.1 none (hr.bound o s ho)
    simp only [hn, Request.Drops, false_or, not_false_eq_true, implies_true, and_true]
    exact ⟨fun ho => ⟨ho, hne ho⟩, fun ho => ho.1⟩
  | cleared =>
    have hn (t : ScopeTag) : ¬ Request.clear.Binds r o t := not_binds (by simp)
    simp [hn, Request.Drops, Registry.scopeOf?, clear, Assoc.get?]
  | passed passes => exact hstays passes.owners (by simp [Request.Drops]) (by simp)

end Step

theorem Orderly.step (hr : r.Orderly) (h : Step q r r') : r'.Orderly := by
  refine ⟨h.sound hr.sound, ?_, ?_, fun o s ho => ?_⟩
  · cases h with
    | opened _ opens =>
      rw [opens.tags, List.pairwise_cons]
      refine ⟨fun t ht => ?_, hr.newest⟩
      rw [opens.tag]
      exact Nat.lt_succ_of_le (hr.sound.mem_tags ht).2
    | dropped drops =>
      rw [drops.tags]
      exact hr.newest.filter _
    | cleared => exact List.Pairwise.nil
    | passed passes =>
      rw [passes.tags]
      exact hr.newest
    | _ => exact hr.newest
  · cases h with
    | opened _ opens =>
      rw [opens.owners]
      exact hr.keys
    | bound => exact Assoc.nodup_keys_insert hr.keys _ _
    | dropped drops =>
      rw [drops.owners]
      exact Assoc.nodup_keys_filter hr.keys _
    | cleared => exact List.nodup_nil
    | passed passes =>
      rw [passes.owners]
      exact hr.keys
    | _ => exact hr.keys
  · rw [h.mem_tags]
    rcases (h.scopeOf? hr).1 ho with ⟨hq, r'', hbind⟩ | ⟨ho, hdrops, _⟩
    · subst hq
      refine Or.inr ⟨?_, by simp [Request.Drops]⟩
      by_cases hp : (r.pool? s).isSome = true ∧ ¬ o.isNull = true
      · exact isSome_pool?_iff.1 hp.1
      · rw [bindOwner_of_not hp] at hbind
        cases hbind
    · exact Or.inr ⟨hr.bound o s ho, hdrops⟩

theorem Orderly.run (hr : r.Orderly) (l : List Request) : (run l r).Orderly := by
  induction l generalizing r with
  | nil => exact hr
  | cons q l ih => exact ih (hr.step (step_perform hr.sound q))

/-! ## What a history leaves -/

theorem issued_run (hr : r.Orderly) (l : List Request) :
    (run l r).issued = min (r.issued + l.countP (·.isCreate)) maxScopes := by
  induction l generalizing r with
  | nil => exact (Nat.min_eq_left hr.sound.issued_le).symm
  | cons q l ih =>
    have hq := step_perform hr.sound q
    have hissued := hq.issued hr.sound
    rw [run, List.foldl_cons]
    refine (ih (hr.step hq)).trans ?_
    rw [hissued, List.countP_cons]
    show min (min _ 65535 + _) 65535 = min _ 65535
    omega

/-- A pool is there after a history if it was there, or was created, and was not dropped
since. -/
theorem mem_tags_run (hr : r.Orderly) (l : List Request) : s ∈ (run l r).tags ↔
    (s ∈ r.tags ∧ ∀ q ∈ l, ¬ q.Drops s) ∨
      ∃ before later, l = before ++ .createPool :: later ∧
        (run before r).nextScope? = some s ∧ ∀ q ∈ later, ¬ q.Drops s := by
  induction l generalizing r with
  | nil => simp [run]
  | cons q l ih =>
    have hq := step_perform hr.sound q
    have hrun : run (q :: l) r = run l (after q.perform r) := rfl
    rw [hrun, ih (hr.step hq), hq.mem_tags]
    constructor
    · rintro (⟨⟨rfl, hs⟩ | ⟨hs, hdrops⟩, hl⟩ | ⟨before, later, rfl, hs, hlater⟩)
      · exact Or.inr ⟨[], l, rfl, hs, hl⟩
      · exact Or.inl ⟨hs, List.forall_mem_cons.2 ⟨hdrops, hl⟩⟩
      · exact Or.inr ⟨q :: before, later, rfl, hs, hlater⟩
    · rintro (⟨hs, hl⟩ | ⟨before, later, hl, hs, hlater⟩)
      · obtain ⟨hdrops, hl⟩ := List.forall_mem_cons.1 hl
        exact Or.inl ⟨Or.inr ⟨hs, hdrops⟩, hl⟩
      · cases before with
        | nil =>
          obtain ⟨rfl, rfl⟩ := List.cons.inj hl
          exact Or.inl ⟨Or.inl ⟨rfl, hs⟩, hlater⟩
        | cons q' before =>
          obtain ⟨rfl, rfl⟩ := List.cons.inj hl
          exact Or.inr ⟨before, later, rfl, hs, hlater⟩

/-- A pool that was created is there until it is dropped, and its tag is not given to
another. -/
theorem mem_tags_run_of_issued (hr : r.Orderly) (l : List Request) (hs : s.toNat ≤ r.issued) :
    s ∈ (run l r).tags ↔ s ∈ r.tags ∧ ∀ q ∈ l, ¬ q.Drops s := by
  rw [mem_tags_run hr l, or_iff_left]
  rintro ⟨before, later, _, hnext, _⟩
  have hb := hr.run before
  have htag := (createPool_of_next hb.sound hnext).2.tag
  have hle : r.issued ≤ 65535 := hr.sound.issued_le
  have hissued : (run before r).issued = min (r.issued + before.countP (·.isCreate)) 65535 :=
    issued_run hr before
  omega

/-- No request of a history binds the owner. -/
def Unbound (o : ObjectId) : Registry → List Request → Prop
  | _, [] => True
  | r, q :: l => (∀ s, ¬ q.Binds r o s) ∧ Unbound o (after q.perform r) l

/-- An owner that is not bound again stays bound until the pool is dropped. -/
theorem scopeOf?_run (hr : r.Orderly) {l : List Request} (hl : Unbound o r l) :
    (run l r).scopeOf? o = some s ↔ r.scopeOf? o = some s ∧ ∀ q ∈ l, ¬ q.Drops s := by
  induction l generalizing r with
  | nil => simp [run]
  | cons q l ih =>
    obtain ⟨hq, hl⟩ := hl
    have hstep := step_perform hr.sound q
    have hrun : run (q :: l) r = run l (after q.perform r) := rfl
    rw [hrun, ih (hr.step hstep) hl, hstep.scopeOf? hr, List.forall_mem_cons]
    simp only [hq, false_or, not_false_eq_true, implies_true, and_true, and_assoc]

theorem new_eq_ok {c : PoolConfig} (h : Registry.new c = .ok r) : c.Valid ∧ r = empty c := by
  unfold Registry.new PoolConfig.validate at h
  cases hf : c.flaw? with
  | some flaw => simp [hf] at h
  | none =>
    simp only [hf, Except.ok.injEq] at h
    exact ⟨hf, h.symm⟩

/-- A handle that a pool gave out leads to the pool. -/
theorem minted_spec (hr : r.Sound) {route : Route} {k : RecordKind} {t : ObjectType}
    {id : ObjectId} (hs : route.scope? r = some s)
    (h : route.run (Pool.allocate k t) r = .ok (some id) r') :
    s ∈ r.tags ∧ ScopeTag.of? id = some s := by
  rw [Route.run_of_scope hs] at h
  rcases place_spec hr s k t (x := Pool.allocate k t) (f := fun e => e)
    (fun p => by cases Pool.allocate k t p <;> rfl) with hn | ⟨key, r'', hok, rfl, _, hp⟩ | ⟨e, he⟩
  · rw [hn] at h
    cases h
  · rw [hok] at h
    cases h
    exact ⟨isSome_pool?_iff.1 hp.key_pool, SlotKey.of?_pack hp.key_scope⟩
  · rw [he] at h
    cases h

/-- What holds after the history `l` of a registry that was `start`. -/
structure Routes (start : Registry) (l : List Request) : Prop where
  /-- The next pool has the tag after those of all pools that were created so far. -/
  create : l.countP (·.isCreate) < 65535 → ∃ tag r',
    createPool (run l start) = .ok tag r' ∧ tag.toNat = l.countP (·.isCreate) + 1
  exhausted : 65535 ≤ l.countP (·.isCreate) →
    createPool (run l start) = .error (.refused .scopesExhausted) (run l start)
  stored : ∀ s p, (run l start).pool? s = some p → p.scope = s ∧ p ∈ (run l start).inOrder
  listed : ∀ p ∈ (run l start).inOrder, (run l start).pool? p.scope = some p
  ordered : (run l start).inOrder.Pairwise fun p p' => p.scope.toNat < p'.scope.toNat
  /-- A pool is left if it was created and was not dropped since. -/
  left : ∀ s, ((run l start).pool? s).isSome = true ↔ ∃ before later r',
    l = before ++ .createPool :: later ∧ createPool (run before start) = .ok s r' ∧
      ∀ q ∈ later, ¬ q.Drops s
  /-- A handle leads to the pool that gave it out, until that is dropped. -/
  minted : ∀ before route k t later s id r',
    l = before ++ .inPool route (.allocate k t) :: later →
    route.scope? (run before start) = some s →
    route.run (Pool.allocate k t) (run before start) = .ok (some id) r' →
    (run l start).lookup? id = (run l start).pool? s ∧
      ((run l start).pool? s = none ↔ ∃ q ∈ later, q.Drops s)
  bound : ∀ o s, (run l start).scopeOf? o = some s →
    ∃ p, (run l start).pool? s = some p ∧ (run l start).poolOf? o = some p
  owners : ∀ o, ((run l start).poolOf? o).isSome = (run l start).isScopeOwner o
  /-- An owner is bound as it was bound last, until the pool is dropped. -/
  last : ∀ before q later o s, l = before ++ q :: later → q.Binds (run before start) o s →
    Unbound o (run (before ++ [q]) start) later →
    ∀ t, (run l start).scopeOf? o = some t ↔ t = s ∧ ∀ q ∈ later, ¬ q.Drops s
  never : ∀ o, Unbound o start l → (run l start).scopeOf? o = none
  bind_refused : ∀ o s r',
    bindOwner (ε := Failure PoolError) o s (run l start) = .ok false r' → r' = run l start
  remove_refused : ∀ s e r', removePool s (run l start) = .error e r' → r' = run l start

theorem Orderly.stored (hr : r.Orderly) {p : Pool} (hp : r.pool? s = some p) :
    p.scope = s ∧ p ∈ r.inOrder :=
  ⟨(hr.sound.of_pool? hp).2.1, List.mem_reverse.2 (List.mem_of_find?_eq_some hp)⟩

theorem Orderly.ordered (hr : r.Orderly) :
    r.inOrder.Pairwise fun p p' => p.scope.toNat < p'.scope.toNat :=
  List.pairwise_reverse.2 (List.pairwise_map.1 hr.newest)

/-- No two pools have a tag in common, so the one that is found is the one that is listed. -/
theorem Orderly.listed (hr : r.Orderly) {p : Pool} (hp : p ∈ r.inOrder) :
    r.pool? p.scope = some p := by
  have hmem : p ∈ r.pools := List.mem_reverse.1 hp
  obtain ⟨p', hp'⟩ := Option.isSome_iff_exists.1
    (isSome_pool?_iff.2 (List.mem_map_of_mem hmem) : (r.pool? p.scope).isSome = true)
  have hnodup : (r.pools.map (·.scope)).Nodup := hr.newest.imp fun h e => by
    rw [e] at h
    exact Nat.lt_irrefl _ h
  have hscope : p'.scope = p.scope := (hr.stored hp').1
  rw [hp', List.inj_on_of_nodup_map hnodup (List.mem_of_find?_eq_some hp') hmem hscope]

theorem Orderly.bound_pool (hr : r.Orderly) (hs : r.scopeOf? o = some s) :
    ∃ p, r.pool? s = some p ∧ r.poolOf? o = some p := by
  obtain ⟨p, hp⟩ := Option.isSome_iff_exists.1 (isSome_pool?_iff.2 (hr.bound o s hs))
  exact ⟨p, hp, by simp [poolOf?, hs, hp]⟩

theorem Orderly.isSome_poolOf? (hr : r.Orderly) (o : ObjectId) :
    (r.poolOf? o).isSome = r.isScopeOwner o := by
  have howner : r.isScopeOwner o = (r.scopeOf? o).isSome := rfl
  rw [howner]
  cases hs : r.scopeOf? o with
  | none => simp [poolOf?, hs]
  | some s =>
    obtain ⟨p, _, hp⟩ := hr.bound_pool hs
    rw [hp]
    rfl

theorem createPool_of_lt (hr : r.Sound) (h : r.issued < maxScopes) :
    ∃ tag r', createPool r = .ok tag r' ∧ tag.toNat = r.issued + 1 := by
  obtain ⟨tag, htag⟩ := Option.ne_none_iff_exists'.1 fun hn => nextScope?_eq_none_iff.1 hn h
  obtain ⟨hok, hopens⟩ := createPool_of_next hr htag
  exact ⟨tag, _, hok, hopens.tag⟩

theorem createPool_eq_ok_iff (hr : r.Sound) :
    (∃ r', createPool r = .ok s r') ↔ r.nextScope? = some s := by
  constructor
  · rintro ⟨r', h⟩
    cases hn : r.nextScope? with
    | none =>
      rw [createPool_of_exhausted hn] at h
      cases h
    | some s' =>
      rw [(createPool_of_next hr hn).1] at h
      cases h
      rfl
  · intro hn
    exact ⟨_, (createPool_of_next hr hn).1⟩

theorem removePool_error (hr : r.Sound) {e : Failure PoolError} (h : removePool s r = .error e r') :
    r' = r := by
  rcases removePool_spec hr s with ⟨_, he⟩ | ⟨n, r'', hok, _⟩
  · rw [he] at h
    cases h
    rfl
  · rw [hok] at h
    cases h

theorem bindOwner_false {ε : Type} (h : bindOwner (ε := ε) o s r = .ok false r') : r' = r := by
  by_cases hp : (r.pool? s).isSome = true ∧ ¬ o.isNull = true
  · rw [bindOwner_of_pool hp] at h
    cases h
  · rw [bindOwner_of_not hp] at h
    cases h
    rfl

/-- An owner that was bound and not bound again is bound to that pool, until it is dropped. -/
theorem scopeOf?_of_binds (hr : r.Orderly) (hq : q.Binds r o s) {later : List Request}
    (hl : Unbound o (after q.perform r) later) (t : ScopeTag) :
    (run later (after q.perform r)).scopeOf? o = some t ↔ t = s ∧ ∀ q ∈ later, ¬ q.Drops s := by
  have hstep := step_perform hr.sound q
  have hbinds (u : ScopeTag) : q.Binds r o u ↔ u = s := by
    constructor
    · intro hu
      have heq := hq.1.symm.trans hu.1
      cases heq
      rfl
    · rintro rfl
      exact hq
  rw [scopeOf?_run (hr.step hstep) hl, hstep.scopeOf? hr, hbinds, or_iff_left]
  · constructor
    · rintro ⟨rfl, hdrops⟩
      exact ⟨rfl, hdrops⟩
    · rintro ⟨rfl, hdrops⟩
      exact ⟨rfl, hdrops⟩
  · rintro ⟨_, _, hn⟩
    exact hn s hq

/-- Where a registry finds its pools, after every history of a new registry. -/
theorem routes_run {c : PoolConfig} {start : Registry} (h : Registry.new c = .ok start)
    (l : List Request) : Routes start l := by
  obtain ⟨hc, rfl⟩ := new_eq_ok h
  have hstart := orderly_empty hc
  have hr : (run l (empty c)).Orderly := hstart.run l
  have hissued : (run l (empty c)).issued = min (0 + l.countP (·.isCreate)) 65535 :=
    issued_run hstart l
  refine ⟨fun hlt => ?_, fun hle => ?_, fun s p hp => hr.stored hp, fun p hp => hr.listed hp,
    hr.ordered, fun s => ?_, fun before route k t later s id r' hl hs hok => ?_,
    fun o s hs => hr.bound_pool hs, hr.isSome_poolOf?, fun before q later o s hl hq hlater => ?_,
    fun o ho => ?_, fun o s r' => bindOwner_false, fun s e r' => removePool_error hr.sound⟩
  · have hall : (run l (empty c)).issued = l.countP (·.isCreate) := by omega
    rw [← hall]
    exact createPool_of_lt hr.sound (hall ▸ hlt)
  · refine createPool_of_exhausted (nextScope?_eq_none_iff.2 ?_)
    show ¬ _ < 65535
    omega
  · rw [isSome_pool?_iff, mem_tags_run hstart l, or_iff_right (by simp [empty, tags])]
    simp only [← createPool_eq_ok_iff (hstart.run _).sound, exists_and_left, exists_and_right]
  · have hb := hstart.run before
    obtain ⟨hmem, hof⟩ := minted_spec hb.sound hs hok
    refine ⟨by simp [lookup?, hof], ?_⟩
    have hiff := mem_tags_run_of_issued hb (.inPool route (.allocate k t) :: later)
      (hb.sound.mem_tags hmem).2
    rw [hl, run_append, pool?_eq_none_iff, hiff, List.forall_mem_cons]
    simp [hmem, Request.Drops]
  · have hafter : run (before ++ [q]) (empty c) = after q.perform (run before (empty c)) :=
      run_append before [q] (empty c)
    rw [hafter] at hlater
    rw [hl, run_append]
    exact scopeOf?_of_binds (hstart.run before) hq hlater
  · rw [Option.eq_none_iff_forall_ne_some]
    intro s hs
    have hempty := ((scopeOf?_run hstart ho).1 hs).1
    simp [empty, scopeOf?, Assoc.get?] at hempty

/-- A pool that is removed takes its handles and its owners with it.  The pool that was created
after it stays, and the next one has a tag of its own. -/
theorem routes_run_removed :
    let start := empty {}
    let id := SlotKey.pack { scope := ⟨1⟩, type := .cell, generation := 0, place := ⟨0, 0⟩ }
    let l : List Request := [.createPool, .createPool, .inPool (.tag ⟨1⟩) (.allocate .cell .cell),
      .bindOwner id ⟨1⟩, .removePool ⟨1⟩]
    (run l start).lookup? id = none ∧ (run l start).scopeOf? id = none ∧
      ((run l start).pool? ⟨2⟩).isSome = true ∧
      ∃ tag r', createPool (run l start) = .ok tag r' ∧ tag.toNat = 3 := by
  intro start id l
  have hroutes := routes_run (show Registry.new {} = .ok start from rfl) l
  have hgiven : Route.run (Pool.allocate .cell .cell) (.tag ⟨1⟩)
      (run [.createPool, .createPool] start) = .ok (some id) (run (l.take 3) start) := rfl
  obtain ⟨hlookup, hgone⟩ := hroutes.minted [.createPool, .createPool] _ _ _
    [.bindOwner id ⟨1⟩, .removePool ⟨1⟩] ⟨1⟩ id _ rfl rfl hgiven
  have hbinds : (Request.bindOwner id ⟨1⟩).Binds (run (l.take 3) start) id ⟨1⟩ := ⟨rfl, _, rfl⟩
  have hbound := hroutes.last (l.take 3) _ [.removePool ⟨1⟩] id ⟨1⟩ rfl hbinds
    ⟨fun _ => Step.not_binds (by simp), trivial⟩
  refine ⟨hlookup.trans (hgone.2 ⟨.removePool ⟨1⟩, by simp, rfl⟩), ?_, ?_, ?_⟩
  · rw [Option.eq_none_iff_forall_ne_some]
    intro t ht
    exact ((hbound t).1 ht).2 (.removePool ⟨1⟩) (by simp) rfl
  · exact (hroutes.left ⟨2⟩).2 ⟨[.createPool], l.drop 2, _, rfl, rfl, by simp [l, Request.Drops]⟩
  · exact hroutes.create (by decide)

end Registry
end DesignStore
