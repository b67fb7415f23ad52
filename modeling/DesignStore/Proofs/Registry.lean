/-
The pools of a registry, as one store of slots.

A slot is known by the tag of its pool, a record type and a place (`Site`).  What an
operation of the registry does is said by what is in the slots afterwards: the record of
one handle is changed (`Touches`), a record is placed under a key that none had before
(`Places`), a pool is added under a tag that was never used (`Opens`), or a pool is
dropped (`Drops`).
-/
import DesignStore.Registry
import DesignStore.Proofs.Pool

namespace DesignStore

/-- A slot among those of all pools. -/
structure Site where
  scope : ScopeTag
  type : ObjectType
  place : Place
  deriving DecidableEq

def SlotKey.site (k : SlotKey) : Site :=
  { scope := k.scope, type := k.type, place := k.place }

theorem SlotKey.eq_of_site {k l : SlotKey} (h : k.site = l.site)
    (hg : k.generation = l.generation) : k = l := by
  cases k
  cases l
  simp_all [site]

theorem SlotKey.eq_site_iff {k : SlotKey} {q : Site} :
    q = k.site ↔ q.scope = k.scope ∧ q.type = k.type ∧ q.place = k.place := by
  cases q
  simp only [site, Site.mk.injEq]

def Occupant.apply (c : Change) (o : Occupant) : Occupant :=
  if o.isValid = true then { o with record := c o.kind o.record } else o

theorem Occupant.apply_of_valid {o : Occupant} (h : o.isValid = true) (c : Change) :
    o.apply c = { o with record := c o.kind o.record } := if_pos h

theorem Occupant.apply_of_not_valid {o : Occupant} (h : ¬ o.isValid = true) (c : Change) :
    o.apply c = o := if_neg h

theorem Occupant.touch_of_generation {g : UInt8} {o : Occupant} (h : o.generation = g)
    (c : Change) : o.touch g c = o.apply c := by
  simp only [touch, apply, h, true_and]

theorem Occupant.apply_generation (c : Change) (o : Occupant) :
    (o.apply c).generation = o.generation := by
  unfold apply
  split <;> rfl

theorem Occupant.isValid_apply_clear (o : Occupant) : (o.apply Change.clear).isValid = false := by
  by_cases hv : o.isValid = true
  · rw [apply_of_valid hv]
    exact Record.isValid_clear o.record
  · rw [apply_of_not_valid hv]
    simpa using hv

namespace Registry

variable {ε α : Type}

def occupant? (r : Registry) (q : Site) : Option Occupant :=
  (r.pool? q.scope).bind (·.occupant? q.type q.place)

/-- What a handle finds: the record it names, live or freed. -/
def record? (r : Registry) (id : ObjectId) : Option Occupant :=
  (SlotKey.unpack? id).bind fun k => (r.occupant? k.site).filter (·.generation = k.generation)

def kind? (r : Registry) (scope : ScopeTag) (t : ObjectType) : Option RecordKind :=
  (r.pool? scope).bind (·.kind? t)

/-- The tags of the pools, the newest first. -/
def tags (r : Registry) : List ScopeTag :=
  r.pools.map (·.scope)

/-- The pools are sound, and their tags are among those spent. -/
structure Sound (r : Registry) : Prop where
  config : r.config.Valid
  issued_le : r.issued ≤ maxScopes
  pool : ∀ p ∈ r.pools, p.Sound
  tag : ∀ p ∈ r.pools, p.scope.val ≠ 0 ∧ p.scope.toNat ≤ r.issued

theorem sound_empty {c : PoolConfig} (h : c.Valid) : (empty c).Sound where
  config := h
  issued_le := Nat.zero_le _
  pool := by simp [empty]
  tag := by simp [empty]

variable {r r' : Registry}

/-- A pool is found under its own tag, and that is spent. -/
theorem Sound.of_pool? (h : r.Sound) {scope : ScopeTag} {p : Pool} (hp : r.pool? scope = some p) :
    p.Sound ∧ p.scope = scope ∧ scope.val ≠ 0 ∧ scope.toNat ≤ r.issued := by
  have hmem := List.mem_of_find?_eq_some hp
  have hs : p.scope = scope := by simpa using List.find?_some hp
  exact ⟨h.pool p hmem, hs, hs ▸ (h.tag p hmem).1, hs ▸ (h.tag p hmem).2⟩

theorem Sound.of_lookup? (h : r.Sound) {id : ObjectId} {p : Pool} (hp : r.lookup? id = some p) :
    p.Sound := by
  obtain ⟨scope, _, hp⟩ := Option.bind_eq_some_iff.1 hp
  exact (h.of_pool? hp).1

/-! ## Reading -/

theorem isSome_pool?_iff {t : ScopeTag} : (r.pool? t).isSome = true ↔ t ∈ r.tags := by
  simp [pool?, tags]

theorem lookup?_of_unpack? {id : ObjectId} {k : SlotKey} (hk : SlotKey.unpack? id = some k) :
    r.lookup? id = r.pool? k.scope := by
  simp [lookup?, SlotKey.of?_of_unpack? hk]

/-- The key of a handle in the pool its tag leads to. -/
theorem key?_of_pool? {id : ObjectId} {k : SlotKey} {p : Pool} (hk : SlotKey.unpack? id = some k)
    (hp : r.pool? k.scope = some p) : p.key? id = some k := by
  have hs : p.scope = k.scope := by simpa using List.find?_some hp
  exact Pool.key?_eq_some_iff.2 ⟨hk, hs.symm⟩

theorem key?_of_unpack?_none {id : ObjectId} (hk : SlotKey.unpack? id = none) (p : Pool) :
    p.key? id = none := by
  simp [Pool.key?, hk]

theorem record?_of_unpack? {id : ObjectId} {k : SlotKey} (hk : SlotKey.unpack? id = some k) :
    r.record? id = (r.occupant? k.site).filter (·.generation = k.generation) := by
  rw [record?, hk, Option.bind_some]

theorem record?_eq_some_iff {id : ObjectId} {o : Occupant} :
    r.record? id = some o ↔ ∃ k, SlotKey.unpack? id = some k ∧ r.occupant? k.site = some o ∧
      o.generation = k.generation := by
  simp only [record?, Option.bind_eq_some_iff, Option.filter_eq_some_iff, decide_eq_true_eq]

theorem record?_eq_lookup? (r : Registry) (id : ObjectId) :
    r.record? id = (SlotKey.unpack? id).bind fun k =>
      ((r.lookup? id).bind (·.occupant? k.type k.place)).filter (·.generation = k.generation) := by
  cases hk : SlotKey.unpack? id with
  | none => simp only [record?, hk, Option.bind_none]
  | some k =>
    rw [record?_of_unpack? hk, Option.bind_some, lookup?_of_unpack? hk]
    rfl

theorem record?_eq_none {id : ObjectId} (h : r.lookup? id = none) : r.record? id = none := by
  rw [record?_eq_lookup?, h]
  cases SlotKey.unpack? id <;> rfl

theorem record?_congr {id : ObjectId} (h : r'.lookup? id = r.lookup? id) :
    r'.record? id = r.record? id := by
  rw [record?_eq_lookup?, record?_eq_lookup?, h]

theorem inspect?_eq (h : r.Sound) (id : ObjectId) :
    ((r.lookup? id).bind (·.inspect? id)) = (r.record? id).map (·.record.header) := by
  cases hk : SlotKey.unpack? id with
  | none =>
    have hn (p : Pool) : p.inspect? id = none := by
      simp [Pool.inspect?, key?_of_unpack?_none hk p]
    simp [record?, hk, hn]
  | some k =>
    rw [lookup?_of_unpack? hk, record?_of_unpack? hk, occupant?]
    show (r.pool? k.scope).bind _ = Option.map _ (Option.filter _ ((r.pool? k.scope).bind _))
    cases hp : r.pool? k.scope with
    | none => rfl
    | some p =>
      rw [Option.bind_some, Option.bind_some,
        Pool.inspect?_eq (h.of_pool? hp).1 (key?_of_pool? hk hp)]
      rfl

def Live (r : Registry) (id : ObjectId) : Prop :=
  ∃ o, r.record? id = some o ∧ o.isValid = true

theorem header?_eq (h : r.Sound) (id : ObjectId) :
    ((r.lookup? id).bind (·.header? id)) =
      ((r.record? id).filter (·.isValid)).map (·.record.header) := by
  have hi := inspect?_eq h id
  have hh : (r.lookup? id).bind (·.header? id) =
      ((r.lookup? id).bind (·.inspect? id)).filter (·.isValid) := by
    cases r.lookup? id <;> rfl
  rw [hh, hi]
  cases r.record? id with
  | none => rfl
  | some o =>
    by_cases hv : o.isValid = true
    · have : o.record.header.isValid = true := hv
      simp [Option.filter_some, hv, this]
    · have : ¬ o.record.header.isValid = true := hv
      simp [Option.filter_some, hv, this]

theorem header?_isSome_iff (h : r.Sound) (id : ObjectId) :
    ((r.lookup? id).bind (·.header? id)).isSome = true ↔ r.Live id := by
  rw [header?_eq h, Option.isSome_map, Option.isSome_filter]
  cases ho : r.record? id with
  | none => simp [Live, ho]
  | some o => simp [Live, ho]

theorem resolve_eq_some_iff (h : r.Sound) {id : ObjectId} {k : RecordKind} {x : Record k.Body} :
    (∃ p, r.lookup? id = some p ∧ p.resolve k id = .ok (some x)) ↔
      x.isValid = true ∧ ∃ g, r.record? id = some { kind := k, generation := g, record := x } := by
  cases hk : SlotKey.unpack? id with
  | none =>
    have hn (p : Pool) : p.resolve k id = .ok none := by
      simp [Pool.resolve, key?_of_unpack?_none hk p]
    simp [hn, record?, hk]
  | some key =>
    rw [lookup?_of_unpack? hk, record?_of_unpack? hk]
    show _ ↔ _ ∧ ∃ g, Option.filter _ ((r.pool? key.scope).bind _) = _
    cases hp : r.pool? key.scope with
    | none => simp
    | some p =>
      have hr := Pool.resolve_eq_some_iff (h.of_pool? hp).1 (key?_of_pool? hk hp) (r := x)
      simp only [Option.some.injEq, exists_eq_left', hr, Option.bind_some,
        Option.filter_eq_some_iff, decide_eq_true_eq, exists_eq_right, SlotKey.site]

theorem resolve_eq_ok {id : ObjectId} {k : RecordKind} {key : SlotKey}
    (hk : SlotKey.unpack? id = some key)
    (hb : ∀ k', r.kind? key.scope key.type = some k' → k' = k) {p : Pool}
    (hp : r.lookup? id = some p) : ∃ x, p.resolve k id = .ok x := by
  rw [lookup?_of_unpack? hk] at hp
  refine Pool.resolve_eq_ok (key?_of_pool? hk hp) fun k' hk' => hb k' ?_
  rw [kind?, hp]
  exact hk'

/-! ## Changing records -/

structure Touches (id : ObjectId) (c : Change) (r r' : Registry) : Prop where
  config : r'.config = r.config
  issued : r'.issued = r.issued
  owners : r'.owners = r.owners
  sound : r'.Sound
  tags : r'.tags = r.tags
  kind : ∀ scope t, r'.kind? scope t = r.kind? scope t
  slot : ∀ k, SlotKey.unpack? id = some k →
    r'.occupant? k.site = (r.occupant? k.site).map (Occupant.touch k.generation c)
  other : ∀ q, (∀ k, SlotKey.unpack? id = some k → q ≠ k.site) → r'.occupant? q = r.occupant? q

theorem isSome_pool?_of_tags (h : r'.tags = r.tags) (t : ScopeTag) :
    (r'.pool? t).isSome = (r.pool? t).isSome := by
  rw [Bool.eq_iff_iff, isSome_pool?_iff, isSome_pool?_iff, h]

theorem Touches.pool {id : ObjectId} {c : Change} (h : Touches id c r r') (t : ScopeTag) :
    (r'.pool? t).isSome = (r.pool? t).isSome :=
  isSome_pool?_of_tags h.tags t

/-- A handle finds what it found, but for the handle that was operated on. -/
theorem Touches.record? {id : ObjectId} {c : Change} (h : Touches id c r r') (id' : ObjectId) :
    r'.record? id' = if id' = id then (r.record? id).map (Occupant.apply c) else r.record? id' := by
  cases hk' : SlotKey.unpack? id' with
  | none =>
    by_cases hid : id' = id
    · subst hid
      simp [Registry.record?, hk']
    · simp [Registry.record?, hk', hid]
  | some k' =>
    rw [record?_of_unpack? hk', record?_of_unpack? hk']
    by_cases hid : id' = id
    · subst hid
      rw [if_pos rfl, record?_of_unpack? hk', h.slot k' hk']
      cases r.occupant? k'.site with
      | none => rfl
      | some o =>
        by_cases hg : o.generation = k'.generation
        · simp [Option.filter_some, hg, Occupant.touch_of_generation hg, Occupant.apply_generation]
        · simp [Option.filter_some, Occupant.touch_generation, hg]
    · rw [if_neg hid]
      -- another handle of the same slot is of another generation
      by_cases hs : ∃ k, SlotKey.unpack? id = some k ∧ k'.site = k.site
      · obtain ⟨k, hk, hs⟩ := hs
        have hne : k.generation ≠ k'.generation := by
          intro hg
          have := SlotKey.eq_of_site hs hg.symm
          subst this
          exact hid ((SlotKey.pack_of_unpack? hk').symm.trans (SlotKey.pack_of_unpack? hk))
        rw [hs, h.slot k hk]
        cases r.occupant? k.site with
        | none => rfl
        | some o =>
          rw [Option.map_some, Option.filter_some, Option.filter_some, Occupant.touch_generation]
          by_cases hg : o.generation = k.generation
          · have hg' : o.generation ≠ k'.generation := hg ▸ hne
            simp [hg']
          · rw [Occupant.touch_of_not_live fun e => hg e.1]
      · rw [h.other]
        intro k hk e
        exact hs ⟨k, hk, e⟩

theorem touches_refl (h : r.Sound) {id : ObjectId} {c : Change}
    (ho : ∀ k, SlotKey.unpack? id = some k → ∀ o, r.occupant? k.site = some o →
      o.touch k.generation c = o) : Touches id c r r where
  config := rfl
  issued := rfl
  owners := rfl
  sound := h
  tags := rfl
  kind := fun _ _ => rfl
  slot := by
    intro k hk
    cases hq : r.occupant? k.site with
    | none => rfl
    | some o => rw [Option.map_some, ho k hk o hq]
  other := fun _ _ => rfl

theorem touches_of_lookup?_none (h : r.Sound) {id : ObjectId} {c : Change}
    (hn : r.lookup? id = none) : Touches id c r r :=
  touches_refl h fun k hk o ho => by
    rw [lookup?_of_unpack? hk] at hn
    rw [occupant?, show r.pool? k.site.scope = none from hn] at ho
    contradiction

theorem onPool_eq (scope : ScopeTag) (x : EStateM ε Pool α) (r : Registry) :
    onPool scope x r = match onFirst (·.scope = scope) x r.pools with
      | .ok a pools => .ok a { r with pools }
      | .error e pools => .error e { r with pools } := rfl

theorem after_onPool (scope : ScopeTag) (x : EStateM ε Pool α) (r : Registry) :
    after (onPool scope x) r = { r with pools := after (onFirst (·.scope = scope) x) r.pools } := by
  simp only [after, onPool_eq]
  cases onFirst (·.scope = scope) x r.pools <;> rfl

/-- An operation that changes nothing in the pool that issued a handle changes nothing. -/
theorem onIssuer_still {id : ObjectId} {x : EStateM ε Pool α} {r : Registry}
    (hx : ∀ p, r.lookup? id = some p → after x p = p) : after (onIssuer id x) r = r := by
  cases ht : ScopeTag.of? id with
  | none => simp only [after, onIssuer, ht]
  | some t =>
    have hpool : after (onIssuer id x) r = after (onPool t x) r := by
      simp only [after, onIssuer, ht]
    rw [hpool, after_onPool, onFirst_still fun p hp => hx p ?_]
    rw [lookup?, ht]
    exact hp

/-- One pool gives way to another with its tag. -/
structure Swaps (p p' : Pool) (r r' : Registry) : Prop where
  config : r'.config = r.config
  issued : r'.issued = r.issued
  owners : r'.owners = r.owners
  sound : r'.Sound
  tags : r'.tags = r.tags
  found : r.pool? p.scope = some p
  pool : ∀ t, r'.pool? t = if t = p.scope then some p' else r.pool? t

theorem swaps_of_split {p p' : Pool} (h : r.Sound) {l₁ l₂ : List Pool}
    (hl : r.pools = l₁ ++ p :: l₂) (hl₁ : ∀ q ∈ l₁, decide (q.scope = p.scope) = false)
    (hscope : p'.scope = p.scope) (hp' : p'.Sound) : Swaps p p' r { r with pools := l₁ ++ p' :: l₂ } := by
  have hfind : r.pool? p.scope = some p := by
    rw [pool?, hl]
    exact find?_append_cons hl₁ (by simp)
  have hmem (c : Pool) (hc : c ∈ l₁ ++ p' :: l₂) : c = p' ∨ c ∈ r.pools :=
    hl ▸ mem_of_mem_replace hc
  have htags : (l₁ ++ p' :: l₂).map (·.scope) = r.pools.map (·.scope) := by
    rw [hl, List.map_append, List.map_append, List.map_cons, List.map_cons, hscope]
  refine ⟨rfl, rfl, rfl, ⟨h.config, h.issued_le, ?_, ?_⟩, htags, hfind, ?_⟩
  · intro c hc
    rcases hmem c hc with rfl | hc
    · exact hp'
    · exact h.pool c hc
  · intro c hc
    rcases hmem c hc with rfl | hc
    · rw [hscope]
      exact (h.of_pool? hfind).2.2
    · exact h.tag c hc
  · intro t
    by_cases ht : t = p.scope
    · subst ht
      rw [if_pos rfl]
      exact find?_append_cons hl₁ (by simpa using hscope)
    · have hne : p.scope ≠ t := fun e => ht e.symm
      rw [if_neg ht]
      simp [pool?, hl, List.find?_append, hscope, hne]

theorem swaps_onPool (h : r.Sound) {scope : ScopeTag} {p : Pool} {x : EStateM ε Pool α}
    (hp : r.pool? scope = some p) (hscope : (after x p).scope = p.scope) (hp' : (after x p).Sound) :
    Swaps p (after x p) r (after (onPool scope x) r) := by
  obtain ⟨l₁, l₂, hl, hl₁, hs⟩ := find?_split hp
  obtain rfl : p.scope = scope := by simpa using hs
  have hr : after (onPool p.scope x) r = { r with pools := l₁ ++ after x p :: l₂ } := by
    simp only [after, onPool_eq, hl, onFirst_append hl₁ hs]
    cases x p <;> rfl
  rw [hr]
  exact swaps_of_split h hl hl₁ hscope hp'

namespace Swaps

variable {p p' : Pool}

theorem kind?_self (h : Swaps p p' r r') (t : ObjectType) : r.kind? p.scope t = p.kind? t := by
  rw [Registry.kind?, h.found]
  rfl

theorem kind? (h : Swaps p p' r r') (s : ScopeTag) (t : ObjectType) :
    r'.kind? s t = if s = p.scope then p'.kind? t else r.kind? s t := by
  rw [Registry.kind?, h.pool]
  by_cases hs : s = p.scope
  · rw [if_pos hs, if_pos hs]
    rfl
  · rw [if_neg hs, if_neg hs]
    rfl

theorem occupant?_self (h : Swaps p p' r r') {q : Site} (hq : q.scope = p.scope) :
    r.occupant? q = p.occupant? q.type q.place := by
  rw [Registry.occupant?, hq, h.found]
  rfl

theorem occupant? (h : Swaps p p' r r') (q : Site) :
    r'.occupant? q = if q.scope = p.scope then p'.occupant? q.type q.place else r.occupant? q := by
  rw [Registry.occupant?, h.pool]
  by_cases hs : q.scope = p.scope
  · rw [if_pos hs, if_pos hs]
    rfl
  · rw [if_neg hs, if_neg hs]
    rfl

end Swaps

theorem touches_of_swaps {p p' : Pool} (h : Swaps p p' r r') {id : ObjectId} {k : SlotKey}
    {c : Change} (hk : SlotKey.unpack? id = some k) (hp : p.scope = k.scope)
    (ht : Pool.Touches k c p p') : Touches id c r r' where
  config := h.config
  issued := h.issued
  owners := h.owners
  sound := h.sound
  tags := h.tags
  kind := by
    intro s t
    rw [h.kind?]
    by_cases hs : s = p.scope
    · rw [if_pos hs, hs, h.kind?_self, ht.kind]
    · rw [if_neg hs]
  slot := by
    intro k' hk'
    cases hk.symm.trans hk'
    have hq : k.site.scope = p.scope := hp.symm
    rw [h.occupant?, if_pos hq, h.occupant?_self hq, ht.slot, if_pos ⟨rfl, rfl⟩]
  other := by
    intro q hq
    rw [h.occupant?]
    by_cases hs : q.scope = p.scope
    · have hne : ¬ (q.type = k.type ∧ q.place = k.place) := fun e =>
        hq k hk (SlotKey.eq_site_iff.2 ⟨hs.trans hp, e⟩)
      rw [if_pos hs, h.occupant?_self hs, ht.slot, if_neg hne]
    · rw [if_neg hs]

/-- What is done to the pool of a key is done to the registry. -/
theorem touches_onPool (h : r.Sound) {id : ObjectId} {k : SlotKey} {c : Change}
    {x : EStateM ε Pool α} (hk : SlotKey.unpack? id = some k)
    (hx : ∀ p, r.pool? k.scope = some p → Pool.Touches k c p (after x p)) :
    Touches id c r (after (onPool k.scope x) r) := by
  cases hp : r.pool? k.scope with
  | none =>
    have hr : after (onPool k.scope x) r = r := by
      rw [after_onPool, after_ok (onFirst_of_none hp)]
    rw [hr]
    exact touches_of_lookup?_none h ((lookup?_of_unpack? hk).trans hp)
  | some p =>
    have ht := hx p hp
    exact touches_of_swaps (swaps_onPool h hp ht.scope ht.sound) hk (h.of_pool? hp).2.1 ht

theorem touches_of_unpack?_none (h : r.Sound) {id : ObjectId} (c : Change)
    (hk : SlotKey.unpack? id = none) : Touches id c r r :=
  touches_refl h fun k hk' => by
    rw [hk] at hk'
    contradiction

theorem onIssuer_of_unpack? {id : ObjectId} {k : SlotKey} (hk : SlotKey.unpack? id = some k)
    (x : EStateM ε Pool α) : onIssuer id x r = onPool k.scope x r := by
  simp only [onIssuer, SlotKey.of?_of_unpack? hk]

/-- An operation that has nothing to say about handles that cannot be read leaves the
registry as it is for them. -/
theorem onIssuer_of_unpack?_none {id : ObjectId} {a : α} {x : EStateM ε Pool α}
    (hk : SlotKey.unpack? id = none) (hx : ∀ p, p.key? id = none → x p = .ok a p) :
    onIssuer id x r = .ok none r ∨ onIssuer id x r = .ok (some a) r := by
  simp only [onIssuer]
  cases ScopeTag.of? id with
  | none => exact Or.inl rfl
  | some scope =>
    simp only [onPool_eq]
    cases hp : r.pools.find? (·.scope = scope) with
    | none => exact Or.inl (by rw [onFirst_of_none hp])
    | some p =>
      have hf : onFirst (·.scope = scope) x r.pools = .ok (some a) r.pools := by
        obtain ⟨l₁, l₂, hl, hl₁, hs⟩ := find?_split hp
        rw [hl, onFirst_append hl₁ hs, hx p (key?_of_unpack?_none hk p)]
      exact Or.inr (by rw [hf])

theorem onIssuer_ok (id : ObjectId) {x : EStateM ε Pool α}
    (hx : ∀ p, r.lookup? id = some p → ∃ a t, x p = .ok a t) :
    ∃ a, onIssuer id x r = .ok a (after (onIssuer id x) r) := by
  cases hs : ScopeTag.of? id with
  | none => exact ⟨none, by simp only [after, onIssuer, hs]⟩
  | some scope =>
    obtain ⟨a, ha⟩ := onFirst_ok (l := r.pools) (p := fun p : Pool => p.scope = scope) (x := x)
      fun p hp => hx p (by rw [lookup?, hs]; exact hp)
    have hr : onIssuer id x r = onPool scope x r := by simp only [onIssuer, hs]
    have ha : onPool scope x r = .ok a (after (onPool scope x) r) := by
      rw [after_onPool, onPool_eq, ha]
    exact ⟨a, by rw [after, hr, ha]⟩

/-- What is done to the pool that issued a handle is done to the registry. -/
theorem touches_onIssuer (h : r.Sound) {id : ObjectId} {c : Change} {x : EStateM ε Pool α}
    {a : α} (hx : ∀ p k, p.Sound → p.key? id = some k → Pool.Touches k c p (after x p))
    (hn : ∀ p, p.key? id = none → x p = .ok a p) :
    Touches id c r (after (onIssuer id x) r) := by
  cases hk : SlotKey.unpack? id with
  | none =>
    have hr : after (onIssuer id x) r = r := by
      rcases onIssuer_of_unpack?_none (r := r) hk hn with ho | ho <;> exact after_ok ho
    rw [hr]
    exact touches_of_unpack?_none h c hk
  | some k =>
    have hr : after (onIssuer id x) r = after (onPool k.scope x) r := by
      simp only [after, onIssuer_of_unpack? hk]
    rw [hr]
    exact touches_onPool h hk fun p hp => hx p k (h.of_pool? hp).1 (key?_of_pool? hk hp)

theorem touches_update (h : r.Sound) (k : RecordKind) (id : ObjectId)
    (f : Record k.Body → Record k.Body) :
    Touches id (Change.write k f) r
      (after (onIssuer id (Pool.update (ε := ε) k id f)) r) :=
  touches_onIssuer h (fun _ _ hp hk => Pool.touches_update hp hk k f)
    fun _ hk => Pool.update_of_no_key hk k f

theorem touches_modifyHeader (h : r.Sound) (id : ObjectId) (f : Header → Header) :
    Touches id (Change.header f) r (after (onIssuer id (Pool.modifyHeader (ε := ε) id f)) r) :=
  touches_onIssuer h (fun _ _ hp hk => Pool.touches_modifyHeader hp hk f)
    fun _ hk => Pool.modifyHeader_of_no_key hk f

theorem touches_editHeader (h : r.Sound) (id : ObjectId) (e : HeaderEdit) :
    Touches id (Change.header e.perform) r
      (after (onIssuer id (Pool.editHeader (ε := ε) id e)) r) :=
  touches_onIssuer h (fun _ _ hp hk => Pool.touches_editHeader hp hk e)
    fun _ hk => Pool.editHeader_of_no_key hk e

theorem touches_free (h : r.Sound) (id : ObjectId) :
    Touches id Change.clear r (after (onIssuer id (Pool.free (ε := ε) id)) r) := by
  refine touches_onIssuer h (fun p k hp hk => ?_) fun _ hk => Pool.free_of_no_key hk
  obtain ⟨p', hp', ht⟩ := Pool.free_of_key (ε := ε) hp hk
  rwa [after_ok hp']

theorem free_answer (h : r.Sound) (id : ObjectId) :
    ∃ b, onIssuer id (Pool.free (ε := ε) id) r =
        .ok b (after (onIssuer id (Pool.free (ε := ε) id)) r) ∧
      (b.getD false = true ↔ r.Live id) := by
  have hlive := header?_isSome_iff h id
  cases hk : SlotKey.unpack? id with
  | none =>
    have hr := onIssuer_of_unpack?_none (r := r) (x := Pool.free (ε := ε) id) hk
      fun _ hk => Pool.free_of_no_key hk
    have hn : ¬ r.Live id := by
      rintro ⟨o, ho, _⟩
      simp [record?, hk] at ho
    rcases hr with hr | hr
    · exact ⟨none, by rw [after_ok hr, hr], by simp [hn]⟩
    · exact ⟨some false, by rw [after_ok hr, hr], by simp [hn]⟩
  | some k =>
    rw [onIssuer_of_unpack? hk]
    rw [lookup?_of_unpack? hk] at hlive
    cases hp : r.pool? k.scope with
    | none =>
      have hr : onPool k.scope (Pool.free (ε := ε) id) r = .ok none r := by
        rw [onPool_eq, onFirst_of_none hp]
      refine ⟨none, ?_, by rw [← hlive, hp]; rfl⟩
      simp only [after, onIssuer_of_unpack? hk, hr]
    | some p =>
      obtain ⟨p', hp', _⟩ := Pool.free_of_key (ε := ε) (h.of_pool? hp).1 (key?_of_pool? hk hp)
      obtain ⟨l₁, l₂, hl, hl₁, hs⟩ := find?_split hp
      have hr : onPool k.scope (Pool.free (ε := ε) id) r =
          .ok (some (p.isLive id)) { r with pools := l₁ ++ p' :: l₂ } := by
        rw [onPool_eq, hl, onFirst_append hl₁ hs, hp']
      refine ⟨some (p.isLive id), ?_, by rw [← hlive, hp]; rfl⟩
      simp only [after, onIssuer_of_unpack? hk, hr]

/-- Nothing is changed where there is no live record to free. -/
theorem free_still (h : r.Sound) {id : ObjectId} (hn : ¬ r.Live id) :
    after (onIssuer id (Pool.free (ε := ε) id)) r = r := by
  refine onIssuer_still fun p hp => Pool.free_still ?_
  rw [← header?_isSome_iff h, hp] at hn
  exact Bool.eq_false_iff.2 hn

/-! ## Placing records -/

/-- What placing a record of a kind under a key does.  No record had the key before. -/
structure Places (k : RecordKind) (key : SlotKey) (r r' : Registry) : Prop where
  config : r'.config = r.config
  issued : r'.issued = r.issued
  owners : r'.owners = r.owners
  sound : r'.Sound
  tags : r'.tags = r.tags
  key_pool : (r.pool? key.scope).isSome = true
  key_scope : key.scope.val ≠ 0
  bound : ∀ k', r.kind? key.scope key.type = some k' → k' = k
  kind : ∀ scope t, r'.kind? scope t =
    if scope = key.scope ∧ t = key.type then some k else r.kind? scope t
  fresh : ∀ o, r.occupant? key.site = some o →
    o.isValid = false ∧ o.generation.toNat < key.generation.toNat
  slot : ∀ q, r'.occupant? q =
    if q = key.site then some (Occupant.placed k key) else r.occupant? q

theorem Places.pool {k : RecordKind} {key : SlotKey} (h : Places k key r r') (t : ScopeTag) :
    (r'.pool? t).isSome = (r.pool? t).isSome :=
  isSome_pool?_of_tags h.tags t

theorem places_of_swaps {p p' : Pool} (h : Swaps p p' r r') {k : RecordKind} {key : SlotKey}
    (hr : r.Sound) (hp : Pool.Places k key p p') : Places k key r r' where
  config := h.config
  issued := h.issued
  owners := h.owners
  sound := h.sound
  tags := h.tags
  key_pool := by
    rw [hp.key_scope, h.found]
    rfl
  key_scope := by
    rw [hp.key_scope]
    exact (hr.of_pool? h.found).2.2.1
  bound := by
    intro k' hk'
    rw [hp.key_scope, h.kind?_self] at hk'
    exact hp.bound k' hk'
  kind := by
    intro s t
    rw [h.kind?, hp.key_scope]
    by_cases hs : s = p.scope
    · rw [if_pos hs, hs, h.kind?_self, hp.kind]
      by_cases ht : t = key.type
      · rw [if_pos ht, if_pos ⟨rfl, ht⟩]
      · rw [if_neg ht, if_neg fun e => ht e.2]
    · rw [if_neg hs, if_neg fun e => hs e.1]
  fresh := by
    intro o ho
    rw [h.occupant?_self hp.key_scope] at ho
    exact hp.fresh o ho
  slot := by
    intro q
    rw [h.occupant?]
    by_cases hs : q.scope = p.scope
    · rw [if_pos hs, h.occupant?_self hs, hp.slot]
      by_cases ht : q.type = key.type ∧ q.place = key.place
      · rw [if_pos ht, if_pos (SlotKey.eq_site_iff.2 ⟨hs.trans hp.key_scope.symm, ht⟩)]
      · rw [if_neg ht, if_neg fun e => ht (SlotKey.eq_site_iff.1 e).2]
    · rw [if_neg hs, if_neg fun e => hs ((SlotKey.eq_site_iff.1 e).1.trans hp.key_scope)]

/-- Placing in the pool with a tag: there is no such pool, or a record is placed under a
key of the pool and the type, or the pool refuses and nothing is changed. -/
theorem place_spec (h : r.Sound) (scope : ScopeTag) (k : RecordKind) (t : ObjectType)
    {f : Failure PoolError → ε} {x : EStateM ε Pool ObjectId}
    (hx : ∀ p, x p = match Pool.allocate k t p with
      | .ok id p => .ok id p
      | .error e p => .error (f e) p) :
    onPool scope x r = .ok none r ∨
      (∃ key r', onPool scope x r = .ok (some key.pack) r' ∧ key.scope = scope ∧ key.type = t ∧
        Places k key r r') ∨
      ∃ e, onPool scope x r = .error (f (.refused e)) r := by
  rw [onPool_eq]
  cases hp : r.pools.find? (·.scope = scope) with
  | none => exact Or.inl (by rw [onFirst_of_none hp])
  | some p =>
    obtain ⟨l₁, l₂, hl, hl₁, hs⟩ := find?_split hp
    have hscope : p.scope = scope := by simpa using hs
    rw [hl, onFirst_append hl₁ hs, hx]
    rcases Pool.allocate_spec (h.of_pool? hp).1 k t with ⟨key, p', hp', htype, hplaces⟩ | ⟨e, he⟩
    · subst hscope
      have hswaps := swaps_of_split h hl hl₁ hplaces.scope hplaces.sound
      exact Or.inr (Or.inl ⟨key, { r with pools := l₁ ++ p' :: l₂ }, by simp only [hp'],
        hplaces.key_scope, htype, places_of_swaps hswaps h hplaces⟩)
    · refine Or.inr (Or.inr ⟨e, ?_⟩)
      simp only [he, ← hl]

/-! ## Adding and dropping pools -/

/-- The registry with one more pool, which is empty. -/
def opened (r : Registry) (scope : ScopeTag) : Registry :=
  { r with issued := r.issued + 1, pools := Pool.empty scope r.config :: r.pools }

/-- What adding a pool does.  Its tag was never used. -/
structure Opens (scope : ScopeTag) (r r' : Registry) : Prop where
  config : r'.config = r.config
  issued : r'.issued = r.issued + 1
  owners : r'.owners = r.owners
  sound : r'.Sound
  tags : r'.tags = scope :: r.tags
  tag : scope.toNat = r.issued + 1
  pool : ∀ t, r'.pool? t = if t = scope then some (Pool.empty scope r.config) else r.pool? t

theorem nextScope?_spec (h : r.Sound) {scope : ScopeTag} (hs : r.nextScope? = some scope) :
    Opens scope r (r.opened scope) := by
  unfold nextScope? at hs
  split at hs
  · rename_i hlt
    have hlt : r.issued < 65535 := hlt
    have htag : scope.toNat = r.issued + 1 := by
      rw [← Option.some.inj hs]
      exact UInt16.toNat_ofNat_of_lt' (by show _ < 65536; omega)
    have hne : scope.val ≠ 0 := by
      intro e
      have : scope.toNat = 0 := by
        show scope.val.toNat = 0
        rw [e]
        rfl
      omega
    refine ⟨rfl, rfl, rfl, ⟨h.config, ?_, ?_, ?_⟩, rfl, htag, ?_⟩
    · show r.issued + 1 ≤ 65535
      omega
    · intro p hp
      rcases List.mem_cons.1 hp with rfl | hp
      · exact Pool.sound_empty scope h.config
      · exact h.pool p hp
    · intro p hp
      rcases List.mem_cons.1 hp with rfl | hp
      · exact ⟨hne, Nat.le_of_eq htag⟩
      · exact ⟨(h.tag p hp).1, Nat.le_succ_of_le (h.tag p hp).2⟩
    · intro t
      by_cases ht : t = scope
      · subst ht
        simp [pool?, opened, Pool.empty]
      · have hne : scope ≠ t := fun e => ht e.symm
        simp [pool?, opened, Pool.empty, ht, hne]
  · contradiction

theorem nextScope?_eq_none_iff : r.nextScope? = none ↔ ¬ r.issued < maxScopes := by
  unfold nextScope?
  split <;> simp_all

theorem createPoolWith_of_exhausted (hn : r.nextScope? = none)
    (x : EStateM (Failure PoolError) Pool α) :
    createPoolWith x r = .error (.refused .scopesExhausted) r := by
  simp only [createPoolWith, hn]

theorem createPoolWith_of_ok {scope : ScopeTag} (hn : r.nextScope? = some scope)
    {x : EStateM (Failure PoolError) Pool α} {a : α} {p : Pool}
    (hx : x (Pool.empty scope r.config) = .ok a p) :
    createPoolWith x r =
      .ok (scope, a) { r with issued := r.issued + 1, pools := p :: r.pools } := by
  simp only [createPoolWith, hn, hx]

/-- The tag is spent even where the pool is not kept. -/
theorem createPoolWith_of_error {scope : ScopeTag} (hn : r.nextScope? = some scope)
    {x : EStateM (Failure PoolError) Pool α} {e : Failure PoolError} {p : Pool}
    (hx : x (Pool.empty scope r.config) = .error e p) :
    createPoolWith x r = .error e { r with issued := r.issued + 1 } := by
  simp only [createPoolWith, hn, hx]

theorem createPool_of_exhausted (hn : r.nextScope? = none) :
    createPool r = .error (.refused .scopesExhausted) r := by
  simp only [createPool, map_apply, createPoolWith_of_exhausted hn]

theorem createPool_of_next (h : r.Sound) {scope : ScopeTag} (hn : r.nextScope? = some scope) :
    createPool r = .ok scope (r.opened scope) ∧ Opens scope r (r.opened scope) := by
  refine ⟨?_, nextScope?_spec h hn⟩
  simp only [createPool, map_apply]
  rw [createPoolWith_of_ok (x := pure ()) hn rfl, opened]

theorem createPool_spec (h : r.Sound) :
    (∃ scope, createPool r = .ok scope (r.opened scope) ∧ Opens scope r (r.opened scope)) ∨
      createPool r = .error (.refused .scopesExhausted) r := by
  cases hs : r.nextScope? with
  | none => exact Or.inr (createPool_of_exhausted hs)
  | some scope => exact Or.inl ⟨scope, createPool_of_next h hs⟩

/-- A pool that is added with a first record is an empty pool, in which the record is then
placed. -/
theorem createPoolWith_spec (h : r.Sound) (k : RecordKind) (t : ObjectType) :
    (∃ key r', createPoolWith (Pool.allocate k t) r = .ok (key.scope, key.pack) r' ∧
        key.type = t ∧ Opens key.scope r (r.opened key.scope) ∧
        Places k key (r.opened key.scope) r') ∨
      createPoolWith (Pool.allocate k t) r = .error (.refused .scopesExhausted) r := by
  cases hs : r.nextScope? with
  | none => exact Or.inr (createPoolWith_of_exhausted hs _)
  | some scope =>
    left
    have ho := nextScope?_spec h hs
    have hempty : (Pool.empty scope r.config).Sound := Pool.sound_empty scope h.config
    obtain ⟨key, p', hp', htype, hplaces⟩ := Pool.allocate_of_new (t := t) hempty k rfl
    have hscope : key.scope = scope := hplaces.key_scope
    subst hscope
    refine ⟨key, { r.opened key.scope with pools := p' :: r.pools }, ?_, htype, ho, ?_⟩
    · rw [createPoolWith_of_ok hs hp', opened]
    · have hl : (r.opened key.scope).pools = [] ++ Pool.empty key.scope r.config :: r.pools := rfl
      have hswaps := swaps_of_split ho.sound hl (by simp) hplaces.scope hplaces.sound
      exact places_of_swaps hswaps ho.sound hplaces

theorem bindOwner_of_not {ε : Type} {owner : ObjectId} {scope : ScopeTag}
    (hn : ¬ ((r.pool? scope).isSome = true ∧ ¬ owner.isNull = true)) :
    bindOwner (ε := ε) owner scope r = .ok false r := by
  rw [bindOwner, if_neg hn]

theorem bindOwner_of_pool {ε : Type} {owner : ObjectId} {scope : ScopeTag}
    (hp : (r.pool? scope).isSome = true ∧ ¬ owner.isNull = true) :
    bindOwner (ε := ε) owner scope r =
      .ok true { r with owners := r.owners.insert owner scope } := by
  rw [bindOwner, if_pos hp]

/-- The pools of some tags are dropped, and the owners bound to them. -/
def less (r : Registry) (p : ScopeTag → Bool) : Registry :=
  { r with
    pools := r.pools.filter fun q => !p q.scope
    owners := r.owners.filter fun _ t => !p t }

theorem less_nothing (r : Registry) : (r.less fun _ => false) = r := by
  simp [less, Assoc.filter]

theorem less_less (r : Registry) (p q : ScopeTag → Bool) :
    (r.less p).less q = r.less fun t => p t || q t := by
  simp [less, Assoc.filter, List.filter_filter, Bool.and_comm]

theorem tags_less (r : Registry) (p : ScopeTag → Bool) :
    (r.less p).tags = r.tags.filter fun t => !p t := by
  rw [tags, tags, List.filter_map]
  rfl

theorem pool?_less (r : Registry) (p : ScopeTag → Bool) (t : ScopeTag) :
    (r.less p).pool? t = if p t = true then none else r.pool? t := by
  simp only [pool?, less, List.find?_filter]
  by_cases ht : p t = true
  · rw [if_pos ht, List.find?_eq_none]
    intro q _
    by_cases hq : q.scope = t <;> simp [hq, ht]
  · rw [if_neg ht]
    congr 1
    funext q
    by_cases hq : q.scope = t <;> simp [hq, ht]

theorem sound_less (h : r.Sound) (p : ScopeTag → Bool) : (r.less p).Sound where
  config := h.config
  issued_le := h.issued_le
  pool := fun q hq => h.pool q (List.mem_filter.1 hq).1
  tag := fun q hq => h.tag q (List.mem_filter.1 hq).1

structure Drops (scope : ScopeTag) (r r' : Registry) : Prop where
  config : r'.config = r.config
  issued : r'.issued = r.issued
  sound : r'.Sound
  tags : r'.tags = r.tags.filter (· ≠ scope)
  pool : ∀ t, r'.pool? t = if t = scope then none else r.pool? t
  owners : r'.owners = r.owners.filter fun _ s => s ≠ scope

theorem drops_less (h : r.Sound) (scope : ScopeTag) : Drops scope r (r.less (· = scope)) where
  config := rfl
  issued := rfl
  sound := sound_less h _
  tags := by simp [tags_less]
  pool := by simp [pool?_less]
  owners := by simp [less]

theorem removePool_of_none {scope : ScopeTag} (hp : r.pool? scope = none) :
    removePool scope r = .error (.refused (.unknownScope scope)) r := by
  simp only [removePool, hp]

theorem removePool_of_some {scope : ScopeTag} {p : Pool} (hp : r.pool? scope = some p) :
    removePool scope r = .ok p.liveCount (r.less (· = scope)) := by
  simp [removePool, hp, less]

theorem removePool_spec (h : r.Sound) (scope : ScopeTag) :
    (r.pool? scope = none ∧
        removePool scope r = .error (.refused (.unknownScope scope)) r) ∨
      ∃ n r', removePool scope r = .ok n r' ∧ Drops scope r r' := by
  cases hp : r.pool? scope with
  | none => exact Or.inl ⟨rfl, removePool_of_none hp⟩
  | some p => exact Or.inr ⟨_, _, removePool_of_some hp, drops_less h scope⟩

end Registry
end DesignStore
