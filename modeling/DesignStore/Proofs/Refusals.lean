/-
Why a record is not created.

A request for a record is checked step by step: the owner, the position of the owner, the scope
that the owners lead to, the kind that the type is bound to in the pool of the scope, and the room
that is left in the arena.  The first check that fails is the reason for which the request fails
(`refusal?`), and a request that fails changes nothing (`create_fails`).  Those that create an
array fail for the same reasons, unless the array is to have more room than there can be: that is
found out only when it is placed.

That the last two checks see all there is to see is due to the layout of the pools: an arena is
full only when all slots that the layout allows are in use, and one that is new is not.
-/
import DesignStore.Proofs.ChildCells
import DesignStore.Proofs.PoolLayout
import DesignStore.Proofs.Reset

namespace DesignStore

/-! ## Operations that fail for a reason -/

section

variable {ε σ α β : Type}

/-- An operation fails for the reason there is and changes nothing, or answers if there is none. -/
def FailsAs (why : Option ε) (x : EStateM ε σ α) (s : σ) : Prop :=
  match why with
  | some e => x s = .error e s
  | none => ∃ a t, x s = .ok a t

namespace FailsAs

variable {why : Option ε} {x : EStateM ε σ α} {s t : σ} {e : ε}

theorem answer_eq_error_iff (h : FailsAs why x s) : answer x s = .error e ↔ why = some e := by
  cases why with
  | none =>
    obtain ⟨a, t, hx⟩ := h
    simp [answer_ok hx]
  | some e' =>
    have hx : x s = .error e' s := h
    simp [answer_error hx]

theorem eq_of_error (h : FailsAs why x s) (hx : x s = .error e t) : t = s := by
  cases why with
  | none =>
    obtain ⟨a, t, hx'⟩ := h
    rw [hx] at hx'
    contradiction
  | some e' =>
    have hx' : x s = .error e' s := h
    cases hx.symm.trans hx'
    rfl

/-- What follows an operation and does not fail does not add a reason. -/
theorem bind {f : α → EStateM ε σ β} (h : FailsAs why x s)
    (hf : ∀ a t, x s = .ok a t → ∃ b u, f a t = .ok b u) : FailsAs why (x >>= f) s := by
  cases why with
  | none =>
    obtain ⟨a, t, hx⟩ := h
    obtain ⟨b, u, hr⟩ := hf a t hx
    exact ⟨b, u, (bind_ok hx).trans hr⟩
  | some e => exact bind_error h

/-- An operation that answers as another one fails as that does, if it changes nothing then. -/
theorem of_answer {τ : Type} {y : EStateM ε τ β} {u : τ} {f : α → β} (h : FailsAs why x s)
    (hanswer : answer y u = (answer x s).map f) (hstill : ∀ e v, y u = .error e v → v = u) :
    FailsAs why y u := by
  cases why with
  | none =>
    obtain ⟨a, t, hx⟩ := h
    rw [answer_ok hx] at hanswer
    exact ⟨f a, _, eq_ok_of_answer hanswer⟩
  | some e =>
    rw [answer_error h] at hanswer
    have hy : y u = .error e (after y u) := eq_error_of_answer hanswer
    rw [hstill e _ hy] at hy
    exact hy

/-- What a pool refuses is a failed placement to the database. -/
theorem placing {why : Option PoolError} {x : EStateM (Failure PoolError) σ α}
    (h : FailsAs (why.map .refused) x s) (t : ObjectType) :
    FailsAs (why.map fun e => .refused (.allocation t e)) (Edit.placing t x) s := by
  cases why with
  | none =>
    obtain ⟨a, u, hx⟩ := h
    exact ⟨a, u, by simp only [Edit.placing, hx]⟩
  | some e =>
    have hx : x s = .error (.refused e) s := h
    show Edit.placing t x s = .error _ s
    simp only [Edit.placing, hx, Failure.map]

end FailsAs
end

variable {c : PoolConfig}

/-! ## Arenas -/

namespace Arena

variable {β : Type} {a b : Arena β} {k : SlotKey}

/-- No slot waits for reuse, and all that the layout allows are in use. -/
def Full (a : Arena β) : Prop :=
  a.freeList = [] ∧ a.slots.length = a.config.capacity

instance (a : Arena β) : Decidable a.Full :=
  inferInstanceAs (Decidable (_ ∧ _))

/-- The slot that is taken is one of those that the layout allows. -/
theorem Draws.not_full (h : Draws k a b) (hs : b.Sound) (hp : b.Packed)
    (hconfig : b.config = a.config) : ¬ a.Full := by
  rintro ⟨hfree, hfull⟩
  cases h with
  | again hwaits =>
    rw [hfree] at hwaits
    contradiction
  | first _ _ _ _ hlength =>
    have hle := hp.length_slots_le hs.pages_le
    rw [hconfig] at hle
    omega

theorem allocate_fails [Inhabited β] (h : a.Sound) (hp : a.Packed) :
    FailsAs (if a.Full then some (.refused (.capacityExceeded a.type a.config.maxPages)) else none)
      allocate a := by
  rcases allocate_packed h hp with ⟨k, b, hr, hplaces, hdraws, hb, hconfig, _⟩ | ⟨hfree, hfull, hr⟩
  · rw [if_neg (hdraws.not_full hplaces.sound hb hconfig)]
    exact ⟨k, b, hr⟩
  · rw [if_pos ⟨hfree, hfull⟩]
    exact hr

end Arena

/-! ## Pools -/

/-- Why a record of a kind is not placed, if it is not. -/
def BoundArena.refusal? (b : BoundArena) (k : RecordKind) : Option PoolError :=
  if b.kind ≠ k then some (.typeMismatch b.type b.kind k)
  else if b.arena.Full then some (.capacityExceeded b.type b.arena.config.maxPages)
  else none

theorem BoundArena.allocate_fails {b : BoundArena} (h : b.Laid c) (hs : b.arena.Sound)
    (k : RecordKind) : FailsAs ((b.refusal? k).map .refused) (BoundArena.allocate k) b := by
  obtain ⟨kind, a⟩ := b
  unfold refusal?
  by_cases hk : kind = k
  · subst hk
    have hfails := Arena.allocate_fails hs h.2
    rw [if_neg (not_not_intro rfl)]
    by_cases hfull : a.Full
    · rw [if_pos hfull] at hfails ⊢
      have hr : a.allocate = .error (.refused (.capacityExceeded a.type a.config.maxPages)) a :=
        hfails
      show BoundArena.allocate kind _ = _
      simp only [BoundArena.allocate, if_true, hr]
      rfl
    · rw [if_neg hfull] at hfails ⊢
      obtain ⟨key, a', hr⟩ := hfails
      exact ⟨key, ⟨kind, a'⟩, by simp only [BoundArena.allocate, if_true, hr]⟩
  · rw [if_pos hk]
    show BoundArena.allocate k _ = _
    simp only [BoundArena.allocate, if_neg hk]
    rfl

namespace Pool

variable {p : Pool}

/-- Why a record of a kind is not placed under a type, if it is not. -/
def refusal? (p : Pool) (k : RecordKind) (t : ObjectType) : Option PoolError :=
  (p.arena? t).bind (·.refusal? k)

theorem Laid.of_arena? (h : p.Laid c) {t : ObjectType} {b : BoundArena}
    (hb : p.arena? t = some b) : b.type = t ∧ b.Laid c :=
  ⟨by simpa using List.find?_some hb, h.arena b (List.mem_of_find?_eq_some hb)⟩

theorem Laid.refusal?_eq_some_iff (h : p.Laid c) {k : RecordKind} {t : ObjectType}
    {e : PoolError} : p.refusal? k t = some e ↔ ∃ b, p.arena? t = some b ∧
      ((b.kind ≠ k ∧ e = .typeMismatch t b.kind k) ∨
        b.kind = k ∧ b.arena.Full ∧ e = .capacityExceeded t c.maxPages) := by
  unfold refusal? BoundArena.refusal?
  rw [Option.bind_eq_some_iff]
  refine exists_congr fun b => and_congr_right fun hb => ?_
  obtain ⟨ht, hconfig, _⟩ := h.of_arena? hb
  rw [ht, hconfig]
  by_cases hk : b.kind = k
  · by_cases hfull : b.arena.Full <;> simp [hk, hfull, eq_comm]
  · simp [hk, eq_comm]

theorem allocate_fails (h : p.Laid c) (hs : p.Sound) (k : RecordKind) (t : ObjectType) :
    FailsAs ((p.refusal? k t).map .refused) (allocate k t) p := by
  unfold refusal?
  cases hb : p.arena? t with
  | none =>
    obtain ⟨key, p', hr, _⟩ := allocate_of_new hs k hb
    exact ⟨key.pack, p', hr⟩
  | some b =>
    have hmem := List.mem_of_find?_eq_some hb
    have hfails := BoundArena.allocate_fails (h.arena b hmem) (hs.arena b hmem) k
    refine hfails.of_answer (f := SlotKey.pack) ?_ fun e p' he => ?_
    · rw [answer_allocate, target, hb, Option.getD_some]
    · rcases allocate_of_bound hs k hb with ⟨_, _, hr, _⟩ | ⟨_, hr⟩ <;> rw [he] at hr <;> cases hr
      rfl

end Pool

/-! ## Databases -/

theorem Registry.answer_onPoolOf {ε α : Type} {r : Registry} {o : ObjectId} {p : Pool}
    (hp : r.poolOf? o = some p) (x : EStateM ε Pool α) :
    answer (onPoolOf o x) r = (answer x p).map some := by
  obtain ⟨s, hs, hp⟩ := Option.bind_eq_some_iff.1 hp
  have hr : answer (onPoolOf o x) r = answer (onPool s x) r := by
    simp only [answer, onPoolOf, hs]
  rw [hr, answer_onPool, hp, Option.elim_some]

theorem Registry.Laid.of_poolOf? {r : Registry} (h : r.Laid) {o : ObjectId} {p : Pool}
    (hp : r.poolOf? o = some p) : p.Sound ∧ p.Laid r.config := by
  obtain ⟨s, _, hp⟩ := Option.bind_eq_some_iff.1 hp
  have hmem := List.mem_of_find?_eq_some hp
  exact ⟨h.sound.pool p hmem, h.pool p hmem⟩

namespace Database

open Registry

variable {db : Database} {k : RecordKind} {t : ObjectType} {owner root : ObjectId}

theorem answer_onRegistry {ε α : Type} (x : EStateM ε Registry α) (db : Database) :
    answer (onRegistry x) db = answer x db.registry := by
  simp only [answer, onRegistry_eq]
  cases x db.registry <;> rfl

theorem answer_place {ε α : Type} {p : Pool} (hp : db.registry.poolOf? root = some p)
    (x : EStateM ε Pool α) :
    answer (onRegistry (onPoolOf root x)) db = (answer x p).map some := by
  rw [answer_onRegistry, answer_onPoolOf hp]

theorem place_fails (h : db.registry.Laid) {p : Pool} (hp : db.registry.poolOf? root = some p)
    (k : RecordKind) (t : ObjectType) :
    FailsAs ((p.refusal? k t).map fun e => .refused (.allocation t e))
      (onRegistry (onPoolOf root (Edit.placing t (Pool.allocate k t)))) db := by
  obtain ⟨hsound, hlaid⟩ := h.of_poolOf? hp
  refine ((Pool.allocate_fails hlaid hsound k t).placing t).of_answer (answer_place hp _)
    fun e db' he => ?_
  rcases place_cases h.sound root k t with hr | ⟨_, _, _, _, _, hr⟩ | ⟨_, hr⟩ <;>
    rw [he] at hr <;> cases hr
  rfl

/-- A record is placed if the pool has no reason to refuse. -/
theorem exists_places (h : db.registry.Laid) {p : Pool} (hp : db.registry.poolOf? root = some p)
    (hwhy : p.refusal? k t = none) : ∃ key r, Places k key db.registry r ∧
      onRegistry (onPoolOf root (Edit.placing t (Pool.allocate k t))) db =
        .ok (some key.pack) { db with registry := r } := by
  have hfails := place_fails h hp k t
  rw [hwhy] at hfails
  obtain ⟨a, db', hplace⟩ := hfails
  rcases place_cases h.sound root k t with hr | ⟨key, r, _, _, hplaces, hr⟩ | ⟨e, hr⟩
  · have hanswer := answer_place hp (Edit.placing t (Pool.allocate k t))
    rw [answer_ok hr] at hanswer
    cases hx : answer (Edit.placing t (Pool.allocate k t)) p <;> rw [hx] at hanswer <;>
      cases hanswer
  · exact ⟨key, r, hplaces, hr⟩
  · rw [hplace] at hr
    contradiction

/-- Why a record is not created, if it is not. -/
def refusal? (db : Database) (k : RecordKind) (t : ObjectType) (owner : ObjectId) :
    Option (Failure DbError) :=
  if owner.isNull then some (.refused (.invalidOwner owner))
  else if db.ownerIndexFor? owner = none then some (.refused (.ownerNotResolved owner))
  else
    match db.scopeRoot owner with
    | .error f => some (.fault f)
    | .ok none => some (.refused (.noPool t owner))
    | .ok (some root) => (db.registry.poolOf? root).bind fun p =>
        (p.refusal? k t).map fun e => .refused (.allocation t e)

/-- An owner of a scope is bound to a pool. -/
theorem exists_pool (h : db.registry.Laid) (hroot : db.scopeRoot owner = .ok (some root)) :
    ∃ p, db.registry.poolOf? root = some p := by
  have howner := isScopeOwner_of_climb (scopeRoot_eq_ok_iff.1 hroot)
  rw [← h.isSome_poolOf?] at howner
  exact Option.isSome_iff_exists.1 howner

theorem create_fails (h : db.registry.Laid) (k : RecordKind) (t : ObjectType) (owner : ObjectId) :
    FailsAs (db.refusal? k t owner) (create k t owner) db := by
  unfold refusal?
  by_cases hn : owner.isNull = true
  · rw [if_pos hn]
    exact create_of_null hn
  rw [if_neg hn]
  cases hi : db.ownerIndexFor? owner with
  | none =>
    rw [if_pos rfl]
    exact create_of_unresolved hn hi
  | some index =>
    rw [if_neg (Option.some_ne_none index)]
    cases hroot : db.scopeRoot owner with
    | error f => exact create_of_fault hn hi hroot
    | ok root =>
      cases root with
      | none => exact create_of_no_scope hn hi hroot
      | some root =>
        obtain ⟨p, hp⟩ := exists_pool h hroot
        simp only [hp, Option.bind_some]
        cases hwhy : p.refusal? k t with
        | some e =>
          have hplace := place_fails h hp k t
          rw [hwhy] at hplace
          exact create_of_refused hn hi hroot hplace
        | none =>
          obtain ⟨key, r, hplaces, hplace⟩ := exists_places h hp hwhy
          exact ⟨key.pack, _, create_of_placed hn hi hroot hplaces.sound hplace⟩

theorem createIdArray_fails (h : db.registry.Laid) (owner : ObjectId) {capacity : Nat}
    (hc : capacity * RecordKind.ids.elementBytes ≤ GrowArray.maxBytes) :
    FailsAs (db.refusal? .ids .array owner) (createIdArray owner capacity) db := by
  refine (create_fails h .ids .array owner).bind fun id db' hr => ?_
  obtain ⟨x, r, hr', _⟩ := createIdArray_of_create h.sound hr hc
  exact ⟨id, _, (bind_ok hr).symm.trans hr'⟩

/-- An array that is to have more room than there can be is placed, and is not made room in. -/
theorem createIdArray_of_lt {capacity : Nat}
    (hc : GrowArray.maxBytes < capacity * RecordKind.ids.elementBytes) (owner : ObjectId) :
    createIdArray owner capacity =
      create .ids .array owner >>= fun _ => throw (.fault .capacityOverflow) := by
  have hrest (id : ObjectId) : (do reserveIds id capacity; return id : Edit ObjectId) =
      throw (.fault .capacityOverflow) := by
    rw [reserveIds_of_lt hc]
    rfl
  exact congrArg (create .ids .array owner >>= ·) (funext hrest)

theorem appendId_none_fails (h : db.registry.Laid) (owner value : ObjectId) :
    FailsAs (db.refusal? .ids .array owner) (appendId none owner value) db := by
  rw [appendId_none]
  refine (createIdArray_fails h owner room_defaultArrayCapacity).bind fun id db' hr => ?_
  obtain ⟨id', db₁, hcreate, _⟩ := ok_of_bind hr
  obtain ⟨x, r, hr', hs, _⟩ := createIdArray_of_create h.sound hcreate room_defaultArrayCapacity
  cases hr.symm.trans hr'
  have hsound : ({ db with registry := r } : Database).registry.Sound := hs.evolves.sound
  obtain ⟨r', hpush, _⟩ := pushing_ok hsound hs.self value
  exact ⟨id, _, hpush⟩

/-! ## Arrays that are gone -/

theorem pushing_of_not_live (h : db.registry.Sound) {array : ObjectId}
    (hlive : db.isLive array = false)
    (hkind : ∀ p t b, db.registry.lookup? array = some p → array.type? = some t →
      p.arena? t = some b → b.kind = .ids) (value : ObjectId) :
    pushing value array db = .error (.refused (.notFound array)) db := by
  have hresolve : db.resolve .ids array = .ok none := by
    cases hk : SlotKey.unpack? array with
    | none =>
      cases hp : db.registry.lookup? array with
      | none => simp only [resolve, hp]
      | some p => simp only [resolve, hp, Pool.resolve, key?_of_unpack?_none hk p]
    | some key =>
      refine resolve_eq_none h hk (fun k hb => ?_) fun hl => ?_
      · obtain ⟨p, hp, hb⟩ := Option.bind_eq_some_iff.1 hb
        obtain ⟨b, harena, rfl⟩ := Option.map_eq_some_iff.1 hb
        exact hkind p key.type b ((lookup?_of_unpack? hk).trans hp)
          (by rw [ObjectId.type?, hk, Option.map_some]) harena
      · rw [(isLive_iff h array).2 hl] at hlive
        contradiction
  exact (bind_ok (update_of_resolve hresolve _)).trans rfl

/-! ## The reasons, one by one -/

/-- The owner is a handle, but has no position and is not live or has no owner. -/
def Unresolved (db : Database) (owner : ObjectId) : Prop :=
  owner.isNull = false ∧ db.hierarchy.indexOf? owner = none ∧
    (db.isLive owner = false ∨ ∃ hd, db.header? owner = some hd ∧ hd.owner.isInvalid = true)

/-- The position that a record of the owner is to carry is known. -/
def Resolved (db : Database) (owner : ObjectId) : Prop :=
  owner.isNull = false ∧ ¬ db.Unresolved owner

theorem ownerIndexFor?_eq_none_iff :
    db.ownerIndexFor? owner = none ↔ db.hierarchy.indexOf? owner = none ∧
      (db.isLive owner = false ∨
        ∃ hd, db.header? owner = some hd ∧ hd.owner.isInvalid = true) := by
  unfold ownerIndexFor? isLive
  cases db.hierarchy.indexOf? owner with
  | some index => simp
  | none =>
    cases db.header? owner with
    | none => simp
    | some hd => simp [Option.filter_some]

theorem refusal?_eq_some_iff {e : Failure DbError} : db.refusal? k t owner = some e ↔
    (owner.isNull = true ∧ e = .refused (.invalidOwner owner)) ∨
    (db.Unresolved owner ∧ e = .refused (.ownerNotResolved owner)) ∨
    (db.Resolved owner ∧ ∃ f, db.scopeRoot owner = .error f ∧ e = .fault f) ∨
    (db.Resolved owner ∧ db.scopeRoot owner = .ok none ∧ e = .refused (.noPool t owner)) ∨
    db.Resolved owner ∧ ∃ root p why, db.scopeRoot owner = .ok (some root) ∧
      db.registry.poolOf? root = some p ∧ p.refusal? k t = some why ∧
      e = .refused (.allocation t why) := by
  unfold refusal? Resolved Unresolved
  rw [← ownerIndexFor?_eq_none_iff]
  by_cases hn : owner.isNull = true
  · simp [hn, eq_comm]
  by_cases hi : db.ownerIndexFor? owner = none
  · simp [hn, hi, eq_comm]
  cases hroot : db.scopeRoot owner with
  | error f => simp [hn, hi, eq_comm]
  | ok root =>
    cases root with
    | none => simp [hn, hi, eq_comm]
    | some root => simp [hn, hi, Option.bind_eq_some_iff, @eq_comm _ e]

theorem refusal?_eq_allocation_iff (h : db.registry.Laid) {e : PoolError} :
    db.refusal? k t owner = some (.refused (.allocation t e)) ↔
      db.Resolved owner ∧ ∃ root p b, db.scopeRoot owner = .ok (some root) ∧
        db.registry.poolOf? root = some p ∧ p.arena? t = some b ∧
        ((b.kind ≠ k ∧ e = .typeMismatch t b.kind k) ∨
          b.kind = k ∧ b.arena.Full ∧ e = .capacityExceeded t db.registry.config.maxPages) := by
  rw [refusal?_eq_some_iff]
  simp only [reduceCtorEq, Failure.refused.injEq, DbError.allocation.injEq, and_false, false_or,
    exists_false, true_and]
  refine and_congr_right fun _ => exists_congr fun root => exists_congr fun p => ?_
  constructor
  · rintro ⟨e', hroot, hp, he, rfl⟩
    obtain ⟨b, hb⟩ := (h.of_poolOf? hp).2.refusal?_eq_some_iff.1 he
    exact ⟨b, hroot, hp, hb⟩
  · rintro ⟨b, hroot, hp, hb⟩
    exact ⟨e, hroot, hp, (h.of_poolOf? hp).2.refusal?_eq_some_iff.2 ⟨b, hb⟩, rfl⟩

/-- What a request for a record of a kind under a type says of the database. -/
structure Verdict (k : RecordKind) (t : ObjectType) (owner : ObjectId) (db : Database)
    (x : Edit ObjectId) : Prop where
  invalidOwner : answer x db = .error (.refused (.invalidOwner owner)) ↔ owner.isNull = true
  ownerNotResolved :
    answer x db = .error (.refused (.ownerNotResolved owner)) ↔ db.Unresolved owner
  fault : ∀ f, answer x db = .error (.fault f) ↔
    db.Resolved owner ∧ db.scopeRoot owner = .error f
  noPool : answer x db = .error (.refused (.noPool t owner)) ↔
    db.Resolved owner ∧ db.scopeRoot owner = .ok none
  /-- The type is bound to another kind in the pool of the scope. -/
  typeMismatch : ∀ stored,
    answer x db = .error (.refused (.allocation t (.typeMismatch t stored k))) ↔
      db.Resolved owner ∧ ∃ root p b, db.scopeRoot owner = .ok (some root) ∧
        db.registry.poolOf? root = some p ∧ p.arena? t = some b ∧ b.kind = stored ∧ stored ≠ k
  /-- No slot waits for reuse, and all that the layout allows are in use. -/
  capacityExceeded : ∀ pages,
    answer x db = .error (.refused (.allocation t (.capacityExceeded t pages))) ↔
      pages = db.config.pool.maxPages ∧ db.Resolved owner ∧
        ∃ root p b, db.scopeRoot owner = .ok (some root) ∧ db.registry.poolOf? root = some p ∧
          p.arena? t = some b ∧ b.kind = k ∧ b.arena.freeList = [] ∧
          b.arena.slots.length = db.config.pool.pageSlots * db.config.pool.maxPages
  /-- There are no other reasons. -/
  failure : ∀ e, answer x db = .error e →
    e = .refused (.invalidOwner owner) ∨ e = .refused (.ownerNotResolved owner) ∨
      (∃ f, e = .fault f) ∨ e = .refused (.noPool t owner) ∨
      (∃ stored, e = .refused (.allocation t (.typeMismatch t stored k))) ∨
      ∃ pages, e = .refused (.allocation t (.capacityExceeded t pages))
  unchanged : ∀ e db', x db = .error e db' → db' = db

theorem verdict_of_fails (h : db.registry.Laid) (hconfig : db.registry.config = db.config.pool)
    {x : Edit ObjectId} (hx : FailsAs (db.refusal? k t owner) x db) :
    Verdict k t owner db x where
  invalidOwner := by
    rw [hx.answer_eq_error_iff, refusal?_eq_some_iff]
    simp
  ownerNotResolved := by
    rw [hx.answer_eq_error_iff, refusal?_eq_some_iff]
    simp
  fault f := by
    rw [hx.answer_eq_error_iff, refusal?_eq_some_iff]
    simp
  noPool := by
    rw [hx.answer_eq_error_iff, refusal?_eq_some_iff]
    simp
  typeMismatch stored := by
    rw [hx.answer_eq_error_iff, refusal?_eq_allocation_iff h]
    refine and_congr_right fun _ => exists_congr fun root => exists_congr fun p =>
      exists_congr fun b => and_congr_right fun _ => and_congr_right fun _ =>
      and_congr_right fun _ => ?_
    constructor
    · rintro (⟨hk, he⟩ | ⟨_, _, he⟩)
      · cases he
        exact ⟨rfl, hk⟩
      · contradiction
    · rintro ⟨rfl, hk⟩
      exact .inl ⟨hk, rfl⟩
  capacityExceeded pages := by
    rw [hx.answer_eq_error_iff, refusal?_eq_allocation_iff h, hconfig]
    constructor
    · rintro ⟨howner, root, p, b, hroot, hp, hb, ⟨_, he⟩ | ⟨hk, ⟨hfree, hlength⟩, he⟩⟩
      · contradiction
      · rw [((h.of_poolOf? hp).2.of_arena? hb).2.1, hconfig] at hlength
        cases he
        exact ⟨rfl, howner, root, p, b, hroot, hp, hb, hk, hfree, hlength⟩
    · rintro ⟨rfl, howner, root, p, b, hroot, hp, hb, hk, hfree, hlength⟩
      refine ⟨howner, root, p, b, hroot, hp, hb, .inr ⟨hk, ⟨hfree, ?_⟩, rfl⟩⟩
      rw [((h.of_poolOf? hp).2.of_arena? hb).2.1, hconfig]
      exact hlength
  failure e he := by
    have hwhy := hx.answer_eq_error_iff.1 he
    rcases refusal?_eq_some_iff.1 hwhy with
      ⟨_, rfl⟩ | ⟨_, rfl⟩ | ⟨_, f, _, rfl⟩ | ⟨_, _, rfl⟩ | ⟨_, _, _, _, _, _, _, rfl⟩
    · exact .inl rfl
    · exact .inr (.inl rfl)
    · exact .inr (.inr (.inl ⟨f, rfl⟩))
    · exact .inr (.inr (.inr (.inl rfl)))
    · obtain ⟨_, _, _, b, _, _, _, ⟨_, rfl⟩ | ⟨_, _, rfl⟩⟩ :=
        (refusal?_eq_allocation_iff h).1 hwhy
      · exact .inr (.inr (.inr (.inr (.inl ⟨b.kind, rfl⟩))))
      · exact .inr (.inr (.inr (.inr (.inr ⟨_, rfl⟩))))
  unchanged _ _ hr := hx.eq_of_error hr

end Database

/-- In every state that a new database of a valid configuration comes to, a request for a record
fails for the first of its checks that fails, with the failure that says so, and is answered if
none does; a request for an array, and one to add to a new array, fails for the same reasons.  A
request to add to an array that is gone, whose type is not bound to another kind, finds none.
A request that fails leaves the database as it was.

A request for an array with more room than there can be fails as one for a record does.  Where that
is answered the request is at fault, and the array it was for stays. -/
theorem creation_fails_exactly {c : StoreConfig} {start : Database}
    (h : Database.new c = .ok start) (cmds : List Command) :
    let db := Database.run cmds start
    (∀ k t owner, Database.Verdict k t owner db (Database.create k t owner)) ∧
      (∀ owner capacity, capacity * RecordKind.ids.elementBytes ≤ GrowArray.maxBytes →
        Database.Verdict .ids .array owner db (Database.createIdArray owner capacity)) ∧
      (∀ owner capacity, GrowArray.maxBytes < capacity * RecordKind.ids.elementBytes →
        (∀ e db', Database.create .ids .array owner db = .error e db' →
          Database.createIdArray owner capacity db = .error e db') ∧
        ∀ id db', Database.create .ids .array owner db = .ok id db' →
          Database.createIdArray owner capacity db = .error (.fault .capacityOverflow) db') ∧
      (∀ owner value,
        Database.Verdict .ids .array owner db (Database.appendId none owner value)) ∧
      ∀ array owner value, db.isLive array = false →
        (∀ p t b, db.registry.lookup? array = some p → array.type? = some t →
          p.arena? t = some b → b.kind = .ids) →
        Database.appendId (some array) owner value db = .error (.refused (.notFound array)) db := by
  intro db
  have hlaid : db.registry.Laid := Database.laid_run h cmds
  have hconfig : db.registry.config = db.config.pool := by
    obtain ⟨hc, hpool⟩ := Database.config_run h cmds
    rw [hpool, hc]
  refine ⟨fun k t owner => ?_, fun owner capacity hc => ?_, fun owner capacity hc => ⟨?_, ?_⟩,
    fun owner value => ?_, fun array owner value hlive hkind => ?_⟩
  · exact Database.verdict_of_fails hlaid hconfig (Database.create_fails hlaid k t owner)
  · exact Database.verdict_of_fails hlaid hconfig (Database.createIdArray_fails hlaid owner hc)
  · intro e db' hr
    rw [Database.createIdArray_of_lt hc]
    exact bind_error hr
  · intro id db' hr
    rw [Database.createIdArray_of_lt hc]
    exact bind_ok hr
  · exact Database.verdict_of_fails hlaid hconfig
      (Database.appendId_none_fails hlaid owner value)
  · rw [Database.appendId_some]
    exact Database.pushing_of_not_live hlaid.sound hlive hkind value

/-- There is room for one record of a type.  The top cell takes it from the other cells; the slot of
an array that was destroyed waits for the next one, which takes it even if it cannot be made room
in. -/
theorem creation_fails_exactly_full :
    let c : StoreConfig := { pool := { pageSlots := 1, maxPages := 1 } }
    let top := Session.firstPage 1 .cell 0 0
    let array := Session.firstPage 1 .array 0 0
    let db := Database.run [.initTopCell "top", .createIdArray top 4, .destroy array]
      (Database.empty c)
    (∃ root p b, db.scopeRoot top = .ok (some root) ∧ db.registry.poolOf? root = some p ∧
        p.arena? .cell = some b ∧ b.kind = .cell ∧ b.arena.freeList = [] ∧
        b.arena.slots.length = 1) ∧
      after (Database.create .cell .cell top) db = db ∧
      (∃ id, answer (Database.createIdArray top 4) db = .ok id) ∧
      answer (Database.createIdArray array 4) db = .error (.refused (.ownerNotResolved array)) ∧
      Database.createIdArray top (2 ^ 60) db =
        .error (.fault .capacityOverflow) (after (Database.create .ids .array top) db) ∧
      Database.appendId (some array) top top db = .error (.refused (.notFound array)) db := by
  intro c top array db
  obtain ⟨hcreate, harray, hover, _, happend⟩ := creation_fails_exactly (c := c) rfl
    [.initTopCell "top", .createIdArray top 4, .destroy array]
  rw [show Database.run _ (Database.empty c) = db from rfl] at hcreate harray hover happend
  have hfull : answer (Database.create .cell .cell top) db =
      .error (.refused (.allocation .cell (.capacityExceeded .cell 1))) := by decide +kernel
  have hlive : db.isLive array = false := by decide +kernel
  have hkind : ((db.registry.lookup? array).bind fun p => (p.arena? .array).map (·.kind)) =
      some .ids := by decide +kernel
  obtain ⟨_, _, root, p, b, hroot, hp, hb, hk, hfree, hlength⟩ :=
    ((hcreate .cell .cell top).capacityExceeded 1).1 hfull
  have hcapacity : db.config.pool.pageSlots * db.config.pool.maxPages = 1 := by decide +kernel
  refine ⟨⟨root, p, b, hroot, hp, hb, hk, hfree, hlength.trans hcapacity⟩,
    (hcreate .cell .cell top).unchanged _ _ (eq_error_of_answer hfull), ?_, ?_, ?_,
    happend array top top hlive fun p t b hp ht hb => ?_⟩
  · exact ⟨Session.firstPage 1 .array 1 0, by decide +kernel⟩
  · exact (harray array 4 (by decide)).ownerNotResolved.2 ⟨rfl, by decide +kernel, .inl hlive⟩
  · have hplaced : answer (Database.create .ids .array top) db =
        .ok (Session.firstPage 1 .array 1 0) := by decide +kernel
    exact (hover top (2 ^ 60) (by decide)).2 _ _ (eq_ok_of_answer hplaced)
  · have ht : t = .array := Option.some.inj (ht.symm.trans (by decide +kernel))
    subst ht
    rw [hp, Option.bind_some, hb] at hkind
    exact Option.some.inj hkind

/-- The owner of an array belongs to a scope, which has room for the array.  The request for it is at
fault all the same, since so much as it is to hold cannot be reserved, and there is a record more. -/
theorem createIdArray_overflows :
    let top := Session.firstPage 1 .cell 0 0
    let db := Database.run [.initTopCell "top"] (Database.empty {})
    let db' := after (Database.createIdArray top (2 ^ 60)) db
    db.scopeRoot top = .ok (some top) ∧
      answer (Database.create .ids .array top) db = .ok (Session.firstPage 1 .array 0 0) ∧
      answer (Database.createIdArray top (2 ^ 60)) db = .error (.fault .capacityOverflow) ∧
      db.registry.liveCount = 1 ∧ db'.registry.liveCount = 2 ∧
      ¬ Database.Verdict .ids .array top db (Database.createIdArray top (2 ^ 60)) := by
  intro top db db'
  have hroot : db.scopeRoot top = .ok (some top) := by decide +kernel
  have hfault : answer (Database.createIdArray top (2 ^ 60)) db =
      .error (.fault .capacityOverflow) := by decide +kernel
  refine ⟨hroot, by decide +kernel, hfault, by decide +kernel, by decide +kernel, fun h => ?_⟩
  have herror := ((h.fault .capacityOverflow).1 hfault).2
  cases hroot.symm.trans herror

end DesignStore
