/-
Pools keep the records of their arenas apart.

A slot of a pool is known by a record type and a place.  What is in it is an
`Occupant`: a record with its generation and the kind of record the slot is for.  Reading
a handle in a pool is reading the slot of the handle, in the generation of the handle
(`inspect?_eq`, `resolve_eq_some_iff`), and what an operation of a pool does is said by
what is in the slots afterwards.
-/
import DesignStore.Pool
import DesignStore.Proofs.Arena
import DesignStore.Proofs.Handle

namespace DesignStore

/-- What a header change makes of a header.  A change that is a fault makes nothing of
it. -/
def HeaderEdit.perform (e : HeaderEdit) (h : Header) : Header :=
  match e.apply h with
  | .ok h => h
  | .error _ => h

/-! ## Occupants -/

/-- A change of a record, whatever its kind. -/
abbrev Change : Type :=
  (k : RecordKind) → Record k.Body → Record k.Body

namespace Change

/-- A change of records of kind `k`, which leaves the others alone. -/
def write (k : RecordKind) (f : Record k.Body → Record k.Body) : Change := fun k' r =>
  if h : k' = k then h ▸ f (h ▸ r) else r

theorem write_self (k : RecordKind) (f : Record k.Body → Record k.Body) (r : Record k.Body) :
    write k f k r = f r := by
  simp [write]

theorem write_other {k k' : RecordKind} (h : k' ≠ k) (f : Record k.Body → Record k.Body)
    (r : Record k'.Body) : write k f k' r = r := by
  simp [write, h]

def body (k : RecordKind) (f : k.Body → k.Body) : Change :=
  write k fun r => { r with body := f r.body }

def header (f : Header → Header) : Change := fun _ r => r.mapHeader f

theorem isValid_body (k : RecordKind) (f : k.Body → k.Body) {k' : RecordKind}
    (r : Record k'.Body) : (body k f k' r).isValid = r.isValid := by
  by_cases h : k' = k
  · subst h
    rw [body, write_self]
    rfl
  · rw [body, write_other h]

def clear : Change := fun _ r => r.clear

end Change

structure Occupant where
  kind : RecordKind
  generation : UInt8
  record : Record kind.Body

namespace Occupant

def isValid (o : Occupant) : Bool :=
  o.record.isValid

/-- The change of the occupant of generation `g`, if this is it and it is live. -/
def touch (g : UInt8) (c : Change) (o : Occupant) : Occupant :=
  if o.generation = g ∧ o.isValid = true then { o with record := c o.kind o.record } else o

def placed (kind : RecordKind) (k : SlotKey) : Occupant :=
  { kind, generation := k.generation, record := Record.placed k }

theorem touch_of_live {g : UInt8} {o : Occupant} (h : o.generation = g ∧ o.isValid = true)
    (c : Change) : o.touch g c = { o with record := c o.kind o.record } := if_pos h

theorem touch_of_not_live {g : UInt8} {o : Occupant}
    (h : ¬ (o.generation = g ∧ o.isValid = true)) (c : Change) : o.touch g c = o := if_neg h

theorem touch_generation (g : UInt8) (c : Change) (o : Occupant) :
    (o.touch g c).generation = o.generation := by
  unfold touch
  split <;> rfl

theorem touch_kind (g : UInt8) (c : Change) (o : Occupant) : (o.touch g c).kind = o.kind := by
  unfold touch
  split <;> rfl

theorem isValid_of_touch {g : UInt8} {c : Change} {o : Occupant}
    (h : (o.touch g c).isValid = true) : o.isValid = true := by
  by_cases ho : o.generation = g ∧ o.isValid = true
  · exact ho.2
  · rwa [touch_of_not_live ho] at h

end Occupant

/-! ## Arenas of any kind -/

def Slot.occupant {kind : RecordKind} (s : Slot kind.Body) : Occupant :=
  { kind, generation := s.generation, record := s.record }

theorem Slot.occupant_touch {kind : RecordKind} (s : Slot kind.Body) (g : UInt8) (c : Change) :
    (s.touch g (c kind)).occupant = s.occupant.touch g c := by
  by_cases h : s.generation = g ∧ s.record.isValid = true
  · rw [Occupant.touch_of_live h, Slot.touch, if_pos h]
    rfl
  · rw [Occupant.touch_of_not_live h, Slot.touch, if_neg h]

namespace BoundArena

variable {ε : Type}

def occupant? (b : BoundArena) (p : Place) : Option Occupant :=
  (b.arena.slotAt? p).map Slot.occupant

structure Touches (k : SlotKey) (c : Change) (a b : BoundArena) : Prop where
  kind : b.kind = a.kind
  scope : b.arena.scope = a.arena.scope
  type : b.type = a.type
  sound : a.arena.Sound → b.arena.Sound
  slot : ∀ p, b.occupant? p =
    if p = k.place then (a.occupant? p).map (Occupant.touch k.generation c) else a.occupant? p

theorem touches_of_arena {kind : RecordKind} {k : SlotKey} {c : Change} {a b : Arena kind.Body}
    (h : Arena.Touches k (c kind) a b) : Touches k c ⟨kind, a⟩ ⟨kind, b⟩ where
  kind := rfl
  scope := h.scope
  type := h.type
  sound := h.sound
  slot := by
    intro p
    simp only [occupant?, h.slot p]
    by_cases hp : p = k.place
    · rw [if_pos hp, if_pos hp]
      cases a.slotAt? p with
      | none => rfl
      | some s => simp only [Option.map_some, Slot.occupant_touch]
    · rw [if_neg hp, if_neg hp]

theorem touches_refl {b : BoundArena} {k : SlotKey} {c : Change}
    (h : ∀ o, b.occupant? k.place = some o → o.touch k.generation c = o) : Touches k c b b where
  kind := rfl
  scope := rfl
  type := rfl
  sound := id
  slot := by
    intro p
    by_cases hp : p = k.place
    · rw [if_pos hp, hp]
      cases ho : b.occupant? k.place with
      | none => rfl
      | some o => rw [Option.map_some, h o ho]
    · rw [if_neg hp]

theorem after_update_self {kind : RecordKind} (key : SlotKey)
    (f : Record kind.Body → Record kind.Body) (a : Arena kind.Body) :
    after (update kind key f : EStateM (Failure ε) BoundArena _) ⟨kind, a⟩ =
      ⟨kind, after (Arena.update key f : EStateM (Failure ε) _ _) a⟩ := by
  simp only [after, update, as?_self]
  cases (Arena.update key f : EStateM (Failure ε) _ _) a <;> rfl

theorem after_update_other {b : BoundArena} {k : RecordKind} (hk : b.kind ≠ k) (key : SlotKey)
    (f : Record k.Body → Record k.Body) :
    after (update k key f : EStateM (Failure ε) BoundArena _) b = b := by
  simp [after, update, as?, hk]

theorem touches_update {b : BoundArena} {key : SlotKey} (hk : b.arena.Names key) (k : RecordKind)
    (f : Record k.Body → Record k.Body) :
    Touches key (Change.write k f) b
      (after (update k key f : EStateM (Failure ε) BoundArena _) b) := by
  obtain ⟨kind, a⟩ := b
  by_cases hkind : kind = k
  · subst hkind
    rw [after_update_self]
    refine touches_of_arena ?_
    rw [show Change.write kind f kind = f from funext fun r => Change.write_self kind f r]
    exact Arena.touches_update hk f
  · rw [after_update_other hkind]
    refine touches_refl fun o ho => ?_
    have ho : o.kind ≠ k := by
      obtain ⟨s, _, rfl⟩ := Option.map_eq_some_iff.1 ho
      exact hkind
    unfold Occupant.touch
    split
    · rw [Change.write_other ho]
    · rfl

theorem update_of_live {b : BoundArena} {key : SlotKey} (hk : b.arena.Names key)
    (h : (b.arena.get? key).isSome = true) (f : Record b.kind.Body → Record b.kind.Body) :
    ∃ r t, (update b.kind key f : EStateM (Failure ε) BoundArena _) b = .ok (some r) t := by
  obtain ⟨kind, a⟩ := b
  obtain ⟨r, t, hr⟩ := Arena.update_of_live (ε := Failure ε) hk h f
  exact ⟨r, ⟨kind, t⟩, by simp only [update, as?_self, hr]⟩

theorem touches_modifyHeader {b : BoundArena} {key : SlotKey} (hk : b.arena.Names key)
    (h : (b.arena.get? key).isSome = true) (f : Header → Header) :
    Touches key (Change.header f) b (b.modifyHeader key f) :=
  touches_of_arena (Arena.touches_modifyHeader hk h f)

theorem free_eq (b : BoundArena) (key : SlotKey) :
    ∃ b', (free key : EStateM ε BoundArena Bool) b = .ok (b.arena.get? key).isSome b' ∧
      (b.arena.Names key → Touches key Change.clear b b') := by
  obtain ⟨kind, a⟩ := b
  obtain ⟨a', ha', ht⟩ := Arena.free_eq (ε := ε) a key
  exact ⟨⟨kind, a'⟩, by simp only [free, ha'], fun hk => touches_of_arena (ht hk)⟩

structure Places (k : SlotKey) (a b : BoundArena) : Prop where
  kind : b.kind = a.kind
  scope : b.arena.scope = a.arena.scope
  type : b.type = a.type
  names : a.arena.Names k
  sound : b.arena.Sound
  fresh : ∀ o, a.occupant? k.place = some o →
    o.isValid = false ∧ o.generation.toNat < k.generation.toNat
  slot : ∀ p, b.occupant? p =
    if p = k.place then some (Occupant.placed a.kind k) else a.occupant? p

theorem allocate_spec {b : BoundArena} (h : b.arena.Sound) (k : RecordKind) :
    (∃ key b', allocate k b = .ok key b' ∧ b.kind = k ∧ Places key b b') ∨
      ∃ e, allocate k b = .error (.refused e) b := by
  obtain ⟨kind, a⟩ := b
  by_cases hk : kind = k
  · rcases Arena.allocate_spec h with ⟨key, a', ha', hp⟩ | hr
    · refine Or.inl ⟨key, ⟨kind, a'⟩, by simp only [allocate, if_pos hk, ha'], hk, rfl, hp.scope,
        hp.type, hp.names, hp.sound, ?_, ?_⟩
      · intro o ho
        obtain ⟨s, hs, rfl⟩ := Option.map_eq_some_iff.1 ho
        exact hp.fresh s hs
      · intro p
        simp only [occupant?, hp.slot p]
        by_cases hq : p = key.place
        · rw [if_pos hq, if_pos hq]
          rfl
        · rw [if_neg hq, if_neg hq]
    · refine Or.inr ⟨.capacityExceeded a.type a.pages.size, ?_⟩
      simp only [allocate, if_pos hk, hr]
  · refine Or.inr ⟨.typeMismatch a.type kind k, ?_⟩
    simp only [allocate, if_neg hk]

end BoundArena

/-! ## Pools -/

namespace Pool

variable {ε α : Type}

def occupant? (p : Pool) (t : ObjectType) (q : Place) : Option Occupant :=
  (p.arena? t).bind (·.occupant? q)

def kind? (p : Pool) (t : ObjectType) : Option RecordKind :=
  (p.arena? t).map (·.kind)

/-- Every arena is one of this pool, and ready to place records. -/
structure Sound (p : Pool) : Prop where
  config : p.config.Valid
  scope : ∀ b ∈ p.arenas, b.arena.scope = p.scope
  arena : ∀ b ∈ p.arenas, b.arena.Sound

theorem sound_empty (scope : ScopeTag) {c : PoolConfig} (h : c.Valid) : (empty scope c).Sound where
  config := h
  scope := by simp [empty]
  arena := by simp [empty]

theorem occupant?_empty (scope : ScopeTag) (c : PoolConfig) (t : ObjectType) (q : Place) :
    (empty scope c).occupant? t q = none := rfl

theorem kind?_of_occupant? {p : Pool} {t : ObjectType} {q : Place} {o : Occupant}
    (ho : p.occupant? t q = some o) : p.kind? t = some o.kind := by
  obtain ⟨b, hb, ho⟩ := Option.bind_eq_some_iff.1 ho
  obtain ⟨s, _, rfl⟩ := Option.map_eq_some_iff.1 ho
  rw [kind?, hb]
  rfl

theorem key?_eq_some_iff {p : Pool} {id : ObjectId} {key : SlotKey} :
    p.key? id = some key ↔ SlotKey.unpack? id = some key ∧ key.scope = p.scope := by
  simp [key?]

/-- The arena a handle of the pool leads to is the one its key is of. -/
theorem Sound.names {p : Pool} (h : p.Sound) {id : ObjectId} {key : SlotKey} {b : BoundArena}
    (hkey : p.key? id = some key) (hb : p.arena? key.type = some b) : b.arena.Names key := by
  have hscope := h.scope b (List.mem_of_find?_eq_some hb)
  have htype : b.type = key.type := by simpa using List.find?_some hb
  exact ⟨by rw [hscope, (key?_eq_some_iff.1 hkey).2], htype.symm⟩

/-! ### Reading -/

theorem inspect?_eq {p : Pool} (h : p.Sound) {id : ObjectId} {key : SlotKey}
    (hkey : p.key? id = some key) :
    p.inspect? id = ((p.occupant? key.type key.place).filter
      (·.generation = key.generation)).map (·.record.header) := by
  simp only [inspect?, hkey, Option.bind_eq_bind, Option.bind_some, occupant?]
  cases hb : p.arena? key.type with
  | none => rfl
  | some b =>
    simp only [Option.bind_some, BoundArena.inspect?, BoundArena.occupant?,
      Arena.inspect?_of_names (h.names hkey hb)]
    cases b.arena.slotAt? key.place with
    | none => rfl
    | some s =>
      by_cases hg : s.generation = key.generation
      · simp [Option.filter_some, Slot.occupant, hg]
      · simp [Option.filter_some, Slot.occupant, hg]

/-- Reading as the kind the type is bound to finds the live record of the handle. -/
theorem resolve_eq_some_iff {p : Pool} (h : p.Sound) {id : ObjectId} {key : SlotKey}
    (hkey : p.key? id = some key) {k : RecordKind} {r : Record k.Body} :
    p.resolve k id = .ok (some r) ↔ r.isValid = true ∧
      p.occupant? key.type key.place =
        some { kind := k, generation := key.generation, record := r } := by
  simp only [resolve, hkey, occupant?]
  cases hb : p.arena? key.type with
  | none => simp
  | some b =>
    have hn := h.names hkey hb
    obtain ⟨kind, a⟩ := b
    by_cases hkind : kind = k
    · subst hkind
      simp only [BoundArena.as?_self, Except.ok.injEq, Arena.get?_eq_some_iff hn, Option.bind_some,
        BoundArena.occupant?]
      cases a.slotAt? key.place with
      | none => simp
      | some s =>
        obtain ⟨g, r'⟩ := s
        simp [Slot.occupant]
    · simp only [BoundArena.as?, dif_neg hkind, Option.bind_some, BoundArena.occupant?,
        reduceCtorEq, false_iff, not_and]
      intro _ ho
      obtain ⟨s, _, hs⟩ := Option.map_eq_some_iff.1 ho
      exact hkind (congrArg Occupant.kind hs)

theorem resolve_eq_ok {p : Pool} {id : ObjectId} {key : SlotKey} (hkey : p.key? id = some key)
    {k : RecordKind} (hk : ∀ k' ∈ p.kind? key.type, k' = k) :
    ∃ r, p.resolve k id = .ok r := by
  simp only [resolve, hkey]
  cases hb : p.arena? key.type with
  | none => exact ⟨none, rfl⟩
  | some b =>
    obtain ⟨kind, a⟩ := b
    have hkind : kind = k := hk kind (by simp [kind?, hb])
    subst hkind
    exact ⟨a.get? key, by simp only [BoundArena.as?_self]⟩

/-! ### Changing records -/

structure Touches (k : SlotKey) (c : Change) (p p' : Pool) : Prop where
  scope : p'.scope = p.scope
  config : p'.config = p.config
  sound : p'.Sound
  kind : ∀ t, p'.kind? t = p.kind? t
  slot : ∀ t q, p'.occupant? t q =
    if t = k.type ∧ q = k.place then (p.occupant? t q).map (Occupant.touch k.generation c)
    else p.occupant? t q

theorem touches_refl {p : Pool} (h : p.Sound) {k : SlotKey} {c : Change}
    (ho : ∀ o, p.occupant? k.type k.place = some o → o.touch k.generation c = o) :
    Touches k c p p where
  scope := rfl
  config := rfl
  sound := h
  kind := fun _ => rfl
  slot := by
    intro t q
    by_cases hq : t = k.type ∧ q = k.place
    · rw [if_pos hq, hq.1, hq.2]
      cases h : p.occupant? k.type k.place with
      | none => rfl
      | some o => rw [Option.map_some, ho o h]
    · rw [if_neg hq]

theorem onArena_eq (key : SlotKey) (x : EStateM ε BoundArena α) (p : Pool) :
    onArena key x p = match onFirst (·.type = key.type) x p.arenas with
      | .ok a arenas => .ok a { p with arenas }
      | .error e arenas => .error e { p with arenas } := rfl

theorem after_onArena (key : SlotKey) (x : EStateM ε BoundArena α) (p : Pool) :
    after (onArena key x) p =
      { p with arenas := after (onFirst (·.type = key.type) x) p.arenas } := by
  simp only [after, onArena_eq]
  cases onFirst (·.type = key.type) x p.arenas <;> rfl

theorem arena?_after_onArena {p : Pool} {k : SlotKey} {x : EStateM ε BoundArena α}
    (hx : ∀ b, p.arena? k.type = some b → (after x b).type = b.type) :
    (after (onArena k x) p).arena? k.type = (p.arena? k.type).map (after x) := by
  rw [after_onArena]
  refine find?_after_onFirst fun b hb => ?_
  simpa [hx b hb] using List.find?_some hb

theorem arena?_after_onArena_other {p : Pool} {k : SlotKey} {x : EStateM ε BoundArena α}
    (hx : ∀ b, p.arena? k.type = some b → (after x b).type = b.type) {t : ObjectType}
    (ht : t ≠ k.type) : (after (onArena k x) p).arena? t = p.arena? t := by
  rw [after_onArena]
  have hne (b : BoundArena) (hb : p.arena? k.type = some b) : b.type ≠ t := by
    have : b.type = k.type := by simpa using List.find?_some hb
    rw [this]
    exact ht.symm
  refine find?_after_onFirst_other (fun b hb => ?_) fun b hb => ?_
  · simpa using hne b hb
  · simpa [hx b hb] using hne b hb

/-- What is done to the arena of a key is done to the pool. -/
theorem touches_onArena {p : Pool} (h : p.Sound) {k : SlotKey} {c : Change}
    {x : EStateM ε BoundArena α}
    (hx : ∀ b, p.arena? k.type = some b → BoundArena.Touches k c b (after x b)) :
    Touches k c p (after (onArena k x) p) := by
  have hself := arena?_after_onArena fun b hb => (hx b hb).type
  have hother (t : ObjectType) (ht : t ≠ k.type) :=
    arena?_after_onArena_other (fun b hb => (hx b hb).type) ht
  refine ⟨by rw [after_onArena], by rw [after_onArena], ⟨by rw [after_onArena]; exact h.config,
    ?_, ?_⟩, fun t => ?_, fun t q => ?_⟩
  · rw [after_onArena]
    exact forall_after_onFirst (fun b hb hs => by rw [(hx b hb).scope, hs]) h.scope
  · rw [after_onArena]
    exact forall_after_onFirst (fun b hb hs => (hx b hb).sound hs) h.arena
  · by_cases ht : t = k.type
    · rw [kind?, kind?, ht, hself]
      cases hb : p.arena? k.type with
      | none => rfl
      | some b => exact congrArg some (hx b hb).kind
    · rw [kind?, kind?, hother t ht]
  · by_cases ht : t = k.type
    · rw [occupant?, occupant?, ht, hself]
      cases hb : p.arena? k.type with
      | none => simp
      | some b => simpa using (hx b hb).slot q
    · rw [occupant?, occupant?, hother t ht, if_neg fun e => ht e.1]

theorem isLive_eq {p : Pool} {id : ObjectId} {key : SlotKey} (hkey : p.key? id = some key) :
    p.isLive id = ((p.arena? key.type).map fun b => (b.arena.get? key).isSome).getD false := by
  simp only [isLive, header?, inspect?, hkey, Option.bind_eq_bind, Option.bind_some]
  cases p.arena? key.type with
  | none => rfl
  | some b =>
    simp only [Option.bind_some, BoundArena.inspect?, Arena.get?, Option.map_some, Option.getD_some]
    cases b.arena.inspect? key with
    | none => rfl
    | some r => by_cases hr : r.isValid = true <;> simp_all [Option.filter_some, Record.isValid]

theorem free_of_key {p : Pool} (h : p.Sound) {id : ObjectId} {key : SlotKey}
    (hkey : p.key? id = some key) :
    ∃ p', (free id : EStateM ε Pool Bool) p = .ok (p.isLive id) p' ∧
      Touches key Change.clear p p' := by
  have hfree : (free id : EStateM ε Pool Bool) p =
      ((onArena key (BoundArena.free key)).map (·.getD false) : EStateM ε Pool Bool) p := by
    simp only [free, hkey]
  have ht : Touches key Change.clear p (after (onArena key (BoundArena.free (ε := ε) key)) p) := by
    refine touches_onArena h fun b hb => ?_
    obtain ⟨b', hb', ht⟩ := BoundArena.free_eq (ε := ε) b key
    rw [after_ok hb']
    exact ht (h.names hkey hb)
  refine ⟨_, ?_, ht⟩
  rw [hfree, isLive_eq hkey]
  cases hb : p.arena? key.type with
  | none =>
    have ho : onFirst (·.type = key.type) (BoundArena.free (ε := ε) key) p.arenas =
        .ok none p.arenas := onFirst_of_none hb
    simp only [EStateM.map, after, onArena_eq, ho]
    rfl
  | some b =>
    obtain ⟨l₁, l₂, hl, hl₁, hs⟩ := find?_split hb
    obtain ⟨b', hb', _⟩ := BoundArena.free_eq (ε := ε) b key
    have ho : onFirst (·.type = key.type) (BoundArena.free (ε := ε) key) p.arenas =
        .ok (some (b.arena.get? key).isSome) (l₁ ++ b' :: l₂) := by
      rw [hl, onFirst_append hl₁ hs, hb']
    simp only [EStateM.map, after, onArena_eq, ho]
    rfl

theorem free_of_no_key {p : Pool} {id : ObjectId} (hkey : p.key? id = none) :
    (free id : EStateM ε Pool Bool) p = .ok false p := by
  simp only [free, hkey]

/-- Nothing is changed where there is no live record to free. -/
theorem free_still {p : Pool} {id : ObjectId} (hn : p.isLive id = false) :
    after (free id : EStateM ε Pool Bool) p = p := by
  cases hkey : p.key? id with
  | none => exact after_ok (free_of_no_key hkey)
  | some key =>
    have hfree : after (free id : EStateM ε Pool Bool) p =
        after (onArena key (BoundArena.free (ε := ε) key)) p := by
      simp only [after, free, hkey, EStateM.map]
      cases onArena key (BoundArena.free (ε := ε) key) p <;> rfl
    rw [hfree, after_onArena, onFirst_still fun b hb => ?_]
    have hb : p.arena? key.type = some b := hb
    rw [isLive_eq hkey, hb] at hn
    obtain ⟨kind, a⟩ := b
    have hget : ¬ (a.get? key).isSome = true := by simpa using hn
    simp only [after, BoundArena.free, Arena.free, if_neg hget]

theorem after_update {p : Pool} {id : ObjectId} {key : SlotKey} (hkey : p.key? id = some key)
    (k : RecordKind) (f : Record k.Body → Record k.Body) :
    after (update k id f : EStateM (Failure ε) Pool (Option (Record k.Body))) p =
      after (onArena key (BoundArena.update (ε := ε) k key f)) p := by
  simp only [after, update, hkey, EStateM.map]
  cases onArena key (BoundArena.update (ε := ε) k key f) p <;> rfl

theorem touches_update {p : Pool} (h : p.Sound) {id : ObjectId} {key : SlotKey}
    (hkey : p.key? id = some key) (k : RecordKind) (f : Record k.Body → Record k.Body) :
    Touches key (Change.write k f) p
      (after (update k id f : EStateM (Failure ε) Pool (Option (Record k.Body))) p) := by
  rw [after_update hkey]
  exact touches_onArena h fun b hb => BoundArena.touches_update (h.names hkey hb) k f

theorem update_of_live {p : Pool} (h : p.Sound) {id : ObjectId} {key : SlotKey}
    (hkey : p.key? id = some key) {k : RecordKind} (hk : p.kind? key.type = some k)
    (hlive : p.isLive id = true) (f : Record k.Body → Record k.Body) :
    ∃ r t, (update k id f : EStateM (Failure ε) Pool (Option (Record k.Body))) p =
      .ok (some r) t := by
  obtain ⟨b, hb, rfl⟩ := Option.map_eq_some_iff.1 hk
  rw [isLive_eq hkey, hb] at hlive
  obtain ⟨r, t, hr⟩ := BoundArena.update_of_live (ε := ε) (h.names hkey hb) hlive f
  have ho := onFirst_of_some (p := fun b : BoundArena => b.type = key.type) hb hr
  exact ⟨r, _, by simp only [update, hkey, EStateM.map, onArena_eq, ho]; rfl⟩

theorem update_of_no_key {p : Pool} {id : ObjectId} (hkey : p.key? id = none) (k : RecordKind)
    (f : Record k.Body → Record k.Body) :
    (update k id f : EStateM (Failure ε) Pool (Option (Record k.Body))) p = .ok none p := by
  simp only [update, hkey]

/-- What is written to is a live record of the kind that is asked for. -/
theorem resolve_of_update {p p' : Pool} {k : RecordKind} {id : ObjectId}
    {f : Record k.Body → Record k.Body} {y : Record k.Body}
    (h : (update k id f : EStateM (Failure ε) Pool _) p = .ok (some y) p') :
    ∃ x, p.resolve k id = .ok (some x) := by
  unfold update at h
  unfold resolve
  cases hkey : p.key? id with
  | none => simp [hkey] at h
  | some key =>
    simp only [hkey, EStateM.map, onArena_eq] at h ⊢
    cases hb : p.arena? key.type with
    | none =>
      rw [onFirst_of_none (p := fun b : BoundArena => b.type = key.type) hb] at h
      simp at h
    | some b =>
      obtain ⟨l₁, l₂, hl, hl₁, hs⟩ := find?_split hb
      rw [hl, onFirst_append hl₁ hs, BoundArena.update] at h
      cases ha : b.as? k with
      | none => simp [ha] at h
      | some a =>
        by_cases hget : (a.get? key).isSome = true
        · obtain ⟨x, hx⟩ := Option.isSome_iff_exists.1 hget
          exact ⟨x, by simp [ha, hx]⟩
        · simp [ha, Arena.update, hget] at h

/-- Nothing is changed where there is no live record of the kind that is asked for. -/
theorem update_still {p : Pool} {k : RecordKind} {id : ObjectId}
    (hn : ∀ x, p.resolve k id ≠ .ok (some x)) (f : Record k.Body → Record k.Body) :
    after (update k id f : EStateM (Failure ε) Pool _) p = p := by
  unfold resolve at hn
  cases hkey : p.key? id with
  | none => exact after_ok (update_of_no_key hkey k f)
  | some key =>
    rw [after_update hkey, after_onArena, onFirst_still fun b hb => ?_]
    have hb : p.arena? key.type = some b := hb
    obtain ⟨kind, a⟩ := b
    by_cases hk : kind = k
    · subst hk
      have hget : ¬ (a.get? key).isSome = true := fun hget => by
        obtain ⟨x, hx⟩ := Option.isSome_iff_exists.1 hget
        exact hn x (by simp only [hkey, hb, BoundArena.as?_self, hx])
      simp only [after, BoundArena.update, BoundArena.as?_self, Arena.update, if_neg hget]
    · simp only [after, BoundArena.update, BoundArena.as?, dif_neg hk]

/-- Nothing is written where nothing is found. -/
theorem update_of_resolve {p : Pool} {k : RecordKind} {id : ObjectId}
    (h : p.resolve k id = .ok none) (f : Record k.Body → Record k.Body) :
    (update k id f : EStateM (Failure ε) Pool _) p = .ok none p := by
  have hstill := update_still (ε := ε) (fun x hx => by rw [h] at hx; cases hx) f
  unfold resolve at h
  cases hkey : p.key? id with
  | none => exact update_of_no_key hkey k f
  | some key =>
    have hanswer : ∃ t, (update k id f : EStateM (Failure ε) Pool _) p = .ok none t := by
      simp only [hkey, update, EStateM.map, onArena_eq] at h ⊢
      cases hb : p.arena? key.type with
      | none =>
        rw [onFirst_of_none (p := fun b : BoundArena => b.type = key.type) hb]
        exact ⟨_, rfl⟩
      | some b =>
        rw [hb] at h
        cases ha : b.as? k with
        | none => simp [ha] at h
        | some a =>
          have hget : a.get? key = none := by simpa [ha] using h
          have hr : (BoundArena.update k key f : EStateM (Failure ε) BoundArena _) b =
              .ok none { kind := k, arena := a } := by
            simp [BoundArena.update, ha, Arena.update, hget]
          rw [onFirst_of_some (p := fun b : BoundArena => b.type = key.type) hb hr]
          exact ⟨_, rfl⟩
    obtain ⟨t, ht⟩ := hanswer
    rw [after_ok ht] at hstill
    rwa [hstill] at ht

theorem modifyHeader_of_live {p : Pool} (h : p.Sound) {id : ObjectId} {key : SlotKey} {hd : Header}
    (hkey : p.key? id = some key) (hh : p.header? id = some hd) (f : Header → Header) :
    ∃ p', (modifyHeader id f : EStateM ε Pool (Option Header)) p = .ok (some (f hd)) p' ∧
      Touches key (Change.header f) p p' := by
  have ht : Touches key (Change.header f) p
      (after (onArena key (modify (·.modifyHeader key f) : EStateM ε BoundArena PUnit)) p) := by
    refine touches_onArena h fun b hb => ?_
    have hlive : p.isLive id = true := by rw [isLive, hh, Option.isSome_some]
    rw [isLive_eq hkey, hb] at hlive
    exact BoundArena.touches_modifyHeader (h.names hkey hb) hlive f
  refine ⟨_, ?_, ht⟩
  obtain ⟨a, ha⟩ := onFirst_ok (p := (·.type = key.type)) (l := p.arenas)
    (x := (modify (·.modifyHeader key f) : EStateM ε BoundArena PUnit)) fun b _ => ⟨_, _, rfl⟩
  simp only [modifyHeader, hkey, hh, EStateM.map, after_onArena, onArena_eq, ha]

/-- Only what is done to the live record counts. -/
theorem Touches.congr {p p' : Pool} {k : SlotKey} {c c' : Change} (h : Touches k c p p')
    (hc : ∀ o, p.occupant? k.type k.place = some o →
      o.touch k.generation c = o.touch k.generation c') :
    Touches k c' p p' where
  scope := h.scope
  config := h.config
  sound := h.sound
  kind := h.kind
  slot := by
    intro t q
    rw [h.slot t q]
    by_cases hq : t = k.type ∧ q = k.place
    · rw [if_pos hq, if_pos hq, hq.1, hq.2]
      cases ho : p.occupant? k.type k.place with
      | none => rfl
      | some o => rw [Option.map_some, Option.map_some, hc o ho]
    · rw [if_neg hq, if_neg hq]

theorem modifyHeader_of_not_live {p : Pool} {id : ObjectId} (hh : p.header? id = none)
    (f : Header → Header) :
    (modifyHeader id f : EStateM ε Pool (Option Header)) p = .ok none p := by
  unfold modifyHeader
  split
  · simp_all
  · rfl

theorem modifyHeader_ok {p : Pool} (h : p.Sound) (id : ObjectId) (f : Header → Header) :
    ∃ a t, (modifyHeader id f : EStateM ε Pool (Option Header)) p = .ok a t := by
  cases hh : p.header? id with
  | none => exact ⟨none, p, modifyHeader_of_not_live hh f⟩
  | some hd =>
    cases hkey : p.key? id with
    | none => simp [header?, inspect?, hkey] at hh
    | some key =>
      obtain ⟨p', hp', _⟩ := modifyHeader_of_live (ε := ε) h hkey hh f
      exact ⟨some (f hd), p', hp'⟩

theorem header?_eq_some_iff {p : Pool} (h : p.Sound) {id : ObjectId} {key : SlotKey}
    (hkey : p.key? id = some key) {hd : Header} :
    p.header? id = some hd ↔ ∃ o, p.occupant? key.type key.place = some o ∧
      o.generation = key.generation ∧ o.isValid = true ∧ o.record.header = hd := by
  rw [header?, inspect?_eq h hkey]
  cases p.occupant? key.type key.place with
  | none => simp
  | some o =>
    by_cases hg : o.generation = key.generation
    · by_cases hv : o.record.header.isValid = true
      · simp [Option.filter_some, hg, hv, Occupant.isValid, Record.isValid]
      · simp [Option.filter_some, hg, hv, Occupant.isValid, Record.isValid]
    · simp [Option.filter_some, hg]

theorem touches_modifyHeader {p : Pool} (h : p.Sound) {id : ObjectId} {key : SlotKey}
    (hkey : p.key? id = some key) (f : Header → Header) :
    Touches key (Change.header f) p
      (after (modifyHeader id f : EStateM ε Pool (Option Header)) p) := by
  cases hh : p.header? id with
  | some hd =>
    obtain ⟨p', hp', ht⟩ := modifyHeader_of_live (ε := ε) h hkey hh f
    rwa [after_ok hp']
  | none =>
    rw [after_ok (modifyHeader_of_not_live hh f)]
    refine touches_refl h fun o ho => Occupant.touch_of_not_live (fun hv => ?_) _
    rw [(header?_eq_some_iff h hkey).2 ⟨o, ho, hv.1, hv.2, rfl⟩] at hh
    contradiction

theorem touches_editHeader {p : Pool} (h : p.Sound) {id : ObjectId} {key : SlotKey}
    (hkey : p.key? id = some key) (e : HeaderEdit) :
    Touches key (Change.header e.perform) p
      (after (editHeader id e : EStateM (Failure ε) Pool (Option Header)) p) := by
  cases hh : p.header? id with
  | none =>
    have ha : after (editHeader id e : EStateM (Failure ε) Pool (Option Header)) p =
        after (modifyHeader id e.perform : EStateM (Failure ε) Pool (Option Header)) p := by
      rw [after_ok (modifyHeader_of_not_live hh _)]
      simp only [after, editHeader, hh]
    rw [ha]
    exact touches_modifyHeader h hkey _
  | some hd =>
    obtain ⟨o, ho, hg, hv, rfl⟩ := (header?_eq_some_iff h hkey).1 hh
    cases he : e.apply o.record.header with
    | error f =>
      have ha : after (editHeader id e : EStateM (Failure ε) Pool (Option Header)) p = p := by
        simp only [after, editHeader, hh, he]
      rw [ha]
      refine touches_refl h fun o' ho' => ?_
      rw [ho] at ho'
      cases ho'
      rw [Occupant.touch_of_live ⟨hg, hv⟩]
      simp only [Change.header, Record.mapHeader, HeaderEdit.perform, he]
    | ok hd' =>
      have ha : after (editHeader id e : EStateM (Failure ε) Pool (Option Header)) p =
          after (modifyHeader id fun _ => hd' : EStateM (Failure ε) Pool (Option Header)) p := by
        simp only [after, editHeader, hh, he]
      rw [ha]
      refine (touches_modifyHeader h hkey _).congr fun o' ho' => ?_
      rw [ho] at ho'
      cases ho'
      rw [Occupant.touch_of_live ⟨hg, hv⟩, Occupant.touch_of_live ⟨hg, hv⟩]
      simp only [Change.header, Record.mapHeader, HeaderEdit.perform, he]

theorem modifyHeader_of_no_key {p : Pool} {id : ObjectId} (hkey : p.key? id = none)
    (f : Header → Header) :
    (modifyHeader id f : EStateM ε Pool (Option Header)) p = .ok none p :=
  modifyHeader_of_not_live (by simp [header?, inspect?, hkey]) f

theorem editHeader_of_no_key {p : Pool} {id : ObjectId} (hkey : p.key? id = none) (e : HeaderEdit) :
    (editHeader id e : EStateM (Failure ε) Pool (Option Header)) p = .ok none p := by
  have hh : p.header? id = none := by simp [header?, inspect?, hkey]
  simp only [editHeader, hh]

/-! ### Placing records -/

/-- What placing a record of a kind under a key does.  No record had the key before, and
the type is bound to the kind from then on. -/
structure Places (k : RecordKind) (key : SlotKey) (p p' : Pool) : Prop where
  scope : p'.scope = p.scope
  config : p'.config = p.config
  sound : p'.Sound
  key_scope : key.scope = p.scope
  bound : ∀ k', p.kind? key.type = some k' → k' = k
  kind : ∀ t, p'.kind? t = if t = key.type then some k else p.kind? t
  fresh : ∀ o, p.occupant? key.type key.place = some o →
    o.isValid = false ∧ o.generation.toNat < key.generation.toNat
  slot : ∀ t q, p'.occupant? t q =
    if t = key.type ∧ q = key.place then some (Occupant.placed k key) else p.occupant? t q

/-- Placing in the arena of a type, be it there before or not, is placing in the pool. -/
theorem places_of_arena {p p' : Pool} {key : SlotKey} {b b' : BoundArena}
    (hscope : p'.scope = p.scope) (hconfig : p'.config = p.config) (hsound : p'.Sound)
    (hb : b.arena.scope = p.scope) (hplaces : BoundArena.Places key b b')
    (hbound : ∀ k, p.kind? key.type = some k → k = b.kind)
    (hold : ∀ q, p.occupant? key.type q = b.occupant? q)
    (harena : ∀ t, p'.arena? t = if t = key.type then some b' else p.arena? t) :
    Places b.kind key p p' where
  scope := hscope
  config := hconfig
  sound := hsound
  key_scope := by rw [hplaces.names.1, hb]
  bound := hbound
  kind := by
    intro t
    rw [kind?, kind?, harena t]
    by_cases ht : t = key.type
    · rw [if_pos ht, if_pos ht, Option.map_some, hplaces.kind]
    · rw [if_neg ht, if_neg ht]
  fresh := by
    intro o ho
    rw [hold] at ho
    exact hplaces.fresh o ho
  slot := by
    intro t q
    by_cases ht : t = key.type
    · subst ht
      have hq := hplaces.slot q
      rw [hold q, occupant?, harena, if_pos rfl, Option.bind_some, hq]
      simp
    · rw [if_neg fun e => ht e.1, occupant?, harena, if_neg ht, occupant?]

/-- The first placement under a type adds the arena and is not refused. -/
theorem allocate_of_new {p : Pool} (h : p.Sound) (k : RecordKind) {t : ObjectType}
    (hb : p.arena? t = none) :
    ∃ key p', allocate k t p = .ok key.pack p' ∧ key.type = t ∧ Places k key p p' := by
  let fresh : BoundArena := { kind := k, arena := Arena.empty p.scope t p.config }
  have hfresh : fresh.arena.Sound := Arena.sound_empty p.scope t h.config
  obtain ⟨key, b', hb', hp⟩ : ∃ key b', BoundArena.allocate k fresh = .ok key b' ∧
      BoundArena.Places key fresh b' := by
    rcases BoundArena.allocate_spec hfresh k with ⟨key, b', hb', _, hp⟩ | ⟨e, he⟩
    · exact ⟨key, b', hb', hp⟩
    · obtain ⟨key, a', ha', _⟩ := Arena.allocate_empty (β := k.Body) h.config p.scope t
      simp only [BoundArena.allocate, fresh, if_true, ha', reduceCtorEq] at he
  have htype : key.type = t := hp.names.2
  subst htype
  have hok : allocate k key.type p = .ok key.pack { p with arenas := p.arenas ++ [b'] } := by
    have hl := onFirstOr_of_none (x := BoundArena.allocate k) fresh hb
    rw [hb'] at hl
    simp only [allocate, hl, fresh]
  have hmem (c : BoundArena) (hc : c ∈ p.arenas ++ [b']) : c ∈ p.arenas ∨ c = b' := by
    simpa using hc
  refine ⟨key, _, hok, rfl,
    places_of_arena (b := fresh) rfl rfl ⟨h.config, ?_, ?_⟩ rfl hp ?_ ?_ ?_⟩
  · intro c hc
    rcases hmem c hc with hc | rfl
    · exact h.scope c hc
    · exact hp.scope
  · intro c hc
    rcases hmem c hc with hc | rfl
    · exact h.arena c hc
    · exact hp.sound
  · intro k' hk'
    rw [kind?, hb] at hk'
    contradiction
  · intro q
    rw [occupant?, hb]
    rfl
  · intro t
    have hb't : b'.type = key.type := hp.type
    show (p.arenas ++ [b']).find? (·.type = t) = _
    rw [List.find?_append]
    by_cases ht : t = key.type
    · subst ht
      rw [if_pos rfl, show p.arenas.find? (·.type = key.type) = none from hb]
      simp [hb't]
    · have hne : key.type ≠ t := fun e => ht e.symm
      rw [if_neg ht]
      simp [hb't, hne, arena?]

/-- A later placement is one in the arena of the type, or is refused there. -/
theorem allocate_of_bound {p : Pool} (h : p.Sound) (k : RecordKind) {t : ObjectType}
    {b : BoundArena} (hb : p.arena? t = some b) :
    (∃ key p', allocate k t p = .ok key.pack p' ∧ key.type = t ∧ Places k key p p') ∨
      ∃ e, allocate k t p = .error (.refused e) p := by
  obtain ⟨scope, config, arenas⟩ := p
  obtain ⟨l₁, l₂, hl, hl₁, hbt⟩ := find?_split hb
  simp only at hl
  subst hl
  have hmem : b ∈ l₁ ++ b :: l₂ := by simp
  have hbtype : b.type = t := by simpa using hbt
  rcases BoundArena.allocate_spec (h.arena b hmem) k with ⟨key, b', hb', rfl, hp⟩ | ⟨e, he⟩
  · have htype : key.type = t := hp.names.2.trans hbtype
    subst htype
    have hb't : b'.type = key.type := hp.type.trans hbtype
    refine Or.inl ⟨key, { scope, config, arenas := l₁ ++ b' :: l₂ }, ?_, rfl,
      places_of_arena (b := b) rfl rfl ⟨h.config, ?_, ?_⟩ (h.scope b hmem) hp ?_ ?_ ?_⟩
    · simp only [allocate, onFirstOr_append _ hl₁ hbt, hb']
    · intro c hc
      rcases mem_of_mem_replace (s := b) hc with rfl | hc
      · exact hp.scope.trans (h.scope b hmem)
      · exact h.scope c hc
    · intro c hc
      rcases mem_of_mem_replace (s := b) hc with rfl | hc
      · exact hp.sound
      · exact h.arena c hc
    · intro k' hk'
      rw [kind?, hb] at hk'
      exact (Option.some.inj hk').symm
    · intro q
      rw [occupant?, hb, Option.bind_some]
    · intro t
      by_cases ht : t = key.type
      · subst ht
        rw [if_pos rfl]
        exact find?_append_cons hl₁ (by simpa using hb't)
      · have hne : key.type ≠ t := fun e => ht e.symm
        rw [if_neg ht]
        simp [arena?, List.find?_append, hbtype, hb't, hne]
  · refine Or.inr ⟨e, ?_⟩
    simp only [allocate, onFirstOr_append _ hl₁ hbt, he]

theorem allocate_spec {p : Pool} (h : p.Sound) (k : RecordKind) (t : ObjectType) :
    (∃ key p', allocate k t p = .ok key.pack p' ∧ key.type = t ∧ Places k key p p') ∨
      ∃ e, allocate k t p = .error (.refused e) p := by
  cases hb : p.arena? t with
  | none => exact Or.inl (allocate_of_new h k hb)
  | some b => exact allocate_of_bound h k hb

end Pool
end DesignStore
