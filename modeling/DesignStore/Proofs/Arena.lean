/-
Arenas keep their slots apart.

What an operation does to an arena is said by what is found at each place afterwards.
An operation on the record of a key changes the slot at the place of the key, and only
while that is live and in the generation of the key (`Touches`).  Placing a record puts
a blank one where there was no slot, or where a freed one was in an earlier generation
(`Places`).

`Sound` is what placing relies on: pages stay within the layout, so that a place has a
number for its page and its slot, and the places that wait for reuse are those of freed
records whose generations are not used up.  Whatever is written to live records, a place
that waits is not theirs.
-/
import DesignStore.Arena
import DesignStore.Proofs.Operation

namespace DesignStore

/-! ## Status -/

theorem Flags.not_has_remove (f : Flags) : (f.remove (single .valid)).has .valid = false := by
  have h : (f.bits &&& ~~~1) &&& 1 = (0 : UInt16) := by
    rw [UInt16.and_assoc]
    simp
  simp [has, contains, remove, single, h]

namespace Header

theorem isValid_setFlag_false (h : Header) : (h.setFlag .valid false).isValid = false :=
  Flags.not_has_remove h.flags

theorem isValid_stamp (h : Header) (id : ObjectId) (t : ObjectType) :
    (h.stamp id t).isValid = true := by
  show (Flags.single .valid).has .valid = true
  decide

end Header

namespace Record

variable {β : Type} [Inhabited β]

def clear (r : Record β) : Record β :=
  { header := r.header.setFlag .valid false, body := default }

theorem isValid_clear (r : Record β) : r.clear.isValid = false :=
  Header.isValid_setFlag_false r.header

def placed (k : SlotKey) : Record β :=
  { header := ({} : Header).stamp k.pack k.type, body := default }

theorem isValid_placed (k : SlotKey) : (placed k : Record β).isValid = true :=
  Header.isValid_stamp _ _ _

def mapHeader {β : Type} (f : Header → Header) (r : Record β) : Record β :=
  { r with header := f r.header }

end Record

/-! ## Places -/

/-- A layout that is accepted has page and slot numbers of sixteen bits. -/
theorem PoolConfig.Valid.bounds {c : PoolConfig} (h : c.Valid) :
    0 < c.pageSlots ∧ c.pageSlots ≤ 65536 ∧ 0 < c.maxPages ∧ c.maxPages ≤ 65536 := by
  unfold Valid flaw? at h
  split at h
  · simp at h
  · rename_i hs
    split at h
    · simp at h
    · rename_i hm
      have hs : c.pageSlots ∈ allowedPageSlots := by simpa using hs
      obtain ⟨i, hi, he⟩ := List.mem_map.1 hs
      have hi : i ≤ 16 := by
        have := List.mem_range.1 hi
        omega
      have hpos : 0 < 2 ^ i := Nat.two_pow_pos i
      have hle : 2 ^ i ≤ 2 ^ 16 := Nat.pow_le_pow_right (by omega) hi
      omega

theorem Place.eq_iff {p q : Place} :
    p = q ↔ p.page.toNat = q.page.toNat ∧ p.slot.toNat = q.slot.toNat := by
  cases p
  cases q
  simp only [Place.mk.injEq, UInt16.toNat_inj]

namespace Slot

variable {β : Type}

/-- The change `f` of the record in generation `g`, if that is in the slot and live. -/
def touch (g : UInt8) (f : Record β → Record β) (s : Slot β) : Slot β :=
  if s.generation = g ∧ s.record.isValid = true then { s with record := f s.record } else s

end Slot

namespace Arena

variable {β : Type}

/-- A key of this arena, whatever is at its place. -/
def Names (a : Arena β) (k : SlotKey) : Prop :=
  k.scope = a.scope ∧ k.type = a.type

theorem slotAt?_eq (a : Arena β) (p : Place) :
    a.slotAt? p = a.pages[p.page.toNat]?.bind (·[p.slot.toNat]?) := rfl

theorem slotAt?_modifyAt (a : Arena β) (p q : Place) (f : Slot β → Slot β) :
    (a.modifyAt p f).slotAt? q = if q = p then (a.slotAt? q).map f else a.slotAt? q := by
  simp only [slotAt?_eq, modifyAt, Array.getElem?_modify]
  by_cases hp : p.page.toNat = q.page.toNat
  · by_cases hs : p.slot.toNat = q.slot.toNat
    · have hq : q = p := Place.eq_iff.2 ⟨hp.symm, hs.symm⟩
      rw [if_pos hp, if_pos hq, ← hp]
      cases a.pages[p.page.toNat]? with
      | none => rfl
      | some page => simp [Array.getElem?_modify, hs]
    · have hq : q ≠ p := fun h => hs (h ▸ rfl)
      rw [if_pos hp, if_neg hq]
      cases a.pages[q.page.toNat]? with
      | none => rfl
      | some page => simp [Array.getElem?_modify, hs]
  · have hq : q ≠ p := fun h => hp (h ▸ rfl)
    rw [if_neg hp, if_neg hq]

theorem inspect?_of_names {a : Arena β} {k : SlotKey} (h : a.Names k) :
    a.inspect? k = ((a.slotAt? k.place).filter (·.generation = k.generation)).map (·.record) := by
  simp only [inspect?, h.1, h.2, true_and, if_true]
  cases a.slotAt? k.place with
  | none => rfl
  | some s => by_cases hg : s.generation = k.generation <;> simp [Option.filter_some, hg]

theorem get?_eq_some_iff {a : Arena β} {k : SlotKey} (h : a.Names k) {r : Record β} :
    a.get? k = some r ↔
      r.isValid = true ∧ a.slotAt? k.place = some { generation := k.generation, record := r } := by
  rw [get?, inspect?_of_names h]
  cases a.slotAt? k.place with
  | none => simp
  | some s =>
    obtain ⟨g, r'⟩ := s
    by_cases hg : g = k.generation
    · simp only [Option.filter, hg, decide_true, if_true, Option.map_some, Option.some.injEq,
        Slot.mk.injEq, true_and]
      by_cases hv : r'.isValid = true
      · simp only [hv, if_true, Option.some.injEq]
        exact ⟨fun h => ⟨h ▸ hv, h⟩, fun h => h.2⟩
      · simp only [hv, Bool.false_eq_true, if_false, reduceCtorEq, false_iff, not_and]
        exact fun hr h => hv (h ▸ hr)
    · simp [Option.filter, hg]

theorem get?_isSome_iff {a : Arena β} {k : SlotKey} (h : a.Names k) :
    (a.get? k).isSome = true ↔ ∃ s, a.slotAt? k.place = some s ∧
      s.generation = k.generation ∧ s.record.isValid = true := by
  rw [Option.isSome_iff_exists]
  constructor
  · rintro ⟨r, hr⟩
    obtain ⟨hv, hs⟩ := (get?_eq_some_iff h).1 hr
    exact ⟨_, hs, rfl, hv⟩
  · rintro ⟨⟨g, r⟩, hs, hg, hv⟩
    simp only at hg
    exact ⟨r, (get?_eq_some_iff h).2 ⟨hv, hg ▸ hs⟩⟩

/-! ## The layout and the free list -/

/-- What placing a record relies on. -/
structure Sound (a : Arena β) : Prop where
  config : a.config.Valid
  pages_le : a.pages.size ≤ a.config.maxPages
  page_le : ∀ {i : Nat} {page : Array (Slot β)},
    a.pages[i]? = some page → page.size ≤ a.config.pageSlots
  free_nodup : a.freeList.Nodup
  free_slot : ∀ p ∈ a.freeList, ∃ s,
    a.slotAt? p = some s ∧ s.record.isValid = false ∧ s.generation ≠ 255

theorem sound_empty (scope : ScopeTag) (t : ObjectType) {c : PoolConfig} (h : c.Valid) :
    (empty scope t c : Arena β).Sound where
  config := h
  pages_le := Nat.zero_le _
  page_le := by simp [empty]
  free_nodup := List.nodup_nil
  free_slot := by simp [empty]

theorem Sound.not_mem_freeList {a : Arena β} (h : a.Sound) {p : Place} {s : Slot β}
    (hs : a.slotAt? p = some s) (hv : s.record.isValid = true) : p ∉ a.freeList := by
  intro hp
  obtain ⟨t, ht, hf, _⟩ := h.free_slot p hp
  rw [hs] at ht
  cases ht
  rw [hv] at hf
  contradiction

theorem Sound.modifyAt {a : Arena β} (h : a.Sound) {p : Place} (hp : p ∉ a.freeList)
    (f : Slot β → Slot β) : (a.modifyAt p f).Sound where
  config := h.config
  pages_le := by simpa [Arena.modifyAt] using h.pages_le
  page_le := by
    intro i page hi
    simp only [Arena.modifyAt, Array.getElem?_modify] at hi
    split at hi
    · obtain ⟨page', hpage, rfl⟩ := Option.map_eq_some_iff.1 hi
      simpa [Arena.modifyAt] using h.page_le hpage
    · exact h.page_le hi
  free_nodup := h.free_nodup
  free_slot := by
    intro q hq
    have hqp : q ≠ p := fun e => hp (e ▸ hq)
    rw [slotAt?_modifyAt, if_neg hqp]
    exact h.free_slot q hq

/-! ## Changing records -/

/-- What an operation on the live record of a key does: the slot of the key is changed if
the record is in it, and nothing else. -/
structure Touches (k : SlotKey) (f : Record β → Record β) (a b : Arena β) : Prop where
  scope : b.scope = a.scope
  type : b.type = a.type
  sound : a.Sound → b.Sound
  slot : ∀ p, b.slotAt? p =
    if p = k.place then (a.slotAt? p).map (Slot.touch k.generation f) else a.slotAt? p

theorem touches_refl {a : Arena β} {k : SlotKey} (hk : a.Names k) (h : ¬ (a.get? k).isSome)
    (f : Record β → Record β) : Touches k f a a where
  scope := rfl
  type := rfl
  sound := id
  slot := by
    intro p
    by_cases hp : p = k.place
    · rw [if_pos hp, hp]
      cases hs : a.slotAt? k.place with
      | none => rfl
      | some s =>
        rw [Option.map_some, Slot.touch, if_neg]
        exact fun hv => h ((get?_isSome_iff hk).2 ⟨s, hs, hv⟩)
    · rw [if_neg hp]

theorem touches_modifyAt {a : Arena β} {k : SlotKey} (hk : a.Names k)
    (h : (a.get? k).isSome = true) (f : Record β → Record β) :
    Touches k f a (a.modifyAt k.place fun s => { s with record := f s.record }) where
  scope := rfl
  type := rfl
  sound := by
    intro ha
    obtain ⟨s, hs, _, hv⟩ := (get?_isSome_iff hk).1 h
    exact ha.modifyAt (ha.not_mem_freeList hs hv) _
  slot := by
    intro p
    rw [slotAt?_modifyAt]
    by_cases hp : p = k.place
    · rw [if_pos hp, if_pos hp, hp]
      obtain ⟨s, hs, hv⟩ := (get?_isSome_iff hk).1 h
      simp only [hs, Option.map_some, Slot.touch, if_pos hv]
    · rw [if_neg hp, if_neg hp]

theorem touches_update {ε : Type} {a : Arena β} {k : SlotKey} (hk : a.Names k)
    (f : Record β → Record β) :
    Touches k f a (after (update k f : EStateM ε (Arena β) _) a) := by
  by_cases h : (a.get? k).isSome = true
  · simp only [after, update, if_pos h]
    exact touches_modifyAt hk h f
  · simp only [after, update, if_neg h]
    exact touches_refl hk h f

/-- Writing to a live record answers what the record has become. -/
theorem update_of_live {ε : Type} {a : Arena β} {k : SlotKey} (hk : a.Names k)
    (h : (a.get? k).isSome = true) (f : Record β → Record β) :
    ∃ r b, (update k f : EStateM ε (Arena β) _) a = .ok (some r) b := by
  obtain ⟨s, hs, hg, _⟩ := (get?_isSome_iff hk).1 h
  let b := a.modifyAt k.place fun s => { s with record := f s.record }
  have hb : b.inspect? k = some (f s.record) := by
    rw [inspect?_of_names (show b.Names k from hk), slotAt?_modifyAt, if_pos rfl, hs]
    simp [hg]
  exact ⟨f s.record, b, by simp only [update, if_pos h, b, hb]⟩

theorem touches_modifyHeader {a : Arena β} {k : SlotKey} (hk : a.Names k)
    (h : (a.get? k).isSome = true) (f : Header → Header) :
    Touches k (Record.mapHeader f) a (a.modifyHeader k f) := by
  have hi : (a.inspect? k).isSome = true := by
    rw [get?, Option.isSome_filter] at h
    cases hr : a.inspect? k with
    | none => simp [hr] at h
    | some r => rfl
  rw [modifyHeader, if_pos hi]
  exact touches_modifyAt hk h (Record.mapHeader f)

theorem free_eq {ε : Type} [Inhabited β] (a : Arena β) (k : SlotKey) :
    ∃ b, (free k : EStateM ε (Arena β) Bool) a = .ok (a.get? k).isSome b ∧
      (a.Names k → Touches k Record.clear a b) := by
  by_cases h : (a.get? k).isSome = true
  · rw [free, if_pos h, h]
    -- the counts and the free list are no part of what is found at a place
    have hslot (b : Arena β) (hb : b.pages = (a.modifyAt k.place Slot.clear).pages)
        (hscope : b.scope = a.scope) (htype : b.type = a.type) (hk : a.Names k)
        (hsound : a.Sound → b.Sound) : Touches k Record.clear a b := by
      have ht := touches_modifyAt hk h Record.clear
      refine ⟨hscope, htype, hsound, fun p => ?_⟩
      rw [← ht.slot p]
      simp only [slotAt?_eq, hb]
      rfl
    split
    · refine ⟨_, rfl, fun hk => hslot _ rfl rfl rfl hk fun ha => ?_⟩
      obtain ⟨config, pages_le, page_le, free_nodup, free_slot⟩ :=
        (touches_modifyAt hk h Record.clear).sound ha
      exact ⟨config, pages_le, page_le, free_nodup, free_slot⟩
    · rename_i hg
      refine ⟨_, rfl, fun hk => hslot _ rfl rfl rfl hk fun ha => ?_⟩
      obtain ⟨s, hs, hgen, hv⟩ := (get?_isSome_iff hk).1 h
      have hmem := ha.not_mem_freeList hs hv
      have hb := (touches_modifyAt hk h Record.clear).sound ha
      refine ⟨hb.config, hb.pages_le, hb.page_le, List.nodup_cons.2 ⟨hmem, ha.free_nodup⟩, ?_⟩
      intro p hp
      rcases List.mem_cons.1 hp with rfl | hp
      · refine ⟨s.clear, ?_, Record.isValid_clear s.record, ?_⟩
        · have : (a.modifyAt k.place Slot.clear).slotAt? k.place = some s.clear := by
            rw [slotAt?_modifyAt, if_pos rfl, hs, Option.map_some]
          exact this
        · show s.generation ≠ 255
          rw [hgen]
          exact hg
      · exact hb.free_slot p hp
  · have hn : (a.get? k).isSome = false := by simpa using h
    refine ⟨a, ?_, fun hk => touches_refl hk h _⟩
    rw [free, if_neg h, hn]

/-! ## Placing records -/

variable [Inhabited β]

def placedSlot (k : SlotKey) : Slot β :=
  { generation := k.generation, record := Record.placed k }

/-- What placing a record under a key does.  No record had the key before. -/
structure Places (k : SlotKey) (a b : Arena β) : Prop where
  scope : b.scope = a.scope
  type : b.type = a.type
  names : a.Names k
  sound : b.Sound
  fresh : ∀ s, a.slotAt? k.place = some s →
    s.record.isValid = false ∧ s.generation.toNat < k.generation.toNat
  slot : ∀ p, b.slotAt? p = if p = k.place then some (placedSlot k) else a.slotAt? p

/-- A slot that was never used has a number of its own, and pages stay within the
layout. -/
structure Extends (p : Place) (a b : Arena β) : Prop where
  same : b = { a with pages := b.pages }
  pages_le : b.pages.size ≤ a.config.maxPages
  page_le : ∀ {i : Nat} {page : Array (Slot β)},
    b.pages[i]? = some page → page.size ≤ a.config.pageSlots
  fresh : a.slotAt? p = none
  slot : ∀ q, b.slotAt? q =
    if q = p then some { generation := 0, record := Record.blank } else a.slotAt? q

theorem addPage_spec {a : Arena β} (h : a.Sound) :
    (∃ p b, extend.addPage { generation := 0, record := Record.blank } a = .ok p b ∧
        Extends p a b) ∨
      extend.addPage { generation := 0, record := Record.blank } a =
        .error (.refused (.capacityExceeded a.type a.pages.size)) a := by
  obtain ⟨hslots, _, _, hmax⟩ := h.config.bounds
  unfold extend.addPage
  by_cases hfull : a.config.maxPages ≤ a.pages.size
  · rw [if_pos hfull]
    exact Or.inr rfl
  · rw [if_neg hfull, if_neg (by omega)]
    have hpage : (UInt16.ofNat a.pages.size).toNat = a.pages.size :=
      UInt16.toNat_ofNat_of_lt' (by show _ < 65536; omega)
    refine Or.inl ⟨_, _, rfl, rfl, ?_, ?_, ?_, ?_⟩
    · simp only [Array.size_push]
      omega
    · intro i page hi
      simp only [Array.getElem?_push] at hi
      split at hi
      · cases hi
        exact hslots
      · exact h.page_le hi
    · simp [slotAt?_eq, hpage]
    · intro q
      simp only [slotAt?_eq, Array.getElem?_push]
      by_cases hq : q.page.toNat = a.pages.size
      · rw [if_pos hq, hq]
        by_cases hz : q.slot.toNat = 0
        · rw [if_pos (Place.eq_iff.2 ⟨by rw [hq, hpage], hz⟩)]
          simp [hz]
        · rw [if_neg fun e => hz (by rw [e]; rfl)]
          simp [hz]
      · rw [if_neg hq, if_neg]
        intro e
        exact hq (by rw [e, hpage])

theorem extend_spec {a : Arena β} (h : a.Sound) :
    (∃ p b, extend a = .ok p b ∧ Extends p a b) ∨
      extend a = .error (.refused (.capacityExceeded a.type a.pages.size)) a := by
  obtain ⟨_, hslots, _, hmax⟩ := h.config.bounds
  unfold extend
  cases hlast : a.pages[a.pages.size - 1]? with
  | none => simpa [hlast] using addPage_spec h
  | some page =>
    simp only [hlast, Option.map_some]
    by_cases hroom : page.size < a.config.pageSlots
    · rw [if_pos hroom]
      have hsize := h.pages_le
      have hlt : a.pages.size - 1 < a.pages.size := (Array.getElem?_eq_some_iff.1 hlast).1
      have hpage : (UInt16.ofNat (a.pages.size - 1)).toNat = a.pages.size - 1 :=
        UInt16.toNat_ofNat_of_lt' (by show _ < 65536; omega)
      have hslot : (UInt16.ofNat page.size).toNat = page.size :=
        UInt16.toNat_ofNat_of_lt' (by show _ < 65536; omega)
      refine Or.inl ⟨_, _, rfl, rfl, ?_, ?_, ?_, ?_⟩
      · simpa using hsize
      · intro i page' hi
        simp only [Array.getElem?_modify] at hi
        split at hi
        · rename_i hi'
          subst hi'
          rw [hlast, Option.map_some, Option.some.injEq] at hi
          subst hi
          simp only [Array.size_push]
          omega
        · exact h.page_le hi
      · simp [slotAt?_eq, hpage, hslot, hlast]
      · intro q
        simp only [slotAt?_eq, Array.getElem?_modify]
        by_cases hq : a.pages.size - 1 = q.page.toNat
        · rw [if_pos hq, ← hq, hlast, Option.map_some, Option.bind_some, Option.bind_some,
            Array.getElem?_push]
          by_cases hz : q.slot.toNat = page.size
          · rw [if_pos hz, if_pos (Place.eq_iff.2 ⟨by rw [hpage, hq], by rw [hslot, hz]⟩)]
          · rw [if_neg hz, if_neg fun e => hz (by rw [e, hslot])]
        · rw [if_neg hq, if_neg]
          intro e
          exact hq (by rw [e, hpage])
    · rw [if_neg hroom]
      exact addPage_spec h

/-- A place for a record is found.  Whatever was there is of an earlier generation. -/
structure Claims (p : Place) (g : UInt8) (a b : Arena β) : Prop where
  scope : b.scope = a.scope
  type : b.type = a.type
  sound : b.Sound
  not_free : p ∉ b.freeList
  fresh : ∀ s, a.slotAt? p = some s → s.record.isValid = false ∧ s.generation.toNat < g.toNat
  slot : ∀ q, b.slotAt? q =
    if q = p then some { generation := g, record := Record.blank } else a.slotAt? q

theorem claims_of_extends {a b : Arena β} {p : Place} (h : a.Sound) (hfree : a.freeList = [])
    (he : Extends p a b) : Claims p 0 a b := by
  have hlist : b.freeList = [] := by rw [he.same, hfree]
  have hconfig : b.config = a.config := by rw [he.same]
  refine ⟨by rw [he.same], by rw [he.same], ?_, by simp [hlist], by simp [he.fresh], he.slot⟩
  refine ⟨hconfig ▸ h.config, hconfig ▸ he.pages_le, fun hi => hconfig ▸ he.page_le hi, ?_, ?_⟩
  · rw [hlist]
    exact List.nodup_nil
  · simp [hlist]

/-- A generation that is not the last does not wrap. -/
theorem toNat_next {g : UInt8} (hg : g ≠ 255) : (g + 1).toNat = g.toNat + 1 := by
  have hlt := g.toNat_lt
  have hne : g.toNat ≠ 255 := fun e => hg (UInt8.toNat_inj.1 e)
  rw [UInt8.toNat_add]
  show (g.toNat + 1) % 256 = _
  omega

theorem claim_of_cons {a : Arena β} {p : Place} {rest : List Place} (h : a.Sound)
    (hfree : a.freeList = p :: rest) : ∃ g b, claim a = .ok (p, g) b ∧ Claims p g a b := by
  obtain ⟨s, hs, hv, hg⟩ := h.free_slot p (by simp [hfree])
  have hnodup := h.free_nodup
  rw [hfree, List.nodup_cons] at hnodup
  have hrest : ({ a with freeList := rest } : Arena β).Sound := by
    refine ⟨h.config, h.pages_le, h.page_le, hnodup.2, fun q hq => ?_⟩
    exact h.free_slot q (by simp [hfree, hq])
  have hs' : ({ a with freeList := rest } : Arena β).slotAt? p = some s := hs
  -- the slot is on the list only while it has generations left
  have hgen := toNat_next hg
  let next : Slot β := { generation := s.generation + 1, record := Record.blank }
  refine ⟨s.generation + 1, ({ a with freeList := rest } : Arena β).modifyAt p fun _ => next, ?_,
    rfl, rfl, hrest.modifyAt hnodup.1 _, hnodup.1, ?_, ?_⟩
  · unfold claim
    simp only [hfree, hs', Option.map_some, next]
  · intro t ht
    rw [hs] at ht
    cases ht
    exact ⟨hv, by omega⟩
  · intro q
    rw [slotAt?_modifyAt]
    by_cases hq : q = p
    · rw [if_pos hq, if_pos hq, hq, hs', Option.map_some]
    · rw [if_neg hq, if_neg hq]
      rfl

theorem claim_spec {a : Arena β} (h : a.Sound) :
    (∃ p g b, claim a = .ok (p, g) b ∧ Claims p g a b) ∨
      claim a = .error (.refused (.capacityExceeded a.type a.pages.size)) a := by
  cases hfree : a.freeList with
  | nil =>
    unfold claim
    rcases extend_spec h with ⟨p, b, hb, he⟩ | hr
    · exact Or.inl ⟨p, 0, b, by simp only [hfree, hb], claims_of_extends h hfree he⟩
    · exact Or.inr (by simp only [hfree, hr])
  | cons p rest =>
    obtain ⟨g, b, hb, hc⟩ := claim_of_cons h hfree
    exact Or.inl ⟨p, g, b, hb, hc⟩

/-- Placing puts a blank record where none was live, under a key that no record has had,
or it is refused and changes nothing. -/
theorem allocate_spec {a : Arena β} (h : a.Sound) :
    (∃ k b, allocate a = .ok k b ∧ Places k a b) ∨
      allocate a = .error (.refused (.capacityExceeded a.type a.pages.size)) a := by
  unfold allocate
  rcases claim_spec h with ⟨p, g, b, hb, hscope, htype, hsound, hp, hfresh, hslot⟩ | hr
  · have hsome : ({ b with live := b.live + 1 } : Arena β).slotAt? p =
        some { generation := g, record := Record.blank } := by
      have := hslot p
      rwa [if_pos rfl] at this
    have hlive : ({ b with live := b.live + 1 } : Arena β).Sound := by
      obtain ⟨config, pages_le, page_le, free_nodup, free_slot⟩ := hsound
      exact ⟨config, pages_le, page_le, free_nodup, free_slot⟩
    let key : SlotKey := { scope := b.scope, type := b.type, generation := g, place := p }
    refine Or.inl ⟨key, ({ b with live := b.live + 1 } : Arena β).modifyAt p (Slot.stamp key),
      by simp only [hb, hsome, Option.isSome_some, if_true, key], hscope, htype, ⟨hscope, htype⟩,
      hlive.modifyAt hp _, hfresh, fun q => ?_⟩
    rw [slotAt?_modifyAt]
    by_cases hq : q = p
    · rw [if_pos hq, if_pos hq, hq, hsome]
      rfl
    · rw [if_neg hq, if_neg hq]
      have := hslot q
      rwa [if_neg hq] at this
  · exact Or.inr (by simp only [hr])

/-- The first placement in an arena is never refused. -/
theorem allocate_empty {c : PoolConfig} (h : c.Valid) (scope : ScopeTag) (t : ObjectType) :
    ∃ k b, allocate (empty scope t c : Arena β) = .ok k b ∧ Places k (empty scope t c) b := by
  rcases allocate_spec (sound_empty (β := β) scope t h) with hp | hr
  · exact hp
  · obtain ⟨hslots, _, hpages, _⟩ := h.bounds
    have he : extend (empty scope t c : Arena β) = .ok { page := 0, slot := 0 }
        { (empty scope t c : Arena β) with
          pages := #[#[{ generation := 0, record := Record.blank }]] } := by
      have h0 : ¬ c.maxPages ≤ 0 := by omega
      have h1 : ¬ c.pageSlots = 0 := by omega
      simp [extend, extend.addPage, empty, h0, h1]
    have hc : claim (empty scope t c : Arena β) = .ok ({ page := 0, slot := 0 }, 0)
        { (empty scope t c : Arena β) with
          pages := #[#[{ generation := 0, record := Record.blank }]] } := by
      unfold claim
      simp only [empty] at he ⊢
      rw [he]
    rw [allocate, hc] at hr
    simp [slotAt?_eq] at hr

end Arena
end DesignStore
