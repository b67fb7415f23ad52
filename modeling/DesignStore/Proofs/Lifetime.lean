/-
How the slots of a registry change over time.

`Evolves r r'` is what every operation of the registry keeps, and every run of them: tags
that are spent stay spent, a pool that is gone does not come back, and a slot that stays
holds the same occupant or one of a later generation, where an occupant that is not live
does not become live.

So a handle that was given out is `Spent` for good, and no record is placed under it
again (`Places.not_spent`).  A handle that was given out and is not live is `Stale` for
good (`Stale.mono`).
-/
import DesignStore.Proofs.Registry

namespace DesignStore

/-- An occupant of a slot, and what is in the slot later. -/
structure Occupant.Ages (o o' : Occupant) : Prop where
  kind : o'.kind = o.kind
  generation : o.generation.toNat < o'.generation.toNat ∨
    o'.generation = o.generation ∧ (o'.isValid = true → o.isValid = true)

namespace Occupant.Ages

theorem refl (o : Occupant) : o.Ages o :=
  ⟨rfl, Or.inr ⟨rfl, id⟩⟩

theorem trans {o o' o'' : Occupant} (h : o.Ages o') (h' : o'.Ages o'') : o.Ages o'' := by
  refine ⟨h'.kind.trans h.kind, ?_⟩
  rcases h.generation with hlt | ⟨he, hv⟩
  · rcases h'.generation with hlt' | ⟨he', _⟩
    · exact Or.inl (by omega)
    · exact Or.inl (by rwa [he'])
  · rcases h'.generation with hlt' | ⟨he', hv'⟩
    · exact Or.inl (by rwa [he] at hlt')
    · exact Or.inr ⟨he'.trans he, fun h => hv (hv' h)⟩

theorem touch (g : UInt8) (c : Change) (o : Occupant) : o.Ages (o.touch g c) :=
  ⟨touch_kind g c o, Or.inr ⟨touch_generation g c o, isValid_of_touch⟩⟩

end Occupant.Ages

namespace Registry

/-- What is kept by everything that is done to a registry. -/
structure Evolves (r r' : Registry) : Prop where
  sound : r'.Sound
  issued_le : r.issued ≤ r'.issued
  gone : ∀ scope, scope.toNat ≤ r.issued → r.pool? scope = none → r'.pool? scope = none
  kind : ∀ scope t k, r.kind? scope t = some k →
    r'.pool? scope = none ∨ r'.kind? scope t = some k
  slot : ∀ q o, r.occupant? q = some o →
    r'.pool? q.scope = none ∨ ∃ o', r'.occupant? q = some o' ∧ o.Ages o'

/-- No record comes to be. -/
def Quiet (r r' : Registry) : Prop :=
  ∀ id, (r'.record? id).isSome = true → (r.record? id).isSome = true

variable {r r' r'' : Registry}

theorem Sound.issued_of_occupant? (h : r.Sound) {q : Site} {o : Occupant}
    (ho : r.occupant? q = some o) : q.scope.toNat ≤ r.issued := by
  obtain ⟨p, hp, _⟩ := Option.bind_eq_some_iff.1 ho
  exact (h.of_pool? hp).2.2.2

theorem Sound.issued_of_kind? (h : r.Sound) {scope : ScopeTag} {t : ObjectType} {k : RecordKind}
    (hk : r.kind? scope t = some k) : scope.toNat ≤ r.issued := by
  obtain ⟨p, hp, _⟩ := Option.bind_eq_some_iff.1 hk
  exact (h.of_pool? hp).2.2.2

namespace Evolves

theorem refl (h : r.Sound) : Evolves r r where
  sound := h
  issued_le := Nat.le_refl _
  gone := fun _ _ hp => hp
  kind := fun _ _ _ hk => Or.inr hk
  slot := fun _ o ho => Or.inr ⟨o, ho, Occupant.Ages.refl o⟩

theorem trans (hr : r.Sound) (h : Evolves r r') (h' : Evolves r' r'') : Evolves r r'' where
  sound := h'.sound
  issued_le := Nat.le_trans h.issued_le h'.issued_le
  gone := fun scope hs hp => h'.gone scope (Nat.le_trans hs h.issued_le) (h.gone scope hs hp)
  kind := by
    intro scope t k hk
    rcases h.kind scope t k hk with hp | hk'
    · exact Or.inl (h'.gone scope (Nat.le_trans (hr.issued_of_kind? hk) h.issued_le) hp)
    · exact h'.kind scope t k hk'
  slot := by
    intro q o ho
    rcases h.slot q o ho with hp | ⟨o', ho', ha⟩
    · exact Or.inl (h'.gone q.scope (Nat.le_trans (hr.issued_of_occupant? ho) h.issued_le) hp)
    · rcases h'.slot q o' ho' with hp | ⟨o'', ho'', ha'⟩
      · exact Or.inl hp
      · exact Or.inr ⟨o'', ho'', ha.trans ha'⟩

theorem of_same_pools (h : r'.Sound) (hissued : r'.issued = r.issued)
    (hpools : r'.pools = r.pools) : Evolves r r' := by
  have hp (t : ScopeTag) : r'.pool? t = r.pool? t := by rw [pool?, pool?, hpools]
  refine ⟨h, Nat.le_of_eq hissued.symm, fun t _ ht => by rwa [hp], fun s t k hk => ?_,
    fun q o ho => ?_⟩
  · exact Or.inr (by rwa [kind?, hp])
  · exact Or.inr ⟨o, by rwa [occupant?, hp], Occupant.Ages.refl o⟩

end Evolves

namespace Touches

variable {id : ObjectId} {c : Change}

theorem evolves (h : Touches id c r r') : Evolves r r' where
  sound := h.sound
  issued_le := Nat.le_of_eq h.issued.symm
  gone := by
    intro scope _ hp
    have := h.pool scope
    rw [hp] at this
    simpa using this
  kind := fun scope t k hk => Or.inr (by rw [h.kind, hk])
  slot := by
    intro q o ho
    right
    by_cases hq : ∃ k, SlotKey.unpack? id = some k ∧ q = k.site
    · obtain ⟨k, hk, rfl⟩ := hq
      exact ⟨o.touch k.generation c, by rw [h.slot k hk, ho, Option.map_some],
        Occupant.Ages.touch k.generation c o⟩
    · refine ⟨o, ?_, Occupant.Ages.refl o⟩
      rw [h.other q fun k hk e => hq ⟨k, hk, e⟩, ho]

theorem quiet (h : Touches id c r r') : Quiet r r' := by
  intro id' hid'
  rw [h.record?] at hid'
  split at hid'
  · rename_i he
    rw [he]
    simpa using hid'
  · exact hid'

end Touches

namespace Opens

variable {scope : ScopeTag}

theorem not_issued (h : Opens scope r r') : ¬ scope.toNat ≤ r.issued := by
  rw [h.tag]
  omega

/-- A new pool has nothing in it, and the others are as they were. -/
theorem occupant? (h : Opens scope r r') (hr : r.Sound) (q : Site) :
    r'.occupant? q = r.occupant? q := by
  rw [Registry.occupant?, Registry.occupant?, h.pool]
  by_cases hq : q.scope = scope
  · rw [if_pos hq, Option.bind_some, Pool.occupant?_empty]
    cases hp : r.pool? q.scope with
    | none => rfl
    | some p => exact absurd (hq ▸ (hr.of_pool? hp).2.2.2) h.not_issued
  · rw [if_neg hq]

theorem evolves (h : Opens scope r r') (hr : r.Sound) : Evolves r r' where
  sound := h.sound
  issued_le := by
    rw [h.issued]
    omega
  gone := by
    intro t ht hp
    have hne : t ≠ scope := fun e => h.not_issued (e ▸ ht)
    rw [h.pool, if_neg hne, hp]
  kind := by
    intro s t k hk
    have hne : s ≠ scope := fun e => h.not_issued (e ▸ hr.issued_of_kind? hk)
    exact Or.inr (by rwa [Registry.kind?, h.pool, if_neg hne])
  slot := fun q o ho => Or.inr ⟨o, by rw [h.occupant? hr, ho], Occupant.Ages.refl o⟩

theorem quiet (h : Opens scope r r') (hr : r.Sound) : Quiet r r' := by
  intro id hid
  have : r'.record? id = r.record? id := by
    simp only [record?, h.occupant? hr]
  rwa [this] at hid

end Opens

namespace Drops

variable {scope : ScopeTag}

theorem occupant? (h : Drops scope r r') (q : Site) :
    r'.occupant? q = if q.scope = scope then none else r.occupant? q := by
  rw [Registry.occupant?, h.pool]
  by_cases hq : q.scope = scope
  · rw [if_pos hq, if_pos hq, Option.bind_none]
  · rw [if_neg hq, if_neg hq, Registry.occupant?]

theorem evolves (h : Drops scope r r') : Evolves r r' where
  sound := h.sound
  issued_le := Nat.le_of_eq h.issued.symm
  gone := by
    intro t _ hp
    rw [h.pool, hp, ite_self]
  kind := by
    intro s t k hk
    by_cases hs : s = scope
    · exact Or.inl (by rw [h.pool, if_pos hs])
    · exact Or.inr (by rwa [Registry.kind?, h.pool, if_neg hs])
  slot := by
    intro q o ho
    by_cases hq : q.scope = scope
    · exact Or.inl (by rw [h.pool, if_pos hq])
    · exact Or.inr ⟨o, by rw [h.occupant?, if_neg hq, ho], Occupant.Ages.refl o⟩

theorem record? (h : Drops scope r r') (id : ObjectId) :
    r'.record? id = if ScopeTag.of? id = some scope then none else r.record? id := by
  by_cases ht : ScopeTag.of? id = some scope
  · rw [if_pos ht]
    exact record?_eq_none (by simp [lookup?, ht, h.pool])
  · rw [if_neg ht]
    refine record?_congr ?_
    cases hs : ScopeTag.of? id with
    | none => simp [lookup?, hs]
    | some t =>
      have hne : t ≠ scope := fun e => ht (by rw [hs, e])
      simp [lookup?, hs, h.pool, hne]

theorem quiet (h : Drops scope r r') : Quiet r r' := by
  intro id hid
  rw [h.record?] at hid
  split at hid
  · simp at hid
  · exact hid

end Drops

theorem clear_evolves (h : r.Sound) : Evolves r r.clear where
  sound := ⟨h.config, h.issued_le, by simp [clear], by simp [clear]⟩
  issued_le := Nat.le_refl _
  gone := fun _ _ _ => rfl
  kind := fun _ _ _ _ => Or.inl rfl
  slot := fun _ _ _ => Or.inl rfl

/-- Nothing is found where there are no pools. -/
theorem record?_clear (r : Registry) (id : ObjectId) : r.clear.record? id = none := by
  have ho (q : Site) : r.clear.occupant? q = none := rfl
  cases hk : SlotKey.unpack? id with
  | none => simp [record?, hk]
  | some k => simp [record?, hk, ho]

theorem clear_quiet (r : Registry) : Quiet r r.clear := by
  intro id hid
  simp [record?_clear] at hid

namespace Places

variable {k : RecordKind} {key : SlotKey}

theorem evolves (h : Places k key r r') : Evolves r r' where
  sound := h.sound
  issued_le := Nat.le_of_eq h.issued.symm
  gone := by
    intro scope _ hp
    have := h.pool scope
    rw [hp] at this
    simpa using this
  kind := by
    intro s t k' hk
    refine Or.inr ?_
    rw [h.kind]
    by_cases hs : s = key.scope ∧ t = key.type
    · obtain ⟨rfl, rfl⟩ := hs
      rw [if_pos ⟨rfl, rfl⟩, h.bound k' hk]
    · rwa [if_neg hs]
  slot := by
    intro q o ho
    right
    by_cases hq : q = key.site
    · subst hq
      obtain ⟨_, hg⟩ := h.fresh o ho
      refine ⟨Occupant.placed k key, by rw [h.slot, if_pos rfl], ?_, Or.inl hg⟩
      -- the slot is one of the arena the type is bound to
      obtain ⟨p, hp, ho⟩ := Option.bind_eq_some_iff.1 ho
      refine (h.bound o.kind ?_).symm
      have hp : r.pool? key.scope = some p := hp
      rw [Registry.kind?, hp]
      exact Pool.kind?_of_occupant? ho
    · exact ⟨o, by rw [h.slot, if_neg hq, ho], Occupant.Ages.refl o⟩

theorem unpack?_pack (h : Places k key r r') : SlotKey.unpack? key.pack = some key :=
  SlotKey.unpack?_pack h.key_scope

/-- The handle finds the record, and no other handle finds what it did not find before. -/
theorem record? (h : Places k key r r') {id : ObjectId} (hne : id ≠ key.pack) {o : Occupant}
    (ho : r'.record? id = some o) : r.record? id = some o := by
  obtain ⟨l, hl, ho, hg⟩ := record?_eq_some_iff.1 ho
  have hq : l.site ≠ key.site := by
    intro e
    rw [h.slot, if_pos e, Option.some.injEq] at ho
    subst ho
    have : key = l := SlotKey.eq_of_site e.symm hg
    subst this
    exact hne (SlotKey.pack_of_unpack? hl).symm
  rw [h.slot, if_neg hq] at ho
  exact record?_eq_some_iff.2 ⟨l, hl, ho, hg⟩

theorem record?_pack (h : Places k key r r') :
    r'.record? key.pack = some (Occupant.placed k key) := by
  refine record?_eq_some_iff.2 ⟨key, h.unpack?_pack, ?_, rfl⟩
  rw [h.slot, if_pos rfl]

theorem record?_of_live (h : Places k key r r') {id : ObjectId} {o : Occupant}
    (ho : r.record? id = some o) (hv : o.isValid = true) : r'.record? id = some o := by
  obtain ⟨l, hl, ho, hg⟩ := record?_eq_some_iff.1 ho
  have hq : l.site ≠ key.site := by
    intro e
    rw [e] at ho
    rw [(h.fresh o ho).1] at hv
    contradiction
  refine record?_eq_some_iff.2 ⟨l, hl, ?_, hg⟩
  rw [h.slot, if_neg hq, ho]

end Places

/-! ## Handles that were given out -/

/-- The pool of the handle is gone, or its slot has come to the generation of the handle. -/
def Spent (r : Registry) (id : ObjectId) : Prop :=
  ∃ k, SlotKey.unpack? id = some k ∧ k.scope.toNat ≤ r.issued ∧
    (r.pool? k.scope = none ∨
      ∃ o, r.occupant? k.site = some o ∧ k.generation.toNat ≤ o.generation.toNat)

/-- The handle is spent, and its record is not live. -/
def Stale (r : Registry) (id : ObjectId) : Prop :=
  ∃ k, SlotKey.unpack? id = some k ∧ k.scope.toNat ≤ r.issued ∧
    (r.pool? k.scope = none ∨ ∃ o, r.occupant? k.site = some o ∧
      (k.generation.toNat < o.generation.toNat ∨
        o.generation = k.generation ∧ o.isValid = false))

theorem Spent.mono {id : ObjectId} (h : r.Spent id) (he : Evolves r r') : r'.Spent id := by
  obtain ⟨k, hk, hs, hg⟩ := h
  refine ⟨k, hk, Nat.le_trans hs he.issued_le, ?_⟩
  rcases hg with hp | ⟨o, ho, hg⟩
  · exact Or.inl (he.gone k.scope hs hp)
  · rcases he.slot k.site o ho with hp | ⟨o', ho', ha⟩
    · exact Or.inl hp
    · refine Or.inr ⟨o', ho', ?_⟩
      rcases ha.generation with hlt | ⟨heq, _⟩
      · omega
      · rwa [heq]

theorem Stale.mono {id : ObjectId} (h : r.Stale id) (he : Evolves r r') : r'.Stale id := by
  obtain ⟨k, hk, hs, hg⟩ := h
  refine ⟨k, hk, Nat.le_trans hs he.issued_le, ?_⟩
  rcases hg with hp | ⟨o, ho, hg⟩
  · exact Or.inl (he.gone k.scope hs hp)
  · rcases he.slot k.site o ho with hp | ⟨o', ho', ha⟩
    · exact Or.inl hp
    · refine Or.inr ⟨o', ho', ?_⟩
      rcases ha.generation with hlt | ⟨heq, hv⟩
      · rcases hg with hg | ⟨hg, _⟩
        · exact Or.inl (by omega)
        · exact Or.inl (by rwa [hg] at hlt)
      · rcases hg with hg | ⟨hg, hn⟩
        · exact Or.inl (by rwa [heq])
        · refine Or.inr ⟨heq.trans hg, ?_⟩
          cases hv' : o'.isValid with
          | false => rfl
          | true =>
            rw [hv hv'] at hn
            contradiction

theorem Sound.spent_of_record? (h : r.Sound) {id : ObjectId} {o : Occupant}
    (ho : r.record? id = some o) : r.Spent id := by
  obtain ⟨k, hk, ho, hg⟩ := record?_eq_some_iff.1 ho
  exact ⟨k, hk, h.issued_of_occupant? ho, Or.inr ⟨o, ho, Nat.le_of_eq (by rw [hg])⟩⟩

theorem Spent.stale_of_not_live {id : ObjectId} (h : r.Spent id) (hn : ¬ r.Live id) :
    r.Stale id := by
  obtain ⟨k, hk, hs, hg⟩ := h
  refine ⟨k, hk, hs, hg.imp_right fun ⟨o, ho, hg⟩ => ⟨o, ho, ?_⟩⟩
  by_cases he : o.generation = k.generation
  · refine Or.inr ⟨he, ?_⟩
    cases hv : o.isValid with
    | false => rfl
    | true => exact absurd ⟨o, record?_eq_some_iff.2 ⟨k, hk, ho, he⟩, hv⟩ hn
  · refine Or.inl (Nat.lt_of_le_of_ne hg fun e => he ?_)
    exact UInt8.toNat_inj.1 e.symm

theorem Stale.isValid_of_record? {id : ObjectId} (h : r.Stale id) {o : Occupant}
    (ho : r.record? id = some o) : o.isValid = false := by
  obtain ⟨k, hk, _, hg⟩ := h
  obtain ⟨k', hk', ho, hgen⟩ := record?_eq_some_iff.1 ho
  cases hk.symm.trans hk'
  rcases hg with hp | ⟨o', ho', hg⟩
  · rw [occupant?, show r.pool? k.site.scope = none from hp] at ho
    contradiction
  · rw [ho] at ho'
    cases ho'
    rcases hg with hlt | ⟨_, hv⟩
    · rw [hgen] at hlt
      omega
    · exact hv

theorem Stale.not_live {id : ObjectId} (h : r.Stale id) : ¬ r.Live id := by
  rintro ⟨o, ho, hv⟩
  rw [h.isValid_of_record? ho] at hv
  contradiction

namespace Places

variable {k : RecordKind} {key : SlotKey}

/-- No record is placed under a handle that was given out. -/
theorem not_spent (h : Places k key r r') : ¬ r.Spent key.pack := by
  rintro ⟨l, hl, _, hg⟩
  cases h.unpack?_pack.symm.trans hl
  rcases hg with hp | ⟨o, ho, hg⟩
  · have := h.key_pool
    rw [hp] at this
    contradiction
  · have := (h.fresh o ho).2
    omega

theorem spent (h : Places k key r r') : r'.Spent key.pack :=
  h.sound.spent_of_record? h.record?_pack

end Places
end Registry
end DesignStore
