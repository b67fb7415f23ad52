/-
Shifted tags.

A handle is a tag and a rest.  A renaming that gives each tag another and each rest another is one
as soon as the type in the rest is the same, and for tags in use the whole of it (`ofDigits`).

Two such renamings are used here.  `shift` adds a number to every tag.  `probe` exchanges the
handles that are not of the tags in use, and no others, so what it leaves alone is of a tag in use.
-/
import DesignStore.Proofs.Script

namespace DesignStore

/-- The tag of a handle, as a number, and none for zero. -/
theorem ScopeTag.of?_eq_digit (id : ObjectId) :
    ScopeTag.of? id = if id.raw.toNat / 2 ^ 48 = 0 then none
      else some ⟨UInt16.ofNat (id.raw.toNat / 2 ^ 48)⟩ := by
  have hid := id.raw.toNat_lt
  have hdigit : (id.raw >>> 48).toUInt16 = UInt16.ofNat (id.raw.toNat / 2 ^ 48) := by
    refine UInt16.toNat_inj.1 ?_
    simp only [UInt64.toNat_toUInt16, UInt64.toNat_shiftRight, UInt64.reduceToNat, Nat.reduceMod,
      Nat.shiftRight_eq_div_pow, UInt16.toNat_ofNat']
  have hzero : (id.raw >>> 48).toUInt16 = 0 ↔ id.raw.toNat / 2 ^ 48 = 0 := by
    rw [hdigit, ← UInt16.toNat_inj, UInt16.toNat_ofNat_of_lt' (by rw [UInt16.size]; omega)]
    rfl
  rw [hdigit] at hzero
  simp only [ScopeTag.of?, hdigit, hzero]

theorem ScopeTag.digit_of_of? {id : ObjectId} {t : ScopeTag} (h : ScopeTag.of? id = some t) :
    id.raw.toNat / 2 ^ 48 ≠ 0 ∧ id.raw.toNat / 2 ^ 48 = t.toNat := by
  have hid := id.raw.toNat_lt
  rw [ScopeTag.of?_eq_digit] at h
  split at h
  · cases h
  · rename_i hpos
    cases h
    exact ⟨hpos, (UInt16.toNat_ofNat_of_lt' (by rw [UInt16.size]; omega)).symm⟩

theorem ObjectId.type?_eq (id : ObjectId) :
    id.type? = (ScopeTag.of? id).bind fun _ => ObjectType.ofTag? (id.raw >>> 40).toUInt8 := by
  rw [ObjectId.type?, SlotKey.unpack?]
  cases ScopeTag.of? id with
  | none => rfl
  | some t => cases ObjectType.ofTag? (id.raw >>> 40).toUInt8 <;> rfl

namespace Renaming

/-- Other tags in place of tags, and other numbers in place of what a handle holds beside its tag.
Tag zero and the null handle stay what they are, and so does the type in a handle. -/
structure Digits (tag : Nat → Nat) (rest : Nat → Nat → Nat) (offset last : Nat) : Prop where
  tag_lt : ∀ t < 2 ^ 16, tag t < 2 ^ 16
  tag_inj : ∀ s < 2 ^ 16, ∀ t < 2 ^ 16, tag s = tag t → s = t
  tag_zero : tag 0 = 0
  rest_lt : ∀ t < 2 ^ 16, ∀ x < 2 ^ 48, rest t x < 2 ^ 48
  rest_inj : ∀ t < 2 ^ 16, ∀ x < 2 ^ 48, ∀ y < 2 ^ 48, rest t x = rest t y → x = y
  rest_zero : rest 0 0 = 0
  type : ∀ t < 2 ^ 16, 0 < t → ∀ x < 2 ^ 48, rest t x / 2 ^ 40 = x / 2 ^ 40
  same : ∀ t ≤ last, 0 < t → ∀ x < 2 ^ 48, rest t x = x
  fits : offset + last ≤ Registry.maxScopes
  next : ∀ i < last, tag (i + 1) = i + offset + 1

variable {tag : Nat → Nat} {rest : Nat → Nat → Nat} {offset last : Nat}

def onDigits (tag : Nat → Nat) (rest : Nat → Nat → Nat) (id : ObjectId) : ObjectId :=
  ⟨UInt64.ofNat (tag (id.raw.toNat / 2 ^ 48) * 2 ^ 48 +
    rest (id.raw.toNat / 2 ^ 48) (id.raw.toNat % 2 ^ 48))⟩

def onTag (tag : Nat → Nat) (t : ScopeTag) : ScopeTag :=
  ⟨UInt16.ofNat (tag t.toNat)⟩

namespace Digits

variable (h : Digits tag rest offset last)
include h

theorem raw_onDigits (id : ObjectId) :
    (onDigits tag rest id).raw.toNat / 2 ^ 48 = tag (id.raw.toNat / 2 ^ 48) ∧
      (onDigits tag rest id).raw.toNat % 2 ^ 48 =
        rest (id.raw.toNat / 2 ^ 48) (id.raw.toNat % 2 ^ 48) := by
  have hid := id.raw.toNat_lt
  have ht := h.tag_lt (id.raw.toNat / 2 ^ 48) (by omega)
  have hr := h.rest_lt (id.raw.toNat / 2 ^ 48) (by omega) (id.raw.toNat % 2 ^ 48) (by omega)
  rw [onDigits, UInt64.toNat_ofNat_of_lt' (by rw [UInt64.size]; omega)]
  omega

theorem toNat_onTag (t : ScopeTag) : (onTag tag t).toNat = tag t.toNat := by
  exact UInt16.toNat_ofNat_of_lt' (h.tag_lt _ t.val.toNat_lt)

theorem tag_pos {t : Nat} (ht : t < 2 ^ 16) : 0 < tag t ↔ 0 < t := by
  have hinj := h.tag_inj t ht 0 (by omega)
  have hzero := h.tag_zero
  constructor
  · intro hpos
    refine Nat.pos_of_ne_zero fun h0 => ?_
    rw [h0, hzero] at hpos
    omega
  · intro hpos
    refine Nat.pos_of_ne_zero fun h0 => ?_
    have := hinj (h0.trans hzero.symm)
    omega

theorem of?_onDigits (id : ObjectId) :
    ScopeTag.of? (onDigits tag rest id) = (ScopeTag.of? id).map (onTag tag) := by
  have hid := id.raw.toNat_lt
  have ht : id.raw.toNat / 2 ^ 48 < 2 ^ 16 := by omega
  have hpos := h.tag_pos ht
  rw [ScopeTag.of?_eq_digit, ScopeTag.of?_eq_digit, (h.raw_onDigits id).1]
  by_cases h0 : id.raw.toNat / 2 ^ 48 = 0
  · rw [if_pos h0, if_pos (by omega), Option.map_none]
  · rw [if_neg h0, if_neg (by omega), Option.map_some]
    have hdigit : (⟨UInt16.ofNat (id.raw.toNat / 2 ^ 48)⟩ : ScopeTag).toNat =
        id.raw.toNat / 2 ^ 48 := UInt16.toNat_ofNat_of_lt' ht
    rw [onTag, hdigit]

theorem type_onDigits {id : ObjectId} (hpos : id.raw.toNat / 2 ^ 48 ≠ 0) :
    ((onDigits tag rest id).raw >>> 40).toUInt8 = (id.raw >>> 40).toUInt8 := by
  have hid := id.raw.toNat_lt
  have hsame := h.type (id.raw.toNat / 2 ^ 48) (by omega) (Nat.pos_of_ne_zero hpos)
    (id.raw.toNat % 2 ^ 48) (by omega)
  obtain ⟨_, hrest⟩ := h.raw_onDigits id
  refine UInt8.toNat_inj.1 ?_
  generalize (onDigits tag rest id).raw = raw at hrest
  simp only [UInt64.toNat_toUInt8, UInt64.toNat_shiftRight, UInt64.reduceToNat, Nat.reduceMod,
    Nat.shiftRight_eq_div_pow]
  omega

theorem type?_onDigits (id : ObjectId) : (onDigits tag rest id).type? = id.type? := by
  rw [ObjectId.type?_eq, ObjectId.type?_eq, h.of?_onDigits]
  cases hof : ScopeTag.of? id with
  | none => rw [Option.map_none, Option.bind_none, Option.bind_none]
  | some t =>
    rw [h.type_onDigits (ScopeTag.digit_of_of? hof).1, Option.map_some, Option.bind_some, Option.bind_some]

theorem onDigits_injective : (onDigits tag rest).Injective := by
  intro x y hxy
  obtain ⟨htag, hrest⟩ := h.raw_onDigits x
  obtain ⟨htag', hrest'⟩ := h.raw_onDigits y
  rw [hxy] at htag hrest
  have hx := x.raw.toNat_lt
  have hy := y.raw.toNat_lt
  have ht := h.tag_inj _ (by omega) _ (by omega) (htag.symm.trans htag')
  rw [← ht] at hrest'
  have hr := h.rest_inj (x.raw.toNat / 2 ^ 48) (by omega) _ (by omega) _ (by omega)
    (hrest.symm.trans hrest')
  have hraw : x.raw = y.raw := UInt64.toNat_inj.1 (by omega)
  obtain ⟨raw⟩ := x
  exact congrArg ObjectId.mk hraw

theorem onTag_injective : (onTag tag).Injective := by
  intro s t hst
  have hnat := congrArg ScopeTag.toNat hst
  rw [h.toNat_onTag, h.toNat_onTag] at hnat
  have hval : s.val = t.val :=
    UInt16.toNat_inj.1 (h.tag_inj _ s.val.toNat_lt _ t.val.toNat_lt hnat)
  obtain ⟨v⟩ := s
  exact congrArg ScopeTag.mk hval

theorem onDigits_null : onDigits tag rest ObjectId.null = ObjectId.null := by
  have hrun : onDigits tag rest ObjectId.null = ⟨UInt64.ofNat (tag 0 * 2 ^ 48 + rest 0 0)⟩ := rfl
  rw [hrun, h.tag_zero, h.rest_zero]
  rfl

theorem onDigits_pack (k : SlotKey) (hk : k.scope.val ≠ 0) (hlast : k.scope.toNat ≤ last) :
    onDigits tag rest k.pack = SlotKey.pack { k with scope := onTag tag k.scope } := by
  have hraw := k.raw_pack
  have hraw' := SlotKey.raw_pack { k with scope := onTag tag k.scope }
  have hs := k.scope.val.toNat_lt
  have ht := k.type.tag.toNat_lt
  have hg := k.generation.toNat_lt
  have hp := k.place.page.toNat_lt
  have hq := k.place.slot.toNat_lt
  have hdiv : k.pack.raw.toNat / 2 ^ 48 = k.scope.toNat := by
    rw [ScopeTag.toNat]
    omega
  have hpos : 0 < k.scope.toNat := Nat.pos_of_ne_zero fun h0 => hk (UInt16.toNat_inj.1 h0)
  obtain ⟨htag, hrest⟩ := h.raw_onDigits k.pack
  have htag' := h.toNat_onTag k.scope
  rw [hdiv] at htag hrest
  rw [h.same _ hlast hpos _ (by omega)] at hrest
  have hscope : (onTag tag k.scope).val.toNat = tag k.scope.toNat := htag'
  have hword : (onDigits tag rest k.pack).raw =
      (SlotKey.pack { k with scope := onTag tag k.scope }).raw := by
    refine UInt64.toNat_inj.1 ?_
    simp only [hscope] at hraw'
    omega
  exact congrArg ObjectId.mk hword

theorem next_onTag (i : Nat) (hi : i < last) :
    onTag tag ⟨UInt16.ofNat (i + 1)⟩ = ⟨UInt16.ofNat (i + offset + 1)⟩ := by
  have hle := h.fits
  have hmax : i + 1 < 2 ^ 16 := by
    rw [Registry.maxScopes] at hle
    omega
  rw [onTag, show (⟨UInt16.ofNat (i + 1)⟩ : ScopeTag).toNat = i + 1 from
    UInt16.toNat_ofNat_of_lt' hmax, h.next i hi]

end Digits

/-- The renaming that changes the digits of handles. -/
def ofDigits (h : Digits tag rest offset last) : Renaming where
  id := onDigits tag rest
  tag := onTag tag
  offset := offset
  last := last
  id_injective := h.onDigits_injective
  tag_injective := h.onTag_injective
  null := h.onDigits_null
  of? := h.of?_onDigits
  type? := h.type?_onDigits
  pack := h.onDigits_pack
  fits := h.fits
  next := h.next_onTag

/-! ## The shift -/

/-- The tag that is `n` tags on.  After the last tag they start over at 1. -/
def shiftTag (n t : Nat) : Nat :=
  if t = 0 then 0 else (t + n - 1) % Registry.maxScopes + 1

theorem digits_shift (n : Nat) :
    Digits (shiftTag n) (fun _ x => x) (min n Registry.maxScopes) (Registry.maxScopes - n) where
  tag_lt t ht := by
    simp only [shiftTag, Registry.maxScopes]
    split <;> omega
  tag_inj s hs t ht hst := by
    simp only [shiftTag, Registry.maxScopes] at hst
    split at hst <;> split at hst <;> omega
  tag_zero := rfl
  rest_lt _ _ _ hx := hx
  rest_inj _ _ _ _ _ _ hxy := hxy
  rest_zero := rfl
  type _ _ _ _ _ := rfl
  same _ _ _ _ _ := rfl
  fits := by omega
  next i hi := by
    rw [Registry.maxScopes] at hi
    rw [shiftTag, if_neg (by omega), Registry.maxScopes]
    omega

/-- Adds `n` to every tag. -/
def shift (n : Nat) : Renaming :=
  ofDigits (digits_shift n)

theorem shift_tag {n : Nat} {t : ScopeTag} (ht : t.val ≠ 0)
    (hle : n + t.toNat ≤ Registry.maxScopes) :
    (shift n).tag t = ⟨t.val + UInt16.ofNat n⟩ := by
  rw [Registry.maxScopes] at hle
  have hpos : t.toNat ≠ 0 := fun h0 => ht (UInt16.toNat_inj.1 h0)
  have htag := (digits_shift n).toNat_onTag t
  rw [shiftTag, if_neg hpos, Registry.maxScopes] at htag
  have hsum : (t.val + UInt16.ofNat n).toNat = t.toNat + n := by
    rw [UInt16.toNat_add, UInt16.toNat_ofNat_of_lt' (by rw [UInt16.size]; omega)]
    exact Nat.mod_eq_of_lt (show t.toNat + n < 2 ^ 16 by omega)
  refine congrArg ScopeTag.mk (UInt16.toNat_inj.1 ?_)
  rw [hsum]
  exact htag.trans (by omega)

theorem shift_id {n : Nat} {id : ObjectId} {t : ScopeTag} (ht : ScopeTag.of? id = some t)
    (hle : n + t.toNat ≤ Registry.maxScopes) :
    (shift n).id id = ⟨id.raw + (UInt64.ofNat n <<< 48)⟩ := by
  have hid := id.raw.toNat_lt
  obtain ⟨hpos, hdigit⟩ := ScopeTag.digit_of_of? ht
  rw [Registry.maxScopes] at hle
  obtain ⟨htag, hrest⟩ := (digits_shift n).raw_onDigits id
  rw [shiftTag, if_neg hpos, hdigit, Registry.maxScopes] at htag
  have hshift : (UInt64.ofNat n <<< 48).toNat = n * 2 ^ 48 := by
    rw [UInt64.toNat_shiftLeft, UInt64.toNat_ofNat_of_lt' (by rw [UInt64.size]; omega),
      Nat.shiftLeft_eq]
    exact Nat.mod_eq_of_lt (by simp only [UInt64.reduceToNat, Nat.reduceMod]; omega)
  refine congrArg ObjectId.mk (UInt64.toNat_inj.1 ?_)
  show (onDigits (shiftTag n) (fun _ x => x) id).raw.toNat = _
  rw [UInt64.toNat_add, hshift]
  omega

/-! ## The probe -/

/-- Another number in place of the rest of a handle that is null or whose tag is not in use. -/
def probeRest (last t x : Nat) : Nat :=
  if t = 0 then if x = 0 then 0 else x % (2 ^ 48 - 1) + 1
  else if t ≤ last then x
  else if x % 2 = 0 then x + 1 else x - 1

theorem digits_probe {last : Nat} (hlast : last ≤ Registry.maxScopes) :
    Digits (fun t => t) (probeRest last) 0 last where
  tag_lt _ ht := ht
  tag_inj _ _ _ _ hst := hst
  tag_zero := rfl
  rest_lt t _ x hx := by
    simp only [probeRest]
    split
    · split <;> omega
    · split
      · exact hx
      · split <;> omega
  rest_inj t _ x hx y hy hxy := by
    simp only [probeRest] at hxy
    split at hxy
    · split at hxy <;> split at hxy <;> omega
    · split at hxy
      · exact hxy
      · split at hxy <;> split at hxy <;> omega
  rest_zero := rfl
  type t _ hpos x hx := by
    rw [probeRest, if_neg (by omega)]
    split
    · rfl
    · split <;> omega
  same t ht hpos x _ := by rw [probeRest, if_neg (by omega), if_pos ht]
  fits := by rwa [Nat.zero_add]
  next _ _ := rfl

/-- Exchanges the handles that are not of the first `last` tags. -/
def probe {last : Nat} (hlast : last ≤ Registry.maxScopes) : Renaming :=
  ofDigits (digits_probe hlast)

/-- What the probe leaves alone is null or of a tag in use. -/
theorem used_of_probe {last : Nat} {hlast : last ≤ Registry.maxScopes} {id : ObjectId}
    (h : (probe hlast).id id = id) :
    id = ObjectId.null ∨ ∃ t, ScopeTag.of? id = some t ∧ t.toNat ≤ last := by
  have hid := id.raw.toNat_lt
  have hrest := ((digits_probe hlast).raw_onDigits id).2
  rw [show onDigits (fun t => t) (probeRest last) id = id from h] at hrest
  have hsame : (id.raw.toNat / 2 ^ 48 = 0 ∧ id.raw.toNat % 2 ^ 48 = 0) ∨
      (id.raw.toNat / 2 ^ 48 ≠ 0 ∧ id.raw.toNat / 2 ^ 48 ≤ last) := by
    simp only [probeRest] at hrest
    split at hrest
    · split at hrest <;> omega
    · split at hrest
      · omega
      · split at hrest <;> omega
  rcases hsame with ⟨hzero, hlow⟩ | ⟨hpos, hle⟩
  · have hraw : id.raw = 0 := UInt64.toNat_inj.1 (show id.raw.toNat = 0 by omega)
    obtain ⟨raw⟩ := id
    exact Or.inl (congrArg ObjectId.mk hraw)
  · refine Or.inr ⟨_, by rw [ScopeTag.of?_eq_digit, if_neg hpos], ?_⟩
    rwa [show (⟨UInt16.ofNat (id.raw.toNat / 2 ^ 48)⟩ : ScopeTag).toNat = id.raw.toNat / 2 ^ 48 from
      UInt16.toNat_ofNat_of_lt' (by rw [UInt16.size]; omega)]

end Renaming
end DesignStore
