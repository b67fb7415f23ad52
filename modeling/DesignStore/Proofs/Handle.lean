/-
Handles say what they were made from.

`SlotKey.pack` puts the five fields of a key side by side, so the handle is a number
with five digits of different weight (`raw_pack`).  Reading the handle gives the key
back (`unpack?_pack`), and a handle that can be read at all is the handle of the key it
reads as (`pack_of_unpack?`).  So two keys of pools never share a handle.
-/
import Mathlib
import DesignStore.Handle.SlotKey

namespace DesignStore
namespace SlotKey

/-- The fields of a key as the digits of a number, each below its place value. -/
theorem raw_pack (k : SlotKey) :
    k.pack.raw.toNat = k.scope.val.toNat * 2 ^ 48 + (k.type.tag.toNat * 2 ^ 40 +
      (k.generation.toNat * 2 ^ 32 + (k.place.page.toNat * 2 ^ 16 + k.place.slot.toNat))) := by
  have hs := k.scope.val.toNat_lt
  have ht := k.type.tag.toNat_lt
  have hg := k.generation.toNat_lt
  have hp := k.place.page.toNat_lt
  have hq := k.place.slot.toNat_lt
  have hword : k.pack.raw.toNat = k.scope.val.toNat <<< 48 ||| (k.type.tag.toNat <<< 40 |||
      (k.generation.toNat <<< 32 ||| (k.place.page.toNat <<< 16 ||| k.place.slot.toNat))) := by
    have hw (x i n : Nat) (hx : x < 2 ^ n) (hn : n + i ≤ 64) :
        x <<< i % 2 ^ 64 = x <<< i := by
      refine Nat.mod_eq_of_lt ?_
      rw [Nat.shiftLeft_eq]
      calc x * 2 ^ i < 2 ^ n * 2 ^ i := Nat.mul_lt_mul_of_pos_right hx (Nat.two_pow_pos i)
        _ = 2 ^ (n + i) := (Nat.pow_add 2 n i).symm
        _ ≤ 2 ^ 64 := Nat.pow_le_pow_right (by omega) hn
    have h48 := hw _ 48 16 hs (by omega)
    have h40 := hw _ 40 8 ht (by omega)
    have h32 := hw _ 32 8 hg (by omega)
    have h16 := hw _ 16 16 hp (by omega)
    simp only [pack, UInt64.toNat_or, UInt64.toNat_shiftLeft, UInt16.toNat_toUInt64,
      UInt8.toNat_toUInt64]
    simp only [Nat.or_assoc, UInt64.reduceToNat, Nat.reduceMod, h48, h40, h32, h16]
  have h16 : k.place.page.toNat <<< 16 ||| k.place.slot.toNat =
      k.place.page.toNat * 2 ^ 16 + k.place.slot.toNat := by
    rw [← Nat.shiftLeft_add_eq_or_of_lt hq, Nat.shiftLeft_eq]
  have h32 : k.generation.toNat <<< 32 ||| (k.place.page.toNat * 2 ^ 16 + k.place.slot.toNat) =
      k.generation.toNat * 2 ^ 32 + (k.place.page.toNat * 2 ^ 16 + k.place.slot.toNat) := by
    rw [← Nat.shiftLeft_add_eq_or_of_lt (by omega), Nat.shiftLeft_eq]
  have h40 : k.type.tag.toNat <<< 40 ||| (k.generation.toNat * 2 ^ 32 +
        (k.place.page.toNat * 2 ^ 16 + k.place.slot.toNat)) =
      k.type.tag.toNat * 2 ^ 40 + (k.generation.toNat * 2 ^ 32 +
        (k.place.page.toNat * 2 ^ 16 + k.place.slot.toNat)) := by
    rw [← Nat.shiftLeft_add_eq_or_of_lt (by omega), Nat.shiftLeft_eq]
  rw [hword, h16, h32, h40, ← Nat.shiftLeft_add_eq_or_of_lt (by omega), Nat.shiftLeft_eq]

theorem fields_pack (k : SlotKey) :
    (k.pack.raw >>> 48).toUInt16 = k.scope.val ∧
      (k.pack.raw >>> 40).toUInt8 = k.type.tag ∧
      (k.pack.raw >>> 32).toUInt8 = k.generation ∧
      (k.pack.raw >>> 16).toUInt16 = k.place.page ∧
      k.pack.raw.toUInt16 = k.place.slot := by
  have hraw := raw_pack k
  have hs := k.scope.val.toNat_lt
  have ht := k.type.tag.toNat_lt
  have hg := k.generation.toNat_lt
  have hp := k.place.page.toNat_lt
  have hq := k.place.slot.toNat_lt
  refine ⟨UInt16.toNat_inj.1 ?_, UInt8.toNat_inj.1 ?_, UInt8.toNat_inj.1 ?_,
    UInt16.toNat_inj.1 ?_, UInt16.toNat_inj.1 ?_⟩ <;>
    simp only [UInt64.toNat_toUInt16, UInt64.toNat_toUInt8, UInt64.toNat_shiftRight,
      UInt64.reduceToNat, Nat.reduceMod, Nat.shiftRight_eq_div_pow] <;>
    omega

theorem of?_pack {k : SlotKey} (h : k.scope.val ≠ 0) : ScopeTag.of? k.pack = some k.scope := by
  simp [ScopeTag.of?, (fields_pack k).1, h]

theorem unpack?_pack {k : SlotKey} (h : k.scope.val ≠ 0) : unpack? k.pack = some k := by
  obtain ⟨_, ht, hg, hp, hq⟩ := fields_pack k
  simp [unpack?, of?_pack h, ht, hg, hp, hq, ObjectType.ofTag?_tag]

/-- Keys with the same handle are the same key. -/
theorem pack_injective : Function.Injective pack := by
  intro k l h
  obtain ⟨hs, ht, hg, hp, hq⟩ := fields_pack k
  obtain ⟨hs', ht', hg', hp', hq'⟩ := fields_pack l
  rw [h] at hs ht hg hp hq
  have htype : k.type = l.type := by
    have hk := ObjectType.ofTag?_tag k.type
    rw [← ht, ht', ObjectType.ofTag?_tag] at hk
    exact (Option.some.inj hk).symm
  obtain ⟨⟨_⟩, _, _, _, _⟩ := k
  obtain ⟨⟨_⟩, _, _, _, _⟩ := l
  cases hs.symm.trans hs'
  cases htype
  cases hg.symm.trans hg'
  cases hp.symm.trans hp'
  cases hq.symm.trans hq'
  rfl

theorem unpack?_null : unpack? ObjectId.null = none := rfl

theorem pack_ne_null {k : SlotKey} (h : k.scope.val ≠ 0) : k.pack ≠ ObjectId.null := by
  intro e
  have hk := unpack?_pack h
  rw [e, unpack?_null] at hk
  exact absurd hk (by simp)

/-! ## Handles that can be read -/

theorem unpack?_eq_some_iff {id : ObjectId} {k : SlotKey} :
    unpack? id = some k ↔ ScopeTag.of? id = some k.scope ∧
      ObjectType.ofTag? (id.raw >>> 40).toUInt8 = some k.type ∧
      (id.raw >>> 32).toUInt8 = k.generation ∧
      (id.raw >>> 16).toUInt16 = k.place.page ∧ id.raw.toUInt16 = k.place.slot := by
  obtain ⟨scope, type, generation, page, slot⟩ := k
  simp only [unpack?, bind, Option.bind_eq_some_iff, pure, Option.some.injEq, mk.injEq,
    Place.mk.injEq]
  constructor
  · rintro ⟨_, hs, _, ht, rfl, rfl, hg, hp, hq⟩
    exact ⟨hs, ht, hg, hp, hq⟩
  · rintro ⟨hs, ht, hg, hp, hq⟩
    exact ⟨scope, hs, type, ht, rfl, rfl, hg, hp, hq⟩

theorem of?_of_unpack? {id : ObjectId} {k : SlotKey} (h : unpack? id = some k) :
    ScopeTag.of? id = some k.scope :=
  (unpack?_eq_some_iff.1 h).1

end SlotKey

/-- The tag of a handle is its top sixteen bits, and no handle has tag zero. -/
theorem ScopeTag.of?_eq_some_iff {id : ObjectId} {t : ScopeTag} :
    ScopeTag.of? id = some t ↔ (id.raw >>> 48).toUInt16 = t.val ∧ t.val ≠ 0 := by
  obtain ⟨v⟩ := t
  simp only [ScopeTag.of?]
  split
  · rename_i hz
    simp only [reduceCtorEq, hz, ne_eq, false_iff, not_and, Decidable.not_not]
    exact fun h => h.symm
  · rename_i hz
    simp only [Option.some.injEq, ScopeTag.mk.injEq]
    exact ⟨fun h => ⟨h, h ▸ hz⟩, fun h => h.1⟩

theorem ObjectType.tag_of_ofTag? {b : UInt8} {t : ObjectType} (h : ofTag? b = some t) :
    t.tag = b := by
  revert b
  have hall : ∀ n : Fin 256, ∀ t, ofTag? (UInt8.ofNat n.val) = some t →
      t.tag = UInt8.ofNat n.val := by
    decide +kernel
  intro b h
  have hb := hall ⟨b.toNat, b.toNat_lt⟩ t
  simp only [UInt8.ofNat_toNat] at hb
  exact hb h

/-- The tags are the numbers 1 to 77. -/
theorem ObjectType.ofTag?_eq_none_iff {b : UInt8} :
    ofTag? b = none ↔ b.toNat ∉ Set.Icc 1 77 := by
  have hsize : all.size = 77 := rfl
  rw [Set.mem_Icc, ofTag?]
  by_cases hb : b = 0
  · simp [hb]
  · have hpos : b.toNat ≠ 0 := fun h => hb (UInt8.toNat_inj.1 h)
    rw [if_neg hb, Array.getElem?_eq_none_iff, hsize]
    omega

theorem ScopeTag.of?_eq_none_iff {id : ObjectId} : of? id = none ↔ id.raw.toNat / 2 ^ 48 = 0 := by
  have hraw := id.raw.toNat_lt
  rw [of?]
  simp only [ite_eq_left_iff, reduceCtorEq, imp_false, not_not, ← UInt16.toNat_inj,
    UInt64.toNat_toUInt16, UInt64.toNat_shiftRight, UInt64.reduceToNat, UInt16.toNat_zero,
    Nat.reduceMod, Nat.shiftRight_eq_div_pow]
  omega

namespace SlotKey

/-- A handle that can be read is the handle of what it reads as. -/
theorem pack_of_unpack? {id : ObjectId} {k : SlotKey} (h : unpack? id = some k) :
    k.pack = id := by
  obtain ⟨hs, ht, hg, hp, hq⟩ := unpack?_eq_some_iff.1 h
  have hs' := (ScopeTag.of?_eq_some_iff.1 hs).1
  have ht' := ObjectType.tag_of_ofTag? ht
  have hraw := raw_pack k
  rw [← hs', ht', ← hg, ← hp, ← hq] at hraw
  simp only [UInt64.toNat_toUInt16, UInt64.toNat_toUInt8, UInt64.toNat_shiftRight,
    UInt64.reduceToNat, Nat.reduceMod, Nat.shiftRight_eq_div_pow] at hraw
  have hid := id.raw.toNat_lt
  have hnat : k.pack.raw.toNat = id.raw.toNat := by omega
  have : k.pack.raw = id.raw := UInt64.toNat_inj.1 hnat
  obtain ⟨raw⟩ := id
  exact congrArg ObjectId.mk this

/-- There is nothing to read in a handle without a scope tag, nor in one whose type byte is no
tag. -/
theorem unpack?_eq_none_iff {id : ObjectId} : unpack? id = none ↔
    id.raw.toNat / 2 ^ 48 = 0 ∨ id.raw.toNat / 2 ^ 40 % 2 ^ 8 ∉ Set.Icc 1 77 := by
  have hbyte : (id.raw >>> 40).toUInt8.toNat = id.raw.toNat / 2 ^ 40 % 2 ^ 8 := by
    rw [UInt64.toNat_toUInt8, UInt64.toNat_shiftRight]
    simp only [UInt64.reduceToNat, Nat.reduceMod, Nat.shiftRight_eq_div_pow]
  rw [← ScopeTag.of?_eq_none_iff, ← hbyte, ← ObjectType.ofTag?_eq_none_iff, unpack?]
  cases ScopeTag.of? id with
  | none => simp
  | some scope => cases ObjectType.ofTag? (id.raw >>> 40).toUInt8 <;> simp

/-- The keys of pools and the handles that can be read are in one-to-one correspondence: such a key
is read back from its handle, and a handle is that of the key it reads as.  A handle cannot be read
if it has no scope tag or if its type byte is no tag, and for no other reason.  The tag and the type
that are read off the handle alone are those of the key. -/
theorem handle_codec_exact :
    (∀ k : SlotKey, k.scope.val ≠ 0 → unpack? k.pack = some k ∧ k.pack.isNull = false) ∧
      Set.InjOn pack {k | k.scope.val ≠ 0} ∧
      ∀ id : ObjectId,
        (unpack? id = none ↔
          id.raw.toNat / 2 ^ 48 = 0 ∨ id.raw.toNat / 2 ^ 40 % 2 ^ 8 ∉ Set.Icc 1 77) ∧
        ∀ k, unpack? id = some k →
          k.pack = id ∧ ScopeTag.of? id = some k.scope ∧ id.type? = some k.type := by
  refine ⟨fun k hk => ⟨unpack?_pack hk, ?_⟩, fun k _ l _ h => pack_injective h, fun id =>
    ⟨unpack?_eq_none_iff, fun k hk => ⟨pack_of_unpack? hk, of?_of_unpack? hk, ?_⟩⟩⟩
  · rw [Bool.eq_false_iff]
    intro hnull
    have hraw : k.pack.raw = 0 := by simpa [ObjectId.isNull] using hnull
    exact pack_ne_null hk (congrArg ObjectId.mk hraw)
  · rw [ObjectId.type?, hk, Option.map_some]

/-- A key with every field at work, and a handle whose type byte is past the last tag. -/
theorem handle_codec_exact_net :
    let k : SlotKey :=
      { scope := ⟨7⟩, type := .net, generation := 255, place := { page := 0x1234, slot := 0xBEEF } }
    let id : ObjectId := ⟨0x00014E0000000000⟩
    k.scope.val ≠ 0 ∧ k.pack.raw = 0x00070EFF1234BEEF ∧ unpack? k.pack = some k ∧
      k.pack.type? = some .net ∧ unpack? id = none := by
  intro k id
  have hk : k.scope.val ≠ 0 := by decide
  obtain ⟨hpack, _, hread⟩ := handle_codec_exact
  obtain ⟨hunpack, _⟩ := hpack k hk
  obtain ⟨_, _, htype⟩ := (hread k.pack).2 k hunpack
  exact ⟨hk, by decide, hunpack, htype, (hread id).1.2 (.inr (by decide))⟩

end SlotKey
end DesignStore
