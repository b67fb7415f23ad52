/-
A scrambled order leaves nothing out.

Two loops look for the step of an order: one divides until nothing remains, and the other, around
it, goes through the odd numbers until one has no factor in common with the length.  `Ends` says
of a loop that it comes to an end, and where.  What every round of it keeps holds at the end
(`Ends.keeps`), so the search ends at an odd number, and not beyond any odd number at which it
would end.  One of the two odd numbers that follow `len` is such a number (`coprime_beyond`), which
bounds the step.

A step without a factor in common with `len` takes different places to different places, and that
makes the order a permutation (`scrambled_perm`).
-/
import Mathlib
import DesignStore.VisitOrder

namespace DesignStore
namespace VisitOrder

/-! ## Loops -/

section Loops

variable {σ : Type} {stop : σ → Prop} {next : σ → σ} {s t : σ}

/-- The loop that goes from `s` to `next s`, and on until `stop` holds, comes to an end in `t`. -/
inductive Ends (stop : σ → Prop) (next : σ → σ) : σ → σ → Prop
  | here {s : σ} : stop s → Ends stop next s s
  | round {s t : σ} : ¬ stop s → Ends stop next (next s) t → Ends stop next s t

namespace Ends

theorem stops (h : Ends stop next s t) : stop t := by
  induction h with
  | here hs => exact hs
  | round _ _ ih => exact ih

theorem keeps {P : σ → Prop} (hnext : ∀ s, ¬ stop s → P s → P (next s))
    (h : Ends stop next s t) : P s → P t := by
  induction h with
  | here _ => exact id
  | round hs _ ih => exact fun hp => ih (hnext _ hs hp)

/-- In steps of two a loop does not pass a number of the same parity at which it stops. -/
theorem le_of_stop {stop : Nat → Prop} {s t b : Nat} (h : Ends stop (· + 2) s t) (hb : stop b)
    (hle : s ≤ b) (hparity : s % 2 = b % 2) : t ≤ b ∧ t % 2 = b % 2 := by
  refine h.keeps (P := fun u => u ≤ b ∧ u % 2 = b % 2) (fun u hu hinv => ?_) ⟨hle, hparity⟩
  have hne : u ≠ b := fun e => hu (e ▸ hb)
  show u + 2 ≤ b ∧ (u + 2) % 2 = b % 2
  omega

end Ends

end Loops

/-! ## The greatest common factor -/

theorem commonFactor_eq (s : Nat × Nat) : commonFactor s = Nat.gcd s.1 s.2 := by
  fun_induction commonFactor s with
  | case1 s hs => rw [hs, Nat.gcd_zero_right]
  | case2 s _ ih =>
    rw [ih]
    show Nat.gcd s.2 (s.1 % s.2) = Nat.gcd s.1 s.2
    rw [Nat.gcd_comm s.2, ← Nat.gcd_rec, Nat.gcd_comm]

/-- Dividing comes to an end, when nothing remains beside the greatest common factor. -/
theorem ends_divide (s : Nat × Nat) : Ends (·.2 = 0) divide s (commonFactor s, 0) := by
  fun_induction commonFactor s with
  | case1 s hs =>
    obtain ⟨a, b⟩ := s
    obtain rfl : b = 0 := hs
    exact .here rfl
  | case2 s hs ih => exact .round hs ih

/-! ## The search for a step -/

/-- The numbers at which the search for a step ends. -/
def Fits (len s : Nat) : Prop :=
  commonFactor (s, len) = 1

variable {len : Nat}

theorem fits_iff {s : Nat} : Fits len s ↔ Nat.Coprime s len := by
  rw [Fits, commonFactor_eq, Nat.coprime_iff_gcd_eq_one]

/-- The search ends at the first number that fits, if that is among those it may look at. -/
theorem ends_seek {n s k : Nat} (hk : k < n) (hfits : Fits len (s + 2 * k)) :
    Ends (Fits len) (· + 2) s (seek len n s) := by
  induction n generalizing s k with
  | zero => omega
  | succ n ih =>
    rw [seek]
    by_cases hs : commonFactor (s, len) = 1
    · rw [if_pos hs]
      exact .here hs
    · rw [if_neg hs]
      cases k with
      | zero => exact absurd hfits hs
      | succ k =>
        have hnext : s + 2 * (k + 1) = s + 2 + 2 * k := by omega
        exact .round hs (ih (Nat.lt_of_succ_lt_succ hk) (hnext ▸ hfits))

/-- Of the two odd numbers that follow a length, the first has no factor in common with it if it
is even, and the second if it is odd. -/
theorem coprime_beyond (len : Nat) : Nat.Coprime (len + 1 + len % 2) len := by
  rw [Nat.add_assoc, Nat.add_comm, Nat.coprime_add_self_left]
  rcases Nat.mod_two_eq_zero_or_one len with hlen | hlen
  · rw [hlen]
    exact Nat.coprime_one_left len
  · rw [hlen]
    exact Nat.coprime_two_left.2 (Nat.odd_iff.2 hlen)

theorem start_odd (len : Nat) (seed : UInt64) : start len seed % 2 = 1 :=
  Nat.or_mod_two_eq_one.2 (.inr rfl)

theorem start_le (hlen : len ≠ 0) (seed : UInt64) : start len seed ≤ len := by
  have hhalf : start len seed / 2 = (seed * 6364136223846793005).toNat % len / 2 := by
    rw [start, Nat.or_div_two]
    exact Nat.or_zero _
  have hodd := start_odd len seed
  have hlt := Nat.mod_lt (seed * 6364136223846793005).toNat (Nat.pos_of_ne_zero hlen)
  omega

theorem ends_step (hlen : len ≠ 0) (seed : UInt64) :
    Ends (Fits len) (· + 2) (start len seed) (step len seed) := by
  have hodd := start_odd len seed
  have hle := start_le hlen seed
  have hbeyond : start len seed + 2 * ((len + 1 + len % 2 - start len seed) / 2) =
      len + 1 + len % 2 := by omega
  refine ends_seek (k := (len + 1 + len % 2 - start len seed) / 2) (by omega) ?_
  rw [hbeyond]
  exact fits_iff.2 (coprime_beyond len)

theorem coprime_step (hlen : len ≠ 0) (seed : UInt64) : Nat.Coprime (step len seed) len :=
  fits_iff.1 (ends_step hlen seed).stops

theorem step_bounds (hlen : len ≠ 0) (seed : UInt64) :
    step len seed ≤ len + 2 ∧ step len seed % 2 = 1 := by
  have hodd := start_odd len seed
  have hle := start_le hlen seed
  have hbound := (ends_step hlen seed).le_of_stop (fits_iff.2 (coprime_beyond len)) (by omega)
    (by omega)
  omega

/-! ## The order -/

/-- In steps of a number without a factor in common with the length, no place comes twice. -/
theorem nodup_multiples {s : Nat} (h : Nat.Coprime s len) :
    ((List.range len).map fun i => i * s % len).Nodup := by
  refine List.nodup_range.map_on fun i hi j hj he => ?_
  have hmod : i * s ≡ j * s [MOD len] := he
  exact (hmod.cancel_right_of_coprime h.symm).eq_of_lt_of_lt (List.mem_range.1 hi)
    (List.mem_range.1 hj)

theorem scrambled_perm (len : Nat) (seed : UInt64) :
    (scrambled len seed).Perm (List.range len) := by
  by_cases hlen : len = 0
  · rw [scrambled, if_pos hlen, hlen]
    exact .refl []
  · rw [scrambled, if_neg hlen]
    -- places that are all different and below `len` are all of them, for there are `len`
    refine ((nodup_multiples (coprime_step hlen seed)).subperm ?_).perm_of_length_le (by simp)
    intro x hx
    obtain ⟨i, _, rfl⟩ := List.mem_map.1 hx
    exact List.mem_range.2 (Nat.mod_lt _ (Nat.pos_of_ne_zero hlen))

/-- The products of places and the step are numbers of 64 bits. -/
theorem multiple_lt (h : len < 2 ^ 32) (hlen : len ≠ 0) (seed : UInt64) {i : Nat} (hi : i < len) :
    i * step len seed < 2 ^ 64 := by
  have hstep := (step_bounds hlen seed).1
  calc i * step len seed ≤ (2 ^ 32 - 2) * (2 ^ 32 + 1) :=
        Nat.mul_le_mul (by omega) (by omega)
    _ < 2 ^ 64 := by norm_num

/-- Take the scrambled order of fewer than 2^32 places.  Dividing always comes to an end, at the
greatest common factor.  The search for a step comes to an end, at an odd number that has no factor
in common with `len` and is at most `len + 2`, and no product of a place and the step takes more
than 64 bits.  Each number below `len` is in the order, once, and nothing else is. -/
theorem scrambled_visits_all (h : len < 2 ^ 32) (seed : UInt64) :
    (∀ a b, Ends (·.2 = 0) divide (a, b) (commonFactor (a, b), 0) ∧
        commonFactor (a, b) = Nat.gcd a b) ∧
      (len ≠ 0 → Ends (fun s => commonFactor (s, len) = 1) (· + 2) (start len seed)
          (step len seed) ∧
        step len seed % 2 = 1 ∧ Nat.Coprime (step len seed) len ∧ step len seed ≤ len + 2 ∧
        ∀ i < len, i * step len seed < 2 ^ 64) ∧
      (scrambled len seed).Perm (List.range len) ∧ scrambled 0 seed = [] := by
  refine ⟨fun a b => ⟨ends_divide (a, b), commonFactor_eq (a, b)⟩, fun hlen => ?_,
    scrambled_perm len seed, rfl⟩
  obtain ⟨hle, hodd⟩ := step_bounds hlen seed
  exact ⟨ends_step hlen seed, hodd, coprime_step hlen seed, hle,
    fun i hi => multiple_lt h hlen seed hi⟩

/-- Nine places.  The search starts at 9, which does not fit, and ends at the last number it can
end at. -/
theorem scrambled_visits_all_nine :
    9 < 2 ^ 32 ∧ start 9 4 = 9 ∧ step 9 4 = 9 + 2 ∧
      Ends (fun s => commonFactor (s, 9) = 1) (· + 2) (start 9 4) (step 9 4) ∧
      scrambled 9 4 = [0, 2, 4, 6, 8, 1, 3, 5, 7] ∧ (scrambled 9 4).Perm (List.range 9) := by
  have h : 9 < 2 ^ 32 := by decide
  obtain ⟨_, hstep, hperm, _⟩ := scrambled_visits_all h 4
  exact ⟨h, by decide +kernel, by decide +kernel, (hstep (by decide)).1, by decide +kernel, hperm⟩

end VisitOrder
end DesignStore
