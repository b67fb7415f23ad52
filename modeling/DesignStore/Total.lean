/-
Sums of a measure over a list.
-/

namespace DesignStore

variable {α β : Type}

/-- The sum of `f` over the elements of a list. -/
def total (f : α → Nat) : List α → Nat
  | [] => 0
  | a :: l => f a + total f l

theorem total_congr {f g : α → Nat} {l : List α} (h : ∀ a ∈ l, f a = g a) :
    total f l = total g l := by
  induction l with
  | nil => rfl
  | cons a l ih => rw [total, total, h a List.mem_cons_self, ih fun b hb =>
      h b (List.mem_cons_of_mem a hb)]

theorem total_map {f : β → Nat} {g : α → β} {h : α → Nat} (hf : ∀ a, f (g a) = h a) (l : List α) :
    total f (l.map g) = total h l := by
  induction l with
  | nil => rfl
  | cons a l ih => rw [List.map_cons, total, total, ih, hf]

theorem total_append (f : α → Nat) (l l' : List α) : total f (l ++ l') = total f l + total f l' := by
  induction l with
  | nil => rw [List.nil_append, total, Nat.zero_add]
  | cons a l ih => rw [List.cons_append, total, total, ih, Nat.add_assoc]

/-- Where a measure changes at one element only, so does its sum. -/
theorem total_change {f g : α → Nat} {l : List α} {a : α} (hl : l.Nodup) (ha : a ∈ l)
    (h : ∀ b ∈ l, b ≠ a → g b = f b) : total g l + f a = total f l + g a := by
  induction l with
  | nil => contradiction
  | cons b l ih =>
    obtain ⟨hb, hl⟩ := List.nodup_cons.1 hl
    rw [total, total]
    by_cases hba : b = a
    · have hrest : total g l = total f l :=
        total_congr fun c hc => h c (List.mem_cons_of_mem b hc) fun e => hb (hba ▸ e ▸ hc)
      rw [hrest, hba]
      omega
    · have hrest := ih hl ((List.mem_cons.1 ha).resolve_left (Ne.symm hba)) fun c hc =>
        h c (List.mem_cons_of_mem b hc)
      rw [h b List.mem_cons_self hba]
      omega

theorem length_flatMap_eq_total (f : α → List β) (l : List α) :
    (l.flatMap f).length = total (fun a => (f a).length) l := by
  induction l with
  | nil => rfl
  | cons a l ih => rw [List.flatMap_cons, List.length_append, ih, total]

end DesignStore
