/-
Finite maps as lists of pairs.

Where no key is listed twice, the pairs of a map are what is found under its keys
(`mem_entries_iff`).  A key that is added again stays where it is and a new one goes to the end
(`entries_insert`); a key that is removed leaves the others in their order.
-/
import Mathlib
import DesignStore.Assoc

namespace DesignStore
namespace Assoc

variable {κ α : Type} [DecidableEq κ] {m : Assoc κ α} {k : κ} {v : α}

/-! ## What is listed -/

theorem mem_of_get? (h : m.get? k = some v) : (k, v) ∈ m.entries := by
  obtain ⟨e, he, rfl⟩ := Option.map_eq_some_iff.1 h
  have hk : e.1 = k := by simpa using List.find?_some he
  rw [← hk]
  exact List.mem_of_find?_eq_some he

theorem get?_of_mem (h : m.keys.Nodup) {e : κ × α} (he : e ∈ m.entries) :
    m.get? e.1 = some e.2 := by
  cases hf : m.entries.find? (·.1 = e.1) with
  | none => simpa using List.find?_eq_none.1 hf e he
  | some x =>
    have hx : x.1 = e.1 := by simpa using List.find?_some hf
    rw [get?, hf, Option.map_some, List.inj_on_of_nodup_map h (List.mem_of_find?_eq_some hf) he hx]

theorem mem_entries_iff (h : m.keys.Nodup) : (k, v) ∈ m.entries ↔ m.get? k = some v :=
  ⟨fun he => get?_of_mem h he, mem_of_get?⟩

theorem mem_keys_iff : k ∈ m.keys ↔ (m.get? k).isSome = true := by
  simp [keys, get?]

/-! ## Adding a key -/

theorem keys_insert (m : Assoc κ α) (k : κ) (v : α) :
    (m.insert k v).keys = if k ∈ m.keys then m.keys else m.keys ++ [k] := by
  obtain ⟨l⟩ := m
  simp only [insert, keys]
  induction l with
  | nil => rfl
  | cons p l ih =>
    by_cases hp : p.1 = k
    · simp [put, hp]
    · rw [put, if_neg hp, List.map_cons, ih]
      by_cases hk : k ∈ l.map (·.1)
      · simp [hk]
      · simp [hk, Ne.symm hp]

theorem entries_insert (h : m.keys.Nodup) (k : κ) (v : α) : (m.insert k v).entries =
    if k ∈ m.keys then m.entries.map fun e => if e.1 = k then (k, v) else e
    else m.entries ++ [(k, v)] := by
  obtain ⟨l⟩ := m
  simp only [insert, keys] at h ⊢
  induction l with
  | nil => rfl
  | cons p l ih =>
    obtain ⟨hp', hl⟩ := List.nodup_cons.1 h
    by_cases hp : p.1 = k
    · have hrest : l.map (fun e => if e.1 = k then (k, v) else e) = l := by
        refine (List.map_congr_left fun e he => if_neg fun hk => hp' ?_).trans (List.map_id l)
        exact List.mem_map.2 ⟨e, he, hk.trans hp.symm⟩
      simp [put, hp, hrest]
    · rw [put, if_neg hp, ih hl]
      by_cases hk : k ∈ l.map (·.1)
      · simp [hk, hp]
      · simp [hk, Ne.symm hp]

theorem mem_insert {e : κ × α} (h : e ∈ (m.insert k v).entries) :
    e = (k, v) ∨ e ∈ m.entries := by
  obtain ⟨l⟩ := m
  simp only [insert] at h ⊢
  induction l with
  | nil => simpa [put] using h
  | cons p l ih =>
    by_cases hp : p.1 = k
    · rw [put, if_pos hp, List.mem_cons] at h
      exact h.imp_right (List.mem_cons_of_mem p)
    · rw [put, if_neg hp, List.mem_cons] at h
      rcases h with rfl | h
      · exact Or.inr List.mem_cons_self
      · exact (ih h).imp_right (List.mem_cons_of_mem p)

theorem nodup_keys_insert (h : m.keys.Nodup) (k : κ) (v : α) : (m.insert k v).keys.Nodup := by
  rw [keys_insert]
  split
  · exact h
  · rename_i hk
    rw [← List.concat_eq_append]
    exact h.concat hk

/-! ## Removing keys -/

theorem erase_of_get?_none (h : m.get? k = none) : m.erase k = m := by
  rw [get?, Option.map_eq_none_iff, List.find?_eq_none] at h
  rw [erase, List.filter_eq_self.2 fun e he => by simpa using h e he]

omit [DecidableEq κ] in
theorem nodup_keys_filter (h : m.keys.Nodup) (p : κ → α → Bool) : (m.filter p).keys.Nodup :=
  h.sublist (List.filter_sublist.map _)

theorem nodup_keys_erase (h : m.keys.Nodup) (k : κ) : (m.erase k).keys.Nodup :=
  h.sublist (List.filter_sublist.map _)

theorem get?_filter_of_some (h : m.get? k = some v) {p : κ → α → Bool} (hp : p k v = true) :
    (m.filter p).get? k = some v := by
  obtain ⟨e, he, rfl⟩ := Option.map_eq_some_iff.1 h
  obtain ⟨hk, l₁, l₂, hl, hl₁⟩ := List.find?_eq_some_iff_append.1 he
  obtain rfl : e.1 = k := by simpa using hk
  have hnone : (l₁.filter fun x => p x.1 x.2).find? (·.1 = e.1) = none := by
    refine List.find?_eq_none.2 fun x hx => ?_
    simpa using hl₁ x (List.mem_filter.1 hx).1
  simp [filter, get?, hl, List.find?_append, hnone, hp]

theorem get?_filter (p : κ → Bool) (m : Assoc κ α) (k : κ) :
    (m.filter fun j _ => p j).get? k = if p k = true then m.get? k else none := by
  obtain ⟨l⟩ := m
  simp only [filter, get?, List.find?_filter]
  by_cases hk : p k = true
  · rw [if_pos hk]
    congr 2
    funext e
    by_cases he : e.1 = k
    · simp [he, hk]
    · simp [he]
  · rw [if_neg hk, Option.map_eq_none_iff, List.find?_eq_none]
    intro e _ he
    simp only [decide_eq_true_eq] at he
    exact hk (he.2 ▸ he.1)

theorem get?_filter_iff (h : m.keys.Nodup) {p : κ → α → Bool} :
    (m.filter p).get? k = some v ↔ m.get? k = some v ∧ p k v = true := by
  constructor
  · intro hv
    obtain ⟨he, hp⟩ := List.mem_filter.1 (mem_of_get? hv)
    exact ⟨get?_of_mem h he, hp⟩
  · rintro ⟨hv, hp⟩
    exact get?_filter_of_some hv hp

end Assoc
end DesignStore
