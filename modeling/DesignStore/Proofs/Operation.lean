/-
What an operation leaves behind.

An operation leaves a state whether it answers or fails: `after x s` is that state.
`Keeps R x` says that `x` takes every state along the relation `R`, both ways.  Where
`R` is a preorder a sequence of operations keeps `R` if each of them does
(`Keeps.bind`), so what an operation of many steps keeps follows from its steps.

The second half is about operations on one element of a list: which elements a later
search finds, and what stays true of all of them.
-/
import Mathlib
import DesignStore.Focus

namespace DesignStore

variable {ε σ α β : Type}

/-- The state an operation leaves. -/
def after (x : EStateM ε σ α) (s : σ) : σ :=
  match x s with
  | .ok _ s => s
  | .error _ s => s

theorem after_ok {x : EStateM ε σ α} {s t : σ} {a : α} (h : x s = .ok a t) : after x s = t := by
  simp only [after, h]

theorem after_error {x : EStateM ε σ α} {s t : σ} {e : ε} (h : x s = .error e t) :
    after x s = t := by
  simp only [after, h]

/-- What an operation answers, or how it fails, apart from the state it leaves. -/
def answer (x : EStateM ε σ α) (s : σ) : Except ε α :=
  match x s with
  | .ok a _ => .ok a
  | .error e _ => .error e

theorem eq_ok_of_answer {x : EStateM ε σ α} {s : σ} {a : α} (h : answer x s = .ok a) :
    x s = .ok a (after x s) := by
  simp only [answer, after] at h ⊢
  cases hx : x s with
  | ok b t =>
    rw [hx] at h
    cases h
    rfl
  | error e t =>
    rw [hx] at h
    contradiction

theorem eq_error_of_answer {x : EStateM ε σ α} {s : σ} {e : ε} (h : answer x s = .error e) :
    x s = .error e (after x s) := by
  simp only [answer, after] at h ⊢
  cases hx : x s with
  | ok a t =>
    rw [hx] at h
    contradiction
  | error e' t =>
    rw [hx] at h
    cases h
    rfl

theorem answer_ok {x : EStateM ε σ α} {s t : σ} {a : α} (h : x s = .ok a t) :
    answer x s = .ok a := by
  simp only [answer, h]

theorem answer_error {x : EStateM ε σ α} {s t : σ} {e : ε} (h : x s = .error e t) :
    answer x s = .error e := by
  simp only [answer, h]

theorem pure_apply (a : α) (s : σ) : (pure a : EStateM ε σ α) s = .ok a s := rfl

theorem get_apply (s : σ) : (get : EStateM ε σ σ) s = .ok s s := rfl

theorem modify_apply (f : σ → σ) (s : σ) : (modify f : EStateM ε σ PUnit) s = .ok ⟨⟩ (f s) := rfl

theorem throw_apply (e : ε) (s : σ) : (throw e : EStateM ε σ α) s = .error e s := rfl

/-- How one operation follows another.  The second is not run after a failure. -/
theorem bind_apply (x : EStateM ε σ α) (f : α → EStateM ε σ β) (s : σ) :
    (x >>= f) s = match x s with
      | .ok a t => f a t
      | .error e t => .error e t := rfl

theorem map_apply (f : α → β) (x : EStateM ε σ α) (s : σ) :
    (f <$> x) s = match x s with
      | .ok a t => .ok (f a) t
      | .error e t => .error e t := rfl

theorem discard_apply (x : EStateM ε σ α) (s : σ) :
    (discard x : EStateM ε σ PUnit) s = match x s with
      | .ok _ t => .ok ⟨⟩ t
      | .error e t => .error e t := rfl

theorem tryCatch_apply (x : EStateM ε σ α) (f : ε → EStateM ε σ α) (s : σ) :
    (tryCatch x f : EStateM ε σ α) s = match x s with
      | .ok a t => .ok a t
      | .error e t => f e t := by
  simp only [tryCatch, tryCatchThe, MonadExceptOf.tryCatch, EStateM.tryCatch]
  cases x s <;> rfl

theorem bind_ok {x : EStateM ε σ α} {f : α → EStateM ε σ β} {s t : σ} {a : α}
    (h : x s = .ok a t) : (x >>= f) s = f a t := by
  rw [bind_apply, h]

theorem bind_error {x : EStateM ε σ α} {f : α → EStateM ε σ β} {s t : σ} {e : ε}
    (h : x s = .error e t) : (x >>= f) s = .error e t := by
  rw [bind_apply, h]

/-- One operation after another succeeds only if both do. -/
theorem ok_of_bind {x : EStateM ε σ α} {f : α → EStateM ε σ β} {s t : σ} {b : β}
    (h : (x >>= f) s = .ok b t) : ∃ a u, x s = .ok a u ∧ f a u = .ok b t := by
  rw [bind_apply] at h
  cases hx : x s with
  | ok a u =>
    rw [hx] at h
    exact ⟨a, u, rfl, h⟩
  | error e u =>
    rw [hx] at h
    contradiction

theorem ok_of_discard {x : EStateM ε σ α} {s t : σ}
    (h : (discard x : EStateM ε σ PUnit) s = .ok ⟨⟩ t) : ∃ a, x s = .ok a t := by
  rw [discard_apply] at h
  cases hx : x s with
  | ok a u =>
    rw [hx] at h
    cases h
    exact ⟨a, rfl⟩
  | error e u =>
    rw [hx] at h
    contradiction

theorem discard_ok {x : EStateM ε σ α} {s t : σ} {a : α} (h : x s = .ok a t) :
    (discard x : EStateM ε σ PUnit) s = .ok ⟨⟩ t := by
  rw [discard_apply, h]

theorem after_map (f : α → β) (x : EStateM ε σ α) (s : σ) : after (f <$> x) s = after x s := by
  simp only [after, map_apply]
  cases x s <;> rfl

theorem answer_map (f : α → β) (x : EStateM ε σ α) (s : σ) :
    answer (f <$> x) s = (answer x s).map f := by
  simp only [answer, map_apply]
  cases x s <;> rfl

theorem after_discard (x : EStateM ε σ α) (s : σ) :
    after (discard x : EStateM ε σ PUnit) s = after x s := by
  simp only [after, discard_apply]
  cases x s <;> rfl

theorem after_bind_of_still {x : EStateM ε σ α} {f : α → EStateM ε σ β}
    (hf : ∀ a t, after (f a) t = t) (s : σ) : after (x >>= f) s = after x s := by
  cases hx : x s with
  | ok a t =>
    have ht := hf a t
    rw [after_ok hx]
    simp only [after, bind_ok hx] at ht ⊢
    exact ht
  | error e t => simp only [after, bind_error hx, hx]

theorem after_bind_ok {P : σ → Prop} {x : EStateM ε σ α} {f : α → EStateM ε σ β} {s t : σ} {a : α}
    (h : x s = .ok a t) (ht : P (after (f a) t)) : P (after (x >>= f) s) := by
  have hr : after (x >>= f) s = after (f a) t := by simp only [after, bind_ok h]
  rwa [hr]

theorem after_bind_error {P : σ → Prop} {x : EStateM ε σ α} {f : α → EStateM ε σ β} {s t : σ}
    {e : ε} (h : x s = .error e t) (ht : P t) : P (after (x >>= f) s) := by
  rwa [after_error (bind_error h)]

/-- Every state is taken along `R`. -/
def Keeps (R : σ → σ → Prop) (x : EStateM ε σ α) : Prop :=
  ∀ s, R s (after x s)

namespace Keeps

variable {R : σ → σ → Prop}

theorem mono {S : σ → σ → Prop} {x : EStateM ε σ α} (h : Keeps R x)
    (hRS : ∀ s t, R s t → S s t) : Keeps S x :=
  fun s => hRS _ _ (h s)

theorem map (f : α → β) {x : EStateM ε σ α} (h : Keeps R x) : Keeps R (f <$> x) := by
  intro s
  rw [after_map]
  exact h s

theorem discard {x : EStateM ε σ α} (h : Keeps R x) :
    Keeps R (Functor.discard x : EStateM ε σ PUnit) := by
  intro s
  rw [after_discard]
  exact h s

theorem modify {f : σ → σ} (h : ∀ s, R s (f s)) :
    Keeps R (modify f : EStateM ε σ PUnit) := h

/-- Reading the state changes nothing, and what follows may rely on what was read. -/
theorem get_bind {f : σ → EStateM ε σ β} (hf : ∀ s, R s (after (f s) s)) :
    Keeps R (get >>= f) := hf

variable [IsPreorder σ R]

theorem pure (a : α) : Keeps R (pure a : EStateM ε σ α) :=
  fun s => refl_of R s

theorem throw (e : ε) : Keeps R (throw e : EStateM ε σ α) :=
  fun s => refl_of R s

/-- The first operation may start from another state than the one it is related to. -/
theorem bind_from {x : EStateM ε σ α} {f : α → EStateM ε σ β} {s t : σ} (hx : R s (after x t))
    (hf : ∀ a, Keeps R (f a)) : R s (after (x >>= f) t) := by
  cases hr : x t with
  | ok a u =>
    rw [after_ok hr] at hx
    exact after_bind_ok hr (trans_of R hx (hf a u))
  | error e u =>
    rw [after_error hr] at hx
    exact after_bind_error hr hx

theorem bind {x : EStateM ε σ α} {f : α → EStateM ε σ β} (hx : Keeps R x)
    (hf : ∀ a, Keeps R (f a)) : Keeps R (x >>= f) :=
  fun s => bind_from (hx s) hf

theorem tryCatch {x : EStateM ε σ α} {f : ε → EStateM ε σ α} (hx : Keeps R x)
    (hf : ∀ e, Keeps R (f e)) : Keeps R (tryCatch x f) := by
  intro s
  have hs := hx s
  simp only [after, tryCatch_apply] at hs ⊢
  cases hr : x s with
  | ok a t =>
    rw [hr] at hs
    exact hs
  | error e t =>
    rw [hr] at hs
    exact trans_of R hs (hf e t)

end Keeps

/-- Every state is taken along `R`, as long as the operation does not fail in a way that is
`bad`. -/
def KeepsUnless (bad : ε → Prop) (R : σ → σ → Prop) (x : EStateM ε σ α) : Prop :=
  ∀ s, (∀ e t, x s = .error e t → ¬ bad e) → R s (after x s)

namespace KeepsUnless

variable {bad : ε → Prop} {R : σ → σ → Prop}

theorem discard {x : EStateM ε σ α} (h : KeepsUnless bad R x) :
    KeepsUnless bad R (Functor.discard x : EStateM ε σ PUnit) := by
  intro s hs
  rw [after_discard]
  refine h s fun e t hx => hs e t ?_
  rw [discard_apply, hx]

/-- A failure of the first operation is one of the two together. -/
theorem bind [IsPreorder σ R] {x : EStateM ε σ α} {f : α → EStateM ε σ β}
    (hx : KeepsUnless bad R x) (hf : ∀ a, Keeps R (f a)) : KeepsUnless bad R (x >>= f) := by
  intro s hs
  have hR := hx s fun e t hr => hs e t (bind_error hr)
  cases hr : x s with
  | ok a t =>
    rw [after_ok hr] at hR
    exact after_bind_ok hr (trans_of R hR (hf a t))
  | error e t =>
    rw [after_error hr] at hR
    exact after_bind_error hr hR

end KeepsUnless

theorem Keeps.unless {R : σ → σ → Prop} {x : EStateM ε σ α} (h : Keeps R x)
    (bad : ε → Prop) : KeepsUnless bad R x :=
  fun s _ => h s

/-! ## One element of a list

The first element that satisfies `p` is the one the operation runs on, and the list is
the same around it. -/

section Focus

variable {τ : Type} {p q : σ → Bool} {x : EStateM ε σ α} {l l₁ l₂ : List σ} {s : σ}

theorem onFirst_of_none (h : l.find? p = none) : onFirst p x l = .ok none l := by
  induction l with
  | nil => rfl
  | cons s l ih =>
    rw [List.find?_cons] at h
    cases hs : p s with
    | true => simp [hs] at h
    | false =>
      simp only [hs] at h
      simp only [onFirst, hs, ih h, Bool.false_eq_true, if_false]

theorem onFirst_append (h : ∀ t ∈ l₁, p t = false) (hs : p s = true) :
    onFirst p x (l₁ ++ s :: l₂) = match x s with
      | .ok a t => .ok (some a) (l₁ ++ t :: l₂)
      | .error e t => .error e (l₁ ++ t :: l₂) := by
  induction l₁ with
  | nil => cases hx : x s <;> simp only [List.nil_append, onFirst, hs, hx, if_true]
  | cons u l₁ ih =>
    have hu : p u = false := h u (by simp)
    have hl := ih fun t ht => h t (by simp [ht])
    cases hx : x s <;>
      simp only [List.cons_append, onFirst, hu, hl, hx, Bool.false_eq_true, if_false]

theorem onFirstOr_of_none (fresh : σ) (h : l.find? p = none) :
    onFirstOr fresh p x l = match x fresh with
      | .ok a t => .ok a (l ++ [t])
      | .error e t => .error e (l ++ [t]) := by
  induction l with
  | nil => cases hx : x fresh <;> simp only [onFirstOr, List.nil_append, hx]
  | cons s l ih =>
    rw [List.find?_cons] at h
    cases hs : p s with
    | true => simp [hs] at h
    | false =>
      simp only [hs] at h
      cases hx : x fresh <;>
        simp only [onFirstOr, hs, ih h, hx, Bool.false_eq_true, if_false, List.cons_append]

theorem onFirstOr_append (fresh : σ) (h : ∀ t ∈ l₁, p t = false) (hs : p s = true) :
    onFirstOr fresh p x (l₁ ++ s :: l₂) = match x s with
      | .ok a t => .ok a (l₁ ++ t :: l₂)
      | .error e t => .error e (l₁ ++ t :: l₂) := by
  induction l₁ with
  | nil => cases hx : x s <;> simp only [List.nil_append, onFirstOr, hs, hx, if_true]
  | cons u l₁ ih =>
    have hu : p u = false := h u (by simp)
    have hl := ih fun t ht => h t (by simp [ht])
    cases hx : x s <;>
      simp only [List.cons_append, onFirstOr, hu, hl, hx, Bool.false_eq_true, if_false]

theorem find?_split (h : l.find? p = some s) :
    ∃ l₁ l₂, l = l₁ ++ s :: l₂ ∧ (∀ t ∈ l₁, p t = false) ∧ p s = true := by
  obtain ⟨hs, l₁, l₂, hl, hl₁⟩ := List.find?_eq_some_iff_append.1 h
  exact ⟨l₁, l₂, hl, fun t ht => by simpa using hl₁ t ht, hs⟩

theorem mem_of_mem_replace {t u : σ} (h : u ∈ l₁ ++ t :: l₂) : u = t ∨ u ∈ l₁ ++ s :: l₂ := by
  simp only [List.mem_append, List.mem_cons] at h ⊢
  rcases h with h | rfl | h
  · exact Or.inr (Or.inl h)
  · exact Or.inl rfl
  · exact Or.inr (Or.inr (Or.inr h))

theorem find?_append_cons (h : ∀ t ∈ l₁, p t = false) (hs : p s = true) :
    (l₁ ++ s :: l₂).find? p = some s := by
  rw [List.find?_append, List.find?_eq_none.2 (by simpa using h)]
  simp [hs]

/-- Everything is as it was but for the first element that satisfies `p`, which is as the
operation leaves it. -/
theorem after_onFirst (p : σ → Bool) (x : EStateM ε σ α) (l : List σ) :
    (l.find? p = none ∧ after (onFirst p x) l = l) ∨
      ∃ l₁ s l₂, l = l₁ ++ s :: l₂ ∧ (∀ t ∈ l₁, p t = false) ∧ l.find? p = some s ∧
        after (onFirst p x) l = l₁ ++ after x s :: l₂ := by
  cases h : l.find? p with
  | none => exact Or.inl ⟨rfl, after_ok (onFirst_of_none h)⟩
  | some s =>
    obtain ⟨l₁, l₂, rfl, hl₁, hs⟩ := find?_split h
    refine Or.inr ⟨l₁, s, l₂, rfl, hl₁, rfl, ?_⟩
    simp only [after, onFirst_append hl₁ hs]
    cases x s <;> rfl

/-- The answer is that of the first element that satisfies `p`. -/
theorem answer_onFirst (p : σ → Bool) (x : EStateM ε σ α) (l : List σ) :
    answer (onFirst p x) l = (l.find? p).elim (.ok none) fun s => (answer x s).map some := by
  cases h : l.find? p with
  | none => exact answer_ok (onFirst_of_none h)
  | some s =>
    obtain ⟨l₁, l₂, rfl, hl₁, hs⟩ := find?_split h
    simp only [answer, onFirst_append hl₁ hs, Option.elim_some]
    cases x s <;> rfl

theorem onFirst_still (hx : ∀ s, l.find? p = some s → after x s = s) :
    after (onFirst p x) l = l := by
  rcases after_onFirst p x l with ⟨_, ha⟩ | ⟨l₁, s, l₂, rfl, _, hs, ha⟩
  · exact ha
  · rw [ha, hx s hs]

theorem onFirst_still_iff :
    after (onFirst p x) l = l ↔ ∀ s, l.find? p = some s → after x s = s := by
  refine ⟨fun h s hs => ?_, onFirst_still⟩
  rcases after_onFirst p x l with ⟨hn, _⟩ | ⟨l₁, t, l₂, rfl, _, ht, ha⟩
  · rw [hn] at hs
    contradiction
  · obtain rfl := Option.some.inj (ht.symm.trans hs)
    rw [ha] at h
    exact (List.cons.inj (List.append_cancel_left h)).1

theorem onFirst_ok (hx : ∀ s, l.find? p = some s → ∃ a t, x s = .ok a t) :
    ∃ a, onFirst p x l = .ok a (after (onFirst p x) l) := by
  cases h : l.find? p with
  | none => exact ⟨none, by rw [after_ok (onFirst_of_none h), onFirst_of_none h]⟩
  | some s =>
    obtain ⟨a, t, ht⟩ := hx s h
    obtain ⟨l₁, l₂, rfl, hl₁, hs⟩ := find?_split h
    have hr : onFirst p x (l₁ ++ s :: l₂) = .ok (some a) (l₁ ++ t :: l₂) := by
      rw [onFirst_append hl₁ hs, ht]
    exact ⟨some a, by rw [after_ok hr, hr]⟩

theorem onFirst_of_some {a : α} {t : σ} (hs : l.find? p = some s) (hx : x s = .ok a t) :
    onFirst p x l = .ok (some a) (after (onFirst p x) l) := by
  obtain ⟨l₁, l₂, rfl, hl₁, hs⟩ := find?_split hs
  have hr : onFirst p x (l₁ ++ s :: l₂) = .ok (some a) (l₁ ++ t :: l₂) := by
    rw [onFirst_append hl₁ hs, hx]
  rw [after_ok hr, hr]

/-- A failure that leaves the element leaves the list. -/
theorem onFirst_of_error {e : ε} (hs : l.find? p = some s) (hx : x s = .error e s) :
    onFirst p x l = .error e l := by
  obtain ⟨l₁, l₂, rfl, hl₁, hs⟩ := find?_split hs
  rw [onFirst_append hl₁ hs, hx]

theorem map_after_onFirst {β : Type} {g : σ → β}
    (hx : ∀ s, l.find? p = some s → g (after x s) = g s) :
    (after (onFirst p x) l).map g = l.map g := by
  rcases after_onFirst p x l with ⟨_, ha⟩ | ⟨l₁, s, l₂, rfl, _, hs, ha⟩
  · rw [ha]
  · rw [ha, List.map_append, List.map_append, List.map_cons, List.map_cons, hx s hs]

theorem find?_after_onFirst (hx : ∀ s, l.find? p = some s → p (after x s) = true) :
    (after (onFirst p x) l).find? p = (l.find? p).map (after x) := by
  rcases after_onFirst p x l with ⟨hn, ha⟩ | ⟨l₁, s, l₂, rfl, hl₁, hs, ha⟩
  · rw [ha, hn]
    rfl
  · rw [ha, find?_append_cons hl₁ (hx s hs), hs]
    rfl

theorem find?_after_onFirst_other (hq : ∀ s, l.find? p = some s → q s = false)
    (hx : ∀ s, l.find? p = some s → q (after x s) = false) :
    (after (onFirst p x) l).find? q = l.find? q := by
  rcases after_onFirst p x l with ⟨_, ha⟩ | ⟨l₁, s, l₂, rfl, _, hs, ha⟩
  · rw [ha]
  · rw [ha, List.find?_append, List.find?_append, List.find?_cons, List.find?_cons, hq s hs,
      hx s hs]

theorem forall_after_onFirst {P : σ → Prop}
    (hx : ∀ s, l.find? p = some s → P s → P (after x s)) (h : ∀ s ∈ l, P s) :
    ∀ s ∈ after (onFirst p x) l, P s := by
  rcases after_onFirst p x l with ⟨_, ha⟩ | ⟨l₁, s, l₂, rfl, _, hs, ha⟩
  · rwa [ha]
  · rw [ha]
    intro t ht
    rcases List.mem_append.1 ht with ht | ht
    · exact h t (List.mem_append_left _ ht)
    · rcases List.mem_cons.1 ht with rfl | ht
      · exact hx s hs (h s (by simp))
      · exact h t (by simp [ht])

/-- Where no element satisfies `p`, the operation runs on `fresh`, which comes to be the last. -/
theorem after_onFirstOr (fresh : σ) (p : σ → Bool) (x : EStateM ε σ α) (l : List σ) :
    (l.find? p = none ∧ after (onFirstOr fresh p x) l = l ++ [after x fresh]) ∨
      ∃ l₁ s l₂, l = l₁ ++ s :: l₂ ∧ (∀ t ∈ l₁, p t = false) ∧ l.find? p = some s ∧
        after (onFirstOr fresh p x) l = l₁ ++ after x s :: l₂ := by
  cases h : l.find? p with
  | none =>
    refine Or.inl ⟨rfl, ?_⟩
    simp only [after, onFirstOr_of_none fresh h]
    cases x fresh <;> rfl
  | some s =>
    obtain ⟨l₁, l₂, rfl, hl₁, hs⟩ := find?_split h
    refine Or.inr ⟨l₁, s, l₂, rfl, hl₁, rfl, ?_⟩
    simp only [after, onFirstOr_append fresh hl₁ hs]
    cases x s <;> rfl

theorem answer_onFirstOr (fresh : σ) (p : σ → Bool) (x : EStateM ε σ α) (l : List σ) :
    answer (onFirstOr fresh p x) l = answer x ((l.find? p).getD fresh) := by
  cases h : l.find? p with
  | none =>
    simp only [answer, onFirstOr_of_none fresh h, Option.getD_none]
    cases x fresh <;> rfl
  | some s =>
    obtain ⟨l₁, l₂, rfl, hl₁, hs⟩ := find?_split h
    simp only [answer, onFirstOr_append fresh hl₁ hs, Option.getD_some]
    cases x s <;> rfl

theorem forall_after_onFirstOr {P : σ → Prop} {fresh : σ} (hfresh : P (after x fresh))
    (hx : ∀ s, l.find? p = some s → P s → P (after x s)) (h : ∀ s ∈ l, P s) :
    ∀ s ∈ after (onFirstOr fresh p x) l, P s := by
  rcases after_onFirstOr fresh p x l with ⟨_, ha⟩ | ⟨l₁, s, l₂, rfl, _, hs, ha⟩
  · rw [ha]
    exact List.forall_mem_append.2 ⟨h, by simpa using hfresh⟩
  · rw [ha]
    intro t ht
    rcases mem_of_mem_replace (s := s) ht with rfl | ht
    · exact hx s hs (h s (by simp))
    · exact h t ht

theorem find?_after_onFirstOr {fresh : σ} (hx : p (after x ((l.find? p).getD fresh)) = true) :
    (after (onFirstOr fresh p x) l).find? p = some (after x ((l.find? p).getD fresh)) := by
  rcases after_onFirstOr fresh p x l with ⟨hn, ha⟩ | ⟨l₁, s, l₂, rfl, hl₁, hs, ha⟩
  · rw [hn, Option.getD_none] at hx ⊢
    exact ha ▸ find?_append_cons (by simpa using hn) hx
  · rw [hs, Option.getD_some] at hx ⊢
    rw [ha, find?_append_cons hl₁ hx]

theorem find?_after_onFirstOr_other {fresh : σ} (hq : ∀ s, l.find? p = some s → q s = false)
    (hx : q (after x ((l.find? p).getD fresh)) = false) :
    (after (onFirstOr fresh p x) l).find? q = l.find? q := by
  rcases after_onFirstOr fresh p x l with ⟨hn, ha⟩ | ⟨l₁, s, l₂, rfl, _, hs, ha⟩
  · rw [hn, Option.getD_none] at hx
    simp [ha, List.find?_append, hx]
  · rw [hs, Option.getD_some] at hx
    rw [ha, List.find?_append, List.find?_append, List.find?_cons, List.find?_cons, hq s hs, hx]

end Focus

/-- What comes again at the end of a list is not counted again. -/
theorem eraseDups_concat {α : Type} [DecidableEq α] (l : List α) (a : α) :
    (l ++ [a]).eraseDups = if a ∈ l then l.eraseDups else l.eraseDups ++ [a] := by
  rw [List.eraseDups_append, List.removeAll, List.filter_singleton]
  by_cases ha : a ∈ l
  · simp only [if_pos ha, List.elem_eq_true_of_mem ha]
    exact List.append_nil _
  · have hfalse : l.elem a = false := by
      rw [← Bool.not_eq_true, List.elem_iff]
      exact ha
    simp only [if_neg ha, hfalse]
    rfl

theorem nodup_eraseDups {α : Type} [DecidableEq α] (l : List α) : l.eraseDups.Nodup := by
  induction l using List.reverseRecOn with
  | nil => exact List.nodup_nil
  | append_singleton l a ih =>
    rw [eraseDups_concat]
    by_cases ha : a ∈ l
    · rwa [if_pos ha]
    · rw [if_neg ha, List.nodup_append]
      refine ⟨ih, List.nodup_singleton a, ?_⟩
      rintro b hb c hc rfl
      rw [List.mem_singleton.1 hc] at hb
      exact ha (List.mem_eraseDups.1 hb)

/-- Where no two elements share a key, the one that is found under a key is the one that has
it. -/
theorem find?_key_eq_some_iff {κ : Type} [DecidableEq κ] (key : σ → κ) {l : List σ}
    (h : (l.map key).Nodup) {k : κ} {s : σ} :
    l.find? (key · = k) = some s ↔ s ∈ l ∧ key s = k := by
  constructor
  · exact fun hs => ⟨List.mem_of_find?_eq_some hs, by simpa using List.find?_some hs⟩
  · rintro ⟨hs, rfl⟩
    cases ht : l.find? (key · = key s) with
    | none =>
      have hn := List.find?_eq_none.1 ht s hs
      simp at hn
    | some t =>
      have htag : key t = key s := by simpa using List.find?_some ht
      rw [List.inj_on_of_nodup_map h (List.mem_of_find?_eq_some ht) hs htag]

/-- Where no two elements share a key, what belongs to a key is what one of them has. -/
theorem filter_flatMap_of_key {κ : Type} [DecidableEq κ] (key : σ → κ) (f : σ → List β) {l : List σ}
    (hl : (l.map key).Nodup) {p : β → Bool} {k : κ}
    (hp : ∀ s ∈ l, ∀ b ∈ f s, p b = decide (key s = k)) :
    (l.flatMap f).filter p = (l.find? (key · = k)).elim [] f := by
  induction l with
  | nil => rfl
  | cons s l ih =>
    obtain ⟨hs, hl⟩ := List.nodup_cons.1 hl
    have htail := ih hl fun t ht => hp t (List.mem_cons_of_mem s ht)
    have hself := hp s List.mem_cons_self
    rw [List.flatMap_cons, List.filter_append, htail, List.find?_cons]
    by_cases hk : key s = k
    · have hnone : l.find? (key · = k) = none :=
        List.find?_eq_none.2 fun t ht he =>
          hs (List.mem_map.2 ⟨t, ht, (of_decide_eq_true he).trans hk.symm⟩)
      have hall : (f s).filter p = f s :=
        List.filter_eq_self.2 fun b hb => (hself b hb).trans (decide_eq_true hk)
      simp [hnone, hall, hk]
    · have hnil : (f s).filter p = [] :=
        List.filter_eq_nil_iff.2 fun b hb => by simp [hself b hb, hk]
      simp [hnil, hk]

end DesignStore
