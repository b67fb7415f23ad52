/-
Operations on a part of a state.

An operation takes a state to an answer or a failure, and leaves a state behind either
way.  Here such an operation is run on one element of a list; the other elements stay
as they are and where they are.
-/

namespace DesignStore

variable {ε σ α : Type}

/-- Runs `x` on the first element that satisfies `p`.  Without one there is no
answer. -/
def onFirst (p : σ → Bool) (x : EStateM ε σ α) : EStateM ε (List σ) (Option α)
  | [] => .ok none []
  | s :: l =>
    if p s then
      match x s with
      | .ok a s => .ok (some a) (s :: l)
      | .error e s => .error e (s :: l)
    else
      match onFirst p x l with
      | .ok a l => .ok a (s :: l)
      | .error e l => .error e (s :: l)

/-- Runs `x` on the first element that satisfies `p`, after adding `fresh` at the end if
there is none. -/
def onFirstOr (fresh : σ) (p : σ → Bool) (x : EStateM ε σ α) : EStateM ε (List σ) α
  | [] =>
    match x fresh with
    | .ok a s => .ok a [s]
    | .error e s => .error e [s]
  | s :: l =>
    if p s then
      match x s with
      | .ok a s => .ok a (s :: l)
      | .error e s => .error e (s :: l)
    else
      match onFirstOr fresh p x l with
      | .ok a l => .ok a (s :: l)
      | .error e l => .error e (s :: l)

end DesignStore
