/-
Visit orders that jump about.

Counting in steps modulo `len` visits every number below `len` once if the step has no
factor in common with `len`.  A large step then makes an order that is fixed by its seed
and leaves no two neighbours together.
-/

namespace DesignStore
namespace VisitOrder

/-- One division of Euclid's algorithm: the second number stays, beside what remains of the
first. -/
def divide (s : Nat × Nat) : Nat × Nat :=
  (s.2, s.1 % s.2)

/-- The greatest common factor of two numbers: they are divided until nothing remains. -/
def commonFactor (s : Nat × Nat) : Nat :=
  if s.2 = 0 then s.1 else commonFactor (divide s)
termination_by s.2
decreasing_by exact Nat.mod_lt s.1 (Nat.pos_of_ne_zero ‹_›)

/-- The first number of `step`, `step + 2`, … that has no factor in common with `len`,
among the first `n`. -/
def seek (len : Nat) : Nat → Nat → Nat
  | 0, step => step
  | n + 1, step => if commonFactor (step, len) = 1 then step else seek len n (step + 2)

/-- The odd number to start from: the seed is spread over the 64-bit words and reduced
modulo `len`. -/
def start (len : Nat) (seed : UInt64) : Nat :=
  (seed * 6364136223846793005).toNat % len ||| 1

/-- The step for a length and a seed.  The first odd number above `len` is prime to an
even `len`, the second to an odd one, so the search ends at `len + 2` at the latest. -/
def step (len : Nat) (seed : UInt64) : Nat :=
  seek len (len + 2) (start len seed)

/-- The numbers below `len` in steps modulo `len`. -/
def scrambled (len : Nat) (seed : UInt64) : List Nat :=
  if len = 0 then []
  else
    let s := step len seed
    (List.range len).map fun i => i * s % len

end VisitOrder
end DesignStore
