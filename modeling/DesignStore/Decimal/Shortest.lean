/-
The shortest decimal that reads back as a given double.

The reals that round to a double form an interval around it, whose ends belong to it if
the mantissa is even.  On a grid of powers of ten the only points that can be in the
interval and near the number are its two neighbours.  So the coarsest grid with a
neighbour in the interval gives the fewest digits, and of two neighbours in it the
nearer is taken, the upper one in a tie.
-/
import DesignStore.Binary64

namespace DesignStore

structure Decimal where
  digits : Nat
  exponent : Int
  deriving DecidableEq, Repr

/-- A number and the ends of the interval that rounds to it, all three counted in
quarters of `2 ^ exponent`. -/
structure RoundingInterval where
  low : Nat
  value : Nat
  high : Nat
  exponent : Int
  closed : Bool
  deriving DecidableEq, Repr

namespace RoundingInterval

/-- The interval of `mantissa · 2 ^ exponent`.  Below a power of two the doubles are
twice as dense as above it, except where the exponent is the least there is. -/
def around (mantissa : Nat) (exponent : Int) : RoundingInterval :=
  let denseBelow := mantissa = 1 <<< 52 ∧ exponent ≠ -1074
  { low := 4 * mantissa - (if denseBelow then 1 else 2)
    value := 4 * mantissa
    high := 4 * mantissa + 2
    exponent := exponent
    closed := mantissa % 2 = 0 }

/-- The factors that bring quarters of `2 ^ exponent`, and multiples of `10 ^ p`, to one
unit in which both are whole. -/
def scales (i : RoundingInterval) (p : Int) : Nat × Nat :=
  (Nat.pow 2 (i.exponent - 2).toNat * Nat.pow 10 (-p).toNat,
    Nat.pow 2 (2 - i.exponent).toNat * Nat.pow 10 p.toNat)

/-- Whether `c · 10 ^ p` rounds to the number. -/
def contains (i : RoundingInterval) (c : Nat) (p : Int) : Bool :=
  let (a, b) := i.scales p
  if i.closed then i.low * a ≤ c * b ∧ c * b ≤ i.high * a
  else i.low * a < c * b ∧ c * b < i.high * a

/-- The multiple of `10 ^ p` nearest to the number among those that round to it. -/
def nearest? (i : RoundingInterval) (p : Int) : Option Nat :=
  let (a, b) := i.scales p
  let v := i.value * a
  let c := v / b
  match i.contains c p, i.contains (c + 1) p with
  | true, true => some (if v - c * b < (c + 1) * b - v then c else c + 1)
  | true, false => some c
  | false, true => some (c + 1)
  | false, false => none

/-- The least power of ten above the number, by its exponent. -/
def ceiling (i : RoundingInterval) : Int :=
  let (a, b) := i.scales 0
  let v := i.value * a
  if b ≤ v then ((v / b).repr.length : Int)
  else 1 - (((b - 1) / v).repr.length : Int)

/-- Tries the grids from `10 ^ p` on, each ten times as fine as the one before. -/
def search (i : RoundingInterval) : Nat → Int → Option Decimal
  | 0, _ => none
  | n + 1, p =>
    match i.nearest? p with
    | some c => some { digits := c, exponent := p }
    | none => i.search n (p - 1)

end RoundingInterval

namespace Decimal

def positional (d : Decimal) : String :=
  let digits := d.digits.repr
  if 0 ≤ d.exponent then digits ++ "".pushn '0' d.exponent.toNat
  else
    let places := (-d.exponent).toNat
    let padded := ("".pushn '0' (places + 1 - digits.length) ++ digits).toList
    String.ofList (padded.take (padded.length - places)) ++ "." ++
      String.ofList (padded.drop (padded.length - places))

end Decimal

namespace Binary64

/-- The shortest decimal that reads back as `mantissa · 2 ^ exponent`.  Seventeen digits
always do. -/
def shortest (mantissa : Nat) (exponent : Int) : Decimal :=
  if mantissa = 0 then { digits := 0, exponent := 0 }
  else
    let i := RoundingInterval.around mantissa exponent
    (i.search 18 i.ceiling).getD { digits := 0, exponent := 0 }

/-- The text of a number: the shortest digits, never with an exponent, and no point
after a whole number. -/
def text (x : Binary64) : String :=
  let sign := if x.isNegative then "-" else ""
  match x.magnitude with
  | .nan => "NaN"
  | .infinite => sign ++ "inf"
  | .finite m e => sign ++ (shortest m e).positional

end Binary64
end DesignStore
