/-
Double-precision numbers as their bit patterns.

A finite number is read as a natural number times a power of two, so that everything
said about it is said in exact arithmetic.
-/

namespace DesignStore

/-- A double-precision number.  Two numbers are equal here if their bits are. -/
structure Binary64 where
  bits : UInt64
  deriving DecidableEq, Repr, Inhabited

/-- A number by its magnitude: `mantissa · 2 ^ exponent`, infinite, or no number. -/
inductive Magnitude where
  | finite (mantissa : Nat) (exponent : Int)
  | infinite
  | nan
  deriving DecidableEq, Repr

namespace Binary64

def isNegative (x : Binary64) : Bool :=
  x.bits >>> 63 == 1

def exponentField (x : Binary64) : Nat :=
  ((x.bits >>> 52) &&& 0x7ff).toNat

def fractionField (x : Binary64) : Nat :=
  (x.bits &&& 0xfffffffffffff).toNat

/-- Numbers with a zero exponent field have no hidden leading bit and share the exponent
of the field above. -/
def magnitude (x : Binary64) : Magnitude :=
  let e := x.exponentField
  let f := x.fractionField
  if e = 0x7ff then if f = 0 then .infinite else .nan
  else if e = 0 then .finite f (-1074)
  else .finite (1 <<< 52 + f) ((e : Int) - 1075)

def isNaN (x : Binary64) : Bool :=
  x.magnitude == .nan

end Binary64
end DesignStore
