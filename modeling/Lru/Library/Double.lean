import Mathlib.Algebra.Order.Ring.Rat

/-!
# Binary64 numbers as bit patterns

A `double` is kept as its 64-bit memory image, so that copying one never changes
it. `toRat` is the exact value of a finite pattern; an infinity is represented by
the first power of two beyond the finite range, which orders it correctly, and a
NaN is excluded by every comparison.
-/

/-- The memory image of a `double`. -/
structure Double where
  bits : UInt64
  deriving DecidableEq, Repr, Inhabited

namespace Double

variable (x y : Double)

def exponent : Nat := x.bits.toNat / 2 ^ 52 % 2 ^ 11

def fraction : Nat := x.bits.toNat % 2 ^ 52

def isNegative : Bool := 2 ^ 63 ≤ x.bits.toNat

def isNaN : Bool := x.exponent = 2047 && x.fraction != 0

def magnitude : ℚ :=
  if x.exponent = 2047 then 2 ^ 1024
  else if x.exponent = 0 then x.fraction / 2 ^ 1074
  else if x.exponent < 1075 then (2 ^ 52 + x.fraction : Nat) / 2 ^ (1075 - x.exponent)
  else (2 ^ 52 + x.fraction : Nat) * 2 ^ (x.exponent - 1075)

def toRat : ℚ := if x.isNegative then -x.magnitude else x.magnitude

def ge (q : ℚ) : Bool := !x.isNaN && q ≤ x.toRat

def le (q : ℚ) : Bool := !x.isNaN && x.toRat ≤ q

end Double
