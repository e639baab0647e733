import Mathlib.Algebra.Order.Ring.Rat
import Mathlib.Order.Monotone.Basic

/-!
# Rounded arithmetic

Floating-point operations are the exact operation followed by one rounding to
the format. The rounding itself stays a parameter: it is monotone and exact on
integers that fit the significand. Rounding nothing is one such function, and
is what concrete examples use.
-/

/-- A rounding of rational results to a floating-point format. -/
structure Rounding where
  round : ℚ → ℚ
  mono : Monotone round
  natCast : ∀ n : Nat, n ≤ 2 ^ 53 → round n = n

namespace Rounding

def exact : Rounding where
  round := id
  mono := monotone_id
  natCast _ _ := rfl

variable (r : Rounding)

def ofNat (n : Nat) : ℚ := r.round n

def mul (x y : ℚ) : ℚ := r.round (x * y)

def div (x y : ℚ) : ℚ := r.round (x / y)

def add (x y : ℚ) : ℚ := r.round (x + y)

def sub (x y : ℚ) : ℚ := r.round (x - y)

/-- Conversion to an unsigned integer, which truncates. -/
def toNat (x : ℚ) : Nat := x.floor.toNat

/-- `static_cast<size_t>(static_cast<double>(n) * x)`. -/
def scale (n : Nat) (x : ℚ) : Nat := toNat (r.mul (r.ofNat n) x)

end Rounding
