import MatrixScript.Scalar.Basic
import MatrixScript.Scalar.Hypot

/-!
# Machine arithmetic

The arithmetic scripts run on: binary64 numbers. The larger and the smaller of a number and a NaN
is the number, and `hypot` is correctly rounded.
-/

namespace MatrixScript

namespace Binary64

/-- The larger of two numbers; a NaN gives way to the other operand. -/
def max (a b : Float) : Float :=
  if a.isNaN then b else if b.isNaN then a else if a < b then b else a

/-- The smaller of two numbers; a NaN gives way to the other operand. -/
def min (a b : Float) : Float :=
  if a.isNaN then b else if b.isNaN then a else if b < a then b else a

def copySign (x y : Float) : Float :=
  if isNegative y then -x.abs else x.abs

end Binary64

instance : Scalar Float where
  zero := 0.0
  one := 1.0
  decLT a b := inferInstanceAs (Decidable (a < b))
  decLE a b := inferInstanceAs (Decidable (a ≤ b))
  ofCount := Float.ofNat
  sqrt := Float.sqrt
  abs := Float.abs
  hypot := Binary64.hypot
  copySign := Binary64.copySign
  max := Binary64.max
  min := Binary64.min
  negInfinity := Binary64.infinity true
  epsilon := Binary64.nearest false 1 (Nat.pow 2 52)

end MatrixScript
