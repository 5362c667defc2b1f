/-!
# Scalar arithmetic

The operations that the numeric routines are written in. A routine takes its arithmetic as a
parameter, so one definition is at once the program that runs on machine numbers and the formula
read over the reals. No law is part of the class: a theorem that needs commutativity, an order or
exactness asks for it.
-/

namespace MatrixScript

/-- An arithmetic for the numeric routines, without laws. -/
class Scalar (α : Type) extends
    Add α, Sub α, Mul α, Div α, Neg α, Zero α, One α, BEq α, LT α, LE α where
  decLT : (a b : α) → Decidable (a < b)
  decLE : (a b : α) → Decidable (a ≤ b)
  ofCount : Nat → α
  sqrt : α → α
  abs : α → α
  hypot : α → α → α
  /-- The magnitude of the first operand with the sign of the second. -/
  copySign : α → α → α
  max : α → α → α
  min : α → α → α
  /-- A value below every other, the start of a running maximum. -/
  negInfinity : α
  /-- The relative spacing of the numbers near one. -/
  epsilon : α

namespace Scalar

variable {α : Type} [Scalar α]

instance (a b : α) : Decidable (a < b) := decLT a b

instance (a b : α) : Decidable (a ≤ b) := decLE a b

/-- Adds the values of `f` to `init`, from the first to the last. -/
@[specialize]
def accumulate {n : Nat} (init : α) (f : Fin n → α) : α :=
  Fin.foldl n (fun sum k => sum + f k) init

/-- The sum of the values of `f`. It starts from a negative zero, which added to any value leaves that
value as it is, so a sum of negative zeros keeps its sign. -/
@[specialize]
def sum {n : Nat} (f : Fin n → α) : α :=
  accumulate (-0) f

/-- The maximum of the values of `f`. -/
@[specialize]
def maximum {n : Nat} (f : Fin n → α) : α :=
  Fin.foldl n (fun best k => max best (f k)) negInfinity

end Scalar

end MatrixScript
