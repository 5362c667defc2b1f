import Mathlib.Analysis.Real.Sqrt
import MatrixScript.Proofs.Exact.Real

/-!
# Exact arithmetic with undefined results

The numeric routines read over the real numbers, where a quotient by zero and the root of a
negative number have no value, and neither has anything that is computed from them.  A routine
that has a value throughout has divided by zero nowhere.
-/

namespace MatrixScript

/-- A real number, or the result of an operation that has none. -/
def PartialReal : Type := Option ℝ

namespace PartialReal

def value (x : ℝ) : PartialReal := some x

def undefined : PartialReal := none

def lift (f : ℝ → ℝ) (a : PartialReal) : PartialReal := Option.map f a

def lift₂ (f : ℝ → ℝ → ℝ) (a b : PartialReal) : PartialReal :=
  Option.bind a fun x => Option.map (f x) b

/-- The quotient by zero is undefined. -/
noncomputable def quotient (a b : PartialReal) : PartialReal :=
  Option.bind a fun x => Option.bind b fun y => if y = 0 then undefined else value (x / y)

/-- The root of a negative number is undefined. -/
noncomputable def root (a : PartialReal) : PartialReal :=
  Option.bind a fun x => if x < 0 then undefined else value √x

/-- A comparison with an undefined result fails. -/
def Compares (r : ℝ → ℝ → Prop) (a b : PartialReal) : Prop :=
  ∃ x y, a = value x ∧ b = value y ∧ r x y

noncomputable instance (r : ℝ → ℝ → Prop) (a b : PartialReal) : Decidable (Compares r a b) :=
  Classical.propDecidable _

noncomputable instance : Scalar PartialReal where
  add := lift₂ (· + ·)
  sub := lift₂ (· - ·)
  mul := lift₂ (· * ·)
  div := quotient
  neg := lift (- ·)
  zero := value 0
  one := value 1
  beq a b := decide (Compares (· = ·) a b)
  lt := Compares (· < ·)
  le := Compares (· ≤ ·)
  decLT a b := inferInstanceAs (Decidable (Compares (· < ·) a b))
  decLE a b := inferInstanceAs (Decidable (Compares (· ≤ ·) a b))
  ofCount n := value n
  sqrt := root
  abs := lift (|·|)
  hypot := lift₂ Scalar.hypot
  copySign := lift₂ Scalar.copySign
  max := lift₂ max
  min := lift₂ min
  negInfinity := undefined
  epsilon := value Scalar.epsilon

theorem value_injective : Function.Injective value := Option.some_injective ℝ

section Operations

variable {x y : ℝ} {n : Nat}

theorem value_add : value (x + y) = value x + value y := rfl

theorem value_sub : value (x - y) = value x - value y := rfl

theorem value_mul : value (x * y) = value x * value y := rfl

theorem value_neg : value (-x) = -value x := rfl

theorem value_zero : value 0 = 0 := rfl

theorem value_one : value 1 = 1 := rfl

theorem value_ofCount : value (Scalar.ofCount n) = Scalar.ofCount n := rfl

theorem value_abs : value (Scalar.abs x) = Scalar.abs (value x) := rfl

theorem value_hypot : value (Scalar.hypot x y) = Scalar.hypot (value x) (value y) := rfl

theorem value_copySign : value (Scalar.copySign x y) = Scalar.copySign (value x) (value y) := rfl

theorem value_div (hy : y ≠ 0) : value (x / y) = value x / value y :=
  (if_neg hy).symm

theorem value_sqrt (hx : 0 ≤ x) : value (Scalar.sqrt x) = Scalar.sqrt (value x) :=
  (if_neg (not_lt.mpr hx)).symm

theorem compares_value {r : ℝ → ℝ → Prop} : Compares r (value x) (value y) ↔ r x y := by
  constructor
  · rintro ⟨x', y', hx, hy, hr⟩
    rwa [value_injective hx, value_injective hy]
  · intro hr
    exact ⟨x, y, rfl, rfl, hr⟩

theorem value_pos_iff : 0 < value x ↔ 0 < x := compares_value

theorem value_beq_zero : (value x == 0) = (x == 0) := by
  apply Bool.eq_iff_iff.mpr
  rw [Scalar.beq_zero_real]
  exact decide_eq_true_iff.trans compares_value

theorem value_accumulate (init : ℝ) (f : Fin n → ℝ) :
    value (Scalar.accumulate init f) = Scalar.accumulate (value init) fun k => value (f k) := by
  induction n with
  | zero => simp [Scalar.accumulate]
  | succ n ih =>
      have hinit := ih fun k => f k.castSucc
      simp only [Scalar.accumulate, Fin.foldl_succ_last] at hinit ⊢
      rw [← hinit]
      rfl

theorem value_sum (f : Fin n → ℝ) :
    value (Scalar.sum f) = Scalar.sum fun k => value (f k) := value_accumulate (-0) f

end Operations

end PartialReal

end MatrixScript
