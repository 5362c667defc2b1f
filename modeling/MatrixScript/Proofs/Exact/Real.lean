import Mathlib.Algebra.BigOperators.Fin
import Mathlib.Analysis.Real.Sqrt
import Mathlib.Data.Matrix.Mul
import Mathlib.LinearAlgebra.Matrix.Symmetric
import Mathlib.Order.Interval.Finset.Fin
import MatrixScript.DenseMatrix.Basic
import MatrixScript.Index

/-!
# Exact arithmetic

The numeric routines read over the real numbers.  There a running sum is the sum of its
terms, in whatever order they are taken up, a sum over a range of indices is one over the
indices in it, and a grid is a matrix in the sense of linear algebra.
-/

namespace MatrixScript

open Matrix

/-- The arithmetic of the real numbers.  No real number is below every other, so zero stands
for the start of a running maximum, and nothing is to be said about one. -/
noncomputable instance : Scalar ℝ where
  beq a b := decide (a = b)
  decLT a b := inferInstanceAs (Decidable (a < b))
  decLE a b := inferInstanceAs (Decidable (a ≤ b))
  ofCount n := n
  sqrt := Real.sqrt
  abs a := |a|
  hypot a b := √(a * a + b * b)
  copySign a b := if b < 0 then -|a| else |a|
  max := max
  min := min
  negInfinity := 0
  epsilon := 1 / (Nat.pow 2 52 : Nat)

namespace Scalar

variable {n : Nat}

theorem accumulate_real (init : ℝ) (f : Fin n → ℝ) : accumulate init f = init + ∑ k, f k := by
  induction n with
  | zero => simp [accumulate]
  | succ n ih =>
      have hinit : Fin.foldl n (fun sum k => sum + f k.castSucc) init =
          init + ∑ k : Fin n, f k.castSucc := ih _
      rw [Fin.sum_univ_castSucc, ← add_assoc, ← hinit]
      exact Fin.foldl_succ_last _ _

theorem sum_real (f : Fin n → ℝ) : sum f = ∑ k, f k := by
  have hzero : (-0 : ℝ) = 0 := neg_zero
  rw [← zero_add (∑ k, f k), ← hzero]
  exact accumulate_real _ f

theorem beq_zero_real (x : ℝ) : (x == 0) = true ↔ x = 0 :=
  decide_eq_true_iff

end Scalar

namespace Index

variable {m n : Nat}

theorem val_here (i : Fin (n - 1)) : (here i).val = i.val := rfl

theorem val_next (i : Fin (n - 1)) : (next i).val = i.val + 1 := rfl

/-- A sum over a range that starts at `first`, by the indices that are in it. -/
theorem sum_range (e : Fin m → Fin n) (first : Nat) (he : ∀ k, (e k).val = first + k.val)
    {s : Finset (Fin n)} (hs : ∀ p : Fin n, p ∈ s ↔ first ≤ p.val ∧ p.val < first + m)
    (f : Fin n → ℝ) : ∑ k, f (e k) = ∑ p ∈ s, f p := by
  apply Finset.sum_bij fun k _ => e k
  · intro k _
    rw [hs, he]
    omega
  · intro k _ l _ h
    have hval := congrArg Fin.val h
    rw [he, he] at hval
    omega
  · intro p hp
    have hrange := (hs p).mp hp
    refine ⟨⟨p - first, by omega⟩, Finset.mem_univ _, Fin.ext ?_⟩
    rw [he]
    simp only
    omega
  · intro k _
    rfl

theorem sum_before (j : Fin n) (f : Fin n → ℝ) :
    ∑ k, f (before j k) = ∑ p ∈ Finset.Iio j, f p := by
  apply sum_range (before j) 0 fun k => (Nat.zero_add k.val).symm
  intro p
  rw [Finset.mem_Iio, Fin.lt_def]
  omega

theorem sum_upTo (i : Fin (n - 1)) (f : Fin n → ℝ) :
    ∑ k, f (upTo i k) = ∑ p ∈ Finset.Iio (next i), f p := by
  apply sum_range (upTo i) 0 fun k => (Nat.zero_add k.val).symm
  intro p
  rw [Finset.mem_Iio, Fin.lt_def, val_next]
  omega

/-- A sum up to `i` of a function that is zero after it. -/
theorem sum_upTo_of_zero (i : Fin (n - 1)) (f : Fin n → ℝ) (hf : ∀ p, next i ≤ p → f p = 0) :
    ∑ k, f (upTo i k) = ∑ p, f p := by
  rw [sum_upTo]
  apply Finset.sum_subset (Finset.subset_univ _)
  intro p _ hp
  exact hf p (not_lt.mp (mt Finset.mem_Iio.mpr hp))

theorem sum_between (j i : Fin n) (f : Fin n → ℝ) :
    ∑ k, f (between j i k) = ∑ p ∈ Finset.Ico j i, f p := by
  apply sum_range (between j i) j fun k => rfl
  intro p
  rw [Finset.mem_Ico, Fin.le_def, Fin.lt_def]
  omega

theorem sum_onwards (j : Fin n) (f : Fin n → ℝ) :
    ∑ k, f (onwards j k) = ∑ p ∈ Finset.Ici j, f p := by
  apply sum_range (onwards j) j fun k => rfl
  intro p
  rw [Finset.mem_Ici, Fin.le_def]
  omega

end Index

namespace Grid

variable {α : Type} {r c : Nat}

/-- The cells of a grid as a matrix. -/
def toMatrix (g : Grid α r c) : Matrix (Fin r) (Fin c) α :=
  Matrix.of g.get

@[simp] theorem toMatrix_apply (g : Grid α r c) (i : Fin r) (j : Fin c) :
    g.toMatrix i j = g.get i j := rfl

/-- The symmetric matrix with the lower triangle of a grid. -/
def symmetrized {n : Nat} (a : Grid α n n) : Matrix (Fin n) (Fin n) α :=
  Matrix.of fun i j => if j ≤ i then a.get i j else a.get j i

theorem symmetrized_of_le {n : Nat} (a : Grid α n n) {i j : Fin n} (h : j ≤ i) :
    a.symmetrized i j = a.get i j := if_pos h

theorem isSymm_symmetrized {n : Nat} (a : Grid α n n) : a.symmetrized.IsSymm := by
  ext i j
  rw [transpose_apply, symmetrized, of_apply, of_apply]
  rcases lt_trichotomy i j with h | rfl | h
  · rw [if_pos h.le, if_neg (not_le_of_gt h)]
  · rfl
  · rw [if_neg (not_le_of_gt h), if_pos h.le]

end Grid

namespace DenseMatrix

variable {α : Type}

/-- The elements as a matrix of the size that they fill. -/
def toMatrix (m : DenseMatrix α) : Matrix (Fin m.rows) (Fin m.cols) α :=
  Matrix.of m.get

@[simp] theorem toMatrix_apply (m : DenseMatrix α) (i : Fin m.rows) (j : Fin m.cols) :
    m.toMatrix i j = m.get i j := rfl

theorem rowSum_real (m : DenseMatrix ℝ) (i : Fin m.rows) : m.rowSum i = ∑ j, m.get i j :=
  Scalar.sum_real _

theorem columnSum_real (m : DenseMatrix ℝ) (j : Fin m.cols) : m.columnSum j = ∑ i, m.get i j :=
  (Scalar.accumulate_real _ _).trans (zero_add _)

end DenseMatrix

end MatrixScript
