import Mathlib.LinearAlgebra.Matrix.NonsingularInverse
import MatrixScript.Proofs.Bounds.Inverse
import MatrixScript.Proofs.Cholesky.Factor

/-!
# The inverse of a symmetric matrix in exact arithmetic

Forward substitution inverts the Cholesky factor (`lower_mul_invertLower`), and the product of
the inverse triangle with its transpose inverts the matrix.  So a matrix is inverted exactly if
it is positive definite, and otherwise the error names the first leading block that is not.
-/

namespace MatrixScript

namespace Cholesky

open Matrix Finset

variable {n : Nat} {S : Matrix (Fin n) (Fin n) ℝ} {l : Grid ℝ n n}

/-! ## The inverse triangle -/

theorem get_invertLower_of_gt (l : Grid ℝ n n) {i j : Fin n} (h : i < j) :
    (invertLower l).get i j = 0 := by
  rw [get_invertLower, inverseEntry, if_neg h.ne', if_neg h.asymm]

/-- Row `i` of the triangle ends at `i`, and column `j` of the inverse begins at `j`. -/
theorem lower_mul_invertLower_apply (l : Grid ℝ n n) (i j : Fin n) :
    (lower l * (invertLower l).toMatrix) i j =
      ∑ p ∈ Icc j i, l.get i p * (invertLower l).get p j := by
  have hzero : ∀ p ∉ Icc j i, lower l i p * (invertLower l).get p j = 0 := by
    intro p hp
    rcases lt_or_ge p j with hpj | hpj
    · rw [get_invertLower_of_gt l hpj, mul_zero]
    · have hip : i < p := not_le.mp fun hpi => hp (mem_Icc.mpr ⟨hpj, hpi⟩)
      rw [lower_of_lt l hip, zero_mul]
  have hterm : ∀ p ∈ Icc j i, lower l i p * (invertLower l).get p j =
      l.get i p * (invertLower l).get p j := by
    intro p hp
    rw [lower_of_le l (mem_Icc.mp hp).2]
  rw [Matrix.mul_apply]
  exact (sum_subset (subset_univ _) fun p _ hp => hzero p hp).symm.trans (sum_congr rfl hterm)

/-- Forward substitution inverts a triangle without a zero on its diagonal. -/
theorem lower_mul_invertLower (hl : ∀ i, l.get i i ≠ 0) :
    lower l * (invertLower l).toMatrix = 1 := by
  ext i j
  rw [lower_mul_invertLower_apply]
  rcases lt_trichotomy j i with hji | rfl | hij
  · rw [← Ico_insert_right hji.le, sum_insert right_notMem_Ico, get_invertLower_of_lt l hji,
      Scalar.sum_real, Index.sum_between j i fun p => l.get i p * (invertLower l).get p j,
      one_apply_ne hji.ne']
    field_simp [hl i]
    ring
  · rw [Icc_self, sum_singleton, get_invertLower_self, one_apply_eq]
    exact mul_one_div_cancel (hl j)
  · rw [Icc_eq_empty (not_le.mpr hij), sum_empty, one_apply_ne hij.ne]

/-- The sum of `gram` leaves out only rows above the diagonal. -/
theorem gram_eq_mul {x : Grid ℝ n n} (hx : ∀ i j, i < j → x.get i j = 0) (i j : Fin n) :
    gram x i j = (x.toMatrixᵀ * x.toMatrix) i j := by
  have hzero : ∀ p ∉ Ici (if i ≤ j then j else i), x.get p i * x.get p j = 0 := by
    intro p hp
    have hlt : p < if i ≤ j then j else i := not_le.mp (mt mem_Ici.mpr hp)
    split at hlt
    · rw [hx p j hlt, mul_zero]
    · rw [hx p i hlt, zero_mul]
  unfold gram
  rw [Scalar.sum_real, Index.sum_onwards _ fun p => x.get p i * x.get p j, Matrix.mul_apply]
  exact sum_subset (subset_univ _) fun p _ hp => hzero p hp

/-! ## The inverse of the matrix -/

theorem Factored.eq_lower_mul (hS : S.IsSymm) (h : Factored S n l) :
    S = lower l * (lower l)ᵀ := by
  ext i k
  rcases le_total k i with hki | hik
  · exact (h.product i k k.isLt hki).symm
  · rw [← hS.apply i k, ← h.product k i i.isLt hik, ← transpose_apply (lower l * (lower l)ᵀ),
      transpose_mul, transpose_transpose]

theorem Factored.lower_mul_invertLower (h : Factored S n l) :
    lower l * (invertLower l).toMatrix = 1 :=
  Cholesky.lower_mul_invertLower fun i => (h.diagonal_pos i i.isLt).ne'

theorem Factored.posDef (hS : S.IsSymm) (h : Factored S n l) : S.PosDef := by
  have hunit : IsUnit (lower l) := IsUnit.of_mul_eq_one _ h.lower_mul_invertLower
  have hproduct : S = lower l * 1 * star (lower l) := by
    rw [Matrix.mul_one, star_eq_conjTranspose, conjTranspose_eq_transpose_of_trivial]
    exact h.eq_lower_mul hS
  rw [hproduct]
  exact hunit.posDef_star_right_conjugate_iff.mpr PosDef.one

/-- With `S = L Lᵀ` and `X` the inverse of `L`, `Xᵀ X` is the inverse of `S`. -/
theorem Factored.gram_mul (hS : S.IsSymm) (h : Factored S n l) :
    (Grid.ofFn (gram (invertLower l))).toMatrix * S = 1 := by
  have hleft : lower l * (invertLower l).toMatrix = 1 := h.lower_mul_invertLower
  have hright : (invertLower l).toMatrix * lower l = 1 := mul_eq_one_comm.mp hleft
  have hgram : (Grid.ofFn (gram (invertLower l))).toMatrix =
      (invertLower l).toMatrixᵀ * (invertLower l).toMatrix := by
    ext i j
    rw [Grid.toMatrix_apply, Grid.get_ofFn]
    exact gram_eq_mul (fun _ _ => get_invertLower_of_gt l) i j
  calc (Grid.ofFn (gram (invertLower l))).toMatrix * S
      = (invertLower l).toMatrixᵀ * ((invertLower l).toMatrix * lower l) * (lower l)ᵀ := by
        rw [hgram, h.eq_lower_mul hS]
        simp only [Matrix.mul_assoc]
    _ = (lower l * (invertLower l).toMatrix)ᵀ := by
        rw [hright, Matrix.mul_one, transpose_mul]
    _ = 1 := by rw [hleft, transpose_one]

end Cholesky

namespace DenseMatrix

open Cholesky

theorem symmetricInverse_mk {α : Type} [Scalar α] {n : Nat} (a : Grid α n n) :
    symmetricInverse ⟨n, n, a⟩ =
      (factor a).map fun l => ofFn n n (gram (invertLower l)) := by
  have hgrid : grid? ⟨n, n, a⟩ n n = some a := grid?_eq_some_iff.mpr rfl
  simp only [symmetricInverse, hgrid]

/-- A matrix is inverted exactly if the symmetric matrix of its lower triangle is positive
definite.  Otherwise the error names the first leading block that is not. -/
theorem symmetricInverse_iff_posDef {n : Nat} (a : Grid ℝ n n) :
    ((∃ b, symmetricInverse ⟨n, n, a⟩ = .ok b) ↔ a.symmetrized.PosDef) ∧
      ((∃ b : Grid ℝ n n, symmetricInverse ⟨n, n, a⟩ = .ok ⟨n, n, b⟩ ∧
          b.toMatrix * a.symmetrized = 1 ∧ a.symmetrized * b.toMatrix = 1) ∨
        ∃ (j : Fin n) (value : ℝ),
          symmetricInverse ⟨n, n, a⟩ = .error (.notPositiveDefinite j value) ∧
            ¬(leading a.symmetrized j).PosDef ∧ ∀ i < j, (leading a.symmetrized i).PosDef) := by
  have hS := a.isSymm_symmetrized
  rw [symmetricInverse_mk]
  rcases factor_cases a with ⟨l, hfactor, h⟩ | ⟨j, value, hfactor, hblock, hbefore⟩
  · rw [hfactor]
    have hinverse := h.gram_mul hS
    refine ⟨⟨fun _ => h.posDef hS, fun _ => ⟨_, rfl⟩⟩, .inl ⟨_, rfl, hinverse, ?_⟩⟩
    exact mul_eq_one_comm.mp hinverse
  · rw [hfactor]
    refine ⟨⟨fun ⟨_, hok⟩ => ?_, fun hpos => ?_⟩, .inr ⟨j, value, rfl, hblock, hbefore⟩⟩
    · cases hok
    · exact absurd (hpos.submatrix (Fin.castLE_injective _)) hblock

end DenseMatrix

end MatrixScript
