import Mathlib.Algebra.BigOperators.Field
import Mathlib.Algebra.Order.BigOperators.Ring.Finset
import Mathlib.LinearAlgebra.Matrix.DotProduct
import MatrixScript.Proofs.Correspondence.Places
import MatrixScript.Proofs.Exact.Machine

/-!
# The similarity of columns is a contraction

The standardized table takes the roots of the column sums to the roots of the row sums and,
transposed, back again: so the similarity has the trivial eigenvector.  It makes no vector
longer, by the inequality of Cauchy and Schwarz in each row of the table, and so no eigenvalue
of the similarity is negative or larger than one.  That the similarity is symmetric has nothing
to do with exactness: it is so in every arithmetic with a commutative multiplication, and to
the last bit in that of the machine.
-/

namespace MatrixScript

open Matrix

namespace DenseMatrix

variable {α : Type} [Scalar α]

theorem get_chiSquare (table : DenseMatrix α) (j k : Fin table.cols) :
    table.chiSquare.get j k = Scalar.sum fun i => table.get i j * table.get i k /
      (table.rowSums.get i * Scalar.sqrt (table.columnSums.get j * table.columnSums.get k)) :=
  get_ofFn _ _ _ j k

/-- The sum for two columns has the terms of the sum for the columns in the other order, with
the factors exchanged in two products. -/
theorem chiSquare_comm (hmul : ∀ x y : α, x * y = y * x) (table : DenseMatrix α)
    (j k : Fin table.cols) : table.chiSquare.get j k = table.chiSquare.get k j := by
  rw [get_chiSquare, get_chiSquare, hmul (table.columnSums.get j)]
  congr 1
  funext i
  rw [hmul (table.get i j)]

end DenseMatrix

namespace Correspondence

variable {table : DenseMatrix ℝ}

/-! ## The trivial eigenvector -/

/-- The root of the sum of each row. -/
noncomputable def rowRoots (table : DenseMatrix ℝ) (i : Fin table.rows) : ℝ :=
  √(table.rowSum i)

/-- The root of the sum of each column. -/
noncomputable def columnRoots (table : DenseMatrix ℝ) (j : Fin table.cols) : ℝ :=
  √(table.columnSum j)

theorem standardized_mulVec_columnRoots (h : table.PositiveMargins) :
    standardized table *ᵥ columnRoots table = rowRoots table := by
  ext i
  have hterm : ∀ j, standardized table i j * columnRoots table j =
      table.get i j / √(table.rowSum i) := by
    intro j
    have hcolumn : √(table.columnSum j) ≠ 0 := (Real.sqrt_pos.mpr (h.column_pos j)).ne'
    rw [standardized_apply, columnRoots]
    field_simp
  calc (standardized table *ᵥ columnRoots table) i
      = ∑ j, standardized table i j * columnRoots table j := rfl
    _ = ∑ j, table.get i j / √(table.rowSum i) := Finset.sum_congr rfl fun j _ => hterm j
    _ = table.rowSum i / √(table.rowSum i) := by
        rw [← Finset.sum_div, table.rowSum_real]
    _ = √(table.rowSum i) := Real.div_sqrt

theorem transpose_standardized_mulVec_rowRoots (h : table.PositiveMargins) :
    (standardized table)ᵀ *ᵥ rowRoots table = columnRoots table := by
  ext j
  have hterm : ∀ i, (standardized table)ᵀ j i * rowRoots table i =
      table.get i j / √(table.columnSum j) := by
    intro i
    have hrow : √(table.rowSum i) ≠ 0 := (Real.sqrt_pos.mpr (h.row_pos i)).ne'
    rw [transpose_apply, standardized_apply, rowRoots]
    field_simp
  calc ((standardized table)ᵀ *ᵥ rowRoots table) j
      = ∑ i, (standardized table)ᵀ j i * rowRoots table i := rfl
    _ = ∑ i, table.get i j / √(table.columnSum j) := Finset.sum_congr rfl fun i _ => hterm i
    _ = table.columnSum j / √(table.columnSum j) := by
        rw [← Finset.sum_div, table.columnSum_real]
    _ = √(table.columnSum j) := Real.div_sqrt

theorem similarity_mulVec_columnRoots (h : table.PositiveMargins) :
    similarity table *ᵥ columnRoots table = columnRoots table := by
  rw [similarity_eq h, ← mulVec_mulVec, standardized_mulVec_columnRoots h,
    transpose_standardized_mulVec_rowRoots h]

/-! ## Lengths -/

/-- The quadratic form of the similarity is the squared length of what the standardized table
makes of a vector. -/
theorem dotProduct_similarity (h : table.PositiveMargins) (x : Fin table.cols → ℝ) :
    x ⬝ᵥ similarity table *ᵥ x = ∑ i, (standardized table *ᵥ x) i ^ 2 := by
  rw [similarity_eq h, ← mulVec_mulVec, dotProduct_mulVec, vecMul_transpose]
  exact Finset.sum_congr rfl fun i _ => (sq _).symm

/-- In a row, the elements over the sum of the row are weights that add up to one; the rest of
the row is left for the vector. -/
theorem sq_standardized_mulVec_le (hnonneg : ∀ i j, 0 ≤ table.get i j)
    (h : table.PositiveMargins) (x : Fin table.cols → ℝ) (i : Fin table.rows) :
    (standardized table *ᵥ x) i ^ 2 ≤ ∑ j, table.get i j / table.columnSum j * x j ^ 2 := by
  have hweights : ∑ j, table.get i j / table.rowSum i = 1 := by
    rw [← Finset.sum_div, ← table.rowSum_real, div_self (h.row_pos i).ne']
  have hschwarz : (standardized table *ᵥ x) i ^ 2 ≤
      (∑ j, table.get i j / table.rowSum i) *
        ∑ j, table.get i j / table.columnSum j * x j ^ 2 := by
    rw [mulVec, dotProduct]
    apply Finset.sum_sq_le_sum_mul_sum_of_sq_le_mul
    · intro j _
      exact div_nonneg (hnonneg i j) (h.row_pos i).le
    · intro j _
      exact mul_nonneg (div_nonneg (hnonneg i j) (h.column_pos j).le) (sq_nonneg _)
    · intro j _
      rw [standardized_apply, mul_pow, div_pow, mul_pow, Real.sq_sqrt (h.row_pos i).le,
        Real.sq_sqrt (h.column_pos j).le]
      apply le_of_eq
      ring
  rwa [hweights, one_mul] at hschwarz

/-- The shares of a column in the rows add up to one, so a vector gets no longer. -/
theorem dotProduct_similarity_le (hnonneg : ∀ i j, 0 ≤ table.get i j)
    (h : table.PositiveMargins) (x : Fin table.cols → ℝ) :
    x ⬝ᵥ similarity table *ᵥ x ≤ x ⬝ᵥ x := by
  have hshares : ∀ j, ∑ i, table.get i j / table.columnSum j * x j ^ 2 = x j * x j := by
    intro j
    rw [← Finset.sum_mul, ← Finset.sum_div, ← table.columnSum_real,
      div_self (h.column_pos j).ne', one_mul, sq]
  calc x ⬝ᵥ similarity table *ᵥ x
      = ∑ i, (standardized table *ᵥ x) i ^ 2 := dotProduct_similarity h x
    _ ≤ ∑ i, ∑ j, table.get i j / table.columnSum j * x j ^ 2 :=
        Finset.sum_le_sum fun i _ => sq_standardized_mulVec_le hnonneg h x i
    _ = ∑ j, ∑ i, table.get i j / table.columnSum j * x j ^ 2 := Finset.sum_comm
    _ = x ⬝ᵥ x := Finset.sum_congr rfl fun j _ => hshares j

theorem dotProduct_similarity_nonneg (h : table.PositiveMargins) (x : Fin table.cols → ℝ) :
    0 ≤ x ⬝ᵥ similarity table *ᵥ x := by
  rw [dotProduct_similarity h]
  exact Finset.sum_nonneg fun i _ => sq_nonneg _

/-- On an eigenvector the quadratic form is the eigenvalue times the squared length. -/
theorem eigenvalue_mem_Icc {n : Nat} {a : Matrix (Fin n) (Fin n) ℝ} {lambda : ℝ}
    {v : Fin n → ℝ} (hnonneg : 0 ≤ v ⬝ᵥ a *ᵥ v) (hle : v ⬝ᵥ a *ᵥ v ≤ v ⬝ᵥ v) (hv : v ≠ 0)
    (heigen : a *ᵥ v = lambda • v) : lambda ∈ Set.Icc (0 : ℝ) 1 := by
  have hlength : 0 < v ⬝ᵥ v := by
    have hne : v ⬝ᵥ v ≠ 0 := mt dotProduct_self_eq_zero.mp hv
    exact lt_of_le_of_ne (Finset.sum_nonneg fun j _ => mul_self_nonneg (v j)) hne.symm
  rw [heigen, dotProduct_smul, smul_eq_mul] at hnonneg hle
  constructor
  · exact nonneg_of_mul_nonneg_left hnonneg hlength
  · exact le_of_mul_le_mul_right (hle.trans_eq (one_mul _).symm) hlength

/-- The similarity of the columns of a table that has positive margins and no negative element
keeps the roots of the column sums, and it is a symmetric contraction: no vector has a negative
product with its image, or one above the square of its length.  It is symmetric in every
arithmetic in which multiplication is commutative, and so bit for bit on the machine. -/
theorem similarity_contraction :
    (∀ table : DenseMatrix ℝ, (∀ i j, 0 ≤ table.get i j) → table.PositiveMargins →
      (similarity table *ᵥ fun j => √(table.columnSum j)) = (fun j => √(table.columnSum j)) ∧
      (∀ x, 0 ≤ x ⬝ᵥ similarity table *ᵥ x ∧ x ⬝ᵥ similarity table *ᵥ x ≤ x ⬝ᵥ x) ∧
      ∀ lambda v, v ≠ 0 → similarity table *ᵥ v = lambda • v → lambda ∈ Set.Icc (0 : ℝ) 1) ∧
    (∀ (α : Type) [Scalar α], (∀ x y : α, x * y = y * x) →
      ∀ (table : DenseMatrix α) (j k : Fin table.cols),
        table.chiSquare.get j k = table.chiSquare.get k j) ∧
    ∀ (table : DenseMatrix Float) (j k : Fin table.cols),
      (table.chiSquare.get j k).toBits = (table.chiSquare.get k j).toBits := by
  refine ⟨?_, fun α _ hmul table => DenseMatrix.chiSquare_comm hmul table, ?_⟩
  · intro table hnonneg h
    have hbounds : ∀ x, 0 ≤ x ⬝ᵥ similarity table *ᵥ x ∧
        x ⬝ᵥ similarity table *ᵥ x ≤ x ⬝ᵥ x := fun x =>
      ⟨dotProduct_similarity_nonneg h x, dotProduct_similarity_le hnonneg h x⟩
    refine ⟨similarity_mulVec_columnRoots h, hbounds, ?_⟩
    intro lambda v hv heigen
    exact eigenvalue_mem_Icc (hbounds v).1 (hbounds v).2 hv heigen
  · intro table j k
    exact congrArg Float.toBits (DenseMatrix.chiSquare_comm Binary64.mul_comm table j k)

/-- The two columns of a table are alike, but not the same: the similarity keeps the vector of
the roots, and shrinks the one that tells the columns apart. -/
theorem similarity_contraction_twoByTwo :
    (∀ i j, 0 ≤ twoByTwo.get i j) ∧ twoByTwo.PositiveMargins ∧
      (similarity twoByTwo *ᵥ fun j => √(twoByTwo.columnSum j)) =
        (fun j => √(twoByTwo.columnSum j)) ∧
      ∃ v, v ≠ 0 ∧ similarity twoByTwo *ᵥ v = (1 / 9 : ℝ) • v ∧
        0 ≤ v ⬝ᵥ similarity twoByTwo *ᵥ v ∧ v ⬝ᵥ similarity twoByTwo *ᵥ v ≤ v ⬝ᵥ v ∧
          (1 / 9 : ℝ) ∈ Set.Icc (0 : ℝ) 1 := by
  have hnonneg : ∀ i j, 0 ≤ twoByTwo.get i j := by
    intro i j
    rw [get_twoByTwo]
    split <;> norm_num
  have hne : (fun j : Fin 2 => if j = 1 then (-1 : ℝ) else 1) ≠ 0 := by
    intro hzero
    exact one_ne_zero (congrFun hzero 0)
  have heigen : similarity twoByTwo *ᵥ (fun j : Fin 2 => if j = 1 then (-1 : ℝ) else 1) =
      (1 / 9 : ℝ) • fun j : Fin 2 => if j = 1 then (-1 : ℝ) else 1 := by
    ext j
    rw [mulVec, dotProduct, Fin.sum_univ_two, similarity_twoByTwo, similarity_twoByTwo]
    fin_cases j <;> norm_num
  obtain ⟨hroots, hbounds, heigenvalues⟩ :=
    similarity_contraction.1 twoByTwo hnonneg positiveMargins_twoByTwo
  exact ⟨hnonneg, positiveMargins_twoByTwo, hroots, _, hne, heigen, (hbounds _).1, (hbounds _).2,
    heigenvalues _ _ hne heigen⟩

end Correspondence

end MatrixScript
