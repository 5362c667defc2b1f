import Mathlib.Tactic.FieldSimp
import Mathlib.Tactic.FinCases
import Mathlib.Tactic.NormNum
import Mathlib.Tactic.Ring
import MatrixScript.DenseMatrix.Profile
import MatrixScript.Proofs.Correspondence.Projection
import MatrixScript.Proofs.Exact.Real

/-!
# Places of the points in exact arithmetic

Divided by the roots of the sums of its row and of its column, every element of a table
becomes one of the standardized table.  The chi-square similarity of the columns is the
Gram matrix of that table, and it takes an eigenvector to the places of the rows, up to
the root of the total over the sum of each row.
-/

namespace MatrixScript

open Matrix

/-- The sums of all rows and columns are positive. -/
structure DenseMatrix.PositiveMargins (table : DenseMatrix ℝ) : Prop where
  row_pos : ∀ i, 0 < table.rowSum i
  column_pos : ∀ j, 0 < table.columnSum j

namespace Correspondence

variable {table : DenseMatrix ℝ}

/-- Every element over the roots of the sums of its row and of its column. -/
noncomputable def standardized (table : DenseMatrix ℝ) :
    Matrix (Fin table.rows) (Fin table.cols) ℝ :=
  Matrix.of fun i j => table.get i j / (√(table.rowSum i) * √(table.columnSum j))

theorem standardized_apply (table : DenseMatrix ℝ) (i : Fin table.rows) (j : Fin table.cols) :
    standardized table i j = table.get i j / (√(table.rowSum i) * √(table.columnSum j)) := rfl

theorem total_margins (table : DenseMatrix ℝ) : (margins table).total = ∑ i, table.rowSum i := by
  refine (Scalar.sum_real _).trans (Finset.sum_congr rfl fun i _ => ?_)
  exact get_ofFn table.rowSum i

theorem get_rows_margins (table : DenseMatrix ℝ) (i : Fin table.rows) :
    (margins table).rows.get i = table.rowSum i :=
  get_ofFn table.rowSum i

theorem get_columns_margins (table : DenseMatrix ℝ) (j : Fin table.cols) :
    (margins table).columns.get j = table.columnSum j :=
  get_ofFn table.columnSum j

theorem total_eq_sum_columnSum (table : DenseMatrix ℝ) :
    (margins table).total = ∑ j, table.columnSum j := by
  simp only [total_margins, DenseMatrix.rowSum_real, DenseMatrix.columnSum_real]
  exact Finset.sum_comm

/-- The chi-square similarity of the columns, as a matrix. -/
noncomputable def similarity (table : DenseMatrix ℝ) :
    Matrix (Fin table.cols) (Fin table.cols) ℝ :=
  table.chiSquare.toMatrix

theorem similarity_apply (table : DenseMatrix ℝ) (j k : Fin table.cols) :
    similarity table j k = ∑ i, table.get i j * table.get i k /
      (table.rowSum i * √(table.columnSum j * table.columnSum k)) := by
  refine (DenseMatrix.get_ofFn _ _ _ j k).trans ((Scalar.sum_real _).trans ?_)
  simp only [DenseMatrix.rowSums, DenseMatrix.columnSums, get_ofFn]
  rfl

/-- The similarity of the columns is the Gram matrix of the standardized table. -/
theorem similarity_eq (h : table.PositiveMargins) :
    similarity table = (standardized table)ᵀ * standardized table := by
  ext j k
  rw [similarity_apply, Matrix.mul_apply]
  apply Finset.sum_congr rfl
  intro i _
  have hrow : √(table.rowSum i) * √(table.rowSum i) = table.rowSum i :=
    Real.mul_self_sqrt (h.row_pos i).le
  rw [Real.sqrt_mul (h.column_pos j).le, transpose_apply, standardized_apply, standardized_apply,
    div_mul_div_comm, mul_mul_mul_comm, hrow]

/-! ## The places of the points -/

/-- A share of a sum, times the root of what the total is to another sum: up to the root of the
total over the first sum this is a standardized element. -/
theorem share_mul_sqrt {s c : ℝ} (hs : 0 < s) (hc : 0 < c) (x t : ℝ) :
    x / s * √(t / c) = √(t / s) * (x / (√s * √c)) := by
  have hroot : s = √s * √s := (Real.mul_self_sqrt hs.le).symm
  have hs' : √s ≠ 0 := (Real.sqrt_pos.mpr hs).ne'
  have hc' : √c ≠ 0 := (Real.sqrt_pos.mpr hc).ne'
  rw [Real.sqrt_div' t hc.le, Real.sqrt_div' t hs.le]
  nth_rewrite 1 [hroot]
  field_simp

theorem barycentre_real {n : Nat} (weight total : ℝ) (mass place : Fin n → ℝ) :
    barycentre weight total mass place = weight * ∑ j, mass j / total * place j := by
  refine (Scalar.sum_real _).trans ?_
  rw [Finset.mul_sum]
  exact Finset.sum_congr rfl fun j _ => mul_assoc _ _ _

theorem inverseRoot_of_pos {lambda : ℝ} (h : 0 < lambda) : inverseRoot lambda = 1 / √lambda :=
  if_neg (mt (Scalar.beq_zero_real lambda).mp h.ne')

theorem inverseRoot_zero : inverseRoot (0 : ℝ) = 0 :=
  if_pos ((Scalar.beq_zero_real 0).mpr rfl)

section Places

variable {axes : Nat} (lambdas : Vector ℝ axes) (basis : Grid ℝ table.cols axes)

theorem get_columnPlaces_real (j : Fin table.cols) (k : Fin axes) :
    (columnPlaces (margins table) lambdas basis).get j k =
      √(lambdas.get k) * √((margins table).total / table.columnSum j) * basis.get j k := by
  unfold columnPlaces
  rw [Grid.get_ofFn, get_columns_margins]
  split
  · next hzero =>
    rw [(Scalar.beq_zero_real _).mp hzero, Real.sqrt_zero, zero_mul, zero_mul]
  · rfl

theorem get_rowPlaces_real (i : Fin table.rows) (k : Fin axes) :
    (rowPlaces table.grid table.rowSums lambdas
      (columnPlaces (margins table) lambdas basis).get).get i k =
      inverseRoot (lambdas.get k) * ∑ j, table.get i j / table.rowSum i *
        (√(lambdas.get k) * √((margins table).total / table.columnSum j) * basis.get j k) := by
  unfold rowPlaces
  rw [Grid.get_ofFn, barycentre_real, DenseMatrix.rowSums, get_ofFn]
  simp only [get_columnPlaces_real]
  rfl

/-- On an axis that counts, a row stands where the standardized table takes the eigenvector. -/
theorem get_rowPlaces_of_pos (h : table.PositiveMargins) {k : Fin axes} (hk : 0 < lambdas.get k)
    (i : Fin table.rows) :
    (rowPlaces table.grid table.rowSums lambdas
      (columnPlaces (margins table) lambdas basis).get).get i k =
      √((margins table).total / table.rowSum i) * (standardized table * basis.toMatrix) i k := by
  have hroot : √(lambdas.get k) ≠ 0 := (Real.sqrt_pos.mpr hk).ne'
  rw [get_rowPlaces_real, inverseRoot_of_pos hk, Matrix.mul_apply, Finset.mul_sum, Finset.mul_sum]
  apply Finset.sum_congr rfl
  intro j _
  calc 1 / √(lambdas.get k) * (table.get i j / table.rowSum i *
        (√(lambdas.get k) * √((margins table).total / table.columnSum j) * basis.get j k))
      = table.get i j / table.rowSum i * √((margins table).total / table.columnSum j) *
          basis.get j k := by
        field_simp
    _ = √((margins table).total / table.rowSum i) *
          (standardized table i j * basis.toMatrix j k) := by
        rw [share_mul_sqrt (h.row_pos i) (h.column_pos j), mul_assoc]
        rfl

theorem get_rowPlaces_of_zero {k : Fin axes} (hk : lambdas.get k = 0) (i : Fin table.rows) :
    (rowPlaces table.grid table.rowSums lambdas
      (columnPlaces (margins table) lambdas basis).get).get i k = 0 := by
  rw [get_rowPlaces_real, hk, inverseRoot_zero, zero_mul]

theorem get_coordinates_castAdd (j : Fin table.cols) (k : Fin axes) :
    (ofAxes table lambdas basis).coordinates.get (j.castAdd table.rows) k =
      (columnPlaces (margins table) lambdas basis).get j k := by
  refine (get_coordinates_ofAxes table lambdas basis (j.castAdd table.rows) k).trans ?_
  rw [Index.append_castAdd]

theorem get_coordinates_natAdd (i : Fin table.rows) (k : Fin axes) :
    (ofAxes table lambdas basis).coordinates.get (i.natAdd table.cols) k =
      (rowPlaces table.grid table.rowSums lambdas
        (columnPlaces (margins table) lambdas basis).get).get i k := by
  refine (get_coordinates_ofAxes table lambdas basis (i.natAdd table.cols) k).trans ?_
  rw [Index.append_natAdd]

end Places

/-! ## A table of two rows and two columns -/

/-- A table of two rows and two columns, all with the same sum. -/
noncomputable abbrev twoByTwo : DenseMatrix ℝ :=
  ⟨2, 2, .ofFn fun i j => if i = j then 2 else 1⟩

theorem get_twoByTwo (i j : Fin 2) : twoByTwo.get i j = if i = j then 2 else 1 :=
  Grid.get_ofFn _ i j

theorem rowSum_twoByTwo (i : Fin 2) : twoByTwo.rowSum i = 3 := by
  rw [DenseMatrix.rowSum_real, Fin.sum_univ_two, get_twoByTwo, get_twoByTwo]
  fin_cases i <;> norm_num

theorem columnSum_twoByTwo (j : Fin 2) : twoByTwo.columnSum j = 3 := by
  rw [DenseMatrix.columnSum_real, Fin.sum_univ_two, get_twoByTwo, get_twoByTwo]
  fin_cases j <;> norm_num

theorem positiveMargins_twoByTwo : twoByTwo.PositiveMargins where
  row_pos i := by rw [rowSum_twoByTwo]; norm_num
  column_pos j := by rw [columnSum_twoByTwo]; norm_num

theorem similarity_twoByTwo (j k : Fin 2) :
    similarity twoByTwo j k = if j = k then 5 / 9 else 4 / 9 := by
  have hroot : √((3 : ℝ) * 3) = 3 := Real.sqrt_mul_self (by norm_num)
  rw [similarity_apply, Fin.sum_univ_two]
  simp only [rowSum_twoByTwo, columnSum_twoByTwo, get_twoByTwo, hroot]
  fin_cases j <;> fin_cases k <;> norm_num

theorem total_twoByTwo : (margins twoByTwo).total = 6 := by
  rw [total_margins, Fin.sum_univ_two, rowSum_twoByTwo, rowSum_twoByTwo]
  norm_num

end Correspondence

end MatrixScript
