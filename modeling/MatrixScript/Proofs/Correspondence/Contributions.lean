import Mathlib.Algebra.BigOperators.Field
import Mathlib.LinearAlgebra.Matrix.NonsingularInverse
import Mathlib.Tactic.Linarith
import MatrixScript.Proofs.Correspondence.Places

/-!
# Contributions are shares

An orthonormal basis of eigenvectors turns the standardized table into one whose columns
are orthogonal, with the eigenvalues for squared lengths.  Its trivial axis carries the
centroid, so on the other axes the squared distance of a point to the centroid is the sum
of the squares of its coordinates, and the shares that the contributions speak of add up
to one.
-/

namespace MatrixScript

open Matrix

namespace Correspondence

variable {table : DenseMatrix ℝ}

/-! ## Distances to the centroid -/

/-- The squared chi-square distance of the profile of a column to the centroid. -/
noncomputable def columnDistance (table : DenseMatrix ℝ) (j : Fin table.cols) : ℝ :=
  ∑ i, (margins table).total / table.rowSum i *
    (table.get i j / table.columnSum j - table.rowSum i / (margins table).total) ^ 2

/-- The squared chi-square distance of the profile of a row to the centroid. -/
noncomputable def rowDistance (table : DenseMatrix ℝ) (i : Fin table.rows) : ℝ :=
  ∑ j, (margins table).total / table.columnSum j *
    (table.get i j / table.rowSum i - table.columnSum j / (margins table).total) ^ 2

/-- The distance of a profile in terms of standardized elements. -/
theorem profile_distance_eq {n : Nat} {mass margin : Fin n → ℝ} {sum total : ℝ}
    (hmass : ∑ i, mass i = sum) (hmargin : ∑ i, margin i = total) (hsum : 0 < sum)
    (htotal : 0 < total) (hpos : ∀ i, 0 < margin i) :
    ∑ i, total / margin i * (mass i / sum - margin i / total) ^ 2 =
      total / sum * ∑ i, (mass i / (√sum * √(margin i))) ^ 2 - 1 := by
  have hterm : ∀ i, total / margin i * (mass i / sum - margin i / total) ^ 2 =
      total / sum * (mass i / (√sum * √(margin i))) ^ 2 - 2 / sum * mass i +
        margin i / total := by
    intro i
    have hi := (hpos i).ne'
    rw [div_pow, mul_pow, Real.sq_sqrt hsum.le, Real.sq_sqrt (hpos i).le]
    field_simp
    ring
  have hmass' : ∑ i, 2 / sum * mass i = 2 := by
    rw [← Finset.mul_sum, hmass]
    field_simp
  have hmargin' : ∑ i, margin i / total = 1 := by
    rw [← Finset.sum_div, hmargin, div_self htotal.ne']
  simp only [hterm, Finset.sum_add_distrib, Finset.sum_sub_distrib]
  rw [hmass', hmargin', Finset.mul_sum]
  ring

/-- A row with a positive sum has elements. -/
theorem cols_pos (h : table.PositiveMargins) (i : Fin table.rows) : 0 < table.cols := by
  by_contra hcols
  have hnone : IsEmpty (Fin table.cols) := by
    rw [show table.cols = 0 by omega]
    infer_instance
  have hrow := h.row_pos i
  rw [DenseMatrix.rowSum_real, Finset.univ_eq_empty, Finset.sum_empty] at hrow
  exact lt_irrefl 0 hrow

theorem total_pos (h : table.PositiveMargins) (j : Fin table.cols) : 0 < (margins table).total := by
  rw [total_eq_sum_columnSum]
  exact Finset.sum_pos (fun j _ => h.column_pos j) ⟨j, Finset.mem_univ j⟩

theorem columnDistance_eq (h : table.PositiveMargins) (j : Fin table.cols) :
    columnDistance table j = (margins table).total / table.columnSum j *
      ((standardized table)ᵀ * standardized table) j j - 1 := by
  rw [columnDistance, profile_distance_eq (table.columnSum_real j).symm (total_margins table).symm
    (h.column_pos j) (total_pos h j) h.row_pos, Matrix.mul_apply]
  congr 2
  apply Finset.sum_congr rfl
  intro i _
  rw [transpose_apply, standardized_apply, mul_comm √(table.columnSum j), sq]

theorem rowDistance_eq (h : table.PositiveMargins) (htotal : 0 < (margins table).total)
    (i : Fin table.rows) :
    rowDistance table i = (margins table).total / table.rowSum i *
      (standardized table * (standardized table)ᵀ) i i - 1 := by
  rw [rowDistance, profile_distance_eq (table.rowSum_real i).symm
    (total_eq_sum_columnSum table).symm (h.row_pos i) htotal h.column_pos, Matrix.mul_apply]
  congr 2
  apply Finset.sum_congr rfl
  intro j _
  rw [transpose_apply, standardized_apply, sq]

/-! ## Bases of eigenvectors -/

/-- An orthonormal basis of eigenvectors of the similarity of the columns, none of whose
eigenvalues is negative, with the trivial axis first. -/
structure IsEigenbasis (table : DenseMatrix ℝ) (V : Matrix (Fin table.cols) (Fin table.cols) ℝ)
    (L : Fin table.cols → ℝ) : Prop where
  orthonormal : Vᵀ * V = 1
  eigen : similarity table * V = V * diagonal L
  nonneg : ∀ k, 0 ≤ L k
  trivial_value : ∀ k, k.val = 0 → L k = 1
  trivial_vector : ∀ k, k.val = 0 →
    (∀ j, V j k = √(table.columnSum j / (margins table).total)) ∨
      ∀ j, V j k = -√(table.columnSum j / (margins table).total)

namespace IsEigenbasis

variable {V : Matrix (Fin table.cols) (Fin table.cols) ℝ} {L : Fin table.cols → ℝ}

theorem mul_transpose (hV : IsEigenbasis table V L) : V * Vᵀ = 1 :=
  mul_eq_one_comm.mp hV.orthonormal

/-- The standardized table in the basis has orthogonal columns. -/
theorem gram (h : table.PositiveMargins) (hV : IsEigenbasis table V L) :
    (standardized table * V)ᵀ * (standardized table * V) = diagonal L := by
  calc (standardized table * V)ᵀ * (standardized table * V)
      = Vᵀ * ((standardized table)ᵀ * standardized table * V) := by
        rw [transpose_mul, Matrix.mul_assoc, Matrix.mul_assoc]
    _ = Vᵀ * (V * diagonal L) := by rw [← similarity_eq h, hV.eigen]
    _ = diagonal L := by rw [← Matrix.mul_assoc, hV.orthonormal, Matrix.one_mul]

theorem sum_sq_column (h : table.PositiveMargins) (hV : IsEigenbasis table V L)
    (k : Fin table.cols) : ∑ i, (standardized table * V) i k ^ 2 = L k := by
  have hk := congrFun (congrFun (hV.gram h) k) k
  rw [diagonal_apply_eq, Matrix.mul_apply] at hk
  rw [← hk]
  exact Finset.sum_congr rfl fun i _ => sq _

/-- A null axis takes no part in any row. -/
theorem eq_zero_of_null (h : table.PositiveMargins) (hV : IsEigenbasis table V L)
    {k : Fin table.cols} (hk : L k = 0) (i : Fin table.rows) :
    (standardized table * V) i k = 0 := by
  have hsum := hV.sum_sq_column h k
  rw [hk, Finset.sum_eq_zero_iff_of_nonneg fun i _ => sq_nonneg _] at hsum
  exact pow_eq_zero_iff two_ne_zero |>.mp (hsum i (Finset.mem_univ i))

theorem sum_sq_row (hV : IsEigenbasis table V L) (i : Fin table.rows) :
    ∑ k, (standardized table * V) i k ^ 2 =
      (standardized table * (standardized table)ᵀ) i i := by
  have hmul : standardized table * V * (standardized table * V)ᵀ =
      standardized table * (standardized table)ᵀ := by
    rw [transpose_mul, Matrix.mul_assoc, ← Matrix.mul_assoc V, hV.mul_transpose, Matrix.one_mul]
  rw [← hmul, Matrix.mul_apply]
  exact Finset.sum_congr rfl fun k _ => sq _

/-- The similarity of a column with itself, axis by axis. -/
theorem sum_value_mul_sq (h : table.PositiveMargins) (hV : IsEigenbasis table V L)
    (j : Fin table.cols) :
    ∑ k, L k * V j k ^ 2 = ((standardized table)ᵀ * standardized table) j j := by
  have hspectral : (standardized table)ᵀ * standardized table = V * diagonal L * Vᵀ := by
    rw [← similarity_eq h, ← hV.eigen, Matrix.mul_assoc, hV.mul_transpose, Matrix.mul_one]
  rw [hspectral, Matrix.mul_apply]
  apply Finset.sum_congr rfl
  intro k _
  rw [mul_diagonal, transpose_apply]
  ring

theorem trivial_sq (h : table.PositiveMargins) (hV : IsEigenbasis table V L)
    {k : Fin table.cols} (hk : k.val = 0) (j : Fin table.cols) :
    V j k ^ 2 = table.columnSum j / (margins table).total := by
  have hroot : √(table.columnSum j / (margins table).total) ^ 2 =
      table.columnSum j / (margins table).total :=
    Real.sq_sqrt (div_nonneg (h.column_pos j).le (total_pos h j).le)
  rcases hV.trivial_vector k hk with hv | hv
  · rw [hv j, hroot]
  · rw [hv j, neg_sq, hroot]

/-- The trivial axis takes its share of every row. -/
theorem trivial_row_sq (h : table.PositiveMargins) (hV : IsEigenbasis table V L)
    {k : Fin table.cols} (hk : k.val = 0) (i : Fin table.rows) :
    (standardized table * V) i k ^ 2 = table.rowSum i / (margins table).total := by
  have htotal := total_pos h k
  have hterm : ∀ j, standardized table i j * √(table.columnSum j / (margins table).total) =
      table.get i j / (√(table.rowSum i) * √(margins table).total) := by
    intro j
    have hcolumn : √(table.columnSum j) ≠ 0 := (Real.sqrt_pos.mpr (h.column_pos j)).ne'
    rw [standardized_apply, Real.sqrt_div' _ htotal.le]
    field_simp
  have hsum : ∑ j, standardized table i j * √(table.columnSum j / (margins table).total) =
      table.rowSum i / (√(table.rowSum i) * √(margins table).total) := by
    simp only [hterm]
    rw [← Finset.sum_div, ← DenseMatrix.rowSum_real]
  have hsq : (table.rowSum i / (√(table.rowSum i) * √(margins table).total)) ^ 2 =
      table.rowSum i / (margins table).total := by
    have hrow := (h.row_pos i).ne'
    rw [div_pow, mul_pow, Real.sq_sqrt (h.row_pos i).le, Real.sq_sqrt htotal.le]
    field_simp
  rw [Matrix.mul_apply]
  rcases hV.trivial_vector k hk with hv | hv
  · simp only [hv, hsum, hsq]
  · simp only [hv, mul_neg, Finset.sum_neg_distrib, hsum, neg_sq, hsq]

end IsEigenbasis

/-! ## Coordinates -/

/-- A sum over all axes, with the trivial one apart. -/
theorem sum_axes {m : Nat} (hm : 0 < m) (f : Fin m → ℝ) :
    ∑ k, f k = f ⟨0, hm⟩ + ∑ k : Fin (m - 1), f (Index.next k) := by
  obtain ⟨m, rfl⟩ : ∃ m', m = m' + 1 := ⟨m - 1, by omega⟩
  exact Fin.sum_univ_succ f

/-- The axes that an analysis takes from a basis and its eigenvalues. -/
structure TakesAxes (V : Matrix (Fin table.cols) (Fin table.cols) ℝ) (L : Fin table.cols → ℝ)
    (lambdas : Vector ℝ (table.cols - 1)) (basis : Grid ℝ table.cols (table.cols - 1)) : Prop where
  value : ∀ k, lambdas.get k = L (Index.next k)
  vector : ∀ j k, basis.get j k = V j (Index.next k)

namespace TakesAxes

variable {V : Matrix (Fin table.cols) (Fin table.cols) ℝ} {L : Fin table.cols → ℝ}
  {lambdas : Vector ℝ (table.cols - 1)} {basis : Grid ℝ table.cols (table.cols - 1)}

theorem sq_columnPlaces (h : table.PositiveMargins) (hV : IsEigenbasis table V L)
    (hA : TakesAxes V L lambdas basis) (j : Fin table.cols) (k : Fin (table.cols - 1)) :
    (columnPlaces (margins table) lambdas basis).get j k ^ 2 =
      (margins table).total / table.columnSum j * (L (Index.next k) * V j (Index.next k) ^ 2) := by
  have hratio : 0 ≤ (margins table).total / table.columnSum j :=
    div_nonneg (total_pos h j).le (h.column_pos j).le
  rw [get_columnPlaces_real, hA.value, hA.vector, mul_pow, mul_pow, Real.sq_sqrt (hV.nonneg _),
    Real.sq_sqrt hratio]
  ring

theorem sq_rowPlaces (h : table.PositiveMargins) (hV : IsEigenbasis table V L)
    (hA : TakesAxes V L lambdas basis) (i : Fin table.rows) (k : Fin (table.cols - 1)) :
    (rowPlaces table.grid table.rowSums lambdas
      (columnPlaces (margins table) lambdas basis).get).get i k ^ 2 =
      (margins table).total / table.rowSum i * (standardized table * V) i (Index.next k) ^ 2 := by
  rcases (hV.nonneg (Index.next k)).eq_or_lt with hnull | hpos
  · rw [get_rowPlaces_of_zero lambdas basis ((hA.value k).trans hnull.symm),
      hV.eq_zero_of_null h hnull.symm]
    ring
  · have hratio : 0 ≤ (margins table).total / table.rowSum i :=
      div_nonneg (total_pos h (Index.next k)).le (h.row_pos i).le
    have hproduct : (standardized table * basis.toMatrix) i k =
        (standardized table * V) i (Index.next k) := by
      rw [Matrix.mul_apply, Matrix.mul_apply]
      exact Finset.sum_congr rfl fun j _ => congrArg _ (hA.vector j k)
    rw [get_rowPlaces_of_pos lambdas basis h (by rwa [hA.value]), hproduct, mul_pow,
      Real.sq_sqrt hratio]

/-- The squares of the coordinates of a column add up to its squared distance. -/
theorem sum_sq_columnPlaces (h : table.PositiveMargins) (hV : IsEigenbasis table V L)
    (hA : TakesAxes V L lambdas basis) (j : Fin table.cols) :
    ∑ k, (columnPlaces (margins table) lambdas basis).get j k ^ 2 = columnDistance table j := by
  have hcolumn := (h.column_pos j).ne'
  have htotal := (total_pos h j).ne'
  have haxes := hV.sum_value_mul_sq h j
  rw [sum_axes j.pos, hV.trivial_value _ rfl, hV.trivial_sq h rfl, one_mul] at haxes
  rw [columnDistance_eq h, ← haxes]
  simp only [hA.sq_columnPlaces h hV]
  rw [← Finset.mul_sum]
  field_simp
  ring

/-- The squares of the coordinates of a row add up to its squared distance. -/
theorem sum_sq_rowPlaces (h : table.PositiveMargins) (hV : IsEigenbasis table V L)
    (hA : TakesAxes V L lambdas basis) (hm : 0 < table.cols) (i : Fin table.rows) :
    ∑ k, (rowPlaces table.grid table.rowSums lambdas
      (columnPlaces (margins table) lambdas basis).get).get i k ^ 2 = rowDistance table i := by
  have hrow := (h.row_pos i).ne'
  have htotal := total_pos h ⟨0, hm⟩
  have haxes := hV.sum_sq_row i
  rw [sum_axes hm, hV.trivial_row_sq h rfl] at haxes
  rw [rowDistance_eq h htotal, ← haxes]
  simp only [hA.sq_rowPlaces h hV]
  rw [← Finset.mul_sum]
  field_simp
  ring

end TakesAxes

/-! ## Contributions -/

section Analysis

variable {axes : Nat} (lambdas : Vector ℝ axes) (basis : Grid ℝ table.cols axes)

theorem get_absolute_of_pos {k : Fin axes} (hk : 0 < lambdas.get k)
    (p : Fin (table.cols + table.rows)) :
    (ofAxes table lambdas basis).absolute.get p k =
      (masses (margins table)).get p * (ofAxes table lambdas basis).coordinates.get p k ^ 2 /
        lambdas.get k := by
  refine (Grid.get_ofFn _ p k).trans ((if_neg (mt (Scalar.beq_zero_real _).mp hk.ne')).trans ?_)
  rw [sq, ← mul_assoc]
  rfl

theorem get_relative_real (p : Fin (table.cols + table.rows)) (k : Fin axes) :
    (ofAxes table lambdas basis).relative.get p k =
      (ofAxes table lambdas basis).coordinates.get p k ^ 2 /
        (distances table.grid (margins table)).get p := by
  refine (Grid.get_ofFn _ p k).trans ?_
  rw [sq]
  rfl

theorem get_masses_castAdd (j : Fin table.cols) :
    (masses (margins table)).get (j.castAdd table.rows) =
      table.columnSum j / (margins table).total := by
  rw [masses, get_ofFn, Index.append_castAdd, get_columns_margins]

theorem get_masses_natAdd (i : Fin table.rows) :
    (masses (margins table)).get (i.natAdd table.cols) =
      table.rowSum i / (margins table).total := by
  rw [masses, get_ofFn, Index.append_natAdd, get_rows_margins]

theorem distance_real {n : Nat} (total sum : ℝ) (mass margin : Fin n → ℝ) :
    distance total sum mass margin =
      ∑ j, total / margin j * (mass j / sum - margin j / total) ^ 2 := by
  refine (Scalar.sum_real _).trans (Finset.sum_congr rfl fun j _ => ?_)
  rw [sq, ← mul_assoc]

theorem get_distances_castAdd (j : Fin table.cols) :
    (distances table.grid (margins table)).get (j.castAdd table.rows) = columnDistance table j := by
  rw [distances, get_ofFn, Index.append_castAdd, distance_real]
  simp only [get_rows_margins, get_columns_margins]
  rfl

theorem get_distances_natAdd (i : Fin table.rows) :
    (distances table.grid (margins table)).get (i.natAdd table.cols) = rowDistance table i := by
  rw [distances, get_ofFn, Index.append_natAdd, distance_real]
  simp only [get_rows_margins, get_columns_margins]
  rfl

end Analysis

section Shares

variable {V : Matrix (Fin table.cols) (Fin table.cols) ℝ} {L : Fin table.cols → ℝ}
  {lambdas : Vector ℝ (table.cols - 1)} {basis : Grid ℝ table.cols (table.cols - 1)}
  (h : table.PositiveMargins) (hV : IsEigenbasis table V L) (hA : TakesAxes V L lambdas basis)

include h hV hA

theorem sum_absolute_columns {k : Fin (table.cols - 1)} (hk : 0 < L (Index.next k)) :
    ∑ j : Fin table.cols,
      (ofAxes table lambdas basis).absolute.get (j.castAdd table.rows) k = 1 := by
  have hterm : ∀ j : Fin table.cols,
      (ofAxes table lambdas basis).absolute.get (j.castAdd table.rows) k =
        V j (Index.next k) * V j (Index.next k) := by
    intro j
    have hcolumn := (h.column_pos j).ne'
    have htotal := (total_pos h j).ne'
    rw [get_absolute_of_pos _ _ (by rwa [hA.value]), get_coordinates_castAdd, get_masses_castAdd,
      hA.sq_columnPlaces h hV, hA.value]
    field_simp
  simp only [hterm]
  have hunit := congrFun (congrFun hV.orthonormal (Index.next k)) (Index.next k)
  rwa [Matrix.mul_apply, one_apply_eq] at hunit

theorem sum_absolute_rows {k : Fin (table.cols - 1)} (hk : 0 < L (Index.next k)) :
    ∑ i : Fin table.rows,
      (ofAxes table lambdas basis).absolute.get (i.natAdd table.cols) k = 1 := by
  have htotal := (total_pos h (Index.next k)).ne'
  have hterm : ∀ i : Fin table.rows,
      (ofAxes table lambdas basis).absolute.get (i.natAdd table.cols) k =
        (standardized table * V) i (Index.next k) ^ 2 / L (Index.next k) := by
    intro i
    have hrow := (h.row_pos i).ne'
    rw [get_absolute_of_pos _ _ (by rwa [hA.value]), get_coordinates_natAdd, get_masses_natAdd,
      hA.sq_rowPlaces h hV, hA.value]
    field_simp
  simp only [hterm]
  rw [← Finset.sum_div, hV.sum_sq_column h, div_self hk.ne']

theorem sum_relative_column {j : Fin table.cols} (hj : columnDistance table j ≠ 0) :
    ∑ k : Fin (table.cols - 1),
      (ofAxes table lambdas basis).relative.get (j.castAdd table.rows) k = 1 := by
  have hterm : ∀ k : Fin (table.cols - 1),
      (ofAxes table lambdas basis).relative.get (j.castAdd table.rows) k =
      (columnPlaces (margins table) lambdas basis).get j k ^ 2 / columnDistance table j := by
    intro k
    rw [get_relative_real, get_coordinates_castAdd, get_distances_castAdd]
  simp only [hterm]
  rw [← Finset.sum_div, hA.sum_sq_columnPlaces h hV, div_self hj]

theorem sum_relative_row (hm : 0 < table.cols) {i : Fin table.rows} (hi : rowDistance table i ≠ 0) :
    ∑ k : Fin (table.cols - 1),
      (ofAxes table lambdas basis).relative.get (i.natAdd table.cols) k = 1 := by
  have hterm : ∀ k : Fin (table.cols - 1),
      (ofAxes table lambdas basis).relative.get (i.natAdd table.cols) k =
      (rowPlaces table.grid table.rowSums lambdas
        (columnPlaces (margins table) lambdas basis).get).get i k ^ 2 / rowDistance table i := by
    intro k
    rw [get_relative_real, get_coordinates_natAdd, get_distances_natAdd]
  simp only [hterm]
  rw [← Finset.sum_div, hA.sum_sq_rowPlaces h hV hm, div_self hi]

end Shares

/-- In exact arithmetic, with an orthonormal basis of eigenvectors whose first axis is the
trivial one, the contributions of an analysis are shares: on an axis that counts those of the
columns add up to one, and so do those of the rows; and the relative contributions of a point
that is not the centroid add up to one over all axes.  With fewer than two columns there are
no axes, and every point is the centroid. -/
theorem contributions_sum_to_one (table : DenseMatrix ℝ)
    (vectors : Grid ℝ table.cols table.cols) {width : Nat}
    (values : Grid ℝ table.cols (width + 1)) (hpositive : table.PositiveMargins)
    (hbasis : IsEigenbasis table vectors.toMatrix fun k => values.get k 0) :
    (2 ≤ table.cols → ∃ coordinates absolute relative :
        Grid ℝ (table.cols + table.rows) (table.cols - 1),
      analyse table ⟨_, _, vectors⟩ ⟨_, _, values⟩ =
          .ok ⟨⟨_, _, coordinates⟩, ⟨_, _, absolute⟩, ⟨_, _, relative⟩⟩ ∧
        (∀ k, 0 < values.get (Index.next k) 0 →
          ∑ j : Fin table.cols, absolute.get (j.castAdd table.rows) k = 1 ∧
            ∑ i : Fin table.rows, absolute.get (i.natAdd table.cols) k = 1) ∧
        (∀ j, columnDistance table j ≠ 0 →
          ∑ k, relative.get (j.castAdd table.rows) k = 1) ∧
        ∀ i, rowDistance table i ≠ 0 → ∑ k, relative.get (i.natAdd table.cols) k = 1) ∧
    (table.cols < 2 → (∀ j, columnDistance table j = 0) ∧ ∀ i, rowDistance table i = 0) := by
  have haxes : TakesAxes vectors.toMatrix (fun k => values.get k 0)
      (Vector.ofFn fun k => values.get (Index.next k) 0)
      (Grid.ofFn fun j k => vectors.get j (Index.next k)) :=
    ⟨fun k => get_ofFn _ k, fun j k => Grid.get_ofFn _ j k⟩
  constructor
  · intro hcols
    have hm : 0 < table.cols := by omega
    have hanalyse : analyse table ⟨_, _, vectors⟩ ⟨_, _, values⟩ =
        .ok (ofAxes table (Vector.ofFn fun k => values.get (Index.next k) 0)
          (Grid.ofFn fun j k => vectors.get j (Index.next k))) := by
      have hvectors : axisVectors ⟨_, _, vectors⟩ table.cols (table.cols - 1) =
          .ok (Grid.ofFn fun j k => vectors.get j (Index.next k)) :=
        dif_pos ⟨rfl, Nat.sub_one_lt_of_lt hm⟩
      have hvalues : axisValues ⟨_, _, values⟩ =
          .ok (Vector.ofFn fun k => values.get (Index.next k) 0) :=
        dif_pos ⟨hcols, Nat.succ_pos width⟩
      unfold analyse
      rw [hvalues]
      change (axisVectors _ _ _ >>= _) = _
      rw [hvectors]
      rfl
    refine ⟨_, _, _, hanalyse, ?_, ?_, ?_⟩
    · intro k hk
      exact ⟨sum_absolute_columns hpositive hbasis haxes hk,
        sum_absolute_rows hpositive hbasis haxes hk⟩
    · intro j hj
      exact sum_relative_column hpositive hbasis haxes hj
    · intro i hi
      exact sum_relative_row hpositive hbasis haxes hm hi
  · intro hcols
    have hnone : IsEmpty (Fin (table.cols - 1)) := by
      rw [show table.cols - 1 = 0 by omega]
      infer_instance
    constructor
    · intro j
      rw [← haxes.sum_sq_columnPlaces hpositive hbasis, Finset.univ_eq_empty, Finset.sum_empty]
    · intro i
      have hm : 0 < table.cols := cols_pos hpositive i
      rw [← haxes.sum_sq_rowPlaces hpositive hbasis hm, Finset.univ_eq_empty, Finset.sum_empty]

/-- The eigenvectors of the similarity of the table. -/
noncomputable def basisTwoByTwo : Grid ℝ 2 2 :=
  .ofFn fun j k => if j = 1 ∧ k = 1 then -√(1 / (1 + 1)) else √(1 / (1 + 1))

noncomputable def valuesTwoByTwo : Grid ℝ 2 1 :=
  .ofFn fun k _ => if k = 0 then 1 else 1 / 9

theorem isEigenbasis_twoByTwo :
    IsEigenbasis twoByTwo basisTwoByTwo.toMatrix fun k => valuesTwoByTwo.get k 0 where
  orthonormal := by
    have hroot : √(1 / (1 + 1) : ℝ) * √(1 / (1 + 1)) = 1 / (1 + 1) :=
      Real.mul_self_sqrt (by norm_num)
    ext j k
    rw [Matrix.mul_apply, Fin.sum_univ_two]
    simp only [transpose_apply, Grid.toMatrix_apply, basisTwoByTwo, Grid.get_ofFn]
    generalize √(1 / (1 + 1) : ℝ) = root at hroot ⊢
    fin_cases j <;> fin_cases k <;> simp <;> linarith
  eigen := by
    ext j k
    rw [Matrix.mul_apply, Fin.sum_univ_two, similarity_twoByTwo, similarity_twoByTwo, mul_diagonal]
    simp only [Grid.toMatrix_apply, basisTwoByTwo, valuesTwoByTwo, Grid.get_ofFn]
    fin_cases j <;> fin_cases k <;> simp <;> ring
  nonneg k := by
    simp only [valuesTwoByTwo, Grid.get_ofFn]
    split <;> norm_num
  trivial_value k hk := by
    obtain rfl : k = 0 := Fin.ext hk
    simp only [valuesTwoByTwo, Grid.get_ofFn, if_true]
  trivial_vector k hk := by
    obtain rfl : k = 0 := Fin.ext hk
    left
    intro j
    rw [columnSum_twoByTwo, total_twoByTwo]
    simp only [Grid.toMatrix_apply, basisTwoByTwo, Grid.get_ofFn]
    norm_num

theorem columnDistance_twoByTwo : columnDistance twoByTwo 0 = 1 / 9 := by
  rw [columnDistance, Fin.sum_univ_two, get_twoByTwo, get_twoByTwo]
  simp only [rowSum_twoByTwo, columnSum_twoByTwo, total_twoByTwo]
  norm_num

theorem contributions_sum_to_one_twoByTwo :
    ∃ coordinates absolute relative : Grid ℝ 4 1,
      analyse twoByTwo ⟨2, 2, basisTwoByTwo⟩ ⟨2, 1, valuesTwoByTwo⟩ =
          .ok ⟨⟨4, 1, coordinates⟩, ⟨4, 1, absolute⟩, ⟨4, 1, relative⟩⟩ ∧
        absolute.get 0 0 + absolute.get 1 0 = 1 ∧ absolute.get 2 0 + absolute.get 3 0 = 1 ∧
          columnDistance twoByTwo 0 = 1 / 9 ∧ relative.get 0 0 = 1 := by
  obtain ⟨coordinates, absolute, relative, hanalyse, habsolute, hcolumns, -⟩ :=
    (contributions_sum_to_one twoByTwo basisTwoByTwo valuesTwoByTwo positiveMargins_twoByTwo
      isEigenbasis_twoByTwo).1 (Nat.le_refl 2)
  have hpos : 0 < valuesTwoByTwo.get (Index.next (0 : Fin 1)) 0 := by
    simp only [valuesTwoByTwo, Grid.get_ofFn]
    norm_num [Index.next]
  obtain ⟨hcolumn, hrow⟩ := habsolute (0 : Fin 1) hpos
  have hrelative : ∑ k : Fin 1, relative.get (Fin.castAdd 2 0) k = 1 :=
    hcolumns 0 (by rw [columnDistance_twoByTwo]; norm_num)
  rw [Fin.sum_univ_two] at hcolumn hrow
  rw [Fin.sum_univ_one] at hrelative
  exact ⟨coordinates, absolute, relative, hanalyse, hcolumn, hrow, columnDistance_twoByTwo, hrelative⟩

end Correspondence

end MatrixScript
