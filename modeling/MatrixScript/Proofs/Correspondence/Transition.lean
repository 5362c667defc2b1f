import MatrixScript.Proofs.Correspondence.Places

/-!
# Places of columns

A column of the analysed table, taken as a supplementary one, is placed at the barycentre
of the rows.  The rows stand at barycentres of the columns, so going there and back is
multiplication by the similarity of the columns: on the axis of an eigenvector a column
comes back to its own point, in exact arithmetic.
-/

namespace MatrixScript

open Matrix

/-- The element in a row and a column, if both are there. -/
def DenseMatrix.get? {α : Type} (m : DenseMatrix α) (i j : Nat) : Option α :=
  if h : i < m.rows ∧ j < m.cols then some (m.get ⟨i, h.1⟩ ⟨j, h.2⟩) else none

theorem DenseMatrix.get?_val {α : Type} (m : DenseMatrix α) (i : Fin m.rows) (j : Fin m.cols) :
    m.get? i j = some (m.get i j) :=
  dif_pos ⟨i.isLt, j.isLt⟩

theorem DenseMatrix.get?_ofFn {α : Type} {rows cols : Nat} (f : Fin rows → Fin cols → α)
    (i : Fin rows) (j : Fin cols) : (ofFn rows cols f).get? i j = some (f i j) :=
  (get?_val (ofFn rows cols f) i j).trans (congrArg some (get_ofFn rows cols f i j))

theorem DenseMatrix.lt_rows_of_get? {α : Type} {m : DenseMatrix α} {i j : Nat} {x : α}
    (h : m.get? i j = some x) : i < m.rows := by
  unfold get? at h
  split at h
  · next hsize => exact hsize.1
  · cases h

namespace Correspondence

section Reading

variable {α : Type}

/-- The eigenvalue of an axis stands in the first column, one row further down. -/
theorem get?_of_axisValues {values : DenseMatrix α} {lambdas : Vector α (values.rows - 1)}
    (h : axisValues values = .ok lambdas) (k : Fin (values.rows - 1)) :
    values.get? (k.val + 1) 0 = some (lambdas.get k) := by
  unfold axisValues at h
  split at h
  · next hsize =>
    cases h
    rw [get_ofFn]
    exact values.get?_val (Index.next k) ⟨0, hsize.2⟩
  · cases h

/-- The eigenvector of an axis stands one column further on. -/
theorem get?_of_axisVectors {vectors : DenseMatrix α} {points axes : Nat}
    {basis : Grid α points axes} (h : axisVectors vectors points axes = .ok basis)
    (j : Fin points) (k : Fin axes) :
    vectors.get? j (k.val + 1) = some (basis.get j k) := by
  unfold axisVectors at h
  split at h
  · next hsize =>
    cases h
    rw [Grid.get_ofFn]
    exact vectors.get?_val (j.cast hsize.1.symm) (Index.shifted hsize.2 k)
  · cases h

variable [Scalar α]

theorem projectColumns_of_fits (points coordinates : DenseMatrix α) {values : DenseMatrix α}
    {lambdas : Vector α (values.rows - 1)} (hvalues : axisValues values = .ok lambdas)
    (hfits : points.rows ≤ coordinates.rows ∧ values.rows - 1 ≤ coordinates.cols) :
    projectColumns points coordinates values =
      .ok (DenseMatrix.ofFn points.cols (values.rows - 1) fun j k =>
        barycentre (inverseRoot (lambdas.get k)) (points.columnSum j)
          (fun i => points.get i j)
          (fun i => coordinates.get (Index.fromEnd hfits.1 i) (k.castLE hfits.2))) := by
  unfold projectColumns
  rw [hvalues]
  change (if _ : _ ∧ _ then _ else _) = _
  rw [dif_pos hfits]
  simp only [DenseMatrix.columnSums, get_ofFn]
  rfl

end Reading

section Places

variable {table : DenseMatrix ℝ} {axes : Nat} (lambdas : Vector ℝ axes)
  (basis : Grid ℝ table.cols axes)

/-- The barycentre of the rows, up to the scale of the axis, is the place of the column. -/
theorem barycentre_rowPlaces (h : table.PositiveMargins) {k : Fin axes} (hk : 0 < lambdas.get k)
    (heigen : ∀ j, (similarity table * basis.toMatrix) j k = lambdas.get k * basis.get j k)
    (j : Fin table.cols) :
    barycentre (inverseRoot (lambdas.get k)) (table.columnSum j) (fun i => table.get i j)
        (fun i => (rowPlaces table.grid table.rowSums lambdas
          (columnPlaces (margins table) lambdas basis).get).get i k) =
      (columnPlaces (margins table) lambdas basis).get j k := by
  have hsum : ∑ i, table.get i j / table.columnSum j *
      (√((margins table).total / table.rowSum i) * (standardized table * basis.toMatrix) i k) =
        √((margins table).total / table.columnSum j) * (lambdas.get k * basis.get j k) := by
    rw [← heigen j, similarity_eq h, Matrix.mul_assoc, Matrix.mul_apply, Finset.mul_sum]
    apply Finset.sum_congr rfl
    intro i _
    rw [← mul_assoc, share_mul_sqrt (h.column_pos j) (h.row_pos i), mul_assoc,
      mul_comm √(table.columnSum j)]
    rfl
  have hroot : √(lambdas.get k) * √(lambdas.get k) = lambdas.get k := Real.mul_self_sqrt hk.le
  have hroot' : √(lambdas.get k) ≠ 0 := (Real.sqrt_pos.mpr hk).ne'
  rw [barycentre_real, inverseRoot_of_pos hk]
  simp only [get_rowPlaces_of_pos lambdas basis h hk]
  rw [hsum, get_columnPlaces_real]
  nth_rewrite 2 [← hroot]
  field_simp

theorem get?_coordinates_column (j : Fin table.cols) (k : Fin axes) :
    (ofAxes table lambdas basis).coordinates.get? j k =
      some ((columnPlaces (margins table) lambdas basis).get j k) :=
  (DenseMatrix.get?_val (ofAxes table lambdas basis).coordinates (j.castAdd table.rows) k).trans
    (congrArg some (get_coordinates_castAdd lambdas basis j k))

/-- The places of the rows are found by counting from the end of the coordinates. -/
theorem get_coordinates_row (i : Fin table.rows) (k : Fin axes) :
    (ofAxes table lambdas basis).coordinates.get
        (Index.fromEnd (Nat.le_add_left table.rows table.cols) i) k =
      (rowPlaces table.grid table.rowSums lambdas
        (columnPlaces (margins table) lambdas basis).get).get i k := by
  have hend : Index.fromEnd (Nat.le_add_left table.rows table.cols) i = i.natAdd table.cols := by
    apply Fin.ext
    simp only [Index.fromEnd, Fin.val_natAdd]
    omega
  exact (congrArg (fun p => (ofAxes table lambdas basis).coordinates.get p k) hend).trans
    (get_coordinates_natAdd lambdas basis i k)

end Places

/-- In exact arithmetic the columns of an analysed table are projected onto their own points
on every axis that counts and whose vector is an eigenvector of the similarity. -/
theorem projectColumns_active {table vectors values : DenseMatrix ℝ}
    {analysis : Correspondence ℝ} (hpositive : table.PositiveMargins)
    (h : analyse table vectors values = .ok analysis) :
    ∃ places, projectColumns table analysis.coordinates values = .ok places ∧
      places.shape = ⟨table.cols, values.rows - 1⟩ ∧
      ∀ (k : Nat) (lambda : ℝ) (v : Fin table.cols → ℝ), 1 ≤ k →
        values.get? k 0 = some lambda → (∀ j : Fin table.cols, vectors.get? j k = some (v j)) →
          0 < lambda → similarity table *ᵥ v = lambda • v →
            ∀ j : Fin table.cols, ∃ place, places.get? j (k - 1) = some place ∧
              analysis.coordinates.get? j (k - 1) = some place := by
  obtain ⟨lambdas, basis, hvalues, hvectors, rfl⟩ := analyse_eq_ok h
  have hfits : table.rows ≤ table.cols + table.rows ∧ values.rows - 1 ≤ values.rows - 1 :=
    ⟨Nat.le_add_left _ _, Nat.le_refl _⟩
  refine ⟨_, projectColumns_of_fits _ _ hvalues hfits, rfl, ?_⟩
  intro k lambda v hk hlambda hv hpos heigen j
  obtain ⟨axis, rfl⟩ : ∃ axis : Fin (values.rows - 1), k = axis.val + 1 := by
    have hrow : k < values.rows := DenseMatrix.lt_rows_of_get? hlambda
    exact ⟨⟨k - 1, by omega⟩, by simp only; omega⟩
  obtain rfl : lambdas.get axis = lambda :=
    Option.some.inj ((get?_of_axisValues hvalues axis).symm.trans hlambda)
  obtain rfl : (fun j => basis.get j axis) = v :=
    funext fun j => Option.some.inj ((get?_of_axisVectors hvectors j axis).symm.trans (hv j))
  rw [Nat.add_sub_cancel]
  refine ⟨_, DenseMatrix.get?_ofFn _ j axis, (get?_coordinates_column lambdas basis j axis).trans ?_⟩
  rw [← barycentre_rowPlaces lambdas basis hpositive hpos (congrFun heigen) j]
  congr 3
  funext i
  exact (get_coordinates_row lambdas basis i axis).symm

/-- The two columns of a table, on the axis that tells them apart. -/
theorem projectColumns_active_twoByTwo :
    let vectors : DenseMatrix ℝ := .ofFn 2 2 fun j k => if j = 1 ∧ k = 1 then -1 else 1
    let values : DenseMatrix ℝ := .ofFn 2 1 fun k _ => if k = 0 then 1 else 1 / 9
    ∃ analysis places, analyse twoByTwo vectors values = .ok analysis ∧
      projectColumns twoByTwo analysis.coordinates values = .ok places ∧
      ∀ j : Fin 2, ∃ place, places.get? j 0 = some place ∧
        analysis.coordinates.get? j 0 = some place := by
  intro vectors values
  obtain ⟨analysis, hanalysis⟩ : ∃ analysis, analyse twoByTwo vectors values = .ok analysis :=
    ⟨_, rfl⟩
  obtain ⟨places, hplaces, -, hactive⟩ := projectColumns_active positiveMargins_twoByTwo hanalysis
  refine ⟨analysis, places, hanalysis, hplaces, ?_⟩
  refine hactive 1 (1 / 9) (fun j => if j = 1 then -1 else 1) (Nat.le_refl 1) ?_ ?_ (by norm_num) ?_
  · exact (DenseMatrix.get?_ofFn _ 1 0).trans (by norm_num)
  · intro j
    exact (DenseMatrix.get?_ofFn _ j 1).trans (by simp)
  · ext j
    rw [mulVec, dotProduct, Fin.sum_univ_two, similarity_twoByTwo, similarity_twoByTwo]
    fin_cases j <;> norm_num

end Correspondence

end MatrixScript
