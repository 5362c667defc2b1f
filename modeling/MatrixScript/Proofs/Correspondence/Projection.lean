import MatrixScript.Correspondence
import MatrixScript.Proofs.Matrix.Rows
import MatrixScript.Scalar.Float

/-!
# Places of rows

The place of a row on the axes is a formula in the elements of that row, the
eigenvalues and the places of the columns.  An analysis and a later projection use the
same formula, and the projection reads the places of the columns back from the first
rows of the coordinates.  So a row has one place, in whatever table it stands, and a row
of the analysed table is projected onto its own point.  No law of the arithmetic is used.
-/

namespace MatrixScript

variable {α : Type}

namespace Correspondence

variable [Scalar α] {n m axes : Nat}

/-- The place of a row with the given elements, axis by axis. -/
def rowPlace (lambdas : Vector α axes) (columns : Fin m → Fin axes → α) (row : Fin m → α)
    (k : Fin axes) : α :=
  barycentre (inverseRoot (lambdas.get k)) (Scalar.sum row) row fun j => columns j k

/-- Every row is placed for itself. -/
theorem row_rowPlaces (points : DenseMatrix α) (lambdas : Vector α axes)
    (columns : Fin points.cols → Fin axes → α) (i : Fin points.rows) :
    (rowPlaces points.grid points.rowSums lambdas columns).row i =
      List.ofFn (rowPlace lambdas columns (points.get i)) := by
  apply congrArg List.ofFn
  funext k
  simp only [rowPlaces, Grid.get_ofFn, DenseMatrix.rowSums, get_ofFn]
  rfl

/-! ## Analyses and projections that succeed -/

theorem analyse_eq_ok {table vectors values : DenseMatrix α} {analysis : Correspondence α}
    (h : analyse table vectors values = .ok analysis) :
    ∃ lambdas basis, axisValues values = .ok lambdas ∧
      axisVectors vectors table.cols (values.rows - 1) = .ok basis ∧
        analysis = ofAxes table lambdas basis := by
  unfold analyse at h
  cases hvalues : axisValues values with
  | error e => rw [hvalues] at h; cases h
  | ok lambdas =>
      cases hvectors : axisVectors vectors table.cols (values.rows - 1) with
      | error e => rw [hvalues, hvectors] at h; cases h
      | ok basis =>
          rw [hvalues, hvectors] at h
          cases h
          exact ⟨lambdas, basis, rfl, rfl, rfl⟩

theorem projectRows_of_fits (points coordinates : DenseMatrix α) {values : DenseMatrix α}
    {lambdas : Vector α (values.rows - 1)} (hvalues : axisValues values = .ok lambdas)
    (hfits : points.cols ≤ coordinates.rows ∧ values.rows - 1 ≤ coordinates.cols) :
    projectRows points coordinates values =
      .ok ⟨points.rows, values.rows - 1,
        rowPlaces points.grid points.rowSums lambdas fun j k =>
          coordinates.get (j.castLE hfits.1) (k.castLE hfits.2)⟩ := by
  unfold projectRows
  rw [hvalues]
  change (if _ : _ ∧ _ then _ else _) = _
  rw [dif_pos hfits]
  rfl

theorem fits_of_projectRows {points coordinates values places : DenseMatrix α}
    (h : projectRows points coordinates values = .ok places) :
    ∃ lambdas, axisValues values = .ok lambdas ∧
      (points.cols ≤ coordinates.rows ∧ values.rows - 1 ≤ coordinates.cols) := by
  unfold projectRows at h
  cases hvalues : axisValues values with
  | error e => rw [hvalues] at h; cases h
  | ok lambdas =>
      refine ⟨lambdas, rfl, ?_⟩
      rw [hvalues] at h
      change (if _ : _ ∧ _ then _ else _) = _ at h
      split at h
      · assumption
      · cases h

/-! ## One row, one place -/

/-- A row that stands in two tables has the same place in both, on whatever axes. -/
theorem exists_place_of_row_eq {points points' coordinates values places : DenseMatrix α}
    {i i' : Nat} {row : List α} (h : projectRows points coordinates values = .ok places)
    (hrow : points.toRows[i]? = some row) (hrow' : points'.toRows[i']? = some row) :
    ∃ places' place, projectRows points' coordinates values = .ok places' ∧
      places.toRows[i]? = some place ∧ places'.toRows[i']? = some place := by
  obtain ⟨lambdas, hvalues, hfits⟩ := fits_of_projectRows h
  obtain ⟨rows, cols, grid⟩ := points
  obtain ⟨rows', cols', grid'⟩ := points'
  obtain ⟨hi, rfl⟩ := Grid.getElem?_toRows_eq_some_iff.mp hrow
  obtain ⟨hi', heq⟩ := Grid.getElem?_toRows_eq_some_iff.mp hrow'
  obtain rfl : cols' = cols := by
    have hlength := congrArg List.length heq
    simpa [Grid.row] using hlength
  rw [projectRows_of_fits _ _ hvalues hfits] at h
  cases h
  have hprojected' := projectRows_of_fits ⟨rows', cols', grid'⟩ coordinates hvalues hfits
  refine ⟨_, _, hprojected', Grid.getElem?_toRows_of_lt _ hi, ?_⟩
  refine (Grid.getElem?_toRows_of_lt _ hi').trans (congrArg some ?_)
  rw [row_rowPlaces, row_rowPlaces]
  have hsame : grid'.get ⟨i', hi'⟩ = grid.get ⟨i, hi⟩ := Grid.get_eq_of_row_eq heq
  exact congrArg (fun row => List.ofFn (rowPlace lambdas _ row)) hsame

/-- The first coordinates are the places of the columns, and the others those of the rows. -/
theorem get_coordinates_ofAxes (table : DenseMatrix α) (lambdas : Vector α axes)
    (basis : Grid α table.cols axes) (p : Fin (table.cols + table.rows)) (k : Fin axes) :
    (ofAxes table lambdas basis).coordinates.get p k =
      Index.append (fun j => (columnPlaces (margins table) lambdas basis).get j k)
        (fun i => (rowPlaces table.grid table.rowSums lambdas
          (columnPlaces (margins table) lambdas basis).get).get i k) p :=
  Grid.get_ofFn _ p k

/-- The table that was analysed is projected onto the coordinates of its rows. -/
theorem projectRows_table {table vectors values : DenseMatrix α} {analysis : Correspondence α}
    (h : analyse table vectors values = .ok analysis) :
    ∃ places, projectRows table analysis.coordinates values = .ok places ∧
      ∀ r < table.rows, ∃ place, places.toRows[r]? = some place ∧
        analysis.coordinates.toRows[table.cols + r]? = some place := by
  obtain ⟨lambdas, basis, hvalues, -, rfl⟩ := analyse_eq_ok h
  have hfits : table.cols ≤ table.cols + table.rows ∧ values.rows - 1 ≤ values.rows - 1 :=
    ⟨Nat.le_add_right _ _, Nat.le_refl _⟩
  refine ⟨_, projectRows_of_fits _ _ hvalues hfits, fun r hr => ?_⟩
  refine ⟨_, Grid.getElem?_toRows_of_lt _ hr, ?_⟩
  have hpoint : table.cols + r < table.cols + table.rows := by omega
  refine (Grid.getElem?_toRows_of_lt _ hpoint).trans (congrArg some (congrArg List.ofFn ?_))
  funext k
  refine (get_coordinates_ofAxes table lambdas basis (Fin.natAdd table.cols ⟨r, hr⟩) k).trans ?_
  rw [Index.append_natAdd]
  -- The projection finds the places of the columns where the analysis has put them.
  have hcolumns : (columnPlaces (margins table) lambdas basis).get = fun j k =>
      (ofAxes table lambdas basis).coordinates.get (j.castLE hfits.1) (k.castLE hfits.2) := by
    funext j k
    refine Eq.trans ?_ (get_coordinates_ofAxes table lambdas basis (j.castAdd table.rows) k).symm
    rw [Index.append_castAdd]
  rw [hcolumns]

/-- Rows of an analysed table are projected exactly onto their own points, whatever
matrix they stand in, and the place of a row depends on nothing but that row. -/
theorem projectRows_active (table vectors values : DenseMatrix α) :
    (∀ analysis points, analyse table vectors values = .ok analysis →
      points.cols = table.cols →
        ∃ places, projectRows points analysis.coordinates values = .ok places ∧
          places.shape = ⟨points.rows, values.rows - 1⟩ ∧
          ∀ (i r : Nat) (row : List α), points.toRows[i]? = some row → table.toRows[r]? = some row →
            ∃ place, places.toRows[i]? = some place ∧
              analysis.coordinates.toRows[table.cols + r]? = some place) ∧
    ∀ points points' coordinates places (i i' : Nat) (row : List α),
      projectRows points coordinates values = .ok places →
        points.toRows[i]? = some row → points'.toRows[i']? = some row →
          ∃ places' place, projectRows points' coordinates values = .ok places' ∧
            places.toRows[i]? = some place ∧ places'.toRows[i']? = some place := by
  refine ⟨fun analysis points h hcols => ?_, fun _ _ _ _ _ _ _ => exists_place_of_row_eq⟩
  obtain ⟨own, hown, hplaces⟩ := projectRows_table h
  obtain ⟨lambdas, hvalues, hfits⟩ := fits_of_projectRows hown
  have hprojected := projectRows_of_fits points analysis.coordinates hvalues (by rwa [hcols])
  refine ⟨_, hprojected, rfl, fun i r row hrow hactive => ?_⟩
  obtain ⟨hr, -⟩ := Grid.getElem?_toRows_eq_some_iff.mp hactive
  obtain ⟨place, hplace, hcoordinates⟩ := hplaces r hr
  obtain ⟨_, place', hagain, hplace', hsame⟩ := exists_place_of_row_eq hown hactive hrow
  rw [hprojected] at hagain
  cases hagain
  rw [hplace] at hplace'
  cases hplace'
  exact ⟨place, hsame, hcoordinates⟩

/-- The second row of a table of two rows, projected alone and with the other one. -/
theorem projectRows_active_second :
    let table : DenseMatrix Float := .ofFn 2 2 fun i j => .ofNat (1 + 2 * i.val + j.val)
    let values : DenseMatrix Float := .ofFn 2 1 fun i _ => .ofNat (4 - i.val)
    let second : DenseMatrix Float := .ofFn 1 2 fun _ j => .ofNat (3 + j.val)
    ∃ analysis alone both place, analyse table (.identity 2 2) values = .ok analysis ∧
      projectRows second analysis.coordinates values = .ok alone ∧
      projectRows table analysis.coordinates values = .ok both ∧
      alone.toRows[0]? = some place ∧ both.toRows[1]? = some place ∧
      analysis.coordinates.toRows[3]? = some place := by
  intro table values second
  obtain ⟨analysis, hanalysis⟩ : ∃ analysis, analyse table (.identity 2 2) values = .ok analysis :=
    ⟨_, rfl⟩
  have hrow : second.toRows[0]? = some [.ofNat 3, .ofNat 4] := rfl
  have hactive : table.toRows[1]? = some [.ofNat 3, .ofNat 4] := rfl
  have hall := projectRows_active table (.identity 2 2) values
  obtain ⟨alone, halone, -, hown⟩ := hall.1 analysis second hanalysis rfl
  obtain ⟨place, hplace, hcoordinates⟩ := hown 0 1 _ hrow hactive
  obtain ⟨both, place', hboth, hplace', hsame⟩ := hall.2 _ table _ _ 0 1 _ halone hrow hactive
  rw [hplace] at hplace'
  cases hplace'
  exact ⟨analysis, alone, both, place, hanalysis, halone, hboth, hplace, hsame, hcoordinates⟩

end Correspondence

end MatrixScript
