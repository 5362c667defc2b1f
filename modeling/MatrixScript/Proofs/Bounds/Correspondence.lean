import MatrixScript.Correspondence
import MatrixScript.Proofs.Bounds.Algebra

/-!
# Correspondence analysis on plain indices

The analysis and the projections of supplementary points take axes, active points and
offsets from three matrices.  Written with plain indices they come to the same, so what
they check of the shapes of these matrices is enough for every access.
-/

namespace MatrixScript

namespace Indexed

variable {α : Type} {n m axes : Nat}

/-- What stands at a place of two ranges, one after the other. -/
def stacked (count : Nat) (first second : Nat → Checked α α) (p : Nat) : Checked α α :=
  if p < count then first p else second (p - count)

theorem stacked_eq {first second : Nat → Checked α α} {f : Fin m → α} {g : Fin n → α}
    (hfirst : ∀ j : Fin m, first j = .ok (f j)) (hsecond : ∀ i : Fin n, second i = .ok (g i))
    (p : Fin (m + n)) : stacked m first second p = .ok (Index.append f g p) := by
  unfold stacked Index.append
  by_cases hp : p.val < m
  · rw [if_pos hp, dif_pos hp]
    exact hfirst ⟨p, hp⟩
  · rw [if_neg hp, dif_neg hp]
    exact hsecond ⟨p - m, by omega⟩

variable [Scalar α]

/-! ## Axes -/

/-- The first column of `values` from its second row on. -/
def axisValues (values : DenseMatrix α) : Checked α (Vector α (values.rows - 1)) :=
  if values.rows < 2 then .error (.refused (.fewEigenvalues values.rows))
  else vectorOf (values.rows - 1) fun k => element values (k + 1) 0

/-- A well-formed matrix has a first column. -/
theorem axisValues_eq {values : DenseMatrix α} (h : values.WellFormed) :
    axisValues values = refusing (Correspondence.axisValues values) := by
  have hcols : 0 < values.cols := h.cols_pos
  unfold axisValues Correspondence.axisValues
  by_cases hrows : values.rows < 2
  · rw [if_pos hrows, dif_neg (by omega)]
    rfl
  · rw [if_neg hrows, dif_pos ⟨by omega, hcols⟩, refusing_ok]
    apply vectorOf_eq_ok
    intro k
    exact element_of_lt values (Index.next k).isLt hcols

def explainedInertia (values : DenseMatrix α) : Checked α (List (AxisInertia α)) := do
  let lambdas ← axisValues values
  let total ← addUp (-0) (values.rows - 1) (readAt lambdas)
  return Correspondence.shares total 1 0 lambdas.toList

theorem explainedInertia_eq {values : DenseMatrix α} (h : values.WellFormed) :
    explainedInertia values = refusing (Correspondence.explainedInertia values) := by
  rw [explainedInertia, axisValues_eq h, Correspondence.explainedInertia]
  cases Correspondence.axisValues values with
  | error e => rfl
  | ok lambdas =>
      rw [refusing_ok, ok_bind, addUp_eq_sum fun k => readAt_val lambdas k]
      rfl

/-! ## Places and distances -/

/-- The places on one axis, weighted by `count` masses. -/
def barycentre (weight total : α) (count : Nat) (mass place : Nat → Checked α α) : Checked α α :=
  addUp (-0) count fun j => do return weight * ((← mass j) / total) * (← place j)

theorem barycentre_eq (weight total : α) {count : Nat} {mass place : Nat → Checked α α}
    {massAt placeAt : Fin count → α} (hmass : ∀ j : Fin count, mass j = .ok (massAt j))
    (hplace : ∀ j : Fin count, place j = .ok (placeAt j)) :
    barycentre weight total count mass place =
      .ok (Correspondence.barycentre weight total massAt placeAt) := by
  rw [barycentre, Correspondence.barycentre]
  apply addUp_eq_sum
  intro j
  rw [hmass, ok_bind, hplace]
  rfl

def distance (total sum : α) (count : Nat) (mass margin : Nat → Checked α α) : Checked α α :=
  addUp (-0) count fun j => do
    let gap := (← mass j) / sum - (← margin j) / total
    return total / (← margin j) * gap * gap

theorem distance_eq (total sum : α) {count : Nat} {mass margin : Nat → Checked α α}
    {massAt marginAt : Fin count → α} (hmass : ∀ j : Fin count, mass j = .ok (massAt j))
    (hmargin : ∀ j : Fin count, margin j = .ok (marginAt j)) :
    distance total sum count mass margin =
      .ok (Correspondence.distance total sum massAt marginAt) := by
  rw [distance, Correspondence.distance]
  apply addUp_eq_sum
  intro j
  rw [hmass, hmargin]
  rfl

def margins (table : DenseMatrix α) : Checked α (Margins α table.rows table.cols) := do
  let rows ← rowSums table
  let columns ← columnSums table
  let total ← addUp (-0) table.rows (readAt rows)
  return ⟨rows, columns, total⟩

theorem margins_eq (table : DenseMatrix α) :
    margins table = .ok (Correspondence.margins table) := by
  rw [margins, rowSums_eq, ok_bind, columnSums_eq, ok_bind,
    addUp_eq_sum fun i => readAt_val table.rowSums i]
  rfl

def columnPlaces (w : Margins α n m) (lambdas : Vector α axes)
    (basis : Nat → Nat → Checked α α) : Checked α (Grid α m axes) :=
  gridOf m axes fun j k => do
    let lambda ← readAt lambdas k
    if lambda == 0 then return 0
    else return Scalar.sqrt lambda * Scalar.sqrt (w.total / (← readAt w.columns j)) * (← basis j k)

theorem columnPlaces_eq (w : Margins α n m) (lambdas : Vector α axes)
    {basis : Nat → Nat → Checked α α} {grid : Grid α m axes}
    (hbasis : ∀ (j : Fin m) (k : Fin axes), basis j k = .ok (grid.get j k)) :
    columnPlaces w lambdas basis = .ok (Correspondence.columnPlaces w lambdas grid) := by
  apply gridOf_eq_ok
  intro j k
  rw [readAt_val, ok_bind]
  split
  · rfl
  · rw [readAt_val, ok_bind, hbasis]
    rfl

def rowPlaces (rows : Nat → Nat → Checked α α) (sums : Vector α n) (lambdas : Vector α axes)
    (count : Nat) (columns : Nat → Nat → Checked α α) : Checked α (Grid α n axes) :=
  gridOf n axes fun i k => do
    barycentre (Correspondence.inverseRoot (← readAt lambdas k)) (← readAt sums i) count
      (fun j => rows i j) fun j => columns j k

theorem rowPlaces_eq {rows columns : Nat → Nat → Checked α α} {grid : Grid α n m}
    {places : Fin m → Fin axes → α} (sums : Vector α n) (lambdas : Vector α axes)
    (hrows : ∀ (i : Fin n) (j : Fin m), rows i j = .ok (grid.get i j))
    (hcolumns : ∀ (j : Fin m) (k : Fin axes), columns j k = .ok (places j k)) :
    rowPlaces rows sums lambdas m columns =
      .ok (Correspondence.rowPlaces grid sums lambdas places) := by
  apply gridOf_eq_ok
  intro i k
  rw [readAt_val, ok_bind, readAt_val, ok_bind]
  exact barycentre_eq _ _ (hrows i) fun j => hcolumns j k

def distances (table : DenseMatrix α) (w : Margins α table.rows table.cols) :
    Checked α (Vector α (table.cols + table.rows)) :=
  vectorOf (table.cols + table.rows) (stacked table.cols
    (fun j => do
      distance w.total (← readAt w.columns j) table.rows (fun i => element table i j)
        (readAt w.rows))
    (fun i => do
      distance w.total (← readAt w.rows i) table.cols (fun j => element table i j)
        (readAt w.columns)))

theorem distances_eq (table : DenseMatrix α) (w : Margins α table.rows table.cols) :
    distances table w = .ok (Correspondence.distances table.grid w) := by
  apply vectorOf_eq_ok
  apply stacked_eq
  · intro j
    rw [readAt_val, ok_bind]
    exact distance_eq _ _ (fun i => element_val table i j) fun i => readAt_val w.rows i
  · intro i
    rw [readAt_val, ok_bind]
    exact distance_eq _ _ (fun j => element_val table i j) fun j => readAt_val w.columns j

def masses (w : Margins α n m) : Checked α (Vector α (m + n)) :=
  vectorOf (m + n) fun p => do
    return (← stacked m (readAt w.columns) (readAt w.rows) p) / w.total

theorem masses_eq (w : Margins α n m) : masses w = .ok (Correspondence.masses w) := by
  apply vectorOf_eq_ok
  intro p
  rw [stacked_eq (readAt_val w.columns) (readAt_val w.rows)]
  rfl

/-! ## Analysis -/

/-- The shares of the points in the inertia of the axes. -/
def absolute (lambdas : Vector α axes) (masses : Vector α n) (coordinates : Grid α n axes) :
    Checked α (DenseMatrix α) :=
  matrixOf n axes fun p k => do
    let lambda ← readAt lambdas k
    if lambda == 0 then return 0
    else return (← readAt masses p) * (← coordinates.read p k) * (← coordinates.read p k) / lambda

theorem absolute_eq (lambdas : Vector α axes) (masses : Vector α n)
    (coordinates : Grid α n axes) :
    absolute lambdas masses coordinates = .ok (.ofFn n axes fun p k =>
      if lambdas.get k == 0 then 0
      else masses.get p * coordinates.get p k * coordinates.get p k / lambdas.get k) := by
  apply matrixOf_eq_ok
  intro p k
  rw [readAt_val, ok_bind]
  split
  · rfl
  · simp

/-- The squared cosines between the points and the axes. -/
def relative (distances : Vector α n) (coordinates : Grid α n axes) :
    Checked α (DenseMatrix α) :=
  matrixOf n axes fun p k => do
    return (← coordinates.read p k) * (← coordinates.read p k) / (← readAt distances p)

theorem relative_eq (distances : Vector α n) (coordinates : Grid α n axes) :
    relative distances coordinates = .ok (.ofFn n axes fun p k =>
      coordinates.get p k * coordinates.get p k / distances.get p) := by
  apply matrixOf_eq_ok
  intro p k
  simp

/-- Correspondence analysis on axes whose eigenvectors are read by `basis`. -/
def ofAxes (table : DenseMatrix α) (lambdas : Vector α axes) (basis : Nat → Nat → Checked α α) :
    Checked α (Correspondence α) := do
  let w ← margins table
  let columns ← columnPlaces w lambdas basis
  let rows ← rowPlaces (element table) w.rows lambdas table.cols columns.read
  let coordinates ← gridOf (table.cols + table.rows) axes fun p k =>
    stacked table.cols (fun j => columns.read j k) (fun i => rows.read i k) p
  let masses ← masses w
  let distances ← distances table w
  let absolute ← absolute lambdas masses coordinates
  let relative ← relative distances coordinates
  return ⟨⟨_, _, coordinates⟩, absolute, relative⟩

theorem ofAxes_eq (table : DenseMatrix α) (lambdas : Vector α axes)
    {basis : Nat → Nat → Checked α α} {grid : Grid α table.cols axes}
    (hbasis : ∀ (j : Fin table.cols) (k : Fin axes), basis j k = .ok (grid.get j k)) :
    ofAxes table lambdas basis = .ok (Correspondence.ofAxes table lambdas grid) := by
  rw [ofAxes, margins_eq, ok_bind, columnPlaces_eq _ _ hbasis, ok_bind,
    rowPlaces_eq _ _ (element_val table) (Grid.read_val _), ok_bind,
    gridOf_eq_ok fun p k => stacked_eq (fun j => Grid.read_val _ j k)
      (fun i => Grid.read_val _ i k) p, ok_bind,
    masses_eq, ok_bind, distances_eq, ok_bind, absolute_eq, ok_bind, relative_eq]
  rfl

def analyse (table vectors values : DenseMatrix α) : Checked α (Correspondence α) := do
  let lambdas ← axisValues values
  if vectors.rows = table.cols ∧ values.rows - 1 < vectors.cols then
    ofAxes table lambdas fun j k => element vectors j (k + 1)
  else throw (.refused (.eigenvectorShape vectors.shape table.cols (values.rows - 1)))

theorem analyse_eq (table vectors : DenseMatrix α) {values : DenseMatrix α}
    (h : values.WellFormed) :
    analyse table vectors values = refusing (Correspondence.analyse table vectors values) := by
  rw [analyse, axisValues_eq h, Correspondence.analyse]
  cases Correspondence.axisValues values with
  | error e => rfl
  | ok lambdas =>
      rw [refusing_ok, ok_bind]
      unfold Correspondence.axisVectors
      by_cases hfits : vectors.rows = table.cols ∧ values.rows - 1 < vectors.cols
      · rw [if_pos hfits, dif_pos hfits]
        apply ofAxes_eq
        intro j k
        rw [Grid.get_ofFn]
        exact element_of_lt vectors (j.cast hfits.1.symm).isLt (Index.shifted hfits.2 k).isLt
      · rw [if_neg hfits, dif_neg hfits]
        rfl

/-! ## Supplementary points -/

def projectRows (points coordinates values : DenseMatrix α) : Checked α (DenseMatrix α) := do
  let lambdas ← axisValues values
  if points.cols ≤ coordinates.rows ∧ values.rows - 1 ≤ coordinates.cols then
    let sums ← rowSums points
    return ⟨_, _, ← rowPlaces (element points) sums lambdas points.cols (element coordinates)⟩
  else
    throw (.refused (.coordinateShape .rows coordinates.shape points.cols (values.rows - 1)))

theorem projectRows_eq (points coordinates : DenseMatrix α) {values : DenseMatrix α}
    (h : values.WellFormed) : projectRows points coordinates values =
      refusing (Correspondence.projectRows points coordinates values) := by
  rw [projectRows, axisValues_eq h, Correspondence.projectRows]
  cases Correspondence.axisValues values with
  | error e => rfl
  | ok lambdas =>
      rw [refusing_ok, ok_bind, ok_bind]
      by_cases hfits : points.cols ≤ coordinates.rows ∧ values.rows - 1 ≤ coordinates.cols
      · rw [if_pos hfits, dif_pos hfits, rowSums_eq, ok_bind,
          rowPlaces_eq _ _ (element_val points) fun j k =>
            element_of_lt coordinates (j.castLE hfits.1).isLt (k.castLE hfits.2).isLt]
        rfl
      · rw [if_neg hfits, dif_neg hfits]
        rfl

/-- The row points are the last rows of the coordinates, so their rows are counted from
the first one of them. -/
def projectColumns (points coordinates values : DenseMatrix α) : Checked α (DenseMatrix α) := do
  let lambdas ← axisValues values
  if points.rows ≤ coordinates.rows ∧ values.rows - 1 ≤ coordinates.cols then
    let offset := coordinates.rows - points.rows
    let sums ← columnSums points
    matrixOf points.cols (values.rows - 1) fun j k => do
      barycentre (Correspondence.inverseRoot (← readAt lambdas k)) (← readAt sums j) points.rows
        (fun i => element points i j) fun i => element coordinates (offset + i) k
  else
    throw (.refused (.coordinateShape .columns coordinates.shape points.rows (values.rows - 1)))

theorem projectColumns_eq (points coordinates : DenseMatrix α) {values : DenseMatrix α}
    (h : values.WellFormed) : projectColumns points coordinates values =
      refusing (Correspondence.projectColumns points coordinates values) := by
  rw [projectColumns, axisValues_eq h, Correspondence.projectColumns]
  cases Correspondence.axisValues values with
  | error e => rfl
  | ok lambdas =>
      rw [refusing_ok, ok_bind, ok_bind]
      by_cases hfits : points.rows ≤ coordinates.rows ∧ values.rows - 1 ≤ coordinates.cols
      · rw [if_pos hfits, dif_pos hfits, columnSums_eq, ok_bind]
        apply matrixOf_eq_ok
        intro j k
        rw [readAt_val, ok_bind, readAt_val, ok_bind]
        exact barycentre_eq _ _ (fun i => element_val points i j) fun i =>
          element_of_lt coordinates (Index.fromEnd hfits.1 i).isLt (k.castLE hfits.2).isLt
      · rw [if_neg hfits, dif_neg hfits]
        rfl

end Indexed

end MatrixScript
