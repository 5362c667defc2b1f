import MatrixScript.DenseMatrix.Error
import MatrixScript.Index

/-!
# Correspondence analysis

The rows and the columns of a contingency table as points in a common space, whose axes come from the
eigenvectors of the chi-square similarity of the columns. Axis zero is the trivial one and is left
out. A table of points has one row for each point, the columns of the contingency table first and
then its rows, and one column for each axis.
-/

namespace MatrixScript

/-- The share of one axis in the total inertia, alone and with the axes before it. Axes are numbered
from one. -/
structure AxisInertia (α : Type) where
  axis : Nat
  proportion : α
  cumulative : α

/-- The coordinates of the points, the share of each point in the inertia of each axis, and the squared
cosine between each point and each axis. -/
structure Correspondence (α : Type) where
  coordinates : DenseMatrix α
  absolute : DenseMatrix α
  relative : DenseMatrix α

/-- The sums of the rows and of the columns of a contingency table, and the sum of it all. -/
structure Margins (α : Type) (n m : Nat) where
  rows : Vector α n
  columns : Vector α m
  total : α

namespace Correspondence

variable {α : Type} [Scalar α] {n m axes : Nat}

/-- The eigenvalues of the axes but the trivial one, which are the first column of `values` from its
second row on. -/
def axisValues (values : DenseMatrix α) : Except (MatrixError α) (Vector α (values.rows - 1)) :=
  if h : 2 ≤ values.rows ∧ 0 < values.cols then
    .ok (Vector.ofFn fun k => values.get (Index.next k) ⟨0, h.2⟩)
  else
    .error (.fewEigenvalues values.rows)

/-- The eigenvectors of the axes but the trivial one, which are the columns from the second one on. -/
def axisVectors (vectors : DenseMatrix α) (points axes : Nat) :
    Except (MatrixError α) (Grid α points axes) :=
  if h : vectors.rows = points ∧ axes < vectors.cols then
    .ok (Grid.ofFn fun j k => vectors.get (j.cast h.1.symm) (Index.shifted h.2 k))
  else
    .error (.eigenvectorShape vectors.shape points axes)

/-- The shares of the axes, `before` being the sum of the eigenvalues that came earlier. -/
def shares (total : α) : (axis : Nat) → (before : α) → List α → List (AxisInertia α)
  | _, _, [] => []
  | axis, before, lambda :: rest =>
    let sum := before + lambda
    ⟨axis, lambda / total, sum / total⟩ :: shares total (axis + 1) sum rest

def explainedInertia (values : DenseMatrix α) : Except (MatrixError α) (List (AxisInertia α)) :=
  (axisValues values).map fun lambdas => shares (Scalar.sum lambdas.get) 1 0 lambdas.toList

def margins (table : DenseMatrix α) : Margins α table.rows table.cols :=
  let rows := table.rowSums
  { rows := rows
    columns := table.columnSums
    total := Scalar.sum rows.get }

/-- The inverse square root of an eigenvalue, and zero for a null axis. -/
def inverseRoot (lambda : α) : α :=
  if lambda == 0 then 0 else 1 / Scalar.sqrt lambda

/-- The weighted barycentre of points on one axis, with masses `mass` out of `total`. -/
@[specialize]
def barycentre (weight total : α) (mass place : Fin n → α) : α :=
  Scalar.sum fun j => weight * (mass j / total) * place j

/-- The squared chi-square distance to the centroid of a profile with masses `mass` out of `sum`. -/
@[specialize]
def distance (total sum : α) (mass margin : Fin n → α) : α :=
  Scalar.sum fun j =>
    let gap := mass j / sum - margin j / total
    total / margin j * gap * gap

def columnPlaces (w : Margins α n m) (lambdas : Vector α axes) (basis : Grid α m axes) :
    Grid α m axes :=
  Grid.ofFn fun j k =>
    if lambdas.get k == 0 then 0
    else Scalar.sqrt (lambdas.get k) * Scalar.sqrt (w.total / w.columns.get j) * basis.get j k

/-- The places of rows, each of them the barycentre of the columns up to the scale of the axis. -/
def rowPlaces (rows : Grid α n m) (sums : Vector α n) (lambdas : Vector α axes)
    (columns : Fin m → Fin axes → α) : Grid α n axes :=
  Grid.ofFn fun i k =>
    barycentre (inverseRoot (lambdas.get k)) (sums.get i) (fun j => rows.get i j)
      (fun j => columns j k)

def masses (w : Margins α n m) : Vector α (m + n) :=
  Vector.ofFn fun p => Index.append w.columns.get w.rows.get p / w.total

/-- The squared chi-square distances of the points to the centroid. -/
def distances (table : Grid α n m) (w : Margins α n m) : Vector α (m + n) :=
  Vector.ofFn
    (Index.append
      (fun j => distance w.total (w.columns.get j) (fun i => table.get i j) w.rows.get)
      (fun i => distance w.total (w.rows.get i) (fun j => table.get i j) w.columns.get))

/-- Correspondence analysis on given axes. -/
def ofAxes (table : DenseMatrix α) (lambdas : Vector α axes) (basis : Grid α table.cols axes) :
    Correspondence α :=
  let w := margins table
  let columns := columnPlaces w lambdas basis
  let rows := rowPlaces table.grid w.rows lambdas columns.get
  let coordinates : Grid α (table.cols + table.rows) axes :=
    Grid.ofFn fun p k => Index.append (fun j => columns.get j k) (fun i => rows.get i k) p
  let masses := masses w
  let distances := distances table.grid w
  { coordinates := ⟨table.cols + table.rows, axes, coordinates⟩
    absolute := DenseMatrix.ofFn (table.cols + table.rows) axes fun p k =>
      if lambdas.get k == 0 then 0
      else masses.get p * coordinates.get p k * coordinates.get p k / lambdas.get k
    relative := DenseMatrix.ofFn (table.cols + table.rows) axes fun p k =>
      coordinates.get p k * coordinates.get p k / distances.get p }

/-- Correspondence analysis of a table, given the eigenvectors of its chi-square similarity as columns
and the eigenvalues in the first column of `values`. -/
def analyse (table vectors values : DenseMatrix α) : Except (MatrixError α) (Correspondence α) := do
  let lambdas ← axisValues values
  let basis ← axisVectors vectors table.cols (values.rows - 1)
  return ofAxes table lambdas basis

/-- The places of supplementary rows on the axes of an analysis. The column points are the first rows
of its coordinates. -/
def projectRows (points coordinates values : DenseMatrix α) :
    Except (MatrixError α) (DenseMatrix α) := do
  let lambdas ← axisValues values
  if h : points.cols ≤ coordinates.rows ∧ values.rows - 1 ≤ coordinates.cols then
    return ⟨points.rows, values.rows - 1,
      rowPlaces points.grid points.rowSums lambdas fun j k =>
        coordinates.get (j.castLE h.1) (k.castLE h.2)⟩
  else
    throw (.coordinateShape .rows coordinates.shape points.cols (values.rows - 1))

/-- The places of supplementary columns on the axes of an analysis. The row points are the last rows of
its coordinates. -/
def projectColumns (points coordinates values : DenseMatrix α) :
    Except (MatrixError α) (DenseMatrix α) := do
  let lambdas ← axisValues values
  if h : points.rows ≤ coordinates.rows ∧ values.rows - 1 ≤ coordinates.cols then
    let sums := points.columnSums
    return DenseMatrix.ofFn points.cols (values.rows - 1) fun j k =>
      barycentre (inverseRoot (lambdas.get k)) (sums.get j) (fun i => points.get i j)
        (fun i => coordinates.get (Index.fromEnd h.1 i) (k.castLE h.2))
  else
    throw (.coordinateShape .columns coordinates.shape points.rows (values.rows - 1))

def project : PointKind → (points coordinates values : DenseMatrix α) →
    Except (MatrixError α) (DenseMatrix α)
  | .rows => projectRows
  | .columns => projectColumns

end Correspondence

end MatrixScript
