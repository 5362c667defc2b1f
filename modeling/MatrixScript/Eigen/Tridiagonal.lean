import MatrixScript.Grid
import MatrixScript.Index
import MatrixScript.Scalar.Basic

/-!
# Reduction to tridiagonal form

A symmetric matrix is brought to tridiagonal form by Householder reflections, one for each row from
the last to the second, and the product of the reflections is then multiplied out.

While the reduction runs, the leading block of the grid below its diagonal is what is left of the
matrix, the columns after it hold the vectors of the reflections made so far, and the vector
`diagonal` holds the row that is reflected next, followed by the half squared lengths of the vectors
of the reflections. At the end it holds the diagonal of the tridiagonal matrix. Only the lower
triangle of the matrix is read.
-/

namespace MatrixScript

/-- A symmetric tridiagonal matrix with an orthogonal basis: `diagonal`, `subdiagonal` from index one
on, and the columns of `basis`. -/
structure Tridiagonal (α : Type) (n : Nat) where
  basis : Grid α n n
  diagonal : Vector α n
  subdiagonal : Vector α n

namespace Tridiagonal

variable {α : Type} [Scalar α] {n : Nat}

/-- Element `(j, k)` of the symmetric matrix with the lower triangle of `a`. -/
def symmetric (a : Grid α n n) (j k : Fin n) : α :=
  if k ≤ j then a.get j k else a.get k j

/-- The start of the reduction: the last row is reflected first. -/
def start (a : Grid α n n) : Tridiagonal α n where
  basis := a
  diagonal := Vector.ofFn fun j => a.get (Index.last j) j
  subdiagonal := Vector.ofFn fun _ => 0

/-- Passes over row `i + 1`, which is zero before its diagonal already. -/
def passRow (t : Tridiagonal α n) (i : Fin (n - 1)) : Tridiagonal α n :=
  let row := Index.next i
  { basis := Grid.ofFn fun k j =>
      if (k = row ∧ j < row) ∨ (j = row ∧ k < row) then 0 else t.basis.get k j
    diagonal := Vector.ofFn fun j =>
      if j < row then t.basis.get (Index.here i) j else if j = row then 0 else t.diagonal.get j
    subdiagonal := setAt t.subdiagonal row (t.diagonal.get (Index.here i)) }

/-- The reflection that clears a row: its vector, which is zero from the diagonal of that row on, half
the squared length of that vector, and the element that is left before the diagonal. -/
structure Reflection (α : Type) (n : Nat) where
  direction : Vector α n
  half : α
  image : α

/-- The reflection that takes the first `i + 1` elements of a row onto a multiple of the last of them.
They are divided by `scale`, the sum of their magnitudes, before they are squared. -/
def reflection (row : Vector α n) (i : Fin (n - 1)) (scale : α) : Reflection α n :=
  let scaled : Vector α n :=
    Vector.ofFn fun k => if k < Index.next i then row.get k / scale else 0
  let square := Scalar.accumulate 0 fun k => scaled.get (Index.upTo i k) * scaled.get (Index.upTo i k)
  let last := scaled.get (Index.here i)
  let length := if 0 < last then -Scalar.sqrt square else Scalar.sqrt square
  { direction := setAt scaled (Index.here i) (last - length)
    half := square - last * length
    image := scale * length }

/-- The vector `q` with which the reflected block is `A - u qᵀ - q uᵀ`. -/
def correction (a : Grid α n n) (i : Fin (n - 1)) (r : Reflection α n) : Vector α n :=
  let u := r.direction
  let p : Vector α n := Vector.ofFn fun j =>
    if j < Index.next i then
      Scalar.accumulate 0 (fun k => symmetric a j (Index.upTo i k) * u.get (Index.upTo i k)) / r.half
    else 0
  let inner := Scalar.accumulate 0 fun k => p.get (Index.upTo i k) * u.get (Index.upTo i k)
  let shift := inner / (r.half + r.half)
  Vector.ofFn fun j => p.get j - shift * u.get j

/-- Clears row `i + 1` before its last element by a reflection of the leading block. -/
def reflectRow (t : Tridiagonal α n) (i : Fin (n - 1)) (scale : α) : Tridiagonal α n :=
  let row := Index.next i
  let r := reflection t.diagonal i scale
  let u := r.direction
  let q := correction t.basis i r
  let basis : Grid α n n := Grid.ofFn fun k j =>
    if j ≤ k ∧ k < row then t.basis.get k j - (u.get j * q.get k + q.get j * u.get k)
    else if k = row ∧ j < row then 0
    else if j = row ∧ k < row then u.get k
    else t.basis.get k j
  { basis := basis
    diagonal := Vector.ofFn fun j =>
      if j < row then basis.get (Index.here i) j else if j = row then r.half else t.diagonal.get j
    subdiagonal := setAt t.subdiagonal row r.image }

/-- The step of the reduction that clears row `i + 1`. -/
def reduceRow (t : Tridiagonal α n) (i : Fin (n - 1)) : Tridiagonal α n :=
  let scale := Scalar.sum fun k => Scalar.abs (t.diagonal.get (Index.upTo i k))
  if scale == 0 then passRow t i else reflectRow t i scale

/-- The reduction, from the last row to the second. -/
def reduceRows (t : Tridiagonal α n) : Tridiagonal α n :=
  (List.finRange (n - 1)).foldr (fun i t => reduceRow t i) t

/-- Multiplies the reflection kept in column `i + 1` into the leading block of the basis. The diagonal
element `(i, i)` of the tridiagonal matrix moves to the last row, out of the way of the basis. -/
def multiplyColumn (t : Tridiagonal α n) (i : Fin (n - 1)) : Tridiagonal α n :=
  let here := Index.here i
  let next := Index.next i
  let half := t.diagonal.get next
  let block : Grid α n n := Grid.ofFn fun k j =>
    if k = here ∧ j = here then 1 else t.basis.get k j
  let inner : Vector α n := Vector.ofFn fun j =>
    Scalar.sum fun k => t.basis.get (Index.upTo i k) next * block.get (Index.upTo i k) j
  let basis : Grid α n n := Grid.ofFn fun k j =>
    if k ≤ here ∧ j ≤ here then
      if half == 0 then block.get k j
      else block.get k j - inner.get j * (t.basis.get k next / half)
    else if k ≤ here ∧ j = next then 0
    else if k = Index.last k ∧ j = here then t.basis.get here here
    else t.basis.get k j
  { t with basis := basis }

/-- The product of the reflections, in the rows and columns before the last. -/
def multiplyColumns (t : Tridiagonal α n) : Tridiagonal α n :=
  (List.finRange (n - 1)).foldl multiplyColumn t

/-- Takes the diagonal out of the last row and completes the basis there. -/
def finish (t : Tridiagonal α n) : Tridiagonal α n where
  basis := Grid.ofFn fun k j =>
    if k = Index.last k then (if j = k then 1 else 0) else t.basis.get k j
  diagonal := Vector.ofFn fun j => t.basis.get (Index.last j) j
  subdiagonal := Vector.ofFn fun j => if j.val = 0 then 0 else t.subdiagonal.get j

/-- The tridiagonal form of the symmetric matrix with the lower triangle of `a`. -/
def ofSymmetric (a : Grid α n n) : Tridiagonal α n :=
  (start a).reduceRows.multiplyColumns.finish

end Tridiagonal

end MatrixScript
