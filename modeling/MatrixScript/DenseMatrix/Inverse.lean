import MatrixScript.DenseMatrix.Error
import MatrixScript.Index

/-!
# The inverse of a symmetric matrix

A positive definite matrix is inverted through its Cholesky factor: `A = L Lᵀ`, the lower triangle
`L` is inverted by forward substitution, and `A⁻¹ = L⁻ᵀ L⁻¹`. Only the diagonal and what lies below
it are read.
-/

namespace MatrixScript

namespace Cholesky

variable {α : Type} [Scalar α] {n : Nat}

/-- What is left of the diagonal element `j` once the columns before it are taken off. -/
def pivot (a : Grid α n n) (j : Fin n) : α :=
  a.get j j - Scalar.sum fun k => a.get j (Index.before j k) * a.get j (Index.before j k)

/-- Element `(i, j)` of the factor below the diagonal, `diagonal` being the element `(j, j)`. -/
def entry (a : Grid α n n) (diagonal : α) (i j : Fin n) : α :=
  (a.get i j - Scalar.sum fun k => a.get i (Index.before j k) * a.get j (Index.before j k)) / diagonal

/-- Replaces column `j` by that of the factor, from the diagonal down. The columns before it already
are those of the factor. -/
def factorColumn (a : Grid α n n) (j : Fin n) : Except (MatrixError α) (Grid α n n) :=
  let value := pivot a j
  if 0 < value then
    let diagonal := Scalar.sqrt value
    .ok (Grid.ofFn fun i k =>
      if k = j ∧ i = j then diagonal
      else if k = j ∧ j < i then entry a diagonal i j
      else a.get i k)
  else
    .error (.notPositiveDefinite j value)

/-- The Cholesky factor, in the lower triangle. -/
def factor (a : Grid α n n) : Except (MatrixError α) (Grid α n n) :=
  (List.finRange n).foldlM factorColumn a

/-- Element `(i, j)` of the inverse of the lower triangle `l`, `x` holding the rows above row `i`. -/
def inverseEntry (l x : Grid α n n) (i j : Fin n) : α :=
  if j = i then 1 / l.get i i
  else if j < i then
    -(1 / l.get i i) *
      Scalar.sum fun k => l.get i (Index.between j i k) * x.get (Index.between j i k) j
  else 0

/-- The inverse of a lower triangle, row after row. -/
def invertLower (l : Grid α n n) : Grid α n n :=
  (List.finRange n).foldl
    (fun x i => Grid.ofFn fun k j => if k = i then inverseEntry l x i j else x.get k j)
    (Grid.ofFn fun _ _ => 0)

/-- Element `(i, j)` of `xᵀ x` for a lower triangle `x`. -/
def gram (x : Grid α n n) (i j : Fin n) : α :=
  let first := if i ≤ j then j else i
  Scalar.sum fun k => x.get (Index.onwards first k) i * x.get (Index.onwards first k) j

end Cholesky

namespace DenseMatrix

variable {α : Type} [Scalar α]

/-- The inverse of the symmetric matrix with the lower triangle of `m`. -/
def symmetricInverse (m : DenseMatrix α) : Except (MatrixError α) (DenseMatrix α) :=
  match m.grid? m.rows m.rows with
  | some a =>
    (Cholesky.factor a).map fun l =>
      ofFn m.rows m.rows (Cholesky.gram (Cholesky.invertLower l))
  | none => .error (.notSquare .inverse m.shape)

end DenseMatrix

end MatrixScript
