import MatrixScript.DenseMatrix.Error
import MatrixScript.Eigen.Iteration

/-!
# Eigenvalues and eigenvectors

`DenseMatrix.eigen` diagonalises a symmetric matrix: it is reduced to tridiagonal form, iterated to
diagonal form, and the eigenvalues are sorted in descending order, each with its column.
-/

namespace MatrixScript

/-- Eigenvalues in descending order, and the matrix whose column `k` belongs to eigenvalue `k`. -/
structure Eigen (α : Type) where
  values : List α
  vectors : DenseMatrix α

namespace Eigen

variable {α : Type} [Scalar α] {n : Nat}

/-- Whether `x` may stand before `y` in descending order. What is not equal to itself stands before
everything. -/
def descends (x y : α) : Bool :=
  !(x == x) || y ≤ x

/-- The indices in descending order of their diagonal elements; equal elements keep their order. -/
def order (diagonal : Vector α n) : Vector (Fin n) n :=
  ⟨((List.finRange n).mergeSort fun a b => descends (diagonal.get a) (diagonal.get b)).toArray,
    by simp⟩

/-- The sorted eigenvalues and columns of a diagonal form. -/
def sorted (s : Iteration α n) : Eigen α :=
  let order := order s.diagonal
  { values := order.toList.map s.diagonal.get
    vectors := DenseMatrix.ofFn n n fun i j => (s.columns.get (order.get j)).get i }

end Eigen

namespace DenseMatrix

variable {α : Type} [Scalar α]

/-- Diagonalises the symmetric matrix with the lower triangle of `m`, with the numbers of sweeps that
the eigenvalues took. An element beside the diagonal counts as zero once it is at most `tolerance`,
and never less than the spacing of the numbers, times the magnitudes of its neighbours. -/
def eigenCounting (tolerance : α) (limit : Nat) (m : DenseMatrix α) :
    List Nat × Except (MatrixError α) (Eigen α) :=
  match m.grid? m.rows m.rows with
  | some a =>
    let form := Tridiagonal.ofSymmetric a
    let relative := Scalar.max tolerance Scalar.epsilon
    let (counts, result) :=
      Iteration.diagonalize relative limit (List.finRange m.rows) (Iteration.start form)
    (counts,
      match result with
      | .ok s => .ok (Eigen.sorted s)
      | .error index => .error (.noConvergence index limit))
  | none => ([], .error (.notSquare .eigen m.shape))

/-- Diagonalises the symmetric matrix with the lower triangle of `m`. -/
def eigen (tolerance : α) (limit : Nat) (m : DenseMatrix α) : Except (MatrixError α) (Eigen α) :=
  (eigenCounting tolerance limit m).2

end DenseMatrix

end MatrixScript
