import MatrixScript.DenseMatrix.Error

/-!
# Comparing matrices

Matrices of one shape are compared element by element: one is less than another if no element is
greater and at least one is less, and greater if no element is less and at least one is greater.
-/

namespace MatrixScript

/-- The three questions a condition can ask. -/
inductive Comparison where
  | equal
  | greater
  | less
  deriving DecidableEq, Repr

def Comparison.name : Comparison → String
  | .equal => "Equal"
  | .greater => "Greater"
  | .less => "Less"

namespace DenseMatrix

variable {α : Type} [Scalar α]

/-- Every element of `a` equals the element of `b` at its place. -/
def allEqual (a b : DenseMatrix α) : Bool :=
  (a.toList.zip b.toList).all fun (x, y) => x == y

/-- No element of `a` is above the element of `b` at its place, and at least one is below. -/
def allLess (a b : DenseMatrix α) : Bool :=
  (a.toList.zip b.toList).all (fun (x, y) => x ≤ y) &&
    (a.toList.zip b.toList).any fun (x, y) => x < y

/-- No element of `a` is below the element of `b` at its place, and at least one is above. -/
def allGreater (a b : DenseMatrix α) : Bool :=
  (a.toList.zip b.toList).all (fun (x, y) => x ≥ y) &&
    (a.toList.zip b.toList).any fun (x, y) => x > y

/-- Whether two matrices of one shape compare as asked. -/
def compare (question : Comparison) (a b : DenseMatrix α) : Except (MatrixError α) Bool :=
  if a.shape = b.shape then
    .ok (match question with
      | .equal => allEqual a b
      | .greater => allGreater a b
      | .less => allLess a b)
  else
    .error (.mismatch .comparison a.shape b.shape)

end DenseMatrix

end MatrixScript
