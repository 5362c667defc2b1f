import MatrixScript.DenseMatrix.Error

/-!
# Matrix algebra

Elementwise operations, the two products, and the operations on one matrix. The union and the
intersection are the elementwise maximum and minimum, and the max-min product replaces the sum of
products by the maximum of minima: on matrices of zeros and ones they are the operations of
relations.
-/

namespace MatrixScript

namespace DenseMatrix

variable {α : Type} [Scalar α]

/-- Applies `f` to the elements at the same places of two matrices of one shape. -/
def zipWith (op : Operation) (f : α → α → α) (a b : DenseMatrix α) :
    Except (MatrixError α) (DenseMatrix α) :=
  match b.grid? a.rows a.cols with
  | some g => .ok (ofFn a.rows a.cols fun i j => f (a.get i j) (g.get i j))
  | none => .error (.mismatch op a.shape b.shape)

def add (a b : DenseMatrix α) : Except (MatrixError α) (DenseMatrix α) :=
  zipWith .add (· + ·) a b

def sub (a b : DenseMatrix α) : Except (MatrixError α) (DenseMatrix α) :=
  zipWith .sub (· - ·) a b

/-- The elementwise maximum, the union of two relations. -/
def union (a b : DenseMatrix α) : Except (MatrixError α) (DenseMatrix α) :=
  zipWith .union Scalar.max a b

/-- The elementwise minimum, the intersection of two relations. -/
def intersection (a b : DenseMatrix α) : Except (MatrixError α) (DenseMatrix α) :=
  zipWith .intersection Scalar.min a b

def mul (a b : DenseMatrix α) : Except (MatrixError α) (DenseMatrix α) :=
  match b.grid? a.cols b.cols with
  | some g => .ok (ofFn a.rows b.cols fun i j => Scalar.sum fun k => a.get i k * g.get k j)
  | none => .error (.mismatch .product a.shape b.shape)

/-- The max-min product, the composition of two relations. -/
def maxMin (a b : DenseMatrix α) : Except (MatrixError α) (DenseMatrix α) :=
  match b.grid? a.cols b.cols with
  | some g =>
    .ok (ofFn a.rows b.cols fun i j =>
      Scalar.maximum fun k => Scalar.min (a.get i k) (g.get k j))
  | none => .error (.mismatch .maxMinProduct a.shape b.shape)

def transpose (m : DenseMatrix α) : DenseMatrix α :=
  ofFn m.cols m.rows fun i j => m.get j i

/-- Zero for every positive element and one for every other. -/
def complement (m : DenseMatrix α) : DenseMatrix α :=
  m.map fun x => if 0 < x then 0 else 1

/-- Every element multiplied by a factor on its left. -/
def scale (factor : α) (m : DenseMatrix α) : DenseMatrix α :=
  m.map fun x => factor * x

end DenseMatrix

end MatrixScript
