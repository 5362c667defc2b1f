import MatrixScript.DenseMatrix.Basic
import MatrixScript.Decimal.Shortest

/-!
# What can go wrong with matrices

The causes for which a numeric routine refuses its operands, and their wording.
-/

namespace MatrixScript

/-- The operations on two matrices whose shapes have to fit. -/
inductive Operation where
  | add
  | sub
  | union
  | intersection
  | product
  | maxMinProduct
  | comparison
  deriving DecidableEq, Repr

def Operation.symbol : Operation → String
  | .add => "+"
  | .sub => "-"
  | .union => "|"
  | .intersection => "&"
  | .product => "*"
  | .maxMinProduct => "^"
  | .comparison => "comparison"

/-- The routines that need a square matrix. -/
inductive SquareRoutine where
  | eigen
  | inverse
  deriving DecidableEq, Repr

/-- The word by which a script asks for a routine. -/
def SquareRoutine.keyword : SquareRoutine → String
  | .eigen => "tridiag"
  | .inverse => "inv_sym"

/-- The two kinds of points of a correspondence analysis. -/
inductive PointKind where
  | rows
  | columns
  deriving DecidableEq, Repr

/-- The word by which a script projects supplementary points. -/
def PointKind.keyword : PointKind → String
  | .rows => "composupp"
  | .columns => "compocsupp"

/-- Why a numeric routine gives no result. -/
inductive MatrixError (α : Type) where
  | mismatch (op : Operation) (left right : Shape)
  | notSquare (routine : SquareRoutine) (shape : Shape)
  /-- An analysis needs the trivial axis and at least one more. -/
  | fewEigenvalues (count : Nat)
  /-- The eigenvectors do not fit the table and the axes. -/
  | eigenvectorShape (shape : Shape) (rows axes : Nat)
  /-- The coordinates do not fit the supplementary points and the axes. -/
  | coordinateShape (points : PointKind) (shape : Shape) (rows axes : Nat)
  | notPositiveDefinite (pivot : Nat) (value : α)
  | noConvergence (index iterations : Nat)
  deriving DecidableEq, Repr

def Shape.text (s : Shape) : String :=
  s!"{s.rows}x{s.cols}"

def DenseMatrix.InvalidShape.message (cause : DenseMatrix.InvalidShape) : String :=
  s!"Invalid matrix shape {cause.shape.text} for {cause.given} elements."

def MatrixError.message : MatrixError Float → String
  | .mismatch op left right =>
    s!"Dimension mismatch for '{op.symbol}': {left.text} and {right.text}."
  | .notSquare routine shape =>
    s!"'{routine.keyword}' requires a square matrix, got {shape.text}."
  | .fewEigenvalues count =>
    s!"'compocor': need at least 2 eigenvalues, got {count}."
  | .eigenvectorShape shape rows axes =>
    s!"'compocor': eigenvectors are {shape.text}, " ++
      s!"expected {rows} rows and more than {axes} columns."
  | .coordinateShape points shape rows axes =>
    s!"'{points.keyword}': coordinates are {shape.text}, expected at least {rows}x{axes}."
  | .notPositiveDefinite pivot value =>
    s!"Matrix is not positive definite (pivot {pivot} is {Decimal.shortest value})."
  | .noConvergence index iterations =>
    s!"Eigenvalue {index} did not converge after {iterations} iterations."

end MatrixScript
