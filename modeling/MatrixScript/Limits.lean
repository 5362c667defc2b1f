import MatrixScript.Scalar.Float

/-!
# Limits

The bounds that a run of a script keeps to.
-/

namespace MatrixScript

/-- The bounds on the sizes of a script's matrices, labels and loops, and on the eigenvalue iteration. -/
structure Limits where
  maxElements : Nat := 50000
  maxLabels : Nat := 32
  maxLoopDepth : Nat := 32
  maxIterations : Nat := 100
  tolerance : Float := 1e-10

end MatrixScript
