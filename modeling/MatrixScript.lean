import MatrixScript.Scalar.Float
import MatrixScript.Decimal.Numeral
import MatrixScript.DenseMatrix.Arith
import MatrixScript.DenseMatrix.Order
import MatrixScript.DenseMatrix.Profile
import MatrixScript.DenseMatrix.Inverse
import MatrixScript.Eigen.Basic
import MatrixScript.Correspondence
import MatrixScript.Text.Alphabetic
import MatrixScript.Files.MatrixFile
import MatrixScript.Limits
import MatrixScript.Script.Run
import MatrixScript.Main
import MatrixScript.Proofs.Lexing.Place
import MatrixScript.Proofs.Lexing.Scan
import MatrixScript.Proofs.Lexing.Stream
import MatrixScript.Proofs.Lexing.Survey
import MatrixScript.Proofs.Monad.Outcome
import MatrixScript.Proofs.Expression.Grammar
import MatrixScript.Proofs.Monad.Reading
import MatrixScript.Proofs.Expression.Denotation
import MatrixScript.Proofs.Expression.Moves
import MatrixScript.Proofs.Run.Effect
import MatrixScript.Proofs.Run.Atomicity
import MatrixScript.Proofs.Run.Cursors
import MatrixScript.Proofs.Run.WellFormed
import MatrixScript.Proofs.Lexing.Line
import MatrixScript.Proofs.Lexing.Pattern
import MatrixScript.Proofs.Lexing.Tokens
import MatrixScript.Proofs.Monad.Coupling
import MatrixScript.Proofs.Lexing.Parameters
import MatrixScript.Proofs.Lexing.Excerpt
import MatrixScript.Proofs.Lexing.Within
import MatrixScript.Proofs.Structured.Reading
import MatrixScript.Proofs.Structured.Statement
import MatrixScript.Proofs.Structured.Passing
import MatrixScript.Proofs.Structured.Ending
import MatrixScript.Proofs.Structured.InPlace
import MatrixScript.Proofs.Structured.Agreement
import MatrixScript.Proofs.Structured.Conditions
import MatrixScript.Proofs.Run.InLine
import MatrixScript.Proofs.Run.Diagnostics
import MatrixScript.Proofs.Expression.Shapes
import MatrixScript.Proofs.Lexing.Pieces
import MatrixScript.Proofs.Monad.Pairing
import MatrixScript.Proofs.Lockstep.Spelling
import MatrixScript.Proofs.Lockstep.Reading
import MatrixScript.Proofs.Lockstep.Expression
import MatrixScript.Proofs.Lockstep.Operands
import MatrixScript.Proofs.Lockstep.Statement
import MatrixScript.Proofs.Lockstep.Alignment
import MatrixScript.Proofs.Lockstep.Flow
import MatrixScript.Proofs.Lockstep.Run
import MatrixScript.Proofs.Lockstep.Respelling
import MatrixScript.Proofs.Lockstep.Comments
import MatrixScript.Proofs.Lockstep.Blanks
import MatrixScript.Proofs.Lockstep.Case
import MatrixScript.Proofs.Text.Fields
import MatrixScript.Proofs.Matrix.Rows
import MatrixScript.Proofs.Correspondence.Projection
import MatrixScript.Proofs.Decimal.Written
import MatrixScript.Proofs.Files.RoundTrip
import MatrixScript.Proofs.Monad.Framing
import MatrixScript.Proofs.Run.Afresh
import MatrixScript.Proofs.Bounds.Algebra
import MatrixScript.Proofs.Bounds.Correspondence
import MatrixScript.Proofs.Bounds.Inverse
import MatrixScript.Proofs.Bounds.Tridiagonal
import MatrixScript.Proofs.Bounds.Iteration
import MatrixScript.Proofs.Bounds.Kernel
import MatrixScript.Proofs.Exact.Real
import MatrixScript.Proofs.Correspondence.Places
import MatrixScript.Proofs.Correspondence.Transition
import MatrixScript.Proofs.Correspondence.Contributions
import MatrixScript.Proofs.Cholesky.Factor
import MatrixScript.Proofs.Cholesky.Inverse
import MatrixScript.Proofs.Tridiagonal.Reflector
import MatrixScript.Proofs.Tridiagonal.Reduction
import MatrixScript.Proofs.Tridiagonal.Accumulation
import MatrixScript.Proofs.Exact.Partial
import MatrixScript.Proofs.Tridiagonal.Similarity
import MatrixScript.Proofs.Matrix.LowerTriangle
import MatrixScript.Proofs.Iteration.Rotation
import MatrixScript.Proofs.Iteration.Chase
import MatrixScript.Proofs.Iteration.Sweep
import MatrixScript.Proofs.Iteration.Decomposition
import MatrixScript.Proofs.Exact.Machine
import MatrixScript.Proofs.Correspondence.Contraction
import MatrixScript.Proofs.Lexing.LabelTable
import MatrixScript.Proofs.Run.Matching
import MatrixScript.Proofs.Run.Progress
import MatrixScript.Proofs.Files.DataLines
import MatrixScript.Proofs.Files.Successive
import MatrixScript.Proofs.Lexing.LineStart
import MatrixScript.Proofs.Run.Faults
import MatrixScript.Proofs.Run.FaultLine
import MatrixScript.Proofs.Run.Jumps
import MatrixScript.Proofs.Binary64.Words
import MatrixScript.Proofs.Binary64.Order
import MatrixScript.Proofs.Matrix.Agreement
import MatrixScript.Proofs.Matrix.Transpose
import MatrixScript.Proofs.Relation.Lattice
import MatrixScript.Proofs.Relation.Composition
import MatrixScript.Proofs.Relation.Reachability
import MatrixScript.Proofs.Profile.Scores
import MatrixScript.Proofs.Profile.Centring
import MatrixScript.Proofs.Lexing.Lookahead
import MatrixScript.Proofs.Matrix.FromRows
