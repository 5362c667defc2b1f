import MatrixScript.DenseMatrix.Error

/-!
# Normalisations of a table

Standard scores and profiles of the columns, the chi-square similarity of the columns of a
contingency table, and the double centring that turns squared distances into inner products.
-/

namespace MatrixScript

namespace DenseMatrix

variable {α : Type} [Scalar α]

def columnMeans (m : DenseMatrix α) : Vector α m.cols :=
  m.columnSums.map (· / Scalar.ofCount m.rows)

def rowMeans (m : DenseMatrix α) : Vector α m.rows :=
  m.rowSums.map (· / Scalar.ofCount m.cols)

/-- The mean square of the distances of a column to `mean`. -/
def columnVariance (m : DenseMatrix α) (mean : α) (j : Fin m.cols) : α :=
  Scalar.accumulate 0 fun i =>
    (m.get i j - mean) * (m.get i j - mean) / Scalar.ofCount m.rows

/-- Every column centred on its mean and divided by its standard deviation over the population. A
constant column has no spread to divide by. -/
def standardize (m : DenseMatrix α) : DenseMatrix α :=
  let means := m.columnMeans
  let deviations : Vector α m.cols :=
    Vector.ofFn fun j => Scalar.sqrt (m.columnVariance (means.get j) j)
  ofFn m.rows m.cols fun i j => (m.get i j - means.get j) / deviations.get j

/-- Every element divided by the sum of its column, which makes each column a distribution. -/
def columnProfiles (m : DenseMatrix α) : DenseMatrix α :=
  let sums := m.columnSums
  ofFn m.rows m.cols fun i j => m.get i j / sums.get j

/-- The chi-square similarity between the columns of a contingency table. -/
def chiSquare (m : DenseMatrix α) : DenseMatrix α :=
  let rowSums := m.rowSums
  let columnSums := m.columnSums
  ofFn m.cols m.cols fun j k =>
    let scale := Scalar.sqrt (columnSums.get j * columnSums.get k)
    Scalar.sum fun i => m.get i j * m.get i k / (rowSums.get i * scale)

/-- The double centring of a table of squared distances: minus half of each element less the means
of its row and of its column, plus the mean of the table. -/
def doubleCenter (m : DenseMatrix α) : DenseMatrix α :=
  let rowMeans := m.rowMeans
  let columnMeans := m.columnMeans
  let mean := Scalar.sum rowMeans.get / Scalar.ofCount m.rows
  ofFn m.rows m.cols fun i j =>
    -(1 / Scalar.ofCount 2) * (m.get i j - (rowMeans.get i + columnMeans.get j) + mean)

end DenseMatrix

end MatrixScript
