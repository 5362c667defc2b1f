import MatrixScript.DenseMatrix.Arith
import MatrixScript.DenseMatrix.Profile
import MatrixScript.Proofs.Bounds.Checked
import MatrixScript.Proofs.Matrix.Shape

/-!
# Matrix algebra on plain indices

The operations that build a matrix element by element, with every index written out as a
number.  They come to what the operations on matrices come to, so none of them leaves
its operands.
-/

namespace MatrixScript

variable {α : Type}

namespace Indexed

section Access

/-- The element of a matrix in a row and a column. -/
def element (m : DenseMatrix α) (i j : Nat) : Checked α α :=
  m.grid.read i j

theorem element_of_lt (m : DenseMatrix α) {i j : Nat} (hi : i < m.rows) (hj : j < m.cols) :
    element m i j = .ok (m.get ⟨i, hi⟩ ⟨j, hj⟩) :=
  m.grid.read_of_lt hi hj

@[simp] theorem element_val (m : DenseMatrix α) (i : Fin m.rows) (j : Fin m.cols) :
    element m i j = .ok (m.get i j) :=
  element_of_lt m i.isLt j.isLt

@[simp] theorem element_mk {rows cols : Nat} (g : Grid α rows cols) (i : Fin rows)
    (j : Fin cols) : element (⟨rows, cols, g⟩ : DenseMatrix α) i j = .ok (g.get i j) :=
  g.read_of_lt i.isLt j.isLt

end Access

variable [Scalar α]

/-- The matrix of the values of `f`. -/
def matrixOf (rows cols : Nat) (f : Nat → Nat → Checked α α) : Checked α (DenseMatrix α) := do
  return ⟨rows, cols, ← gridOf rows cols f⟩

theorem matrixOf_eq_ok {rows cols : Nat} {f : Nat → Nat → Checked α α}
    {value : Fin rows → Fin cols → α}
    (h : ∀ (i : Fin rows) (j : Fin cols), f i j = .ok (value i j)) :
    matrixOf rows cols f = .ok (.ofFn rows cols value) := by
  rw [matrixOf, gridOf_eq_ok h]
  rfl

/-- The cells of a square matrix, to work in. -/
def copy (m : DenseMatrix α) : Checked α (Grid α m.rows m.rows) :=
  gridOf m.rows m.rows (element m)

theorem copy_mk {n : Nat} (g : Grid α n n) : copy ⟨n, n, g⟩ = .ok g := by
  have hcopy : copy ⟨n, n, g⟩ = .ok (Grid.ofFn g.get) := gridOf_eq_ok (element_mk g)
  rw [hcopy]
  congr 1
  apply Grid.ext_get
  intro i j
  rw [Grid.get_ofFn]

/-! ## Two operands -/

/-- Applies `f` to the elements at the same places of two matrices of one shape. -/
def zipWith (op : Operation) (f : α → α → α) (a b : DenseMatrix α) :
    Checked α (DenseMatrix α) :=
  if b.shape = a.shape then
    matrixOf a.rows a.cols fun i j => do return f (← element a i j) (← element b i j)
  else .error (.refused (.mismatch op a.shape b.shape))

theorem zipWith_eq (op : Operation) (f : α → α → α) (a b : DenseMatrix α) :
    zipWith op f a b = refusing (DenseMatrix.zipWith op f a b) := by
  unfold zipWith DenseMatrix.zipWith
  by_cases hshape : b.shape = a.shape
  · obtain ⟨g, hgrid⟩ := DenseMatrix.exists_grid? (show b.shape = ⟨a.rows, a.cols⟩ from hshape)
    rw [if_pos hshape, hgrid]
    cases DenseMatrix.grid?_eq_some_iff.mp hgrid
    apply matrixOf_eq_ok
    intro i j
    rw [element_val, element_mk]
    rfl
  · rw [if_neg hshape, DenseMatrix.grid?_eq_none hshape]
    rfl

/-- The operands of a product have to fit; then every element is made up from a row of
the one and a column of the other. -/
def product (op : Operation) (join : α → α → α) (init : α) (f : α → α → α)
    (a b : DenseMatrix α) : Checked α (DenseMatrix α) :=
  if b.rows = a.cols then
    matrixOf a.rows b.cols fun i j =>
      fold join init a.cols fun k => do return f (← element a i k) (← element b k j)
  else .error (.refused (.mismatch op a.shape b.shape))

theorem product_of_fits (op : Operation) (join : α → α → α) (init : α) (f : α → α → α)
    (a : DenseMatrix α) {cols : Nat} (g : Grid α a.cols cols) :
    product op join init f a ⟨a.cols, cols, g⟩ = .ok (.ofFn a.rows cols fun i j =>
      Fin.foldl a.cols (fun s k => join s (f (a.get i k) (g.get k j))) init) := by
  rw [product, if_pos rfl]
  apply matrixOf_eq_ok
  intro i j
  apply fold_eq_ok
  intro k
  rw [element_val, ok_bind, element_mk]
  rfl

def mul (a b : DenseMatrix α) : Checked α (DenseMatrix α) :=
  product .product (· + ·) (-0) (· * ·) a b

def maxMin (a b : DenseMatrix α) : Checked α (DenseMatrix α) :=
  product .maxMinProduct Scalar.max Scalar.negInfinity Scalar.min a b

theorem mul_eq (a b : DenseMatrix α) : mul a b = refusing (DenseMatrix.mul a b) := by
  obtain ⟨rows, cols, g⟩ := b
  by_cases hinner : rows = a.cols
  · subst hinner
    rw [mul, product_of_fits, DenseMatrix.mul, DenseMatrix.grid?_eq_some_iff.mpr rfl]
    rfl
  · have hshape : (⟨rows, cols, g⟩ : DenseMatrix α).shape ≠ ⟨a.cols, cols⟩ := fun h =>
      hinner (congrArg Shape.rows h)
    rw [mul, product, if_neg hinner, DenseMatrix.mul, DenseMatrix.grid?_eq_none hshape]
    rfl

theorem maxMin_eq (a b : DenseMatrix α) : maxMin a b = refusing (DenseMatrix.maxMin a b) := by
  obtain ⟨rows, cols, g⟩ := b
  by_cases hinner : rows = a.cols
  · subst hinner
    rw [maxMin, product_of_fits, DenseMatrix.maxMin, DenseMatrix.grid?_eq_some_iff.mpr rfl]
    rfl
  · have hshape : (⟨rows, cols, g⟩ : DenseMatrix α).shape ≠ ⟨a.cols, cols⟩ := fun h =>
      hinner (congrArg Shape.rows h)
    rw [maxMin, product, if_neg hinner, DenseMatrix.maxMin, DenseMatrix.grid?_eq_none hshape]
    rfl

/-! ## One operand -/

def transpose (m : DenseMatrix α) : Checked α (DenseMatrix α) :=
  matrixOf m.cols m.rows fun i j => element m j i

theorem transpose_eq (m : DenseMatrix α) : transpose m = .ok m.transpose := by
  apply matrixOf_eq_ok
  intro i j
  exact element_val m j i

def map (f : α → α) (m : DenseMatrix α) : Checked α (DenseMatrix α) :=
  matrixOf m.rows m.cols fun i j => do return f (← element m i j)

theorem map_eq (f : α → α) (m : DenseMatrix α) : map f m = .ok (m.map f) := by
  have hmap : m.map f = .ofFn m.rows m.cols fun i j => f (m.get i j) := by
    unfold DenseMatrix.map DenseMatrix.ofFn
    congr 1
    apply Grid.ext_get
    intro i j
    rw [Grid.get_map, Grid.get_ofFn]
    rfl
  rw [hmap]
  apply matrixOf_eq_ok
  intro i j
  rw [element_val]
  rfl

/-! ## Margins and normalisations -/

def rowSums (m : DenseMatrix α) : Checked α (Vector α m.rows) :=
  vectorOf m.rows fun i => addUp (-0) m.cols fun j => element m i j

def columnSums (m : DenseMatrix α) : Checked α (Vector α m.cols) :=
  vectorOf m.cols fun j => addUp 0 m.rows fun i => element m i j

@[simp] theorem rowSums_eq (m : DenseMatrix α) : rowSums m = .ok m.rowSums :=
  vectorOf_eq_ok fun i => addUp_eq_ok fun j => element_val m i j

@[simp] theorem columnSums_eq (m : DenseMatrix α) : columnSums m = .ok m.columnSums :=
  vectorOf_eq_ok fun j => addUp_eq_ok fun i => element_val m i j

/-- The entries of a vector, each of them divided. -/
def divided {n : Nat} (v : Vector α n) (divisor : α) : Checked α (Vector α n) :=
  vectorOf n fun k => do return (← readAt v k) / divisor

@[simp] theorem divided_eq {n : Nat} (v : Vector α n) (divisor : α) :
    divided v divisor = .ok (v.map (· / divisor)) := by
  have hmap : v.map (· / divisor) = Vector.ofFn fun k => v.get k / divisor := by
    apply ext_get
    intro k
    rw [get_ofFn]
    exact Vector.getElem_map _ k.isLt
  rw [hmap]
  apply vectorOf_eq_ok
  intro k
  rw [readAt_val]
  rfl

def columnMeans (m : DenseMatrix α) : Checked α (Vector α m.cols) := do
  divided (← columnSums m) (Scalar.ofCount m.rows)

@[simp] theorem columnMeans_eq (m : DenseMatrix α) : columnMeans m = .ok m.columnMeans := by
  rw [columnMeans, columnSums_eq, ok_bind, divided_eq]
  rfl

def rowMeans (m : DenseMatrix α) : Checked α (Vector α m.rows) := do
  divided (← rowSums m) (Scalar.ofCount m.cols)

@[simp] theorem rowMeans_eq (m : DenseMatrix α) : rowMeans m = .ok m.rowMeans := by
  rw [rowMeans, rowSums_eq, ok_bind, divided_eq]
  rfl

def columnVariance (m : DenseMatrix α) (mean : α) (j : Nat) : Checked α α :=
  addUp 0 m.rows fun i => do
    return ((← element m i j) - mean) * ((← element m i j) - mean) / Scalar.ofCount m.rows

@[simp] theorem columnVariance_eq (m : DenseMatrix α) (mean : α) (j : Fin m.cols) :
    columnVariance m mean j = .ok (m.columnVariance mean j) := by
  apply addUp_eq_ok
  intro i
  simp

/-- The standard deviations of the columns around their means. -/
def deviations (m : DenseMatrix α) (means : Vector α m.cols) : Checked α (Vector α m.cols) :=
  vectorOf m.cols fun j => do return Scalar.sqrt (← columnVariance m (← readAt means j) j)

@[simp] theorem deviations_eq (m : DenseMatrix α) (means : Vector α m.cols) :
    deviations m means =
      .ok (Vector.ofFn fun j => Scalar.sqrt (m.columnVariance (means.get j) j)) := by
  apply vectorOf_eq_ok
  intro j
  simp

def standardize (m : DenseMatrix α) : Checked α (DenseMatrix α) := do
  let means ← columnMeans m
  let deviations ← deviations m means
  matrixOf m.rows m.cols fun i j => do
    return ((← element m i j) - (← readAt means j)) / (← readAt deviations j)

theorem standardize_eq (m : DenseMatrix α) : standardize m = .ok m.standardize := by
  rw [standardize, columnMeans_eq, ok_bind, deviations_eq, ok_bind]
  apply matrixOf_eq_ok
  intro i j
  simp

def columnProfiles (m : DenseMatrix α) : Checked α (DenseMatrix α) := do
  let sums ← columnSums m
  matrixOf m.rows m.cols fun i j => do return (← element m i j) / (← readAt sums j)

theorem columnProfiles_eq (m : DenseMatrix α) : columnProfiles m = .ok m.columnProfiles := by
  rw [columnProfiles, columnSums_eq, ok_bind]
  apply matrixOf_eq_ok
  intro i j
  simp

def chiSquare (m : DenseMatrix α) : Checked α (DenseMatrix α) := do
  let rowSums ← rowSums m
  let columnSums ← columnSums m
  matrixOf m.cols m.cols fun j k => do
    let scale := Scalar.sqrt ((← readAt columnSums j) * (← readAt columnSums k))
    addUp (-0) m.rows fun i => do
      return (← element m i j) * (← element m i k) / ((← readAt rowSums i) * scale)

theorem chiSquare_eq (m : DenseMatrix α) : chiSquare m = .ok m.chiSquare := by
  rw [chiSquare, rowSums_eq, ok_bind, columnSums_eq, ok_bind]
  apply matrixOf_eq_ok
  intro j k
  rw [readAt_val, ok_bind, readAt_val, ok_bind]
  apply addUp_eq_ok
  intro i
  simp

def doubleCenter (m : DenseMatrix α) : Checked α (DenseMatrix α) := do
  let rowMeans ← rowMeans m
  let columnMeans ← columnMeans m
  let mean := (← addUp (-0) m.rows (readAt rowMeans)) / Scalar.ofCount m.rows
  matrixOf m.rows m.cols fun i j => do
    return -(1 / Scalar.ofCount 2) *
      ((← element m i j) - ((← readAt rowMeans i) + (← readAt columnMeans j)) + mean)

theorem doubleCenter_eq (m : DenseMatrix α) : doubleCenter m = .ok m.doubleCenter := by
  rw [doubleCenter, rowMeans_eq, ok_bind, columnMeans_eq, ok_bind,
    addUp_eq_sum fun i => readAt_val m.rowMeans i, ok_bind]
  apply matrixOf_eq_ok
  intro i j
  simp

end Indexed

end MatrixScript
