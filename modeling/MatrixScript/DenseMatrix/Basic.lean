import MatrixScript.Grid
import MatrixScript.Scalar.Basic

/-!
# Dense matrices

A matrix is a grid together with its size, so that matrices of different sizes are values of one
type. The sizes a user writes are checked when a matrix is built: `DenseMatrix.ofList?` and
`DenseMatrix.ofRows?` refuse an empty matrix and data that does not fill it.
-/

namespace MatrixScript

structure Shape where
  rows : Nat
  cols : Nat
  deriving DecidableEq, Repr

/-- A matrix of any size. -/
structure DenseMatrix (α : Type) where
  rows : Nat
  cols : Nat
  grid : Grid α rows cols

namespace DenseMatrix

variable {α : Type}

/-- A size that a matrix cannot have, with the number of elements that were given for it. -/
structure InvalidShape where
  shape : Shape
  given : Nat
  deriving DecidableEq, Repr

def shape (m : DenseMatrix α) : Shape := ⟨m.rows, m.cols⟩

def IsSquare (m : DenseMatrix α) : Prop := m.rows = m.cols

instance (m : DenseMatrix α) : Decidable m.IsSquare := inferInstanceAs (Decidable (_ = _))

def get (m : DenseMatrix α) (i : Fin m.rows) (j : Fin m.cols) : α :=
  m.grid.get i j

@[specialize]
def ofFn (rows cols : Nat) (f : Fin rows → Fin cols → α) : DenseMatrix α where
  rows := rows
  cols := cols
  grid := Grid.ofFn f

@[simp]
theorem rows_ofFn (rows cols : Nat) (f : Fin rows → Fin cols → α) :
    (ofFn rows cols f).rows = rows := rfl

@[simp]
theorem cols_ofFn (rows cols : Nat) (f : Fin rows → Fin cols → α) :
    (ofFn rows cols f).cols = cols := rfl

@[simp]
theorem get_ofFn (rows cols : Nat) (f : Fin rows → Fin cols → α) (i : Fin rows) (j : Fin cols) :
    (ofFn rows cols f).get i j = f i j :=
  Grid.get_ofFn f i j

/-- The grid of a matrix that has the given size. -/
def grid? (m : DenseMatrix α) (rows cols : Nat) : Option (Grid α rows cols) :=
  if h : m.rows = rows ∧ m.cols = cols then
    some ⟨m.grid.cells.cast (by rw [h.1, h.2])⟩
  else none

/-- A matrix has a grid of a given size exactly if it is that grid. -/
theorem grid?_eq_some_iff {m : DenseMatrix α} {rows cols : Nat} {g : Grid α rows cols} :
    m.grid? rows cols = some g ↔ m = ⟨rows, cols, g⟩ := by
  obtain ⟨r, c, g'⟩ := m
  unfold grid?
  constructor
  · intro h
    split at h
    · next hsize =>
      obtain ⟨rfl, rfl⟩ := hsize
      cases h
      rfl
    · cases h
  · intro h
    cases h
    simp

def toList (m : DenseMatrix α) : List α := m.grid.cells.toList

def toRows (m : DenseMatrix α) : List (List α) := m.grid.toRows

def map {β : Type} (f : α → β) (m : DenseMatrix α) : DenseMatrix β where
  rows := m.rows
  cols := m.cols
  grid := m.grid.map f

/-- The matrix of a given size with the given elements, row after row. -/
def ofList? (rows cols : Nat) (data : List α) : Except InvalidShape (DenseMatrix α) :=
  if h : rows ≠ 0 ∧ cols ≠ 0 ∧ data.length = rows * cols then
    .ok ⟨rows, cols, ⟨⟨data.toArray, by simpa using h.2.2⟩⟩⟩
  else
    .error ⟨⟨rows, cols⟩, data.length⟩

/-- The matrix with the given rows. The first row gives the number of columns, and a row of another
length does not count towards the elements. -/
def ofRows? (rows : List (List α)) : Except InvalidShape (DenseMatrix α) :=
  let cols := (rows.headD []).length
  ofList? rows.length cols (rows.filter fun row => row.length = cols).flatten

section Arithmetic

variable [Scalar α]

def zeros (rows cols : Nat) : DenseMatrix α :=
  ofFn rows cols fun _ _ => 0

/-- Ones on the diagonal and zeros elsewhere. -/
def identity (rows cols : Nat) : DenseMatrix α :=
  ofFn rows cols fun i j => if i.val = j.val then 1 else 0

def rowSum (m : DenseMatrix α) (i : Fin m.rows) : α :=
  Scalar.sum fun j => m.get i j

/-- The sum of a column, which starts from a positive zero. -/
def columnSum (m : DenseMatrix α) (j : Fin m.cols) : α :=
  Scalar.accumulate 0 fun i => m.get i j

def rowSums (m : DenseMatrix α) : Vector α m.rows :=
  Vector.ofFn m.rowSum

def columnSums (m : DenseMatrix α) : Vector α m.cols :=
  Vector.ofFn m.columnSum

def trace (m : DenseMatrix α) : α :=
  Scalar.sum fun i : Fin (min m.rows m.cols) =>
    m.get (i.castLE (Nat.min_le_left m.rows m.cols)) (i.castLE (Nat.min_le_right m.rows m.cols))

end Arithmetic

end DenseMatrix

end MatrixScript
