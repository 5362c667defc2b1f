import MatrixScript.DenseMatrix.Arith
import MatrixScript.DenseMatrix.Inverse
import MatrixScript.DenseMatrix.Profile

/-!
# Shapes of results

Every operation of the matrix algebra has a result of a shape that the shapes of its
operands determine.  A matrix is *well formed* if it has at least one row and one
column and as many elements as its shape says; only the constructors check this, and
all operations keep it.
-/

namespace MatrixScript

namespace DenseMatrix

variable {α : Type}

/-! ## Well-formed matrices -/

/-- There is at least one row and one column, and the elements fill them. -/
structure WellFormed (m : DenseMatrix α) : Prop where
  rows_pos : 1 ≤ m.rows
  cols_pos : 1 ≤ m.cols
  length_eq : m.toList.length = m.rows * m.cols

@[simp] theorem length_toList (m : DenseMatrix α) : m.toList.length = m.rows * m.cols := by
  simp [toList]

theorem wellFormed_iff {m : DenseMatrix α} : m.WellFormed ↔ 1 ≤ m.rows ∧ 1 ≤ m.cols :=
  ⟨fun h => ⟨h.rows_pos, h.cols_pos⟩, fun h => ⟨h.1, h.2, length_toList m⟩⟩

theorem WellFormed.of_shape_eq {β : Type} {m : DenseMatrix α} {n : DenseMatrix β}
    (h : m.WellFormed) (hshape : n.shape = m.shape) : n.WellFormed := by
  obtain ⟨hrows, hcols⟩ := Shape.mk.injEq .. ▸ hshape
  exact wellFormed_iff.mpr ⟨hrows ▸ h.rows_pos, hcols ▸ h.cols_pos⟩

/-- A product has the rows of its left operand and the columns of its right one. -/
theorem WellFormed.of_product {m a b : DenseMatrix α} (ha : a.WellFormed) (hb : b.WellFormed)
    (hshape : m.shape = ⟨a.rows, b.cols⟩) : m.WellFormed := by
  obtain ⟨hrows, hcols⟩ := Shape.mk.injEq .. ▸ hshape
  exact wellFormed_iff.mpr ⟨hrows ▸ ha.rows_pos, hcols ▸ hb.cols_pos⟩

theorem wellFormed_ofFn {rows cols : Nat} (hrows : 1 ≤ rows) (hcols : 1 ≤ cols)
    (f : Fin rows → Fin cols → α) : (ofFn rows cols f).WellFormed :=
  wellFormed_iff.mpr ⟨hrows, hcols⟩

/-- Elements make a matrix of the shape that they are given for. -/
theorem ofList?_eq_ok {rows cols : Nat} {data : List α} {m : DenseMatrix α}
    (h : ofList? rows cols data = .ok m) : m.shape = ⟨rows, cols⟩ ∧ m.WellFormed := by
  unfold ofList? at h
  split at h
  · rename_i hfits
    cases h
    exact ⟨rfl, wellFormed_iff.mpr
      ⟨Nat.one_le_iff_ne_zero.mpr hfits.1, Nat.one_le_iff_ne_zero.mpr hfits.2.1⟩⟩
  · cases h

/-- The elements of a matrix make it up again. -/
theorem ofList?_toList {m : DenseMatrix α} (hm : m.WellFormed) :
    ofList? m.rows m.cols m.toList = .ok m := by
  have hfits : m.rows ≠ 0 ∧ m.cols ≠ 0 ∧ m.toList.length = m.rows * m.cols :=
    ⟨Nat.one_le_iff_ne_zero.mp hm.rows_pos, Nat.one_le_iff_ne_zero.mp hm.cols_pos, hm.length_eq⟩
  rw [ofList?, dif_pos hfits]
  rfl

theorem shape_of_grid? {m : DenseMatrix α} {rows cols : Nat} {g : Grid α rows cols}
    (h : m.grid? rows cols = some g) : m.shape = ⟨rows, cols⟩ := by
  rw [grid?_eq_some_iff.mp h]
  rfl

/-! ## Operations -/

section Operations

variable {a b m n : DenseMatrix α}

theorem shape_zipWith {op : Operation} {f : α → α → α} (h : zipWith op f a b = .ok m) :
    m.shape = a.shape ∧ b.shape = a.shape := by
  unfold zipWith at h
  split at h
  · rename_i g hgrid
    cases h
    exact ⟨rfl, shape_of_grid? hgrid⟩
  · cases h

theorem WellFormed.zipWith {op : Operation} {f : α → α → α} (ha : a.WellFormed)
    (h : zipWith op f a b = .ok m) : m.WellFormed :=
  ha.of_shape_eq (shape_zipWith h).1

variable [Scalar α]

theorem shape_mul (h : mul a b = .ok m) : m.shape = ⟨a.rows, b.cols⟩ ∧ b.rows = a.cols := by
  unfold mul at h
  split at h
  · rename_i g hgrid
    cases h
    exact ⟨rfl, congrArg Shape.rows (shape_of_grid? hgrid)⟩
  · cases h

theorem shape_maxMin (h : maxMin a b = .ok m) :
    m.shape = ⟨a.rows, b.cols⟩ ∧ b.rows = a.cols := by
  unfold maxMin at h
  split at h
  · rename_i g hgrid
    cases h
    exact ⟨rfl, congrArg Shape.rows (shape_of_grid? hgrid)⟩
  · cases h

theorem shape_symmetricInverse (h : m.symmetricInverse = .ok n) :
    n.shape = m.shape ∧ m.IsSquare := by
  unfold symmetricInverse at h
  split at h
  · rename_i g hgrid
    have hshape := shape_of_grid? hgrid
    have hsquare : m.cols = m.rows := congrArg Shape.cols hshape
    cases hfactor : Cholesky.factor g with
    | error e => rw [hfactor] at h; cases h
    | ok l =>
        rw [hfactor] at h
        cases h
        exact ⟨hshape.symm, hsquare.symm⟩
  · cases h

end Operations

/-! ## Whether there is a result -/

section Success

variable {a b m : DenseMatrix α}

theorem exists_grid? {rows cols : Nat} (h : m.shape = ⟨rows, cols⟩) :
    ∃ g, m.grid? rows cols = some g := by
  obtain ⟨rows', cols', g⟩ := m
  cases h
  exact ⟨g, grid?_eq_some_iff.mpr rfl⟩

theorem grid?_eq_none {rows cols : Nat} (h : m.shape ≠ ⟨rows, cols⟩) :
    m.grid? rows cols = none := by
  refine Option.eq_none_iff_forall_ne_some.mpr fun g hgrid => h ?_
  exact shape_of_grid? hgrid

/-- There is a result exactly if the operands fit, it is of the given shape, and otherwise
the error is the given one. -/
def Determined (fits : Prop) (shape : Shape) (e : MatrixError α)
    (result : Except (MatrixError α) (DenseMatrix α)) : Prop :=
  (fits ∧ ∃ m, result = .ok m ∧ m.shape = shape) ∨ (¬ fits ∧ result = .error e)

theorem determined_zipWith (op : Operation) (f : α → α → α) (a b : DenseMatrix α) :
    Determined (b.shape = a.shape) a.shape (.mismatch op a.shape b.shape) (zipWith op f a b) := by
  unfold zipWith
  by_cases hshape : b.shape = a.shape
  · obtain ⟨g, hgrid⟩ := exists_grid? (show b.shape = ⟨a.rows, a.cols⟩ from hshape)
    rw [hgrid]
    exact .inl ⟨hshape, _, rfl, rfl⟩
  · rw [grid?_eq_none hshape]
    exact .inr ⟨hshape, rfl⟩

variable [Scalar α]

theorem determined_mul (a b : DenseMatrix α) :
    Determined (b.shape.rows = a.shape.cols) ⟨a.shape.rows, b.shape.cols⟩
      (.mismatch .product a.shape b.shape) (mul a b) := by
  unfold mul
  by_cases hinner : b.rows = a.cols
  · obtain ⟨g, hgrid⟩ := exists_grid? (show b.shape = ⟨a.cols, b.cols⟩ by rw [shape, hinner])
    rw [hgrid]
    exact .inl ⟨hinner, _, rfl, rfl⟩
  · rw [grid?_eq_none fun hshape => hinner (congrArg Shape.rows hshape)]
    exact .inr ⟨hinner, rfl⟩

theorem determined_maxMin (a b : DenseMatrix α) :
    Determined (b.shape.rows = a.shape.cols) ⟨a.shape.rows, b.shape.cols⟩
      (.mismatch .maxMinProduct a.shape b.shape) (maxMin a b) := by
  unfold maxMin
  by_cases hinner : b.rows = a.cols
  · obtain ⟨g, hgrid⟩ := exists_grid? (show b.shape = ⟨a.cols, b.cols⟩ by rw [shape, hinner])
    rw [hgrid]
    exact .inl ⟨hinner, _, rfl, rfl⟩
  · rw [grid?_eq_none fun hshape => hinner (congrArg Shape.rows hshape)]
    exact .inr ⟨hinner, rfl⟩

theorem factorColumns_error {n : Nat} {columns : List (Fin n)} {g : Grid α n n}
    {e : MatrixError α} (h : columns.foldlM Cholesky.factorColumn g = .error e) :
    ∃ pivot value, e = .notPositiveDefinite pivot value := by
  induction columns generalizing g with
  | nil => cases h
  | cons j columns ih =>
      rw [List.foldlM_cons] at h
      cases hcolumn : Cholesky.factorColumn g j with
      | ok next => rw [hcolumn] at h; exact ih h
      | error e' =>
          rw [hcolumn] at h
          cases h
          unfold Cholesky.factorColumn at hcolumn
          simp only at hcolumn
          split at hcolumn
          · cases hcolumn
          · cases hcolumn
            exact ⟨_, _, rfl⟩

/-- A square matrix has an inverse or is not positive definite. -/
theorem symmetricInverse_cases (m : DenseMatrix α) :
    (m.IsSquare ∧ ((∃ n, m.symmetricInverse = .ok n) ∨
      ∃ pivot value, m.symmetricInverse = .error (.notPositiveDefinite pivot value))) ∨
    (¬ m.IsSquare ∧ m.symmetricInverse = .error (.notSquare .inverse m.shape)) := by
  unfold symmetricInverse
  by_cases hsquare : m.IsSquare
  · obtain ⟨g, hgrid⟩ := exists_grid? (show m.shape = ⟨m.rows, m.rows⟩ by rw [shape, ← hsquare])
    simp only [hgrid]
    refine .inl ⟨hsquare, ?_⟩
    cases hfactor : Cholesky.factor g with
    | ok l => exact .inl ⟨_, rfl⟩
    | error e =>
        obtain ⟨pivot, value, rfl⟩ := factorColumns_error hfactor
        exact .inr ⟨pivot, value, rfl⟩
  · rw [grid?_eq_none fun hshape => hsquare (congrArg Shape.cols hshape).symm]
    exact .inr ⟨hsquare, rfl⟩

end Success

end DenseMatrix

end MatrixScript
