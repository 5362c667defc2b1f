import MatrixScript.Proofs.Matrix.Rows
import MatrixScript.Proofs.Matrix.Shape

/-!
# Matrices from rows

A matrix is made from rows by counting: rows of another length than the first are left out,
and the elements of the others have to fill the matrix.  This refuses exactly the rows that
are not rectangular, because longer rows cannot make up for shorter ones: each row that is
left out leaves a whole row of elements missing.  What is accepted is read back by every
way of reading the matrix, and the rows of a matrix make it up again.
-/

namespace MatrixScript

variable {α : Type}

/-- A row is stored in one stretch, after those of the rows before it. -/
theorem Grid.row_eq_stretch {r c : Nat} (g : Grid α r c) (i : Fin r) :
    g.row i = (g.cells.toList.drop (i.val * c)).take c := by
  apply List.ext_getElem
  · have hle : (i.val + 1) * c ≤ r * c := Nat.mul_le_mul_right c i.isLt
    rw [Nat.succ_mul] at hle
    simp only [length_row, List.length_take, List.length_drop, Vector.length_toList]
    omega
  · intro j hj hj'
    simp [row, get, Vector.get]

namespace DenseMatrix

/-! ## Rectangular rows -/

/-- There is a row, the first row has an element, and all rows have one length. -/
def Rectangular (rows : List (List α)) : Prop :=
  rows ≠ [] ∧ (∀ first ∈ rows.head?, first ≠ []) ∧
    ∀ row ∈ rows, ∀ row' ∈ rows, row.length = row'.length

instance (rows : List (List α)) : Decidable (Rectangular rows) :=
  inferInstanceAs (Decidable (_ ∧ _ ∧ _))

/-- The length of the first row. -/
def width (rows : List (List α)) : Nat := (rows.headD []).length

/-- The rows that are as long as the first. -/
def fitting (rows : List (List α)) : List (List α) :=
  rows.filter fun row => row.length = width rows

variable {rows : List (List α)} {m : DenseMatrix α}

theorem length_flatten_fitting (rows : List (List α)) :
    (fitting rows).flatten.length = (fitting rows).length * width rows := by
  have hlengths : ∀ n ∈ (fitting rows).map List.length, n = width rows := by
    intro n hn
    obtain ⟨row, hrow, rfl⟩ := List.mem_map.mp hn
    exact of_decide_eq_true (List.mem_filter.mp hrow).2
  rw [List.length_flatten, List.eq_replicate_of_mem hlengths, List.sum_replicate_nat,
    List.length_map]

theorem rectangular_iff :
    Rectangular rows ↔ width rows ≠ 0 ∧ ∀ row ∈ rows, row.length = width rows := by
  cases rows with
  | nil => simp [Rectangular, width]
  | cons first rest =>
      have hfirst : first ∈ first :: rest := List.mem_cons_self
      simp only [Rectangular, width, List.headD_cons, List.head?_cons, Option.mem_some_iff,
        forall_eq', ne_eq, reduceCtorEq, not_false_eq_true, true_and, List.length_eq_zero_iff]
      refine and_congr_right fun _ => ⟨fun h row hrow => h row hrow first hfirst, ?_⟩
      intro h row hrow row' hrow'
      rw [h row hrow, h row' hrow']

theorem Rectangular.fitting_eq (h : Rectangular rows) : fitting rows = rows := by
  apply List.filter_eq_self.mpr
  intro row hrow
  exact decide_eq_true ((rectangular_iff.mp h).2 row hrow)

theorem Rectangular.rows_pos (h : Rectangular rows) : 1 ≤ rows.length :=
  List.length_pos_iff.mpr h.1

/-- The elements of the rows that are as long as the first are enough to fill the matrix only if
no row was left out. -/
theorem rectangular_of_fits (hwidth : width rows ≠ 0)
    (hfits : (fitting rows).flatten.length = rows.length * width rows) : Rectangular rows := by
  rw [length_flatten_fitting] at hfits
  -- both sides now count whole rows, those that fit and those that were given
  have hall : (fitting rows).length = rows.length :=
    Nat.eq_of_mul_eq_mul_right (Nat.pos_of_ne_zero hwidth) hfits
  refine rectangular_iff.mpr ⟨hwidth, fun row hrow => ?_⟩
  exact of_decide_eq_true (List.length_filter_eq_length_iff.mp hall row hrow)

/-! ## Building and reading back -/

theorem ofRows?_of_rectangular (h : Rectangular rows) :
    ∃ m, ofRows? rows = .ok m ∧ m.toRows = rows := by
  obtain ⟨hwidth, hlength⟩ := rectangular_iff.mp h
  obtain ⟨g, hg⟩ := Grid.exists_toRows_eq rfl hlength
  have hwell : (⟨rows.length, width rows, g⟩ : DenseMatrix α).WellFormed :=
    wellFormed_iff.mpr ⟨h.rows_pos, Nat.one_le_iff_ne_zero.mpr hwidth⟩
  refine ⟨⟨rows.length, width rows, g⟩, ?_, hg⟩
  calc ofRows? rows
      = ofList? rows.length (width rows) (fitting rows).flatten := rfl
    _ = ofList? rows.length (width rows) g.cells.toList := by
        rw [h.fitting_eq, ← g.flatten_toRows, hg]
    _ = .ok ⟨rows.length, width rows, g⟩ := ofList?_toList hwell

theorem ofRows?_of_not_rectangular (h : ¬ Rectangular rows) :
    ofRows? rows = .error ⟨⟨rows.length, width rows⟩, (fitting rows).length * width rows⟩ := by
  have hfits : ¬ (rows.length ≠ 0 ∧ width rows ≠ 0 ∧
      (fitting rows).flatten.length = rows.length * width rows) :=
    fun hall => h (rectangular_of_fits hall.2.1 hall.2.2)
  rw [← length_flatten_fitting]
  exact dif_neg hfits

theorem ofRows?_eq_ok_iff : ofRows? rows = .ok m ↔ Rectangular rows ∧ m.toRows = rows := by
  constructor
  · intro hm
    by_cases h : Rectangular rows
    · obtain ⟨m', hm', hrows⟩ := ofRows?_of_rectangular h
      cases hm.symm.trans hm'
      exact ⟨h, hrows⟩
    · cases hm.symm.trans (ofRows?_of_not_rectangular h)
  · rintro ⟨h, hrows⟩
    obtain ⟨m', hm', hrows'⟩ := ofRows?_of_rectangular h
    have hpos : 1 ≤ m'.rows := by
      rw [← Grid.length_toRows m'.grid, ← toRows, hrows']
      exact h.rows_pos
    rw [hm', eq_of_toRows_eq hpos (hrows'.trans hrows.symm)]

theorem WellFormed.rectangular_toRows (h : m.WellFormed) : Rectangular m.toRows := by
  have hlength : ∀ row ∈ m.toRows, row.length = m.cols := fun _ => Grid.length_of_mem_toRows
  refine ⟨?_, ?_, ?_⟩
  · apply List.ne_nil_of_length_pos
    rw [toRows, Grid.length_toRows]
    exact h.rows_pos
  · intro first hfirst
    apply List.ne_nil_of_length_pos
    rw [hlength first (List.mem_of_mem_head? hfirst)]
    exact h.cols_pos
  · intro row hrow row' hrow'
    rw [hlength row hrow, hlength row' hrow']

/-- Every way of reading the matrix gives these rows: row by row, all of them, by the places where
they are stored, and element by element. -/
structure ReadsBack (m : DenseMatrix α) (rows : List (List α)) : Prop where
  rows_eq : m.rows = rows.length
  cols_eq : ∀ row ∈ rows, row.length = m.cols
  row : ∀ i : Fin m.rows, rows[i.val]? = some (m.grid.row i)
  all : m.toRows = rows
  stretch : ∀ i : Fin m.rows,
    rows[i.val]? = some ((m.toList.drop (i.val * m.cols)).take m.cols)
  element : ∀ (i : Fin m.rows) (j : Fin m.cols),
    (rows[i.val]?.bind fun row => row[j.val]?) = some (m.get i j)

theorem readsBack_toRows (m : DenseMatrix α) : m.ReadsBack m.toRows := by
  have hrow : ∀ i : Fin m.rows, m.toRows[i.val]? = some (m.grid.row i) :=
    fun i => m.grid.getElem?_toRows_of_lt i.isLt
  refine ⟨(Grid.length_toRows m.grid).symm, fun _ => Grid.length_of_mem_toRows, hrow, rfl, ?_, ?_⟩
  · intro i
    rw [hrow i, m.grid.row_eq_stretch i]
    rfl
  · intro i j
    rw [hrow i]
    simp [Grid.row, get]

/-- Rows make a matrix exactly if they are rectangular, and the matrix is then read back as these
rows; all other rows are refused with the shape and the number of elements that they were counted
for.  The rows of a well-formed matrix make that matrix. -/
theorem ofRows?_accepts_rectangular :
    (∀ rows : List (List α),
      ((∃ m, ofRows? rows = .ok m) ↔ Rectangular rows) ∧
      (∀ m, ofRows? rows = .ok m → m.ReadsBack rows) ∧
      (¬ Rectangular rows → ofRows? rows =
        .error ⟨⟨rows.length, width rows⟩, (fitting rows).length * width rows⟩)) ∧
    ∀ m : DenseMatrix α, m.WellFormed → ofRows? m.toRows = .ok m := by
  refine ⟨fun rows => ⟨⟨?_, ?_⟩, ?_, ofRows?_of_not_rectangular⟩, ?_⟩
  · rintro ⟨m, hm⟩
    exact (ofRows?_eq_ok_iff.mp hm).1
  · intro h
    obtain ⟨m, hm, _⟩ := ofRows?_of_rectangular h
    exact ⟨m, hm⟩
  · intro m hm
    rw [← (ofRows?_eq_ok_iff.mp hm).2]
    exact readsBack_toRows m
  · intro m hm
    exact ofRows?_eq_ok_iff.mpr ⟨hm.rectangular_toRows, rfl⟩

/-- A longer row does not make up for a shorter one, although there are as many elements as three
rows of two have. -/
theorem ofRows?_accepts_rectangular_ragged :
    ¬ Rectangular [[1, 2], [3], [4, 5, 6]] ∧
      ofRows? [[1, 2], [3], [4, 5, 6]] = .error ⟨⟨3, 2⟩, 2⟩ ∧
      Rectangular [[1, 2, 3], [4, 5, 6]] ∧
      ∃ m : DenseMatrix Nat, ofRows? [[1, 2, 3], [4, 5, 6]] = .ok m ∧
        m.ReadsBack [[1, 2, 3], [4, 5, 6]] ∧ m.WellFormed ∧ ofRows? m.toRows = .ok m := by
  have hragged : ¬ Rectangular [[1, 2], [3], [4, 5, 6]] := by decide
  have hrows : Rectangular [[1, 2, 3], [4, 5, 6]] := by decide
  obtain ⟨hbuild, hback⟩ := @ofRows?_accepts_rectangular Nat
  obtain ⟨m, hm⟩ := (hbuild [[1, 2, 3], [4, 5, 6]]).1.mpr hrows
  have hwell : m.WellFormed := (ofList?_eq_ok hm).2
  exact ⟨hragged, (hbuild _).2.2 hragged, hrows, m, hm, (hbuild _).2.1 m hm, hwell, hback m hwell⟩

end DenseMatrix

end MatrixScript
