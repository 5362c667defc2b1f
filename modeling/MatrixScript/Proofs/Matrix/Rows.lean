import Mathlib.Data.List.OfFn
import MatrixScript.DenseMatrix.Basic

/-!
# Rows of a grid

A grid as the list of its rows: the rows by their numbers, and all of them one after
another, which is how the grid is stored.
-/

namespace MatrixScript

variable {α : Type}

namespace Grid

variable {r c : Nat} {g : Grid α r c} {i : Nat} {row : List α}

@[simp] theorem length_toRows (g : Grid α r c) : g.toRows.length = r := by
  simp [toRows]

@[simp] theorem length_row (g : Grid α r c) (i : Fin r) : (g.row i).length = c := by
  simp [row]

theorem getElem?_toRows_of_lt (g : Grid α r c) (hi : i < r) :
    g.toRows[i]? = some (g.row ⟨i, hi⟩) := by
  simp [toRows, hi]

theorem getElem?_toRows_eq_some_iff :
    g.toRows[i]? = some row ↔ ∃ hi : i < r, g.row ⟨i, hi⟩ = row := by
  constructor
  · intro h
    have hi : i < r := by
      have hlength := (List.getElem?_eq_some_iff.mp h).1
      rwa [length_toRows] at hlength
    rw [getElem?_toRows_of_lt g hi] at h
    exact ⟨hi, Option.some.inj h⟩
  · rintro ⟨hi, rfl⟩
    exact getElem?_toRows_of_lt g hi

theorem length_of_mem_toRows (h : row ∈ g.toRows) : row.length = c := by
  obtain ⟨i, rfl⟩ := List.mem_ofFn.mp h
  exact length_row g i

/-- Rows that are the same list have the same elements, column by column. -/
theorem get_eq_of_row_eq {r' : Nat} {g' : Grid α r' c} {i : Fin r} {i' : Fin r'}
    (h : g.row i = g'.row i') : g.get i = g'.get i' :=
  List.ofFn_injective h

/-- The rows one after another are the cells in the order in which they are stored. -/
theorem flatten_toRows (g : Grid α r c) : g.toRows.flatten = g.cells.toList := by
  have hcells : g.cells.toList = List.ofFn g.cells.get := by
    apply List.ext_getElem
    · simp
    · intro t ht ht'
      simp [Vector.get]
  rw [hcells, List.ofFn_mul]
  rfl

/-- Rows of one length are the rows of a grid. -/
theorem exists_toRows_eq {rows : List (List α)} (hlength : rows.length = r)
    (h : ∀ row ∈ rows, row.length = c) : ∃ g : Grid α r c, g.toRows = rows := by
  subst hlength
  have hcell : ∀ (i : Fin rows.length) (j : Fin c), j.val < (rows.get i).length := by
    intro i j
    rw [h _ (List.get_mem rows i)]
    exact j.isLt
  refine ⟨ofFn fun i j => (rows.get i).get ⟨j, hcell i j⟩, ?_⟩
  apply List.ext_getElem (length_toRows _)
  intro i hi hi'
  apply List.ext_getElem
  · simp [toRows, h _ (List.getElem_mem hi')]
  · intro j hj hj'
    simp [toRows, row]

end Grid

/-- Two matrices with the same rows are the same, unless there is no row. -/
theorem DenseMatrix.eq_of_toRows_eq {m n : DenseMatrix α} (hm : 1 ≤ m.rows)
    (h : m.toRows = n.toRows) : m = n := by
  obtain ⟨r, c, g⟩ := m
  obtain ⟨r', c', g'⟩ := n
  have hrows : r = r' := by
    have hlength := congrArg List.length h
    rwa [DenseMatrix.toRows, DenseMatrix.toRows, Grid.length_toRows, Grid.length_toRows] at hlength
  subst hrows
  have hrow : ∀ i : Fin r, g.row i = g'.row i := fun i => congrFun (List.ofFn_injective h) i
  have hcols : c = c' := by
    have hlength := congrArg List.length (hrow ⟨0, hm⟩)
    rwa [Grid.length_row, Grid.length_row] at hlength
  subst hcols
  have hgrid : g = g' := Grid.ext_get fun i j => congrFun (Grid.get_eq_of_row_eq (hrow i)) j
  rw [hgrid]

end MatrixScript
