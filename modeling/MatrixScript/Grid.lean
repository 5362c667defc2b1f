/-!
# Grids

A `Grid α r c` has `r` rows of `c` cells, stored row after row. Its size is part of its type, and a cell
is read by two indices that are in range by their types, so no routine on grids can leave them. Grids
are built whole, by `Grid.ofFn`, and `get_ofFn` is all that is known of them.
-/

namespace MatrixScript

/-- Cells in `r` rows of `c` each, stored row after row. -/
structure Grid (α : Type) (r c : Nat) where
  cells : Vector α (r * c)

namespace Grid

variable {α : Type} {r c : Nat}

theorem offset_lt {i j : Nat} (hi : i < r) (hj : j < c) : i * c + j < r * c := by
  have h : (i + 1) * c ≤ r * c := Nat.mul_le_mul_right c hi
  rw [Nat.add_mul, Nat.one_mul] at h
  omega

theorem row_lt {t : Nat} (h : t < r * c) : t / c < r :=
  Nat.div_lt_of_lt_mul (by rwa [Nat.mul_comm] at h)

theorem column_lt {t : Nat} (h : t < r * c) : t % c < c :=
  Nat.mod_lt t (Nat.pos_of_ne_zero fun hc => by simp [hc] at h)

def get (g : Grid α r c) (i : Fin r) (j : Fin c) : α :=
  g.cells.get ⟨i.val * c + j.val, offset_lt i.isLt j.isLt⟩

@[specialize]
def ofFn (f : Fin r → Fin c → α) : Grid α r c where
  cells := Vector.ofFn fun t => f ⟨t.val / c, row_lt t.isLt⟩ ⟨t.val % c, column_lt t.isLt⟩

@[simp]
theorem get_ofFn (f : Fin r → Fin c → α) (i : Fin r) (j : Fin c) : (ofFn f).get i j = f i j := by
  have hc : 0 < c := j.pos
  have hrow : (i.val * c + j.val) / c = i.val := by
    rw [Nat.mul_comm, Nat.mul_add_div hc, Nat.div_eq_of_lt j.isLt, Nat.add_zero]
  have hcolumn : (i.val * c + j.val) % c = j.val := by
    rw [Nat.mul_comm, Nat.mul_add_mod, Nat.mod_eq_of_lt j.isLt]
  have hoffset : i.val * c + j.val < r * c := offset_lt i.isLt j.isLt
  change (Vector.ofFn _)[i.val * c + j.val] = _
  rw [Vector.getElem_ofFn]
  simp only [hrow, hcolumn]

/-- Two grids with the same cells are the same. -/
theorem ext_get {g g' : Grid α r c} (h : ∀ i j, g.get i j = g'.get i j) : g = g' := by
  obtain ⟨v⟩ := g
  obtain ⟨v'⟩ := g'
  congr 1
  apply Vector.ext
  intro t ht
  have hcell := h ⟨t / c, row_lt ht⟩ ⟨t % c, column_lt ht⟩
  have hoffset : t / c * c + t % c = t := Nat.div_add_mod' t c
  have hlt : t / c * c + t % c < r * c := by omega
  change v[t / c * c + t % c] = v'[t / c * c + t % c] at hcell
  simpa only [hoffset] using hcell

def row (g : Grid α r c) (i : Fin r) : List α :=
  List.ofFn fun j => g.get i j

def toRows (g : Grid α r c) : List (List α) :=
  List.ofFn fun i => g.row i

def map {β : Type} (f : α → β) (g : Grid α r c) : Grid β r c where
  cells := g.cells.map f

@[simp]
theorem get_map {β : Type} (f : α → β) (g : Grid α r c) (i : Fin r) (j : Fin c) :
    (g.map f).get i j = f (g.get i j) := by
  have hoffset : i.val * c + j.val < r * c := offset_lt i.isLt j.isLt
  change (g.cells.map f)[i.val * c + j.val] = f g.cells[i.val * c + j.val]
  rw [Vector.getElem_map]

end Grid

end MatrixScript
