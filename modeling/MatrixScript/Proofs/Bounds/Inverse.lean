import MatrixScript.DenseMatrix.Inverse
import MatrixScript.Proofs.Bounds.Algebra

/-!
# The inverse on plain indices

The Cholesky factor and its inverse are built in place, column by column and row by row,
by reading and writing cells one at a time.  Written this way they come to what the
factorisation and the triangular inversion come to, so no column or row reaches past the
matrix.
-/

namespace MatrixScript

variable {α : Type} [Scalar α] {n : Nat}

namespace Indexed

/-! ## The factor -/

/-- What is left of the diagonal element `j`, read through plain indices. -/
def pivot (a : Grid α n n) (j : Nat) : Checked α α := do
  let square ← addUp (-0) j fun k => do
    let x ← a.read j k
    return x * x
  return (← a.read j j) - square

theorem pivot_eq (a : Grid α n n) {j : Nat} (hj : j < n) :
    pivot a j = .ok (Cholesky.pivot a ⟨j, hj⟩) := by
  unfold pivot Cholesky.pivot
  rw [addUp_eq_sum fun k => ?_, ok_bind, a.read_of_lt hj hj]
  · rfl
  · have hk : k.val < n := by omega
    rw [a.read_of_lt hj hk, ok_bind]
    rfl

/-- Element `(i, j)` of the factor below the diagonal, read through plain indices. -/
def entry (a : Grid α n n) (diagonal : α) (i j : Nat) : Checked α α := do
  let sum ← addUp (-0) j fun k => do return (← a.read i k) * (← a.read j k)
  return ((← a.read i j) - sum) / diagonal

theorem entry_eq (a : Grid α n n) (diagonal : α) {i j : Nat} (hi : i < n) (hj : j < n) :
    entry a diagonal i j = .ok (Cholesky.entry a diagonal ⟨i, hi⟩ ⟨j, hj⟩) := by
  unfold entry Cholesky.entry
  rw [addUp_eq_sum fun k => ?_, ok_bind, a.read_of_lt hi hj]
  · rfl
  · have hk : k.val < n := by omega
    rw [a.read_of_lt hi hk, ok_bind, a.read_of_lt hj hk]
    rfl

/-- Replaces column `j` of the grid by that of the factor, from the diagonal down, and
refuses if the pivot is not positive. -/
def factorColumn (a : Grid α n n) (j : Nat) : Checked α (Grid α n n) := do
  let value ← pivot a j
  if 0 < value then
    let diagonal := Scalar.sqrt value
    let a ← a.write j j diagonal
    loop (fun t a => do
      let i := j + 1 + t
      a.write i j (← entry a diagonal i j)) (n - (j + 1)) a
  else throw (.refused (.notPositiveDefinite j value))

/-- The grid after `t` entries of column `j` below the diagonal have been replaced. -/
def columnState (a : Grid α n n) (diagonal : α) (j : Fin n) (t : Nat) : Grid α n n :=
  Grid.ofFn fun i k =>
    if k = j ∧ i = j then diagonal
    else if k = j ∧ j < i ∧ i.val < j.val + 1 + t then Cholesky.entry a diagonal i j
    else a.get i k

/-- A row that has not been reached has its old element in column `j`, and the columns
before `j` are as they were. -/
theorem entry_columnState (a : Grid α n n) (diagonal : α) {i j : Fin n} {t : Nat}
    (hi : i.val = j.val + 1 + t) :
    Cholesky.entry (columnState a diagonal j t) diagonal i j =
      Cholesky.entry a diagonal i j := by
  have hij : i ≠ j := by omega
  have hbefore : ∀ k, Index.before j k ≠ j := fun k h => by
    have hk := congrArg Fin.val h
    simp only [Index.before] at hk
    omega
  have hold : (columnState a diagonal j t).get i j = a.get i j := by
    simp only [columnState, Grid.get_ofFn]
    rw [if_neg (by simp [hij]), if_neg (by omega)]
  have hleft : ∀ p k, (columnState a diagonal j t).get p (Index.before j k) =
      a.get p (Index.before j k) := by
    intro p k
    simp only [columnState, Grid.get_ofFn, hbefore k, false_and, if_false]
  simp only [Cholesky.entry, hold, hleft]

theorem factorColumn_eq (a : Grid α n n) (j : Fin n) :
    factorColumn a j = refusing (Cholesky.factorColumn a j) := by
  unfold factorColumn Cholesky.factorColumn
  rw [pivot_eq a j.isLt, ok_bind]
  by_cases hpivot : 0 < Cholesky.pivot a j
  · rw [if_pos hpivot, if_pos hpivot]
    dsimp only
    rw [Grid.write_of_lt _ j.isLt j.isLt, ok_bind]
    apply loop_eq_ok (columnState a (Scalar.sqrt (Cholesky.pivot a j)) j)
    · apply Grid.ext_get
      intro i k
      simp only [columnState, Grid.get_ofFn, Grid.get_set]
      grind
    · intro t ht
      have hi : j.val + 1 + t < n := by omega
      rw [entry_eq _ _ hi j.isLt, ok_bind, Grid.write_of_lt _ hi j.isLt,
        entry_columnState _ _ rfl]
      congr 1
      apply Grid.ext_get
      intro i k
      simp only [columnState, Grid.get_ofFn, Grid.get_set, Fin.ext_iff]
      grind
    · apply Grid.ext_get
      intro i k
      have hlast : i.val < j.val + 1 + (n - (j.val + 1)) := by omega
      simp only [columnState, Grid.get_ofFn, hlast, and_true]
  · rw [if_neg hpivot, if_neg hpivot]
    rfl

/-- The Cholesky factor over the lower triangle, column after column. -/
def factor (a : Grid α n n) : Checked α (Grid α n n) :=
  loop (fun j a => factorColumn a j) n a

theorem factor_eq (a : Grid α n n) : factor a = refusing (Cholesky.factor a) := by
  have hcolumn : ∀ (j : Fin n) (a : Grid α n n),
      factorColumn a j = refusing ((Cholesky.factorColumn a j).map id) := by
    intro j a
    rw [Except.map_id]
    exact factorColumn_eq a j
  have hloop : factor a = refusing ((Cholesky.factor a).map id) := loop_eq_foldlM id hcolumn a
  rwa [Except.map_id] at hloop

end Indexed

/-! ## The inverse of a lower triangle, row by row -/

namespace Cholesky

/-- The step of `invertLower` at row `i`. -/
def invertRow (l x : Grid α n n) (i : Fin n) : Grid α n n :=
  Grid.ofFn fun k j => if k = i then inverseEntry l x i j else x.get k j

theorem invertLower_eq (l : Grid α n n) :
    invertLower l = (List.finRange n).foldl (invertRow l) (Grid.ofFn fun _ _ => 0) := rfl

theorem get_foldl_invertRow {l x : Grid α n n} {rows : List (Fin n)} {k : Fin n}
    (hk : k ∉ rows) (j : Fin n) : (rows.foldl (invertRow l) x).get k j = x.get k j := by
  induction rows generalizing x with
  | nil => rfl
  | cons i rows ih =>
      obtain ⟨hki, hrows⟩ := List.ne_and_not_mem_of_not_mem_cons hk
      rw [List.foldl_cons, ih hrows, invertRow, Grid.get_ofFn, if_neg hki]

/-- An element of the inverse needs of the inverse only the rows above its own. -/
theorem inverseEntry_congr {l x y : Grid α n n} {i : Fin n}
    (h : ∀ k, k < i → ∀ j, x.get k j = y.get k j) (j : Fin n) :
    inverseEntry l x i j = inverseEntry l y i j := by
  have hrow : ∀ k, x.get (Index.between j i k) j = y.get (Index.between j i k) j := by
    intro k
    apply h
    show j.val + k.val < i.val
    omega
  simp only [inverseEntry, hrow]

/-- In the finished inverse every row comes from those above it. -/
theorem get_invertLower (l : Grid α n n) (i j : Fin n) :
    (invertLower l).get i j = inverseEntry l (invertLower l) i j := by
  obtain ⟨above, below, hsplit⟩ := List.append_of_mem (List.mem_finRange i)
  have hsorted := List.pairwise_lt_finRange n
  rw [hsplit, List.pairwise_append, List.pairwise_cons] at hsorted
  obtain ⟨-, ⟨hbelow, -⟩, -⟩ := hsorted
  have hinverse : invertLower l = below.foldl (invertRow l)
      (invertRow l (above.foldl (invertRow l) (Grid.ofFn fun _ _ => 0)) i) := by
    rw [invertLower_eq, hsplit, List.foldl_append, List.foldl_cons]
  have hrow : (invertLower l).get i j =
      inverseEntry l (above.foldl (invertRow l) (Grid.ofFn fun _ _ => 0)) i j := by
    rw [hinverse, get_foldl_invertRow fun h => Nat.lt_irrefl _ (hbelow i h), invertRow,
      Grid.get_ofFn, if_pos rfl]
  rw [hrow]
  apply inverseEntry_congr
  intro k hk q
  have hkbelow : k ∉ below := fun h => Nat.lt_asymm hk (hbelow k h)
  rw [hinverse, get_foldl_invertRow hkbelow, invertRow, Grid.get_ofFn,
    if_neg (Fin.ne_of_lt hk)]

theorem get_invertLower_self (l : Grid α n n) (i : Fin n) :
    (invertLower l).get i i = 1 / l.get i i := by
  rw [get_invertLower, inverseEntry, if_pos rfl]

theorem get_invertLower_of_lt (l : Grid α n n) {i j : Fin n} (h : j < i) :
    (invertLower l).get i j = -(1 / l.get i i) *
      Scalar.sum fun k =>
        l.get i (Index.between j i k) * (invertLower l).get (Index.between j i k) j := by
  rw [get_invertLower, inverseEntry, if_neg (Fin.ne_of_lt h), if_pos h]

end Cholesky

namespace Indexed

/-! ## The inverse of a lower triangle, in place -/

/-- Replaces the elements on the diagonal by their inverses. -/
def invertDiagonal (a : Grid α n n) : Checked α (Grid α n n) :=
  loop (fun i a => do a.write i i (1 / (← a.read i i))) n a

theorem invertDiagonal_eq (l : Grid α n n) :
    invertDiagonal l =
      .ok (Grid.ofFn fun p q => if p = q then 1 / l.get p p else l.get p q) := by
  apply loop_eq_ok fun t => Grid.ofFn fun p q =>
    if p = q ∧ p.val < t then 1 / l.get p p else l.get p q
  · apply Grid.ext_get
    intro p q
    simp only [Grid.get_ofFn, Nat.not_lt_zero, and_false, if_false]
  · intro t ht
    rw [Grid.read_of_lt _ ht ht, ok_bind, Grid.write_of_lt _ ht ht]
    congr 1
    apply Grid.ext_get
    intro p q
    simp only [Grid.get_set, Grid.get_ofFn, Fin.ext_iff]
    grind
  · apply Grid.ext_get
    intro p q
    simp only [Grid.get_ofFn, p.isLt, and_true]

/-- Element `(i, j)` of the inverse below the diagonal, from row `i` of the triangle and
column `j` of the inverse down to row `i`. -/
def inverseEntry (a : Grid α n n) (i j : Nat) : Checked α α := do
  let sum ← addUp (-0) (i - j) fun k => do return (← a.read i (j + k)) * (← a.read (j + k) j)
  return -(← a.read i i) * sum

/-- Replaces the triangle by its inverse, column after column. -/
def invertLower (a : Grid α n n) : Checked α (Grid α n n) := do
  let a ← invertDiagonal a
  loop (fun j a =>
    loop (fun t a => do a.write (j + 1 + t) j (← inverseEntry a (j + 1 + t) j)) (n - (j + 1)) a)
    n a

/-- The triangle after its diagonal, the columns before `j` and `t` elements of column `j`
have been replaced. -/
def inverseState (l : Grid α n n) (j t : Nat) : Grid α n n :=
  Grid.ofFn fun p q =>
    if p = q ∨ q < p ∧ (q.val < j ∨ q.val = j ∧ p.val < j + 1 + t) then
      (Cholesky.invertLower l).get p q
    else l.get p q

theorem inverseEntry_inverseState (l : Grid α n n) {i j : Fin n} {t : Nat}
    (hi : i.val = j.val + 1 + t) :
    inverseEntry (inverseState l j t) i j = .ok ((Cholesky.invertLower l).get i j) := by
  have hji : j < i := by omega
  unfold inverseEntry
  rw [addUp_eq_sum fun k => ?_, ok_bind, Grid.read_val, ok_bind,
    Cholesky.get_invertLower_of_lt l hji]
  · rw [inverseState, Grid.get_ofFn, if_pos (Or.inl rfl), Cholesky.get_invertLower_self]
    rfl
  · -- Row `i` still is that of the triangle, and column `j` has been replaced up to it.
    have hk : j.val + k.val < i.val := Nat.add_lt_of_lt_sub' k.isLt
    have hkn : j.val + k.val < n := by omega
    rw [Grid.read_of_lt _ i.isLt hkn, ok_bind, Grid.read_of_lt _ hkn j.isLt, ok_bind]
    simp only [inverseState, Grid.get_ofFn, Index.between, Fin.ext_iff, Fin.lt_def, true_and]
    rw [if_neg (by omega), if_pos (by omega)]
    rfl

theorem invertLower_eq (l : Grid α n n) :
    invertLower l = .ok (Grid.ofFn fun p q =>
      if q ≤ p then (Cholesky.invertLower l).get p q else l.get p q) := by
  unfold invertLower
  rw [invertDiagonal_eq, ok_bind]
  apply loop_eq_ok fun j => inverseState l j 0
  · apply Grid.ext_get
    intro p q
    simp only [inverseState, Grid.get_ofFn]
    grind [Cholesky.get_invertLower_self]
  · intro j hj
    apply loop_eq_ok (inverseState l j) rfl
    · intro t ht
      have hi : j + 1 + t < n := by omega
      have hentry : inverseEntry (inverseState l j t) (j + 1 + t) j =
          .ok ((Cholesky.invertLower l).get ⟨j + 1 + t, hi⟩ ⟨j, hj⟩) :=
        inverseEntry_inverseState (i := ⟨j + 1 + t, hi⟩) (j := ⟨j, hj⟩) l rfl
      rw [hentry, ok_bind, Grid.write_of_lt _ hi hj]
      congr 1
      apply Grid.ext_get
      intro p q
      simp only [inverseState, Grid.get_set, Grid.get_ofFn, Fin.ext_iff, Fin.lt_def]
      grind
    · apply Grid.ext_get
      intro p q
      have hp : p.val < n := p.isLt
      simp only [inverseState, Grid.get_ofFn, Fin.ext_iff, Fin.lt_def]
      grind
  · apply Grid.ext_get
    intro p q
    have hp : p.val < n := p.isLt
    have hq : q.val < n := q.isLt
    simp only [inverseState, Grid.get_ofFn, Fin.ext_iff, Fin.lt_def, Fin.le_def]
    grind

/-! ## The inverse of a matrix -/

/-- Element `(i, j)` of the product of the transpose of a lower triangle and the triangle. -/
def gram (x : Grid α n n) (i j : Nat) : Checked α α :=
  addUp (-0) (n - max i j) fun k => do
    return (← x.read (max i j + k) i) * (← x.read (max i j + k) j)

/-- The triangle is not read above its diagonal. -/
theorem gram_eq {x y : Grid α n n} (h : ∀ i j, j ≤ i → x.get i j = y.get i j) (i j : Fin n) :
    gram x i j = .ok (Cholesky.gram y i j) := by
  unfold gram Cholesky.gram
  have hfirst : max i.val j.val = (if i ≤ j then j else i).val := by
    simp only [Nat.max_def, Fin.le_def]
    split <;> rfl
  rw [hfirst]
  apply addUp_eq_sum
  intro k
  generalize hfrom : (if i ≤ j then j else i) = first at k
  have hi : i ≤ first := by grind
  have hj : j ≤ first := by grind
  have hk : first.val + k.val < n := Nat.add_lt_of_lt_sub' k.isLt
  rw [Grid.read_of_lt _ hk i.isLt, ok_bind, Grid.read_of_lt _ hk j.isLt, ok_bind,
    h _ _ (Nat.le_add_right_of_le hi), h _ _ (Nat.le_add_right_of_le hj)]
  rfl

/-- The inverse of a square matrix, through its factor. -/
def symmetricInverse (m : DenseMatrix α) : Checked α (DenseMatrix α) :=
  if m.cols = m.rows then do
    let a ← copy m
    let l ← factor a
    let x ← invertLower l
    matrixOf m.rows m.rows (gram x)
  else .error (.refused (.notSquare .inverse m.shape))

theorem symmetricInverse_eq (m : DenseMatrix α) :
    symmetricInverse m = refusing m.symmetricInverse := by
  obtain ⟨rows, cols, g⟩ := m
  unfold symmetricInverse DenseMatrix.symmetricInverse
  by_cases hsquare : cols = rows
  · subst hsquare
    rw [if_pos rfl, copy_mk, ok_bind, factor_eq, DenseMatrix.grid?_eq_some_iff.mpr rfl]
    dsimp only
    cases Cholesky.factor g with
    | error e => rfl
    | ok l =>
        rw [refusing_ok, ok_bind, invertLower_eq, ok_bind]
        apply matrixOf_eq_ok
        apply gram_eq
        intro i j hji
        rw [Grid.get_ofFn, if_pos hji]
  · have hshape : (⟨rows, cols, g⟩ : DenseMatrix α).shape ≠ ⟨rows, rows⟩ := fun h =>
      hsquare (congrArg Shape.cols h)
    rw [if_neg hsquare, DenseMatrix.grid?_eq_none hshape]
    rfl

end Indexed

end MatrixScript
