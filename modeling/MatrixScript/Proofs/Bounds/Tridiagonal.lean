import MatrixScript.Proofs.Bounds.Reflection

/-!
# The reduction to tridiagonal form on plain indices

After the rows have been reduced, the reflections are multiplied out over the place where
they were kept, and the diagonal, which was moved to the last row meanwhile, is taken
out.
-/

namespace MatrixScript

namespace Indexed

variable {α : Type} [Scalar α] {n : Nat}

/-! ## The product of the reflections -/

/-- Takes a multiple of the first `count` entries of `d` off those of column `j`. -/
def subtractColumn (v : Grid α n n) (d : Vector α n) (count j : Nat) (x : α) :
    Checked α (Grid α n n) :=
  loop (fun k v => do
    let y ← v.read k j
    v.write k j (y - x * (← readAt d k))) count v

theorem subtractColumn_eq (v : Grid α n n) (d : Vector α n) {count j : Nat} (hcount : count ≤ n)
    (hj : j < n) (x : α) :
    subtractColumn v d count j x = .ok (Grid.ofFn fun k c =>
      if k.val < count ∧ c.val = j then v.get k c - x * d.get k else v.get k c) := by
  apply loop_eq_ok fun m => Grid.ofFn fun k c =>
    if k.val < m ∧ c.val = j then v.get k c - x * d.get k else v.get k c
  · apply Grid.ext_get
    intro k c
    simp
  · intro m hm
    have hmn : m < n := by omega
    rw [Grid.read_of_lt _ hmn hj, ok_bind, readAt_of_lt _ hmn, ok_bind, Grid.write_of_lt _ hmn hj]
    congr 1
    apply Grid.ext_get
    intro k c
    simp only [Grid.get_set, Grid.get_ofFn, Fin.ext_iff]
    grind
  · rfl

/-- The inner product of column `j` with the reflection in column `i + 1`, over the first
`i + 1` rows. -/
def innerColumn (v : Grid α n n) (i j : Nat) : Checked α α :=
  addUp (-0) (i + 1) fun k => do return (← v.read k (i + 1)) * (← v.read k j)

theorem innerColumn_eq (v : Grid α n n) (i : Fin (n - 1)) {j : Nat} (hj : j < n) :
    innerColumn v i j = .ok (Scalar.sum fun k =>
      v.get (Index.upTo i k) (Index.next i) * v.get (Index.upTo i k) ⟨j, hj⟩) := by
  apply addUp_eq_sum
  intro k
  have hk : k.val < n := by omega
  have hnext : i.val + 1 < n := by omega
  rw [Grid.read_of_lt _ hk hnext, ok_bind, Grid.read_of_lt _ hk hj]
  rfl

/-- Multiplies the reflection in column `i + 1` into the leading block; `d` holds its
vector over half its squared length. -/
def multiplyReflection (v : Grid α n n) (d : Vector α n) (i : Nat) : Checked α (Grid α n n) :=
  loop (fun j v => do
    let g ← innerColumn v i j
    subtractColumn v d (i + 1) j g) (i + 1) v

/-- The grid after the columns before `j` have been multiplied. -/
def multipliedState (v : Grid α n n) (d : Vector α n) (i : Fin (n - 1)) (j : Nat) : Grid α n n :=
  Grid.ofFn fun k c =>
    if k.val < i.val + 1 ∧ c.val < j then
      v.get k c - (Scalar.sum fun m =>
        v.get (Index.upTo i m) (Index.next i) * v.get (Index.upTo i m) c) * d.get k
    else v.get k c

theorem get_multipliedState_of_le (v : Grid α n n) (d : Vector α n) (i : Fin (n - 1)) {j : Nat}
    (k : Fin n) {c : Fin n} (hc : j ≤ c.val) : (multipliedState v d i j).get k c = v.get k c := by
  rw [multipliedState, Grid.get_ofFn, if_neg fun h => Nat.not_lt_of_le hc h.2]

theorem multiplyReflection_eq (v : Grid α n n) (d : Vector α n) (i : Fin (n - 1)) :
    multiplyReflection v d i = .ok (multipliedState v d i (i.val + 1)) := by
  have hcount : i.val + 1 ≤ n := by omega
  apply loop_eq_ok (multipliedState v d i)
  · apply Grid.ext_get
    intro k c
    exact get_multipliedState_of_le v d i k (Nat.zero_le c)
  · intro j hj
    have hjn : j < n := by omega
    -- Neither column `j` nor the one of the reflection has been touched.
    have hreflection : ∀ k, (multipliedState v d i j).get k (Index.next i) =
        v.get k (Index.next i) := fun k =>
      get_multipliedState_of_le v d i k (Nat.le_of_lt hj)
    have hcolumn : ∀ k, (multipliedState v d i j).get k ⟨j, hjn⟩ = v.get k ⟨j, hjn⟩ := fun k =>
      get_multipliedState_of_le v d i k (Nat.le_refl j)
    rw [innerColumn_eq _ _ hjn, ok_bind, subtractColumn_eq _ _ hcount hjn]
    congr 1
    apply Grid.ext_get
    intro k c
    simp only [hreflection, hcolumn]
    by_cases hc : c.val = j
    · obtain rfl : c = ⟨j, hjn⟩ := Fin.ext hc
      simp only [Grid.get_ofFn, hcolumn]
      simp only [multipliedState, Grid.get_ofFn, Nat.lt_succ_self, and_true]
    · simp only [multipliedState, Grid.get_ofFn]
      grind
  · rfl

/-- Clears the first `i + 1` elements of column `i + 1`. -/
def clearColumn (v : Grid α n n) (i : Nat) : Checked α (Grid α n n) :=
  loop (fun k v => v.write k (i + 1) 0) (i + 1) v

theorem clearColumn_eq (v : Grid α n n) (i : Fin (n - 1)) :
    clearColumn v i = .ok (Grid.ofFn fun k c =>
      if k.val < i.val + 1 ∧ c = Index.next i then 0 else v.get k c) := by
  have hnext : i.val + 1 < n := by omega
  apply loop_eq_ok fun m => Grid.ofFn fun k c =>
    if k.val < m ∧ c = Index.next i then 0 else v.get k c
  · apply Grid.ext_get
    intro k c
    simp
  · intro m hm
    have hmn : m < n := by omega
    rw [Grid.write_of_lt _ hmn hnext]
    congr 1
    apply Grid.ext_get
    intro k c
    simp only [Grid.get_set, Grid.get_ofFn, Fin.ext_iff, Index.next]
    grind
  · rfl

/-- Moves the diagonal element `(i, i)` to the last row, out of the way of the basis. -/
def moveDiagonal (v : Grid α n n) (i : Nat) : Checked α (Grid α n n) := do
  let v ← v.write (n - 1) i (← v.read i i)
  v.write i i 1

def movedState (v : Grid α n n) (i : Fin (n - 1)) : Grid α n n :=
  Grid.ofFn fun k c =>
    if k = Index.here i ∧ c = Index.here i then 1
    else if k = Index.last k ∧ c = Index.here i then v.get (Index.here i) (Index.here i)
    else v.get k c

/-- Above the last row only the diagonal element has changed. -/
theorem get_movedState_of_lt (v : Grid α n n) {i : Fin (n - 1)} {k : Fin n} (c : Fin n)
    (hk : k.val < i.val + 1) : (movedState v i).get k c =
      if k = Index.here i ∧ c = Index.here i then 1 else v.get k c := by
  simp only [movedState, Grid.get_ofFn, Index.here, Index.last, Fin.ext_iff]
  grind

theorem get_movedState_next (v : Grid α n n) (i : Fin (n - 1)) (k : Fin n) :
    (movedState v i).get k (Index.next i) = v.get k (Index.next i) := by
  simp [movedState, Index.here, Index.next]

/-- The multiplied block, in terms of the grid with the diagonal element moved. -/
theorem get_basis_multiplyColumn (t : Tridiagonal α n) (i : Fin (n - 1)) (k c : Fin n) :
    (t.multiplyColumn i).basis.get k c =
      if k.val < i.val + 1 ∧ c.val < i.val + 1 then
        if t.diagonal.get (Index.next i) == 0 then (movedState t.basis i).get k c
        else (movedState t.basis i).get k c - (Scalar.sum fun m =>
            (movedState t.basis i).get (Index.upTo i m) (Index.next i) *
              (movedState t.basis i).get (Index.upTo i m) c) *
          (t.basis.get k (Index.next i) / t.diagonal.get (Index.next i))
      else if k.val < i.val + 1 ∧ c = Index.next i then 0
      else (movedState t.basis i).get k c := by
  have hsum : (Scalar.sum fun m => (movedState t.basis i).get (Index.upTo i m) (Index.next i) *
      (movedState t.basis i).get (Index.upTo i m) c) =
        (Vector.ofFn fun j => Scalar.sum fun m => t.basis.get (Index.upTo i m) (Index.next i) *
          (Grid.ofFn fun k j => if k = Index.here i ∧ j = Index.here i then 1
            else t.basis.get k j).get (Index.upTo i m) j).get c := by
    rw [get_ofFn]
    congr 1
    funext m
    rw [get_movedState_next, get_movedState_of_lt t.basis c m.isLt, Grid.get_ofFn]
  rw [hsum]
  dsimp only [Tridiagonal.multiplyColumn]
  rw [Grid.get_ofFn]
  generalize Vector.get _ c = inner
  simp only [movedState, Grid.get_ofFn, Index.here, Index.next, Index.last, Fin.ext_iff, Fin.le_def]
  grind

theorem moveDiagonal_eq (v : Grid α n n) (i : Fin (n - 1)) :
    moveDiagonal v i = .ok (movedState v i) := by
  have hhere : i.val < n := by omega
  have hlast : n - 1 < n := by omega
  unfold moveDiagonal
  rw [Grid.read_of_lt _ hhere hhere, ok_bind, Grid.write_of_lt _ hlast hhere, ok_bind,
    Grid.write_of_lt _ hhere hhere]
  congr 1
  apply Grid.ext_get
  intro k c
  simp only [movedState, Grid.get_set, Grid.get_ofFn, Index.here, Index.last, Fin.ext_iff]

/-- The first elements of column `i + 1` over `half`, over the first entries of `d`. -/
def divideColumn (v : Grid α n n) (d : Vector α n) (i : Nat) (half : α) : Checked α (Vector α n) :=
  mapFirst d (i + 1) fun k _ => do return (← v.read k (i + 1)) / half

theorem divideColumn_eq (v : Grid α n n) (d : Vector α n) (i : Fin (n - 1)) (half : α) :
    divideColumn v d i half = .ok (Vector.ofFn fun k =>
      if k.val < i.val + 1 then v.get k (Index.next i) / half else d.get k) := by
  have hnext : i.val + 1 < n := by omega
  apply mapFirst_eq (Nat.le_of_lt hnext)
  intro k hk
  rw [Grid.read_of_lt _ k.isLt hnext]
  rfl

/-- Multiplies the reflection kept in column `i + 1` into the leading block, unless there
is none, and clears the column. -/
def multiplyColumn (t : Tridiagonal α n) (i : Nat) : Checked α (Tridiagonal α n) := do
  let v ← moveDiagonal t.basis i
  let half ← readAt t.diagonal (i + 1)
  if half == 0 then
    return { t with basis := ← clearColumn v i }
  else
    let d ← divideColumn v t.diagonal i half
    let v ← multiplyReflection v d i
    return { t with basis := ← clearColumn v i, diagonal := d }

theorem multiplyColumn_agreesFrom {s t : Tridiagonal α n} {i : Fin (n - 1)} {second : Nat}
    (h : s.AgreesFrom i second t) :
    ∃ s', multiplyColumn s i = .ok s' ∧ s'.AgreesFrom (i.val + 1) second (t.multiplyColumn i) := by
  obtain ⟨v, d, e⟩ := s
  obtain rfl : v = t.basis := h.basis
  have hnext : i.val + 1 < n := by omega
  have hhalf : d.get ⟨i.val + 1, hnext⟩ = t.diagonal.get (Index.next i) :=
    h.diagonal _ (Nat.le_succ i.val)
  have hafter : ∀ k : Fin n, i.val + 1 ≤ k.val → d.get k = t.diagonal.get k := fun k hk =>
    h.diagonal k (Nat.le_of_succ_le hk)
  have hcolumn : ∀ c : Fin n, c = Index.next i → ¬ c.val < i.val + 1 := by
    intro c h
    rw [h]
    exact Nat.lt_irrefl _
  unfold multiplyColumn
  rw [moveDiagonal_eq, ok_bind, readAt_of_lt _ hnext, ok_bind, hhalf]
  by_cases hzero : t.diagonal.get (Index.next i) == 0
  · rw [if_pos hzero, clearColumn_eq, ok_bind]
    refine ⟨_, rfl, ?_, hafter, h.subdiagonal⟩
    apply Grid.ext_get
    intro k c
    rw [get_basis_multiplyColumn, Grid.get_ofFn, if_pos hzero]
    grind
  · rw [if_neg hzero, divideColumn_eq, ok_bind, multiplyReflection_eq, ok_bind, clearColumn_eq,
      ok_bind]
    refine ⟨_, rfl, ?_, ?_, h.subdiagonal⟩
    · apply Grid.ext_get
      intro k c
      rw [get_basis_multiplyColumn, Grid.get_ofFn, multipliedState, Grid.get_ofFn, get_ofFn,
        get_movedState_next, if_neg hzero]
      grind
    · intro k hk
      show (Vector.ofFn _).get k = t.diagonal.get k
      rw [get_ofFn, if_neg (Nat.not_lt_of_le hk), hafter k hk]

/-- The product of the reflections, column after column. -/
def multiplyColumns (t : Tridiagonal α n) : Checked α (Tridiagonal α n) :=
  loop (fun i t => multiplyColumn t i) (n - 1) t

/-- The product after the first `m` columns. -/
def multipliedColumns (t : Tridiagonal α n) (m : Nat) : Tridiagonal α n :=
  ((List.finRange (n - 1)).take m).foldl Tridiagonal.multiplyColumn t

theorem multipliedColumns_succ (t : Tridiagonal α n) {m : Nat} (hm : m < n - 1) :
    multipliedColumns t (m + 1) = (multipliedColumns t m).multiplyColumn ⟨m, hm⟩ := by
  have hlength : m < (List.finRange (n - 1)).length := by rwa [List.length_finRange]
  rw [multipliedColumns, List.take_succ_eq_append_getElem hlength, List.foldl_append,
    List.getElem_finRange]
  rfl

theorem multipliedColumns_all (t : Tridiagonal α n) :
    multipliedColumns t (n - 1) = t.multiplyColumns := by
  rw [multipliedColumns, List.take_of_length_le (Nat.le_of_eq List.length_finRange)]
  rfl

theorem multiplyColumns_agreesFrom {s t : Tridiagonal α n} {second : Nat}
    (h : s.AgreesFrom 0 second t) :
    ∃ s', multiplyColumns s = .ok s' ∧ s'.AgreesFrom (n - 1) second t.multiplyColumns := by
  rw [← multipliedColumns_all]
  unfold multiplyColumns
  apply exists_loop_eq_ok fun m (s : Tridiagonal α n) =>
    s.AgreesFrom m second (multipliedColumns t m)
  · exact h
  · intro m hm s hs
    rw [multipliedColumns_succ t hm]
    exact multiplyColumn_agreesFrom (i := ⟨m, hm⟩) hs

/-! ## The form -/

/-- Takes the diagonal out of the last row and clears the row. -/
def takeDiagonal (v : Grid α n n) (d : Vector α n) : Checked α (Grid α n n × Vector α n) :=
  loop (fun j s => do
    let d ← writeAt s.2 j (← s.1.read (n - 1) j)
    return (← s.1.write (n - 1) j 0, d)) n (v, d)

theorem takeDiagonal_eq (v : Grid α n n) (d : Vector α n) :
    takeDiagonal v d = .ok (Grid.ofFn fun k j => if k = Index.last k then 0 else v.get k j,
      Vector.ofFn fun j => v.get (Index.last j) j) := by
  apply loop_eq_ok fun m =>
    (Grid.ofFn fun k j => if k = Index.last k ∧ j.val < m then 0 else v.get k j,
      Vector.ofFn fun j => if j.val < m then v.get (Index.last j) j else d.get j)
  · apply Prod.ext
    · apply Grid.ext_get
      intro k j
      simp
    · apply ext_get
      intro j
      simp
  · intro m hm
    have hlast : n - 1 < n := by omega
    rw [Grid.read_of_lt _ hlast hm, ok_bind, writeAt_of_lt _ hm, ok_bind,
      Grid.write_of_lt _ hlast hm, ok_bind]
    congr 1
    apply Prod.ext
    · apply Grid.ext_get
      intro k j
      simp only [Grid.get_set, Grid.get_ofFn, Index.last, Fin.ext_iff]
      grind
    · apply ext_get
      intro j
      simp only [get_setAt, get_ofFn, Grid.get_ofFn, Index.last, Fin.ext_iff]
      grind
  · simp

/-- Takes the diagonal out of the last row and completes the basis there. -/
def finish (t : Tridiagonal α n) : Checked α (Tridiagonal α n) := do
  let s ← takeDiagonal t.basis t.diagonal
  let v ← s.1.write (n - 1) (n - 1) 1
  return ⟨v, s.2, ← writeAt t.subdiagonal 0 0⟩

theorem finish_of_agreesFrom (hn : 0 < n) {s t : Tridiagonal α n} {first : Nat}
    (h : s.AgreesFrom first 1 t) : finish s = .ok t.finish := by
  have hlast : n - 1 < n := by omega
  unfold finish Tridiagonal.finish
  rw [h.basis, takeDiagonal_eq, ok_bind, Grid.write_of_lt _ hlast hlast, ok_bind,
    writeAt_of_lt _ hn, ok_bind]
  congr 2
  · apply Grid.ext_get
    intro k j
    simp only [Grid.get_set, Grid.get_ofFn, Index.last, Fin.ext_iff]
    grind
  · apply ext_get
    intro k
    have hrest := h.subdiagonal k
    simp only [get_setAt, get_ofFn, Fin.ext_iff]
    grind

/-- Where the reduction starts. -/
def startForm (a : Grid α n n) : Checked α (Tridiagonal α n) := do
  let d ← vectorOf n fun j => a.read (n - 1) j
  let e ← vectorOf n fun _ => .ok 0
  return ⟨a, d, e⟩

theorem startForm_eq (a : Grid α n n) : startForm a = .ok (Tridiagonal.start a) := by
  have hrow : ∀ j : Fin n, (a.read (n - 1) j : Checked α α) = .ok (a.get (Index.last j) j) :=
    fun j => a.read_val (Index.last j) j
  unfold startForm
  rw [vectorOf_eq_ok hrow, ok_bind]
  have hzero : vectorOf n (fun _ => .ok (0 : α)) = .ok (Vector.ofFn fun _ => 0) :=
    vectorOf_eq_ok fun _ => rfl
  rw [hzero]
  rfl

/-- The tridiagonal form of a symmetric matrix. -/
def tridiagonal (a : Grid α n n) : Checked α (Tridiagonal α n) := do
  let t ← startForm a
  let t ← reduceRows t
  let t ← multiplyColumns t
  finish t

theorem tridiagonal_eq (hn : 0 < n) (a : Grid α n n) :
    tridiagonal a = .ok (Tridiagonal.ofSymmetric a) := by
  obtain ⟨reduced, hreduced, hagrees⟩ := reduceRows_agreesFrom (Tridiagonal.start a)
  obtain ⟨multiplied, hmultiplied, hagrees⟩ := multiplyColumns_agreesFrom hagrees
  unfold tridiagonal
  rw [startForm_eq, ok_bind, hreduced, ok_bind, hmultiplied, ok_bind,
    finish_of_agreesFrom hn hagrees]
  rfl

end Indexed

end MatrixScript
