import MatrixScript.Eigen.Basic
import MatrixScript.Proofs.Bounds.Algebra
import MatrixScript.Proofs.Bounds.Tridiagonal

/-!
# The iteration to diagonal form on plain indices

The iteration works in place on the matrix and the two vectors that the reduction has
left.  Its states hold the eigenvectors column by column; `Iteration.inPlace` is the same
state with the columns in a grid.  One round after another, the program on plain indices
comes to the state that the iteration comes to, so its searches and sweeps stay within
the matrix, and it gives up exactly where the iteration does.
-/

namespace MatrixScript

variable {α : Type}

section Lists

variable {β γ : Type}

def listAt (l : List β) (i : Nat) : Checked α β :=
  if h : i < l.length then .ok (l.get ⟨i, h⟩) else .error (.entry l.length i)

theorem listAt_of_lt (l : List β) {i : Nat} (h : i < l.length) :
    (listAt l i : Checked α β) = .ok (l.get ⟨i, h⟩) :=
  dif_pos h

theorem range_eq_map_finRange (n : Nat) : List.range n = (List.finRange n).map Fin.val := by
  apply List.ext_getElem
  · simp
  · intro k _ _
    simp

theorem mapM_eq_ok {l : List β} {f : β → Checked α γ} {value : β → γ}
    (h : ∀ x ∈ l, f x = .ok (value x)) : l.mapM f = .ok (l.map value) := by
  induction l with
  | nil => rfl
  | cons x l ih =>
      rw [List.mapM_cons, h x List.mem_cons_self, ok_bind,
        ih fun y hy => h y (List.mem_cons_of_mem x hy)]
      rfl

end Lists

variable [Scalar α] {n : Nat}

/-- The state with its columns in a grid. -/
def Iteration.inPlace (s : Iteration α n) : Tridiagonal α n where
  basis := Grid.ofFn fun i j => (s.columns.get j).get i
  diagonal := s.diagonal
  subdiagonal := s.coupling

namespace Indexed

/-! ## The start -/

/-- Moves the couplings to the front. -/
def shiftCouplings (e : Vector α n) : Checked α (Vector α n) := do
  let e ← loop (fun k e => do writeAt e k (← readAt e (k + 1))) (n - 1) e
  writeAt e (n - 1) 0

theorem get_coupling_start (t : Tridiagonal α n) {k : Nat} (hk : k + 1 < n) :
    (Iteration.start t).coupling.get ⟨k, Nat.lt_of_succ_lt hk⟩ = t.subdiagonal.get ⟨k + 1, hk⟩ := by
  simp only [Iteration.start, Index.after?, get_ofFn]
  rw [dif_pos hk]

theorem get_coupling_start_last (t : Tridiagonal α n) {k : Fin n} (hk : n ≤ k.val + 1) :
    (Iteration.start t).coupling.get k = 0 := by
  simp only [Iteration.start, Index.after?, get_ofFn]
  rw [dif_neg (Nat.not_lt_of_le hk)]

theorem shiftCouplings_eq (hn : 0 < n) (t : Tridiagonal α n) :
    shiftCouplings t.subdiagonal = .ok (Iteration.start t).coupling := by
  have hlast : n - 1 < n := by omega
  unfold shiftCouplings
  rw [loop_eq_ok (fun m => Vector.ofFn fun k =>
    if k.val < m then (Iteration.start t).coupling.get k else t.subdiagonal.get k) ?_ ?_ rfl,
    ok_bind, writeAt_of_lt _ hlast]
  · congr 1
    apply ext_get
    intro k
    rw [get_setAt, get_ofFn]
    by_cases hk : k = ⟨n - 1, hlast⟩
    · have hend : n ≤ k.val + 1 := by
        rw [hk]
        show n ≤ n - 1 + 1
        omega
      rw [if_pos hk, get_coupling_start_last t hend]
    · have hbefore : k.val < n - 1 := by
        have hne : k.val ≠ n - 1 := fun h => hk (Fin.ext h)
        omega
      rw [if_neg hk, if_pos hbefore]
  · apply ext_get
    intro k
    simp
  · intro m hm
    have hmn : m < n := by omega
    have hnext : m + 1 < n := by omega
    have hahead : ¬ m + 1 < m := by omega
    rw [readAt_of_lt _ hnext, ok_bind, get_ofFn, if_neg hahead, ← get_coupling_start t hnext,
      writeAt_of_lt _ hmn]
    congr 1
    apply ext_get
    intro k
    rw [get_setAt, get_ofFn, get_ofFn]
    by_cases hk : k = ⟨m, hmn⟩
    · rw [if_pos hk, hk, if_pos (Nat.lt_succ_self m)]
    · have hiff : k.val < m ↔ k.val < m + 1 := by
        have hne : k.val ≠ m := fun h => hk (Fin.ext h)
        omega
      rw [if_neg hk]
      simp only [hiff]

def startIteration (t : Tridiagonal α n) : Checked α (Tridiagonal α n) := do
  return { t with subdiagonal := ← shiftCouplings t.subdiagonal }

theorem startIteration_eq (hn : 0 < n) (t : Tridiagonal α n) :
    startIteration t = .ok (Iteration.start t).inPlace := by
  unfold startIteration
  rw [shiftCouplings_eq hn, ok_bind]
  have hbasis : t.basis = (Iteration.start t).inPlace.basis := by
    apply Grid.ext_get
    intro i j
    simp [Iteration.inPlace, Iteration.start]
  rw [hbasis]
  rfl

/-! ## The end of a block -/

/-- Whether a coupling is zero beside its two diagonal elements. -/
def negligible (t : Tridiagonal α n) (relative : α) (m : Nat) : Checked α Bool := do
  let e ← readAt t.subdiagonal m
  let d ← readAt t.diagonal m
  let d' ← readAt t.diagonal (m + 1)
  return Scalar.abs e ≤ relative * (Scalar.abs d + Scalar.abs d')

theorem negligible_eq (s : Iteration α n) (relative : α) (m : Fin (n - 1)) :
    negligible s.inPlace relative m = .ok (s.negligible relative m) := by
  have hhere : m.val < n := by omega
  have hnext : m.val + 1 < n := by omega
  unfold negligible
  rw [readAt_of_lt _ hhere, ok_bind, readAt_of_lt _ hhere, ok_bind, readAt_of_lt _ hnext]
  rfl

/-- The first of `left` indices from `m` on whose coupling is negligible, or the one after
them. -/
def searchEnd (t : Tridiagonal α n) (relative : α) : (left m : Nat) → Checked α Nat
  | 0, m => .ok m
  | left + 1, m => do
    if ← negligible t relative m then return m else searchEnd t relative left (m + 1)

end Indexed

namespace Iteration

theorem blockEnd_of_negligible {s : Iteration α n} {relative : α} {l : Fin n} {m : Fin (n - 1)}
    (hm : l.val ≤ m.val) (hend : s.negligible relative m)
    (hbefore : ∀ k : Fin (n - 1), l.val ≤ k.val → k.val < m.val → ¬ s.negligible relative k) :
    s.blockEnd relative l = Index.here m := by
  have hfind : ((List.finRange (n - 1)).find? fun m =>
      l.val ≤ m.val && s.negligible relative m) = some m := by
    obtain ⟨before, after, hsplit⟩ := List.append_of_mem (List.mem_finRange m)
    have hsorted := List.pairwise_lt_finRange (n - 1)
    rw [hsplit, List.pairwise_append] at hsorted
    rw [List.find?_eq_some_iff_append]
    refine ⟨by simp [hm, hend], before, after, hsplit, ?_⟩
    intro k hk
    have hkm : k < m := hsorted.2.2 k hk m List.mem_cons_self
    have hnot := hbefore k
    by_cases hlk : l.val ≤ k.val
    · simp [hlk, hnot hlk hkm]
    · simp [hlk]
  unfold blockEnd
  rw [hfind]

theorem blockEnd_of_none {s : Iteration α n} {relative : α} {l : Fin n}
    (h : ∀ k : Fin (n - 1), l.val ≤ k.val → ¬ s.negligible relative k) :
    s.blockEnd relative l = Index.last l := by
  have hfind : ((List.finRange (n - 1)).find? fun m =>
      l.val ≤ m.val && s.negligible relative m) = none := by
    rw [List.find?_eq_none]
    intro k _
    have hnot := h k
    simp only [Bool.and_eq_true, decide_eq_true_eq, not_and]
    exact hnot
  unfold blockEnd
  rw [hfind]

end Iteration

namespace Indexed

theorem searchEnd_eq {s : Iteration α n} {relative : α} {l : Fin n} {left m : Nat}
    (hleft : m + left = n - 1) (hm : l.val ≤ m)
    (hbefore : ∀ k : Fin (n - 1), l.val ≤ k.val → k.val < m → ¬ s.negligible relative k) :
    searchEnd s.inPlace relative left m = .ok (s.blockEnd relative l).val := by
  induction left generalizing m with
  | zero =>
      rw [Iteration.blockEnd_of_none fun k hk => hbefore k hk (by omega)]
      show Except.ok m = Except.ok (n - 1)
      rw [← hleft]
      rfl
  | succ left ih =>
      have hmn : m < n - 1 := by omega
      have hnegligible : negligible s.inPlace relative m =
          .ok (s.negligible relative ⟨m, hmn⟩) := negligible_eq s relative ⟨m, hmn⟩
      rw [searchEnd, hnegligible, ok_bind]
      by_cases hend : s.negligible relative ⟨m, hmn⟩
      · rw [if_pos hend, Iteration.blockEnd_of_negligible hm hend hbefore]
        rfl
      · rw [if_neg hend]
        apply ih (by omega) (by omega)
        intro k hk hkm
        by_cases heq : k.val = m
        · obtain rfl : k = ⟨m, hmn⟩ := Fin.ext heq
          exact hend
        · exact hbefore k hk (by omega)

/-- The end of the block that starts at `l`. -/
def blockEnd (t : Tridiagonal α n) (relative : α) (l : Nat) : Checked α Nat :=
  searchEnd t relative (n - 1 - l) l

theorem blockEnd_eq (s : Iteration α n) (relative : α) (l : Fin n) :
    blockEnd s.inPlace relative l = .ok (s.blockEnd relative l).val := by
  apply searchEnd_eq
  · omega
  · exact Nat.le_refl _
  · intro k hk hkl
    omega

/-! ## Sweeps -/

/-- Rotates the columns `i` and `i + 1`. -/
def rotate (v : Grid α n n) (sine cosine : α) (i : Nat) : Checked α (Grid α n n) :=
  loop (fun k v => do
    let y ← v.read k (i + 1)
    let x ← v.read k i
    let v ← v.write k (i + 1) (sine * x + cosine * y)
    v.write k i (cosine * x - sine * y)) n v

/-- The columns after a rotation of the first `m` rows. -/
def rotatedState (columns : Vector (Vector α n) n) (sine cosine : α) (i : Fin (n - 1)) (m : Nat) :
    Grid α n n :=
  Grid.ofFn fun k j =>
    if k.val < m then ((Iteration.rotate columns sine cosine i).get j).get k
    else (columns.get j).get k

theorem get_rotate (columns : Vector (Vector α n) n) (sine cosine : α) (i : Fin (n - 1))
    (j k : Fin n) :
    ((Iteration.rotate columns sine cosine i).get j).get k =
      if j = Index.next i then
        sine * (columns.get (Index.here i)).get k + cosine * (columns.get (Index.next i)).get k
      else if j = Index.here i then
        cosine * (columns.get (Index.here i)).get k - sine * (columns.get (Index.next i)).get k
      else (columns.get j).get k := by
  simp only [Iteration.rotate, get_setAt]
  split
  · rw [get_ofFn]
  · split
    · rw [get_ofFn]
    · rfl

theorem rotate_eq (columns : Vector (Vector α n) n) (sine cosine : α) (i : Fin (n - 1)) :
    rotate (Grid.ofFn fun k j => (columns.get j).get k) sine cosine i =
      .ok (Grid.ofFn fun k j => ((Iteration.rotate columns sine cosine i).get j).get k) := by
  have hhere : i.val < n := by omega
  have hnext : i.val + 1 < n := by omega
  apply loop_eq_ok (rotatedState columns sine cosine i)
  · apply Grid.ext_get
    intro k j
    simp [rotatedState]
  · intro m hm
    rw [Grid.read_of_lt _ hm hnext, ok_bind, Grid.read_of_lt _ hm hhere, ok_bind,
      Grid.write_of_lt _ hm hnext, ok_bind, Grid.write_of_lt _ hm hhere]
    congr 1
    apply Grid.ext_get
    intro k j
    simp only [rotatedState, get_rotate, Grid.get_set, Grid.get_ofFn, Index.here, Index.next,
      Fin.ext_iff]
    grind
  · apply Grid.ext_get
    intro k j
    simp [rotatedState]

/-- Chases the bulge from index `l + t` to index `l`, over a block that ends at `m`. -/
def chase (l m : Nat) : Nat → Tridiagonal α n → Iteration.Bulge α → Checked α (Tridiagonal α n)
  | 0, s, b => do
    let d ← writeAt s.diagonal l ((← readAt s.diagonal l) - b.shift)
    let e ← writeAt s.subdiagonal l b.residue
    return { s with diagonal := d, subdiagonal := ← writeAt e m 0 }
  | t + 1, s, b => do
    let x ← readAt s.subdiagonal (l + t)
    let f := b.sine * x
    let e := b.cosine * x
    let r := Scalar.hypot f b.residue
    let coupling ← writeAt s.subdiagonal (l + t + 1) r
    let next ← readAt s.diagonal (l + t + 1)
    if r == 0 then
      let d ← writeAt s.diagonal (l + t + 1) (next - b.shift)
      return { s with diagonal := d, subdiagonal := ← writeAt coupling m 0 }
    else
      let sine := f / r
      let cosine := b.residue / r
      let g := next - b.shift
      let here ← readAt s.diagonal (l + t)
      let w := (here - g) * sine + Scalar.ofCount 2 * cosine * e
      let shift := sine * w
      let d ← writeAt s.diagonal (l + t + 1) (g + shift)
      let v ← rotate s.basis sine cosine (l + t)
      chase l m t ⟨v, d, coupling⟩ ⟨sine, cosine, shift, cosine * w - e⟩

theorem chase_eq {l m : Fin n} {t : Nat} (h : l.val + t ≤ m.val) (s : Iteration α n)
    (b : Iteration.Bulge α) :
    chase l m t s.inPlace b = .ok (Iteration.chase l m t h s b).inPlace := by
  induction t generalizing s b with
  | zero =>
      rw [chase, readAt_val, ok_bind, writeAt_of_lt _ l.isLt, ok_bind, writeAt_of_lt _ l.isLt,
        ok_bind, writeAt_of_lt _ m.isLt]
      rfl
  | succ t ih =>
      have hhere : l.val + t < n := by omega
      have hnext : l.val + t + 1 < n := by omega
      have hi : l.val + t < n - 1 := by omega
      have hcoupling : s.inPlace.subdiagonal.get ⟨l + t, hhere⟩ =
          s.coupling.get (Index.here ⟨l + t, hi⟩) := rfl
      rw [chase, Iteration.chase, readAt_of_lt _ hhere, ok_bind, hcoupling]
      dsimp only
      rw [writeAt_of_lt _ hnext, ok_bind, readAt_of_lt _ hnext, ok_bind]
      by_cases hzero : Scalar.hypot (b.sine * s.coupling.get (Index.here ⟨l + t, hi⟩))
          b.residue == 0
      · rw [if_pos hzero, if_pos hzero, writeAt_of_lt _ hnext, ok_bind, writeAt_of_lt _ m.isLt]
        rfl
      · have hrotate : ∀ sine cosine, rotate s.inPlace.basis sine cosine (l + t) =
            .ok (Grid.ofFn fun k j =>
              ((Iteration.rotate s.columns sine cosine ⟨l + t, hi⟩).get j).get k) :=
          fun sine cosine => rotate_eq s.columns sine cosine ⟨l + t, hi⟩
        rw [if_neg hzero, if_neg hzero, readAt_of_lt _ hhere, ok_bind, writeAt_of_lt _ hnext,
          ok_bind, hrotate, ok_bind]
        exact ih (by omega) ⟨_, _, _⟩ _

/-- One sweep over the block from `l` to `m`. -/
def sweep (s : Tridiagonal α n) (l m : Nat) : Checked α (Tridiagonal α n) := do
  let d ← readAt s.diagonal l
  let d' ← readAt s.diagonal (l + 1)
  let e ← readAt s.subdiagonal l
  let g := (d' - d) / (Scalar.ofCount 2 * e)
  let r := Scalar.hypot g 1
  let residue := (← readAt s.diagonal m) - d + e / (g + Scalar.copySign r g)
  chase l m (m - l) s ⟨1, 1, 0, residue⟩

theorem sweep_eq (s : Iteration α n) {l m : Fin n} (h : l < m) :
    sweep s.inPlace l m = .ok (s.sweep l m h).inPlace := by
  have hnext : l.val + 1 < n := by omega
  unfold sweep
  rw [readAt_val, ok_bind, readAt_of_lt _ hnext, ok_bind, readAt_val, ok_bind]
  dsimp only
  rw [readAt_val, ok_bind]
  exact chase_eq _ s _

/-! ## Convergence -/

/-- Sweeps until eigenvalue `l` has converged, at most `budget` times. -/
def converge (relative : α) (limit l : Nat) : Nat → Tridiagonal α n → Checked α (Tridiagonal α n)
  | 0, s => do
    if l < (← blockEnd s relative l) then .error (.refused (.noConvergence l limit)) else return s
  | budget + 1, s => do
    let m ← blockEnd s relative l
    if l < m then converge relative limit l budget (← sweep s l m) else return s

end Indexed

namespace Iteration

/-- The state in which eigenvalue `l` has converged. -/
def settle (relative : α) (limit budget used : Nat) (s : Iteration α n) (l : Fin n) :
    Except (MatrixError α) (Iteration α n) :=
  match converge relative l budget used s with
  | some found => .ok found.2
  | none => .error (.noConvergence l limit)

/-- The outcome of the iteration, with the error that it is reported by. -/
def outcome (relative : α) (limit : Nat) (indices : List (Fin n)) (s : Iteration α n) :
    Except (MatrixError α) (Iteration α n) :=
  (diagonalize relative limit indices s).2.mapError fun index : Fin n => .noConvergence index limit

theorem outcome_eq (relative : α) (limit : Nat) (indices : List (Fin n)) (s : Iteration α n) :
    outcome relative limit indices s = indices.foldlM (settle relative limit limit 0) s := by
  induction indices generalizing s with
  | nil => rfl
  | cons l rest ih =>
      rw [List.foldlM_cons, outcome, diagonalize, settle]
      cases converge relative l limit 0 s with
      | none => rfl
      | some found => exact ih found.2

end Iteration

namespace Indexed

theorem converge_eq (relative : α) (limit : Nat) (l : Fin n) (budget used : Nat)
    (s : Iteration α n) :
    converge relative limit l budget s.inPlace =
      refusing ((Iteration.settle relative limit budget used s l).map Iteration.inPlace) := by
  induction budget generalizing used s with
  | zero =>
      rw [converge, blockEnd_eq, ok_bind, Iteration.settle, Iteration.converge]
      by_cases hend : l < s.blockEnd relative l
      · rw [if_pos (show l.val < _ from hend), if_pos hend]
        rfl
      · rw [if_neg (show ¬ l.val < _ from hend), if_neg hend]
        rfl
  | succ budget ih =>
      rw [converge, blockEnd_eq, ok_bind, Iteration.settle, Iteration.converge]
      by_cases hend : l < s.blockEnd relative l
      · rw [if_pos (show l.val < _ from hend), dif_pos hend, sweep_eq s hend, ok_bind]
        exact ih (used + 1) _
      · rw [if_neg (show ¬ l.val < _ from hend), dif_neg hend]
        rfl

/-- Lets the eigenvalues converge, one after another. -/
def diagonalize (relative : α) (limit : Nat) (s : Tridiagonal α n) : Checked α (Tridiagonal α n) :=
  loop (fun l s => converge relative limit l limit s) n s

theorem diagonalize_eq (relative : α) (limit : Nat) (s : Iteration α n) :
    diagonalize relative limit s.inPlace =
      refusing ((Iteration.outcome relative limit (List.finRange n) s).map Iteration.inPlace) := by
  rw [Iteration.outcome_eq]
  apply loop_eq_foldlM Iteration.inPlace
  intro l s
  exact converge_eq relative limit l limit 0 s

/-! ## The sorted eigenvalues -/

/-- The indices in descending order of their diagonal elements, which are read first. -/
def order (d : Vector α n) : Checked α (List Nat) := do
  let keyed ← (List.range n).mapM fun k => do return (k, ← readAt d k)
  return (keyed.mergeSort fun x y => Eigen.descends x.2 y.2).map Prod.fst

theorem order_eq (d : Vector α n) : order d = .ok ((Eigen.order d).toList.map Fin.val) := by
  have hkeys : (List.range n).mapM (fun k => do return (k, ← readAt d k)) =
      (.ok ((List.finRange n).map fun k => (k.val, d.get k)) : Checked α (List (Nat × α))) := by
    rw [range_eq_map_finRange, List.mapM_map]
    apply mapM_eq_ok
    intro k _
    show (readAt d k.val >>= fun x => pure (k.val, x)) = _
    rw [readAt_val]
    rfl
  have hsort : ((List.finRange n).map fun k => (k.val, d.get k)).mergeSort
      (fun x y => Eigen.descends x.2 y.2) =
        (Eigen.order d).toList.map fun k => (k.val, d.get k) := by
    symm
    apply List.map_mergeSort
    intro j _ k _
    rfl
  unfold order
  rw [hkeys, ok_bind, hsort, List.map_map]
  rfl

/-- The sorted eigenvalues and columns of a diagonal form. -/
def sorted (t : Tridiagonal α n) : Checked α (Eigen α) := do
  let order ← order t.diagonal
  let values ← order.mapM (readAt t.diagonal)
  let vectors ← matrixOf n n fun i j => do t.basis.read i (← listAt order j)
  return ⟨values, vectors⟩

theorem sorted_eq (s : Iteration α n) : sorted s.inPlace = .ok (Eigen.sorted s) := by
  have hvalues : ((Eigen.order s.diagonal).toList.map Fin.val).mapM (readAt s.diagonal) =
      (.ok ((Eigen.order s.diagonal).toList.map s.diagonal.get) : Checked α (List α)) := by
    rw [List.mapM_map]
    apply mapM_eq_ok
    intro k _
    exact readAt_val s.diagonal k
  have hvectors : (matrixOf n n fun i j => do
      s.inPlace.basis.read i (← listAt ((Eigen.order s.diagonal).toList.map Fin.val) j)) =
        .ok (.ofFn n n fun i j =>
          (s.columns.get ((Eigen.order s.diagonal).get j)).get i) := by
    apply matrixOf_eq_ok
    intro i j
    have hj : j.val < ((Eigen.order s.diagonal).toList.map Fin.val).length := by simp
    have hindex : ((Eigen.order s.diagonal).toList.map Fin.val).get ⟨j, hj⟩ =
        ((Eigen.order s.diagonal).get j).val := by
      rw [List.get_eq_getElem, List.getElem_map, Vector.getElem_toList]
      rfl
    rw [listAt_of_lt _ hj, ok_bind, hindex, Grid.read_val]
    exact congrArg Except.ok (Grid.get_ofFn _ i _)
  unfold sorted
  rw [show s.inPlace.diagonal = s.diagonal from rfl, order_eq, ok_bind, hvalues, ok_bind,
    hvectors]
  rfl

/-! ## Eigenvalues and eigenvectors -/

/-- Diagonalises a square matrix. -/
def eigen (tolerance : α) (limit : Nat) (m : DenseMatrix α) : Checked α (Eigen α) :=
  if m.cols = m.rows then do
    let a ← copy m
    let t ← tridiagonal a
    let t ← startIteration t
    let t ← diagonalize (Scalar.max tolerance Scalar.epsilon) limit t
    sorted t
  else .error (.refused (.notSquare .eigen m.shape))

theorem eigen_eq (tolerance : α) (limit : Nat) {m : DenseMatrix α} (h : 0 < m.rows) :
    eigen tolerance limit m = refusing (m.eigen tolerance limit) := by
  obtain ⟨rows, cols, g⟩ := m
  unfold eigen DenseMatrix.eigen DenseMatrix.eigenCounting
  by_cases hsquare : cols = rows
  · subst hsquare
    rw [if_pos rfl, copy_mk, ok_bind, tridiagonal_eq h, ok_bind, startIteration_eq h, ok_bind,
      diagonalize_eq, DenseMatrix.grid?_eq_some_iff.mpr rfl]
    unfold Iteration.outcome
    dsimp only
    cases (Iteration.diagonalize (Scalar.max tolerance Scalar.epsilon) limit
      (List.finRange cols) (Iteration.start (Tridiagonal.ofSymmetric g))).2 with
    | error index => rfl
    | ok s => exact sorted_eq s
  · have hshape : (⟨rows, cols, g⟩ : DenseMatrix α).shape ≠ ⟨rows, rows⟩ := fun h =>
      hsquare (congrArg Shape.cols h)
    rw [if_neg hsquare, DenseMatrix.grid?_eq_none hshape]
    rfl

end Indexed

end MatrixScript
