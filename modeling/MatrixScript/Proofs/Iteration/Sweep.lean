import MatrixScript.Proofs.Exact.Partial
import MatrixScript.Proofs.Iteration.Chase

/-!
# A sweep is an orthogonal similarity

A sweep covers a block whose couplings are not negligible, so none of them is zero.  It then
divides by zero nowhere, and every one of its rotations has something to rotate.  If the block
is coupled to nothing around it, the sweep is a similarity of the tridiagonal matrix; a coupling
before the block that is not zero stays behind.
-/

namespace MatrixScript

namespace Iteration

open Matrix PartialReal

variable {n : Nat}

/-! ## Sweeps with a value throughout -/

/-- Every element of `p` has a value, which is that of `s`. -/
structure HasValues (p : Iteration PartialReal n) (s : Iteration ℝ n) : Prop where
  columns : ∀ j k, (p.columns.get j).get k = value ((s.columns.get j).get k)
  diagonal : ∀ k, p.diagonal.get k = value (s.diagonal.get k)
  coupling : ∀ k, p.coupling.get k = value (s.coupling.get k)

structure Bulge.HasValues (q : Bulge PartialReal) (b : Bulge ℝ) : Prop where
  sine : q.sine = value b.sine
  cosine : q.cosine = value b.cosine
  shift : q.shift = value b.shift
  residue : q.residue = value b.residue

section Values

variable {p : Iteration PartialReal n} {s : Iteration ℝ n} {q : Bulge PartialReal} {b : Bulge ℝ}
  {i : Fin (n - 1)}

theorem HasValues.radius (hp : p.HasValues s) (hq : q.HasValues b) :
    p.radius q i = value (s.radius b i) := by
  rw [Iteration.radius, Iteration.radius, hq.sine, hp.coupling, hq.residue, value_hypot, value_mul]

theorem HasValues.turnedBulge (hp : p.HasValues s) (hq : q.HasValues b)
    (hradius : s.radius b i ≠ 0) : (p.turnedBulge q i).HasValues (s.turnedBulge b i) := by
  constructor <;>
    simp only [Iteration.turnedBulge, hp.radius hq, hp.diagonal, hp.coupling, hq.sine, hq.cosine,
      hq.shift, hq.residue, value_add, value_sub, value_mul, value_div hradius, value_ofCount]

theorem HasValues.turned (hp : p.HasValues s) (hq : q.HasValues b)
    (hradius : s.radius b i ≠ 0) : (p.turned q i).HasValues (s.turned b i) := by
  have hbulge := hp.turnedBulge hq hradius
  constructor
  · intro j k
    simp only [Iteration.turned, Indexed.get_rotate, hp.columns, hbulge.sine, hbulge.cosine,
      apply_ite value, value_add, value_sub, value_mul]
  · intro k
    simp only [get_diagonal_turned, hp.diagonal, hq.shift, hbulge.shift, apply_ite value,
      value_add, value_sub]
  · intro k
    simp only [get_coupling_turned, hp.coupling, hp.radius hq, apply_ite value]

theorem HasValues.closed (hp : p.HasValues s) (hq : q.HasValues b) (l m : Fin n) :
    (Iteration.closed l m p q).HasValues (Iteration.closed l m s b) where
  columns := hp.columns
  diagonal k := by
    simp only [Iteration.closed, get_setAt, hp.diagonal, hq.shift, apply_ite value, value_sub]
  coupling k := by
    simp only [Iteration.closed, get_setAt, hp.coupling, hq.residue, apply_ite value, value_zero]

theorem Rotates.hasValues {l m : Fin n} {t : Nat} {s' : Iteration ℝ n}
    (h : Rotates l m t s b s') (hp : p.HasValues s) (hq : q.HasValues b) :
    ∃ p', Rotates l m t p q p' ∧ p'.HasValues s' := by
  induction h generalizing p q with
  | done s b => exact ⟨_, .done p q, hp.closed hq l m⟩
  | turn i hi hradius _ ih =>
      have hne := beq_zero_eq_false.mp hradius
      obtain ⟨p', hrotates, hvalues⟩ := ih (hp.turned hq hne) (hp.turnedBulge hq hne)
      refine ⟨p', .turn i hi ?_ hrotates, hvalues⟩
      rw [hp.radius hq, value_beq_zero, hradius]

end Values

/-! ## Blocks without a negligible coupling -/

section Block

variable {s : Iteration ℝ n} {relative : ℝ}

theorem negligible_iff {m : Fin (n - 1)} : s.negligible relative m ↔
    |s.coupling.get (Index.here m)| ≤
      relative * (|s.diagonal.get (Index.here m)| + |s.diagonal.get (Index.next m)|) :=
  decide_eq_true_iff

theorem negligible_of_zero (hrelative : 0 ≤ relative) {m : Fin (n - 1)}
    (h : s.coupling.get (Index.here m) = 0) : s.negligible relative m := by
  rw [negligible_iff, h, abs_zero]
  exact mul_nonneg hrelative (add_nonneg (abs_nonneg _) (abs_nonneg _))

/-- The tolerance of the iteration is never below the spacing of the numbers. -/
theorem max_epsilon_pos (tolerance : ℝ) : 0 < Scalar.max tolerance Scalar.epsilon := by
  have hepsilon : (0 : ℝ) < Scalar.epsilon :=
    one_div_pos.mpr (Nat.cast_pos.mpr (Nat.pow_pos Nat.two_pos))
  exact lt_max_of_lt_right hepsilon

/-- No coupling from `l` on is negligible before `m`. -/
def Unreduced (relative : ℝ) (s : Iteration ℝ n) (l m : Fin n) : Prop :=
  ∀ i : Fin (n - 1), l.val ≤ i.val → i.val < m.val → ¬s.negligible relative i

variable {l m : Fin n}

theorem Unreduced.coupling_ne_zero (h : Unreduced relative s l m) (hrelative : 0 ≤ relative)
    {k : Fin n} (hl : l ≤ k) (hm : k < m) : s.coupling.get k ≠ 0 := by
  intro hzero
  exact h ⟨k.val, by omega⟩ hl hm (negligible_of_zero hrelative hzero)

/-- The block ends where the coupling is zero, or with the matrix. -/
theorem Unreduced.blockEnd_eq (h : Unreduced relative s l m) (hrelative : 0 ≤ relative)
    (hlm : l < m) (hend : s.coupling.get m = 0 ∨ m.val = n - 1) : s.blockEnd relative l = m := by
  by_cases hlast : m.val = n - 1
  · rw [blockEnd_of_none fun k hk => h k hk (by omega)]
    exact Fin.ext hlast.symm
  · have hm : m.val < n - 1 := by omega
    have hzero : s.coupling.get (Index.here ⟨m.val, hm⟩) = 0 := hend.resolve_right hlast
    rw [blockEnd_of_negligible (m := ⟨m.val, hm⟩) hlm.le (negligible_of_zero hrelative hzero)
      fun k hk hkm => h k hk hkm]
    rfl

/-- A block has no negligible coupling before its end. -/
theorem unreduced_blockEnd (relative : ℝ) (s : Iteration ℝ n) (l : Fin n) :
    Unreduced relative s l (s.blockEnd relative l) := by
  intro k hl hk hnegligible
  unfold blockEnd at hk
  split at hk
  case h_1 m hfind =>
      obtain ⟨-, p, hp, rfl, hbefore⟩ := List.find?_eq_some_iff_getElem.mp hfind
      have hkp : k.val < p := by simpa [Index.val_here] using hk
      have hnot := hbefore k.val hkp
      simp [hl, hnegligible] at hnot
  case h_2 hfind =>
      have hnot := List.find?_eq_none.mp hfind k (List.mem_finRange k)
      simp [hl, hnegligible] at hnot

end Block

/-! ## Sweeps -/

section Sweep

variable {s : Iteration ℝ n} {relative : ℝ} {l m : Fin n}

/-- The denominator of the shift is no cancellation: both of its terms have one sign. -/
theorem add_copySign_hypot_ne_zero (g : ℝ) : g + Scalar.copySign (Scalar.hypot g 1) g ≠ 0 := by
  have hpos : 0 < Scalar.hypot g 1 :=
    Real.sqrt_pos.mpr (add_pos_of_nonneg_of_pos (mul_self_nonneg g) (mul_pos one_pos one_pos))
  have habs : |Scalar.hypot g 1| = Scalar.hypot g 1 := abs_of_pos hpos
  rcases lt_or_ge g 0 with hg | hg
  · have hsign : Scalar.copySign (Scalar.hypot g 1) g = -|Scalar.hypot g 1| := if_pos hg
    rw [hsign, habs]
    linarith
  · have hsign : Scalar.copySign (Scalar.hypot g 1) g = |Scalar.hypot g 1| := if_neg (not_lt.mpr hg)
    rw [hsign, habs]
    linarith

/-- The shift of a sweep is found without a division by zero. -/
theorem HasValues.firstBulge {p : Iteration PartialReal n} (hp : p.HasValues s) {i : Fin (n - 1)}
    (hcoupling : s.coupling.get (Index.here i) ≠ 0) (m : Fin n) :
    (p.firstBulge i m).HasValues (s.firstBulge i m) := by
  have htwice : Scalar.ofCount 2 * s.coupling.get (Index.here i) ≠ 0 :=
    mul_ne_zero two_ne_zero hcoupling
  refine ⟨value_one, value_one, value_zero, ?_⟩
  simp only [Iteration.firstBulge, hp.diagonal, hp.coupling, value_add, value_sub, value_mul,
    value_div htwice, value_div (add_copySign_hypot_ne_zero _), value_hypot, value_copySign,
    value_ofCount, value_one]

/-- The symmetric tridiagonal matrix of a state. -/
def toMatrix (s : Iteration ℝ n) : Matrix (Fin n) (Fin n) ℝ :=
  banded s.diagonal.get s.coupling.get 0

/-- A block that is coupled to nothing around it is cut off already. -/
theorem severed_eq_toMatrix (hbefore : ∀ k : Fin n, k.val + 1 = l.val → s.coupling.get k = 0)
    (hend : s.coupling.get m = 0 ∨ m.val = n - 1) : severed l m s = s.toMatrix := by
  apply banded_congr
  intro k hk
  split
  case isTrue hcut =>
      rcases hcut with rfl | hkl
      · have hnot : k.val ≠ n - 1 := by omega
        exact (hend.resolve_right hnot).symm
      · exact (hbefore k hkl).symm
  case isFalse => rfl

theorem converge_succ (relative : ℝ) (budget used : Nat) (hm : s.blockEnd relative l = m)
    (hlm : l < m) : converge relative l (budget + 1) used s =
      converge relative l budget (used + 1) (s.sweep l m hlm) := by
  subst hm
  rw [converge, dif_pos hlm]

namespace Unreduced

/-- A sweep over a block without a negligible coupling is made of rotations. -/
theorem rotates_sweep (h : Unreduced relative s l m) (hrelative : 0 ≤ relative)
    (hlm : l < m) {i : Fin (n - 1)} (hi : Index.here i = l) :
    Rotates l m (m.val - l.val) s (s.firstBulge i m) (s.sweep l m hlm) := by
  have hcoupling : ∀ k : Fin n, l ≤ k → k.val < l.val + (m.val - l.val) →
      s.coupling.get k ≠ 0 := fun k hlk hk =>
    h.coupling_ne_zero hrelative hlk (by omega)
  obtain ⟨s', hrotates⟩ := exists_rotates m (b := s.firstBulge i m) (by omega) one_ne_zero hcoupling
  rw [sweep_eq_chase s hlm hi, hrotates.chase_eq]
  exact hrotates

theorem hasValues_sweep (h : Unreduced relative s l m) (hrelative : 0 ≤ relative) (hlm : l < m)
    {p : Iteration PartialReal n} (hp : p.HasValues s) :
    (p.sweep l m hlm).HasValues (s.sweep l m hlm) := by
  obtain ⟨i, hi⟩ := exists_here hlm
  have hcoupling : s.coupling.get (Index.here i) ≠ 0 :=
    h.coupling_ne_zero hrelative hi.ge (hi ▸ hlm)
  obtain ⟨p', hp', hvalues⟩ :=
    (h.rotates_sweep hrelative hlm hi).hasValues hp (hp.firstBulge hcoupling m)
  rw [sweep_eq_chase p hlm hi, hp'.chase_eq]
  exact hvalues

/-- A sweep takes the block that it covers to one that is similar to it, whatever is around. -/
theorem basis_mul_severed_sweep (h : Unreduced relative s l m) (hrelative : 0 ≤ relative)
    (hlm : l < m) :
    (s.sweep l m hlm).basis * severed l m (s.sweep l m hlm) * (s.sweep l m hlm).basisᵀ =
      s.basis * severed l m s * s.basisᵀ := by
  obtain ⟨i, hi⟩ := exists_here hlm
  have hlast : m.val = l.val + (m.val - l.val) := by omega
  rw [(h.rotates_sweep hrelative hlm hi).basis_mul_severed hlm hlast le_rfl, firstBulge,
    held_first]

end Unreduced

/-- A sweep over a block without a negligible coupling, with nothing coupled to its end.  It is
the pass that the iteration makes over that block, it divides by zero nowhere, none of its
rotations has nothing to rotate, and it is a similarity of the block.  If nothing is coupled to
the start of the block either, it is a similarity of the whole matrix. -/
theorem sweep_similar (tolerance : ℝ) (s : Iteration ℝ n) {l m : Fin n} (hlm : l < m)
    (hblock : Unreduced (Scalar.max tolerance Scalar.epsilon) s l m)
    (hend : s.coupling.get m = 0 ∨ m.val = n - 1) :
    (∀ budget used, converge (Scalar.max tolerance Scalar.epsilon) l (budget + 1) used s =
      converge (Scalar.max tolerance Scalar.epsilon) l budget (used + 1) (s.sweep l m hlm)) ∧
    (∀ p : Iteration PartialReal n, p.HasValues s →
      (p.sweep l m hlm).HasValues (s.sweep l m hlm)) ∧
    (∀ i, Index.here i = l →
      Rotates l m (m.val - l.val) s (s.firstBulge i m) (s.sweep l m hlm)) ∧
    (s.sweep l m hlm).basis * severed l m (s.sweep l m hlm) * (s.sweep l m hlm).basisᵀ =
      s.basis * severed l m s * s.basisᵀ ∧
    ((∀ k : Fin n, k.val + 1 = l.val → s.coupling.get k = 0) →
      (s.sweep l m hlm).basis * (s.sweep l m hlm).toMatrix * (s.sweep l m hlm).basisᵀ =
        s.basis * s.toMatrix * s.basisᵀ) ∧
    (s.basisᵀ * s.basis = 1 → (s.sweep l m hlm).basisᵀ * (s.sweep l m hlm).basis = 1) ∧
    ∀ k, k < l ∨ m < k →
      (s.sweep l m hlm).diagonal.get k = s.diagonal.get k ∧
      (s.sweep l m hlm).coupling.get k = s.coupling.get k := by
  have hrelative := (max_epsilon_pos tolerance).le
  obtain ⟨i, hi⟩ := exists_here hlm
  have hrotates := hblock.rotates_sweep hrelative hlm hi
  have hsevered := hblock.basis_mul_severed_sweep hrelative hlm
  have houtside : ∀ k, k < l ∨ m < k →
      (s.sweep l m hlm).diagonal.get k = s.diagonal.get k ∧
      (s.sweep l m hlm).coupling.get k = s.coupling.get k := fun k hk =>
    hrotates.get_of_outside hlm (by omega) hk
  refine ⟨fun budget used => converge_succ _ budget used (hblock.blockEnd_eq hrelative hlm hend) hlm,
    fun p hp => hblock.hasValues_sweep hrelative hlm hp,
    fun i hi => hblock.rotates_sweep hrelative hlm hi,
    hsevered, ?_, hrotates.transpose_basis_mul_self, houtside⟩
  intro hbefore
  -- The coupling before the block is still zero afterwards, as the sweep stays inside.
  have hbefore' : ∀ k : Fin n, k.val + 1 = l.val → (s.sweep l m hlm).coupling.get k = 0 := by
    intro k hk
    rw [(houtside k (by omega)).2, hbefore k hk]
  rw [← severed_eq_toMatrix hbefore hend,
    ← severed_eq_toMatrix hbefore' (.inl hrotates.get_coupling_end), hsevered]

end Sweep

/-! ## A block with a coupling before it -/

/-- A block at `1` and `2`, with a coupling before it. -/
noncomputable def preceded (before : ℝ) : Iteration ℝ 3 where
  columns := Vector.ofFn fun j => Vector.ofFn fun k => if k = j then 1 else 0
  diagonal := Vector.ofFn ![1, 0, 0]
  coupling := Vector.ofFn ![before, 1, 0]

theorem basis_preceded (before : ℝ) : (preceded before).basis = 1 := by
  ext k j
  rw [basis_apply, preceded, get_ofFn, get_ofFn, one_apply]

/-- Nothing but zero is negligible where the diagonal is zero. -/
theorem unreduced_preceded (relative before : ℝ) : Unreduced relative (preceded before) 1 2 := by
  intro i hl hm
  obtain rfl : i = 1 := Fin.ext (Nat.le_antisymm (Nat.le_of_lt_succ hm) hl)
  have hcoupling : (preceded before).coupling.get (Index.here 1) = 1 := get_ofFn _ _
  have hfirst : (preceded before).diagonal.get (Index.here 1) = 0 := get_ofFn _ _
  have hsecond : (preceded before).diagonal.get (Index.next 1) = 0 := get_ofFn _ _
  rw [negligible_iff, hcoupling, hfirst, hsecond, abs_zero, add_zero, mul_zero, abs_one]
  exact not_le.mpr one_pos

theorem sweep_similar_preceded :
    Unreduced (Scalar.max 1 Scalar.epsilon) (preceded 0) 1 2 ∧
    (preceded 0).coupling.get 2 = 0 ∧
    ((preceded 0).sweep 1 2 (by decide)).basis * ((preceded 0).sweep 1 2 (by decide)).toMatrix *
        ((preceded 0).sweep 1 2 (by decide)).basisᵀ =
      (preceded 0).basis * (preceded 0).toMatrix * (preceded 0).basisᵀ := by
  have hblock := unreduced_preceded (Scalar.max 1 Scalar.epsilon) 0
  have hend : (preceded 0).coupling.get 2 = 0 := get_ofFn _ _
  have hsimilar := sweep_similar 1 (preceded 0) (by decide) hblock (.inl hend)
  refine ⟨hblock, hend, hsimilar.2.2.2.2.1 ?_⟩
  intro k hk
  obtain rfl : k = 0 := Fin.ext (Nat.succ.inj hk)
  exact get_ofFn _ _

/-- A rotation that leaves the coupling before its plane as it is carries it outside the band. -/
theorem rotation_mul_banded_apply (sine cosine : ℝ) (d e : Fin 3 → ℝ) :
    (rotation (n := 3) 1 sine cosine * banded d e 0 * (rotation (n := 3) 1 sine cosine)ᵀ) 0 2 =
      -(sine * e 0) := by
  have hhere : Index.here (1 : Fin 2) = (1 : Fin 3) := rfl
  have hnext : Index.next (1 : Fin 2) = (2 : Fin 3) := rfl
  simp [Matrix.mul_apply, Fin.sum_univ_three, rotation, rotated, banded, one_apply, hhere, hnext,
    mul_comm]

/-- The one rotation that the sweep of the block makes. -/
theorem Rotates.exists_rotation_preceded {before : ℝ} {s' : Iteration ℝ 3}
    (h : Rotates 1 2 1 (preceded before) (firstBulge (preceded before) 1 2) s') :
    ∃ sine cosine, sine ≠ 0 ∧ s'.basis = (preceded before).basis * rotation 1 sine cosine := by
  cases h with
  | turn i hi hradius h =>
      obtain rfl : i = 1 := Fin.ext hi
      cases h
      have hcoupling : (preceded before).coupling.get (Index.here 1) = 1 := get_ofFn _ _
      refine ⟨_, _, ?_, basis_turned _ _ 1⟩
      refine div_ne_zero (mul_ne_zero one_ne_zero ?_) (beq_zero_eq_false.mp hradius)
      rw [hcoupling]
      exact one_ne_zero

/-- A sweep is no similarity of a matrix in which its block is coupled to what comes before it,
even if that coupling is negligible. -/
theorem sweep_preceded_not_similar :
    (preceded 1).negligible (Scalar.max 1 Scalar.epsilon) 0 ∧
    Unreduced (Scalar.max 1 Scalar.epsilon) (preceded 1) 1 2 ∧
    (preceded 1).coupling.get 2 = 0 ∧
    ((preceded 1).sweep 1 2 (by decide)).basis * ((preceded 1).sweep 1 2 (by decide)).toMatrix *
        ((preceded 1).sweep 1 2 (by decide)).basisᵀ ≠
      (preceded 1).basis * (preceded 1).toMatrix * (preceded 1).basisᵀ := by
  have hblock := unreduced_preceded (Scalar.max 1 Scalar.epsilon) 1
  have hbefore : (preceded 1).coupling.get 0 = 1 := get_ofFn _ _
  refine ⟨?_, hblock, get_ofFn _ _, ?_⟩
  · have hfirst : (preceded 1).diagonal.get (Index.here 0) = 1 := get_ofFn _ _
    have hsecond : (preceded 1).diagonal.get (Index.next 0) = 0 := get_ofFn _ _
    have hcoupling : (preceded 1).coupling.get (Index.here 0) = 1 := hbefore
    rw [negligible_iff, hcoupling, hfirst, hsecond, abs_one, abs_zero, add_zero, mul_one]
    exact le_max_left _ _
  · have hrotates : Rotates 1 2 1 (preceded 1) (firstBulge (preceded 1) 1 2)
        ((preceded 1).sweep 1 2 (by decide)) :=
      hblock.rotates_sweep (max_epsilon_pos 1).le (by decide) (i := 1) rfl
    obtain ⟨sine, cosine, hsine, hbasis⟩ := hrotates.exists_rotation_preceded
    have hkept := (hrotates.get_of_outside (by decide) (by decide) (k := 0) (.inl (by decide))).2
    have hzero : (preceded 1).toMatrix 0 2 = 0 := rfl
    intro hsimilar
    have hentry := congrFun (congrFun hsimilar 0) 2
    rw [hbasis, basis_preceded, Matrix.one_mul, Matrix.one_mul, transpose_one, Matrix.mul_one,
      hzero, toMatrix, rotation_mul_banded_apply, hkept, hbefore, mul_one] at hentry
    exact hsine (neg_eq_zero.mp hentry)

end Iteration

end MatrixScript
