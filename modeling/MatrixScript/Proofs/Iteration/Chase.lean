import Mathlib.Tactic.LinearCombination
import MatrixScript.Proofs.Iteration.Rotation

/-!
# Chasing the bulge in exact arithmetic

A rotation of the chase writes its results one index behind, and keeps the rest of them in the
bulge.  Together, state and bulge stand for a matrix of five diagonals (`held`): the block that
is swept, cut off from what is around it, as the rotations made so far have left it.  Each of
them is an orthogonal similarity of that matrix (`basis_mul_held_turned`), and so is the chase
(`Rotates.basis_mul_severed`).
-/

namespace MatrixScript

namespace Iteration

open Matrix

variable {n : Nat}

/-! ## The steps of the chase -/

section Steps

variable {α : Type} [Scalar α]

/-- The length of what the rotation at `i` has to take together. -/
def radius (s : Iteration α n) (b : Bulge α) (i : Fin (n - 1)) : α :=
  Scalar.hypot (b.sine * s.coupling.get (Index.here i)) b.residue

/-- The bulge after the rotation at `i`. -/
def turnedBulge (s : Iteration α n) (b : Bulge α) (i : Fin (n - 1)) : Bulge α :=
  let sine := b.sine * s.coupling.get (Index.here i) / radius s b i
  let cosine := b.residue / radius s b i
  let e := b.cosine * s.coupling.get (Index.here i)
  let w := (s.diagonal.get (Index.here i) - (s.diagonal.get (Index.next i) - b.shift)) * sine +
    Scalar.ofCount 2 * cosine * e
  ⟨sine, cosine, sine * w, cosine * w - e⟩

/-- The state after the rotation at `i`. -/
def turned (s : Iteration α n) (b : Bulge α) (i : Fin (n - 1)) : Iteration α n where
  columns := rotate s.columns (turnedBulge s b i).sine (turnedBulge s b i).cosine i
  diagonal := setAt s.diagonal (Index.next i)
    (s.diagonal.get (Index.next i) - b.shift + (turnedBulge s b i).shift)
  coupling := setAt s.coupling (Index.next i) (radius s b i)

/-- The state in which the bulge has been put back at `l`, the start of the block. -/
def closed (l m : Fin n) (s : Iteration α n) (b : Bulge α) : Iteration α n :=
  { s with
    diagonal := setAt s.diagonal l (s.diagonal.get l - b.shift)
    coupling := setAt (setAt s.coupling l b.residue) m 0 }

/-- Rotations alone take the bulge from `l + t` up to `l`: none of them has nothing to rotate. -/
inductive Rotates (l m : Fin n) : Nat → Iteration α n → Bulge α → Iteration α n → Prop
  | done (s : Iteration α n) (b : Bulge α) : Rotates l m 0 s b (closed l m s b)
  | turn {t : Nat} {s s' : Iteration α n} {b : Bulge α} (i : Fin (n - 1))
      (hi : i.val = l.val + t) (hradius : (radius s b i == 0) = false)
      (h : Rotates l m t (turned s b i) (turnedBulge s b i) s') : Rotates l m (t + 1) s b s'

theorem chase_succ {l m : Fin n} {t : Nat} (ht : l.val + (t + 1) ≤ m.val) (s : Iteration α n)
    (b : Bulge α) {i : Fin (n - 1)} (hi : i.val = l.val + t)
    (hradius : (radius s b i == 0) = false) :
    chase l m (t + 1) ht s b =
      chase l m t (by omega) (turned s b i) (turnedBulge s b i) := by
  obtain ⟨k, hk⟩ := i
  obtain rfl : k = l.val + t := hi
  exact if_neg (ne_true_of_eq_false hradius)

theorem Rotates.chase_eq {l m : Fin n} {t : Nat} {s s' : Iteration α n} {b : Bulge α}
    (h : Rotates l m t s b s') (ht : l.val + t ≤ m.val) : chase l m t ht s b = s' := by
  induction h with
  | done s b => rfl
  | turn i hi hradius _ ih =>
      rw [chase_succ ht _ _ hi hradius]
      exact ih _

/-- The bulge with which a sweep of the block from `i` to `m` starts. -/
def firstBulge (s : Iteration α n) (i : Fin (n - 1)) (m : Fin n) : Bulge α :=
  let g := (s.diagonal.get (Index.next i) - s.diagonal.get (Index.here i)) /
    (Scalar.ofCount 2 * s.coupling.get (Index.here i))
  ⟨1, 1, 0, s.diagonal.get m - s.diagonal.get (Index.here i) +
    s.coupling.get (Index.here i) / (g + Scalar.copySign (Scalar.hypot g 1) g)⟩

theorem exists_here {l m : Fin n} (h : l < m) : ∃ i : Fin (n - 1), Index.here i = l :=
  ⟨⟨l.val, by omega⟩, rfl⟩

theorem sweep_eq_chase (s : Iteration α n) {l m : Fin n} (h : l < m) {i : Fin (n - 1)}
    (hi : Index.here i = l) :
    s.sweep l m h = chase l m (m.val - l.val) (by omega) s (firstBulge s i m) := by
  obtain rfl := hi
  rfl

theorem get_diagonal_turned (s : Iteration α n) (b : Bulge α) (i : Fin (n - 1)) (j : Fin n) :
    (turned s b i).diagonal.get j = if j = Index.next i then
      s.diagonal.get (Index.next i) - b.shift + (turnedBulge s b i).shift
      else s.diagonal.get j :=
  get_setAt _ _ _ j

theorem get_coupling_turned (s : Iteration α n) (b : Bulge α) (i : Fin (n - 1)) (j : Fin n) :
    (turned s b i).coupling.get j =
      if j = Index.next i then radius s b i else s.coupling.get j :=
  get_setAt _ _ _ j

end Steps

/-! ## The rotation -/

section Rotation

variable {s : Iteration ℝ n} {b : Bulge ℝ} {i : Fin (n - 1)}

theorem beq_zero_eq_false {x : ℝ} : (x == 0) = false ↔ x ≠ 0 := by
  rw [← Bool.not_eq_true, Scalar.beq_zero_real]

theorem radius_mul_self (s : Iteration ℝ n) (b : Bulge ℝ) (i : Fin (n - 1)) :
    radius s b i * radius s b i =
      b.sine * s.coupling.get (Index.here i) * (b.sine * s.coupling.get (Index.here i)) +
        b.residue * b.residue :=
  Real.mul_self_sqrt (add_nonneg (mul_self_nonneg _) (mul_self_nonneg _))

theorem sine_turnedBulge_mul (h : radius s b i ≠ 0) :
    (turnedBulge s b i).sine * radius s b i = b.sine * s.coupling.get (Index.here i) :=
  div_mul_cancel₀ _ h

theorem cosine_turnedBulge_mul (h : radius s b i ≠ 0) :
    (turnedBulge s b i).cosine * radius s b i = b.residue :=
  div_mul_cancel₀ _ h

theorem sine_mul_self_add_cosine_mul_self (h : radius s b i ≠ 0) :
    (turnedBulge s b i).sine * (turnedBulge s b i).sine +
      (turnedBulge s b i).cosine * (turnedBulge s b i).cosine = 1 := by
  have hsquare := radius_mul_self s b i
  rw [← sine_turnedBulge_mul h, ← cosine_turnedBulge_mul h] at hsquare
  apply mul_right_cancel₀ (mul_ne_zero h h)
  linear_combination -hsquare

/-- What the rotation takes off the diagonal element at `i`. -/
theorem shift_turnedBulge (s : Iteration ℝ n) (b : Bulge ℝ) (i : Fin (n - 1)) :
    (turnedBulge s b i).shift = (turnedBulge s b i).sine *
      ((s.diagonal.get (Index.here i) - (s.diagonal.get (Index.next i) - b.shift)) *
        (turnedBulge s b i).sine + 2 * (turnedBulge s b i).cosine *
          (b.cosine * s.coupling.get (Index.here i))) := by
  simp [turnedBulge, Scalar.ofCount]

/-- The coupling that the rotation leaves at `i`. -/
theorem residue_turnedBulge (s : Iteration ℝ n) (b : Bulge ℝ) (i : Fin (n - 1)) :
    (turnedBulge s b i).residue = (turnedBulge s b i).cosine *
      ((s.diagonal.get (Index.here i) - (s.diagonal.get (Index.next i) - b.shift)) *
        (turnedBulge s b i).sine + 2 * (turnedBulge s b i).cosine *
          (b.cosine * s.coupling.get (Index.here i))) -
            b.cosine * s.coupling.get (Index.here i) := by
  simp [turnedBulge, Scalar.ofCount]

end Rotation

/-! ## The matrix that state and bulge stand for -/

/-- The diagonal at `k` has still to be shifted. -/
def heldDiagonal (k : Fin n) (s : Iteration ℝ n) (b : Bulge ℝ) (j : Fin n) : ℝ :=
  if j = k then s.diagonal.get j - b.shift else s.diagonal.get j

/-- The couplings of the block from `l` to `m`: that at `k` is in the bulge, and the one before
it has been turned. -/
def heldCoupling (l m k : Fin n) (s : Iteration ℝ n) (b : Bulge ℝ) (j : Fin n) : ℝ :=
  if j = m ∨ j.val + 1 = l.val then 0
  else if j = k then b.residue
  else if j.val + 1 = k.val then b.cosine * s.coupling.get j
  else s.coupling.get j

/-- Beyond the coupling before `k`, the bulge itself.  The first rotation makes it. -/
def heldBulge (l m k : Fin n) (s : Iteration ℝ n) (b : Bulge ℝ) (j : Fin n) : ℝ :=
  if j.val + 1 = k.val ∧ k ≠ m ∧ k ≠ l then b.sine * s.coupling.get j else 0

/-- The matrix of the block from `l` to `m` with the bulge at `k`. -/
def held (l m k : Fin n) (s : Iteration ℝ n) (b : Bulge ℝ) : Matrix (Fin n) (Fin n) ℝ :=
  banded (heldDiagonal k s b) (heldCoupling l m k s b) (heldBulge l m k s b)

section Entries

variable {l m k j : Fin n} (s : Iteration ℝ n) (b : Bulge ℝ)

theorem heldDiagonal_self : heldDiagonal k s b k = s.diagonal.get k - b.shift := if_pos rfl

theorem heldDiagonal_of_ne (h : j ≠ k) : heldDiagonal k s b j = s.diagonal.get j := if_neg h

theorem heldCoupling_of_cut (h : j = m ∨ j.val + 1 = l.val) : heldCoupling l m k s b j = 0 :=
  if_pos h

theorem heldCoupling_self (hl : l ≤ k) (hm : k ≠ m) : heldCoupling l m k s b k = b.residue := by
  rw [heldCoupling, if_neg (by omega), if_pos rfl]

theorem heldCoupling_before (hcut : ¬(j = m ∨ j.val + 1 = l.val)) (h : j.val + 1 = k.val) :
    heldCoupling l m k s b j = b.cosine * s.coupling.get j := by
  rw [heldCoupling, if_neg hcut, if_neg (by omega), if_pos h]

theorem heldCoupling_of_ne (hcut : ¬(j = m ∨ j.val + 1 = l.val)) (hself : j ≠ k)
    (hbefore : j.val + 1 ≠ k.val) : heldCoupling l m k s b j = s.coupling.get j := by
  rw [heldCoupling, if_neg hcut, if_neg hself, if_neg hbefore]

theorem heldBulge_before (h : j.val + 1 = k.val) (hm : k ≠ m) (hl : k ≠ l) :
    heldBulge l m k s b j = b.sine * s.coupling.get j := if_pos ⟨h, hm, hl⟩

theorem heldBulge_of_ne (h : j.val + 1 ≠ k.val) : heldBulge l m k s b j = 0 :=
  if_neg fun hbulge => h hbulge.1

/-- At either end of the block there is no bulge. -/
theorem heldBulge_of_end (h : k = m ∨ k = l) : heldBulge l m k s b j = 0 :=
  if_neg fun hbulge => h.elim hbulge.2.1 hbulge.2.2

end Entries

section Turn

variable {l m : Fin n} {s : Iteration ℝ n} {b : Bulge ℝ} {i : Fin (n - 1)}

/-- A rotation turns the matrix in the plane of its two indices. -/
theorem turns_held (hl : l.val ≤ i.val) (hm : i.val < m.val) (hradius : radius s b i ≠ 0) :
    Turns i (turnedBulge s b i).sine (turnedBulge s b i).cosine
      (heldDiagonal (Index.next i) s b) (heldCoupling l m (Index.next i) s b)
      (heldBulge l m (Index.next i) s b)
      (heldDiagonal (Index.here i) (turned s b i) (turnedBulge s b i))
      (heldCoupling l m (Index.here i) (turned s b i) (turnedBulge s b i))
      (heldBulge l m (Index.here i) (turned s b i) (turnedBulge s b i)) := by
  have hhere := Index.val_here i
  have hnext := Index.val_next i
  have hne := here_ne_next i
  have hunit := sine_mul_self_add_cosine_mul_self hradius
  have hsine := sine_turnedBulge_mul hradius
  have hcosine := cosine_turnedBulge_mul hradius
  have hbetween : heldCoupling l m (Index.next i) s b (Index.here i) =
      b.cosine * s.coupling.get (Index.here i) := heldCoupling_before s b (by omega) (by omega)
  constructor
  case diagonal =>
    intro k hkh hkn
    rw [heldDiagonal_of_ne _ _ hkh, heldDiagonal_of_ne _ _ hkn, get_diagonal_turned, if_neg hkn]
  case here =>
    rw [heldDiagonal_self, get_diagonal_turned, if_neg hne, hbetween, heldDiagonal_of_ne _ _ hne,
      heldDiagonal_self, shift_turnedBulge]
    linear_combination -s.diagonal.get (Index.here i) * hunit
  case next =>
    rw [heldDiagonal_of_ne _ _ hne.symm, get_diagonal_turned, if_pos rfl, hbetween,
      heldDiagonal_of_ne _ _ hne, heldDiagonal_self, shift_turnedBulge]
    linear_combination -(s.diagonal.get (Index.next i) - b.shift) * hunit
  case coupling =>
    intro k hkh hkn hbefore
    by_cases hcut : k = m ∨ k.val + 1 = l.val
    · rw [heldCoupling_of_cut _ _ hcut, heldCoupling_of_cut _ _ hcut]
    · rw [heldCoupling_of_ne _ _ hcut hkh (by omega), heldCoupling_of_ne _ _ hcut hkn (by omega),
        get_coupling_turned, if_neg hkn]
  case between =>
    rw [hbetween, heldCoupling_self _ _ (by omega) (by omega), heldDiagonal_of_ne _ _ hne,
      heldDiagonal_self, residue_turnedBulge]
    linear_combination b.cosine * s.coupling.get (Index.here i) * hunit
  case before =>
    intro k hk
    have hkn : k ≠ Index.next i := by omega
    by_cases hcut : k = m ∨ k.val + 1 = l.val
    · rw [heldCoupling_of_cut _ _ hcut, heldCoupling_of_cut _ _ hcut,
        heldBulge_of_end _ _ (.inr (by omega)), mul_zero, mul_zero]
      exact ⟨rfl, rfl⟩
    · rw [heldCoupling_before _ _ hcut hk, heldBulge_before _ _ hk (by omega) (by omega),
        heldCoupling_of_ne _ _ hcut hkn (by omega), get_coupling_turned, if_neg hkn]
      exact ⟨rfl, rfl⟩
  case after =>
    -- The first rotation of a sweep meets no bulge, and what comes after it is cut off.
    by_cases hend : Index.next i = m
    · rw [heldCoupling_of_cut _ _ (.inl hend), heldCoupling_of_cut _ _ (.inl hend),
        heldBulge_of_end _ _ (.inl hend), mul_zero, mul_zero, add_zero]
    · rw [heldCoupling_of_ne _ _ (by omega) hne.symm (by omega), get_coupling_turned, if_pos rfl,
        heldBulge_before _ _ (by omega) hend (by omega), heldCoupling_self _ _ (by omega) hend,
        ← hsine, ← hcosine]
      linear_combination -radius s b i * hunit
  case absorbed =>
    by_cases hend : Index.next i = m
    · rw [heldCoupling_of_cut _ _ (.inl hend), heldBulge_of_end _ _ (.inl hend), mul_zero, mul_zero]
    · rw [heldBulge_before _ _ (by omega) hend (by omega), heldCoupling_self _ _ (by omega) hend,
        ← hsine, ← hcosine]
      ring
  case bulge =>
    intro k hk
    exact heldBulge_of_ne _ _ (by omega)
  case bulge' =>
    intro k hk
    exact heldBulge_of_ne _ _ (by omega)

theorem basis_turned (s : Iteration ℝ n) (b : Bulge ℝ) (i : Fin (n - 1)) :
    (turned s b i).basis =
      s.basis * rotation i (turnedBulge s b i).sine (turnedBulge s b i).cosine :=
  basis_rotate s _ _ i _ _

/-- A rotation of the chase is a similarity of the matrix that state and bulge stand for. -/
theorem basis_mul_held_turned (hl : l.val ≤ i.val) (hm : i.val < m.val)
    (hradius : radius s b i ≠ 0) :
    (turned s b i).basis * held l m (Index.here i) (turned s b i) (turnedBulge s b i) *
        (turned s b i).basisᵀ = s.basis * held l m (Index.next i) s b * s.basisᵀ := by
  have horthogonal := rotation_mul_transpose i (sine_mul_self_add_cosine_mul_self hradius)
  rw [held, ← (turns_held hl hm hradius).banded_eq, basis_turned]
  exact mul_conjugate_mul_transpose horthogonal _ _

theorem transpose_basis_turned_mul_self (hradius : radius s b i ≠ 0)
    (hs : s.basisᵀ * s.basis = 1) : (turned s b i).basisᵀ * (turned s b i).basis = 1 := by
  have horthogonal := transpose_rotation_mul_self i (sine_mul_self_add_cosine_mul_self hradius)
  rw [basis_turned, transpose_mul, Matrix.mul_assoc, ← Matrix.mul_assoc s.basisᵀ, hs,
    Matrix.one_mul, horthogonal]

end Turn

/-! ## The chase -/

/-- The matrix of a state with the block from `l` to `m` cut off from what is around it. -/
def severed (l m : Fin n) (s : Iteration ℝ n) : Matrix (Fin n) (Fin n) ℝ :=
  banded s.diagonal.get (fun j => if j = m ∨ j.val + 1 = l.val then 0 else s.coupling.get j) 0

/-- Before its first rotation, a chase has done nothing to the block. -/
theorem held_first (l m : Fin n) (s : Iteration ℝ n) (residue : ℝ) :
    held l m m s ⟨1, 1, 0, residue⟩ = severed l m s := by
  unfold held severed
  congr 1
  · funext j
    by_cases hj : j = m
    · rw [hj, heldDiagonal_self, sub_zero]
    · rw [heldDiagonal_of_ne _ _ hj]
  · funext j
    by_cases hcut : j = m ∨ j.val + 1 = l.val
    · rw [heldCoupling_of_cut _ _ hcut, if_pos hcut]
    · rw [if_neg hcut]
      by_cases hbefore : j.val + 1 = m.val
      · rw [heldCoupling_before _ _ hcut hbefore, one_mul]
      · exact heldCoupling_of_ne _ _ hcut (fun h => hcut (.inl h)) hbefore
  · funext j
    exact heldBulge_of_end _ _ (.inl rfl)

/-- After its last rotation, the bulge is put back where there is nothing before it. -/
theorem severed_closed {l m : Fin n} (h : l < m) (s : Iteration ℝ n) (b : Bulge ℝ) :
    severed l m (closed l m s b) = held l m l s b := by
  unfold held severed
  congr 1
  · funext j
    exact (get_setAt _ _ _ j).trans (by rw [heldDiagonal]; split <;> simp [*])
  · funext j
    by_cases hcut : j = m ∨ j.val + 1 = l.val
    · rw [heldCoupling_of_cut _ _ hcut, if_pos hcut]
    · rw [if_neg hcut, closed, get_setAt, if_neg fun hj => hcut (.inl hj), get_setAt]
      by_cases hj : j = l
      · rw [if_pos hj, hj, heldCoupling_self _ _ le_rfl h.ne]
      · rw [if_neg hj, heldCoupling_of_ne _ _ hcut hj fun hbefore => hcut (.inr hbefore)]
  · funext j
    exact (heldBulge_of_end _ _ (.inr rfl)).symm

theorem sum_get_setAt (v : Vector ℝ n) (i : Fin n) (x : ℝ) :
    ∑ k, (setAt v i x).get k = ∑ k, v.get k - v.get i + x := by
  have hrest : ∑ k ∈ Finset.univ.erase i, (setAt v i x).get k =
      ∑ k ∈ Finset.univ.erase i, v.get k := by
    apply Finset.sum_congr rfl
    intro k hk
    rw [get_setAt, if_neg (Finset.ne_of_mem_erase hk)]
  rw [← Finset.add_sum_erase _ _ (Finset.mem_univ i), hrest, get_setAt, if_pos rfl,
    ← Finset.add_sum_erase _ v.get (Finset.mem_univ i)]
  ring

namespace Rotates

variable {l m : Fin n} {t : Nat} {s s' : Iteration ℝ n} {b : Bulge ℝ}

theorem basis_mul_severed (h : Rotates l m t s b s') (hlm : l < m) {k : Fin n}
    (hk : k.val = l.val + t) (hm : k ≤ m) :
    s'.basis * severed l m s' * s'.basisᵀ = s.basis * held l m k s b * s.basisᵀ := by
  induction h generalizing k with
  | done s b =>
      obtain rfl : k = l := Fin.ext hk
      rw [severed_closed hlm]
      rfl
  | turn i hi hradius _ ih =>
      have hhere := Index.val_here i
      have hnext := Index.val_next i
      obtain rfl : k = Index.next i := by omega
      rw [ih (k := Index.here i) (by omega) (by omega)]
      exact basis_mul_held_turned (by omega) (by omega) (beq_zero_eq_false.mp hradius)

theorem transpose_basis_mul_self (h : Rotates l m t s b s') (hs : s.basisᵀ * s.basis = 1) :
    s'.basisᵀ * s'.basis = 1 := by
  induction h with
  | done s b => exact hs
  | turn i _ hradius _ ih =>
      exact ih (transpose_basis_turned_mul_self (beq_zero_eq_false.mp hradius) hs)

/-- What the bulge has taken off the diagonal is all that is missing there. -/
theorem sum_diagonal (h : Rotates l m t s b s') :
    ∑ k, s'.diagonal.get k = ∑ k, s.diagonal.get k - b.shift := by
  induction h with
  | done s b =>
      rw [closed, sum_get_setAt]
      ring
  | turn i _ _ _ ih =>
      rw [ih, turned, sum_get_setAt]
      ring

/-- Nothing is coupled to the end of the block any more. -/
theorem get_coupling_end (h : Rotates l m t s b s') : s'.coupling.get m = 0 := by
  induction h with
  | done s b => rw [closed, get_setAt, if_pos rfl]
  | turn _ _ _ _ ih => exact ih

/-- The chase stays within its block. -/
theorem get_of_outside (h : Rotates l m t s b s') (hlm : l < m) (ht : l.val + t ≤ m.val)
    {k : Fin n} (hk : k < l ∨ m < k) :
    s'.diagonal.get k = s.diagonal.get k ∧ s'.coupling.get k = s.coupling.get k := by
  induction h with
  | done s b =>
      have hkl : k ≠ l := by omega
      have hkm : k ≠ m := by omega
      rw [closed, get_setAt, get_setAt, get_setAt, if_neg hkl, if_neg hkl, if_neg hkm]
      exact ⟨rfl, rfl⟩
  | turn i hi _ _ ih =>
      have hnext := Index.val_next i
      have hkn : k ≠ Index.next i := by omega
      rw [(ih (by omega)).1, (ih (by omega)).2, get_diagonal_turned, get_coupling_turned,
        if_neg hkn, if_neg hkn]
      exact ⟨rfl, rfl⟩

end Rotates

/-- As long as it meets couplings that are not zero, the chase has something to rotate. -/
theorem exists_rotates {l : Fin n} (m : Fin n) {t : Nat} (ht : l.val + t < n)
    {s : Iteration ℝ n} {b : Bulge ℝ} (hsine : b.sine ≠ 0)
    (hcoupling : ∀ k : Fin n, l ≤ k → k.val < l.val + t → s.coupling.get k ≠ 0) :
    ∃ s', Rotates l m t s b s' := by
  induction t generalizing s b with
  | zero => exact ⟨_, .done s b⟩
  | succ t ih =>
      obtain ⟨i, hi⟩ : ∃ i : Fin (n - 1), i.val = l.val + t := ⟨⟨l.val + t, by omega⟩, rfl⟩
      have hhere := Index.val_here i
      have hnext := Index.val_next i
      have hf : b.sine * s.coupling.get (Index.here i) ≠ 0 :=
        mul_ne_zero hsine (hcoupling _ (by omega) (by omega))
      have hradius : radius s b i ≠ 0 := by
        have hpos := add_pos_of_pos_of_nonneg (mul_self_pos.mpr hf) (mul_self_nonneg b.residue)
        rw [← radius_mul_self] at hpos
        exact mul_self_pos.mp hpos
      -- The rotation leaves the couplings alone that the rest of the chase meets.
      have hrest : ∀ k : Fin n, l ≤ k → k.val < l.val + t →
          (turned s b i).coupling.get k ≠ 0 := by
        intro k hlk hk
        rw [get_coupling_turned, if_neg (by omega)]
        exact hcoupling k hlk (by omega)
      obtain ⟨s', h⟩ := ih (by omega) (b := turnedBulge s b i) (div_ne_zero hf hradius) hrest
      exact ⟨s', .turn i hi (beq_zero_eq_false.mpr hradius) h⟩

end Iteration

end MatrixScript
