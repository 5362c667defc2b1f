import Mathlib.Algebra.Order.Star.Real
import Mathlib.LinearAlgebra.Matrix.Block
import Mathlib.LinearAlgebra.Matrix.PosDef
import Mathlib.Tactic.FieldSimp
import Mathlib.Tactic.Ring
import MatrixScript.DenseMatrix.Inverse
import MatrixScript.Proofs.Exact.Real

/-!
# The Cholesky factor in exact arithmetic

The factor takes the place of the matrix column by column.  As long as the pivots are
positive, the columns that are done multiply to those of the matrix (`Factored`), and the
next pivot is positive exactly if the next leading block is positive definite.  So the
factorisation ends, or it stops at the first leading block that is not.
-/

namespace MatrixScript

namespace Cholesky

open Matrix Finset

variable {n : Nat} {S : Matrix (Fin n) (Fin n) ℝ} {a : Grid ℝ n n}

/-- The lower triangle of a grid, with zeros above it. -/
def lower (a : Grid ℝ n n) : Matrix (Fin n) (Fin n) ℝ :=
  Matrix.of fun i j => if j ≤ i then a.get i j else 0

theorem lower_of_le (a : Grid ℝ n n) {i j : Fin n} (h : j ≤ i) : lower a i j = a.get i j :=
  if_pos h

theorem lower_of_lt (a : Grid ℝ n n) {i j : Fin n} (h : i < j) : lower a i j = 0 :=
  if_neg (not_le_of_gt h)

/-- The product of the triangle and its transpose ends with the column of the diagonal. -/
theorem lower_mul_transpose (a : Grid ℝ n n) {i k : Fin n} (h : k ≤ i) :
    (lower a * (lower a)ᵀ) i k = ∑ p ∈ Iio k, a.get i p * a.get k p + a.get i k * a.get k k := by
  have hzero : ∀ p ∉ Iic k, lower a i p * lower a k p = 0 := by
    intro p hp
    rw [lower_of_lt a (not_le.mp (mt mem_Iic.mpr hp)), mul_zero]
  have hterm : ∀ p ∈ Iic k, lower a i p * lower a k p = a.get i p * a.get k p := by
    intro p hp
    have hpk : p ≤ k := mem_Iic.mp hp
    rw [lower_of_le a hpk, lower_of_le a (hpk.trans h)]
  rw [Matrix.mul_apply]
  calc ∑ p, lower a i p * lower a k p
      = ∑ p ∈ Iic k, lower a i p * lower a k p :=
        (sum_subset (subset_univ _) fun p _ hp => hzero p hp).symm
    _ = ∑ p ∈ Iic k, a.get i p * a.get k p := sum_congr rfl hterm
    _ = ∑ p ∈ Iio k, a.get i p * a.get k p + a.get i k * a.get k k := by
        rw [← Iio_insert, sum_insert (by simp), add_comm]

/-! ## One column -/

theorem pivot_real (a : Grid ℝ n n) (j : Fin n) :
    pivot a j = a.get j j - ∑ p ∈ Iio j, a.get j p * a.get j p := by
  unfold pivot
  rw [Scalar.sum_real, Index.sum_before j fun p => a.get j p * a.get j p]

theorem entry_real (a : Grid ℝ n n) (diagonal : ℝ) (i j : Fin n) :
    entry a diagonal i j = (a.get i j - ∑ p ∈ Iio j, a.get i p * a.get j p) / diagonal := by
  unfold entry
  rw [Scalar.sum_real, Index.sum_before j fun p => a.get i p * a.get j p]

/-- Before column `j` the grid holds the factor of `S`, from there on `S` itself. -/
structure Factored (S : Matrix (Fin n) (Fin n) ℝ) (j : Nat) (a : Grid ℝ n n) : Prop where
  untouched : ∀ i k, j ≤ k.val → k ≤ i → a.get i k = S i k
  diagonal_pos : ∀ k, k.val < j → 0 < a.get k k
  product : ∀ i k, k.val < j → k ≤ i → (lower a * (lower a)ᵀ) i k = S i k

theorem factored_symmetrized (a : Grid ℝ n n) : Factored a.symmetrized 0 a where
  untouched _ _ _ h := (a.symmetrized_of_le h).symm
  diagonal_pos _ h := absurd h (Nat.not_lt_zero _)
  product _ _ h := absurd h (Nat.not_lt_zero _)

/-- What a column with a positive pivot becomes. -/
theorem exists_factorColumn {j : Fin n} (hpivot : 0 < pivot a j) :
    ∃ a', factorColumn a j = .ok a' ∧ a'.get j j = √(pivot a j) ∧
      (∀ i, j < i → a'.get i j = entry a √(pivot a j) i j) ∧
        ∀ i k, k ≠ j → a'.get i k = a.get i k := by
  refine ⟨_, if_pos hpivot, ?_, ?_, ?_⟩
  · rw [Grid.get_ofFn, if_pos ⟨rfl, rfl⟩]
    rfl
  · intro i hi
    rw [Grid.get_ofFn, if_neg fun h => hi.ne' h.2, if_pos ⟨rfl, hi⟩]
    rfl
  · intro i k hk
    rw [Grid.get_ofFn, if_neg fun h => hk h.1, if_neg fun h => hk h.1]

theorem factorColumn_of_not_pos {j : Fin n} (hpivot : ¬ 0 < pivot a j) :
    factorColumn a j = .error (.notPositiveDefinite j (pivot a j)) :=
  if_neg hpivot

/-- A column with a positive pivot is taken into the factor. -/
theorem Factored.step {j : Fin n} (h : Factored S j a) (hpivot : 0 < pivot a j) :
    ∃ a', factorColumn a j = .ok a' ∧ Factored S (j.val + 1) a' := by
  obtain ⟨a', hcolumn, hdiagonal, hbelow, hother⟩ := exists_factorColumn hpivot
  have hroot : √(pivot a j) * √(pivot a j) = pivot a j := Real.mul_self_sqrt hpivot.le
  have hpos : 0 < √(pivot a j) := Real.sqrt_pos.mpr hpivot
  -- The columns before `j` are read only, and they are those of `a`.
  have hbefore : ∀ (k : Fin n), k ≤ j → ∀ i, ∑ p ∈ Iio k, a'.get i p * a'.get k p =
      ∑ p ∈ Iio k, a.get i p * a.get k p := by
    intro k hk i
    apply sum_congr rfl
    intro p hp
    have hpj : p ≠ j := ((mem_Iio.mp hp).trans_le hk).ne
    rw [hother i p hpj, hother k p hpj]
  refine ⟨a', hcolumn, ?_, ?_, ?_⟩
  · intro i k hk hki
    rw [hother i k (by omega)]
    exact h.untouched i k (by omega) hki
  · intro k hk
    by_cases hkj : k = j
    · rw [hkj, hdiagonal]
      exact hpos
    · rw [hother k k hkj]
      exact h.diagonal_pos k (by omega)
  · intro i k hk hki
    rw [lower_mul_transpose a' hki, hbefore k (by omega)]
    by_cases hkj : k = j
    · subst hkj
      rw [hdiagonal, ← h.untouched i k (Nat.le_refl _) hki]
      rcases hki.eq_or_lt with rfl | hlt
      · rw [hdiagonal, hroot, pivot_real]
        ring
      · rw [hbelow i hlt, entry_real]
        field_simp
        ring
    · rw [hother i k hkj, hother k k hkj, ← lower_mul_transpose a hki]
      exact h.product i k (by omega) hki

/-! ## The leading blocks -/

/-- The leading block that ends with index `j`. -/
def leading (S : Matrix (Fin n) (Fin n) ℝ) (j : Fin n) :
    Matrix (Fin (j.val + 1)) (Fin (j.val + 1)) ℝ :=
  S.submatrix (Fin.castLE j.isLt) (Fin.castLE j.isLt)

/-- The factor of the columns before `j`, completed by a one to a triangle of the size of the
leading block. -/
def border (a : Grid ℝ n n) (j : Fin n) : Matrix (Fin (j.val + 1)) (Fin (j.val + 1)) ℝ :=
  Matrix.of fun i p =>
    if p.val < j.val then lower a (i.castLE j.isLt) (p.castLE j.isLt) else if i = p then 1 else 0

/-- Up to row and column `j`, the matrix is the product of the columns that are done, with the
pivot at its end. -/
theorem Factored.eq_sum_add_pivot (hS : S.IsSymm) {j : Fin n} (h : Factored S j a) {i k : Fin n}
    (hi : i ≤ j) (hk : k ≤ j) :
    S i k = ∑ p ∈ Iio j, lower a i p * lower a k p + if i = j ∧ k = j then pivot a j else 0 := by
  wlog hki : k ≤ i generalizing i k with hswap
  · rw [← hS.apply i k, hswap hk hi (not_le.mp hki).le]
    simp only [mul_comm (lower a k _), and_comm (a := k = j)]
  by_cases hkj : k = j
  · obtain rfl : i = k := le_antisymm (hi.trans hkj.ge) hki
    subst hkj
    have hrow : ∑ p ∈ Iio i, lower a i p * lower a i p = ∑ p ∈ Iio i, a.get i p * a.get i p := by
      apply sum_congr rfl
      intro p hp
      rw [lower_of_le a (mem_Iio.mp hp).le]
    rw [if_pos ⟨rfl, rfl⟩, hrow, pivot_real, ← h.untouched i i (Nat.le_refl _) (le_refl i)]
    ring
  · have hlt : k < j := lt_of_le_of_ne hk hkj
    have hzero : ∀ p ∉ Iio j, lower a i p * lower a k p = 0 := by
      intro p hp
      rw [lower_of_lt a (hlt.trans_le (not_lt.mp (mt mem_Iio.mpr hp))), mul_zero]
    rw [if_neg fun h => hkj h.2, add_zero, ← h.product i k hlt hki, Matrix.mul_apply]
    exact (sum_subset (subset_univ _) fun p _ hp => hzero p hp).symm

theorem border_castSucc (a : Grid ℝ n n) (j : Fin n) (i : Fin (j.val + 1)) (p : Fin j.val) :
    border a j i p.castSucc = lower a (i.castLE j.isLt) (Index.before j p) :=
  if_pos p.isLt

theorem border_last (a : Grid ℝ n n) (j : Fin n) (i : Fin (j.val + 1)) :
    border a j i (Fin.last j.val) = if i = Fin.last j.val then 1 else 0 :=
  if_neg (Nat.lt_irrefl _)

theorem castLE_eq_iff {j : Fin n} {i : Fin (j.val + 1)} :
    i.castLE j.isLt = j ↔ i = Fin.last j.val := by
  rw [Fin.ext_iff, Fin.ext_iff, Fin.val_castLE, Fin.val_last]

/-- The leading block is congruent to a diagonal of ones that ends with the pivot. -/
theorem Factored.leading_eq (hS : S.IsSymm) {j : Fin n} (h : Factored S j a) :
    leading S j = border a j *
      diagonal (fun p => if p = Fin.last j.val then pivot a j else 1) * (border a j)ᵀ := by
  ext i k
  have hle : ∀ i : Fin (j.val + 1), i.castLE j.isLt ≤ j := fun i => Nat.lt_succ_iff.mp i.isLt
  have hentry := h.eq_sum_add_pivot hS (hle i) (hle k)
  simp only [castLE_eq_iff] at hentry
  rw [← Index.sum_before] at hentry
  rw [Matrix.mul_apply, Fin.sum_univ_castSucc]
  simp only [mul_diagonal, transpose_apply, border_castSucc, border_last,
    (Fin.castSucc_lt_last _).ne, if_false, if_true, mul_one]
  refine hentry.trans ?_
  congr 1
  by_cases hi : i = Fin.last j.val <;> by_cases hk : k = Fin.last j.val <;> simp [hi, hk]

theorem isLowerTriangular_border (a : Grid ℝ n n) (j : Fin n) :
    (border a j).IsLowerTriangular := by
  intro i p hip
  have hlt : i < p := hip
  induction p using Fin.lastCases with
  | last => rw [border_last, if_neg hlt.ne]
  | cast p =>
      rw [border_castSucc]
      exact lower_of_lt a hlt

theorem Factored.det_border_ne_zero {j : Fin n} (h : Factored S j a) : (border a j).det ≠ 0 := by
  rw [det_of_isLowerTriangular _ (isLowerTriangular_border a j)]
  apply prod_ne_zero_iff.mpr
  intro p _
  induction p using Fin.lastCases with
  | last =>
      rw [border_last, if_pos rfl]
      exact one_ne_zero
  | cast p =>
      rw [border_castSucc]
      exact (lower_of_le a le_rfl).trans_ne (h.diagonal_pos (Index.before j p) p.isLt).ne'

/-- The next pivot decides about the next leading block. -/
theorem Factored.posDef_leading_iff (hS : S.IsSymm) {j : Fin n} (h : Factored S j a) :
    (leading S j).PosDef ↔ 0 < pivot a j := by
  have hunit : IsUnit (border a j) :=
    (isUnit_iff_isUnit_det _).mpr (isUnit_iff_ne_zero.mpr h.det_border_ne_zero)
  have hconjugate : (leading S j).PosDef ↔
      (diagonal fun p => if p = Fin.last j.val then pivot a j else 1).PosDef := by
    rw [h.leading_eq hS, ← conjTranspose_eq_transpose_of_trivial (border a j)]
    exact hunit.posDef_star_right_conjugate_iff
  rw [hconjugate, posDef_diagonal_iff]
  constructor
  · intro hpos
    exact (hpos (Fin.last j.val)).trans_eq (if_pos rfl)
  · intro hpivot p
    split
    · exact hpivot
    · exact one_pos

/-! ## The whole factor -/

/-- From the first `m` columns on, the factorisation takes in the rest or stops at the first
leading block that is not positive definite. -/
theorem Factored.foldlM_drop (hS : S.IsSymm) {m : Nat} (h : Factored S m a) (hm : m ≤ n)
    (hblocks : ∀ i : Fin n, i.val < m → (leading S i).PosDef) :
    (∃ l, ((List.finRange n).drop m).foldlM factorColumn a = .ok l ∧ Factored S n l) ∨
      ∃ (j : Fin n) (value : ℝ), ((List.finRange n).drop m).foldlM factorColumn a =
          .error (.notPositiveDefinite j value) ∧
        ¬(leading S j).PosDef ∧ ∀ i < j, (leading S i).PosDef := by
  induction hk : n - m generalizing m a with
  | zero =>
      obtain rfl : m = n := by omega
      rw [List.drop_of_length_le (List.length_finRange).le]
      exact .inl ⟨a, rfl, h⟩
  | succ k ih =>
      have hlt : m < n := by omega
      have hblock := h.posDef_leading_iff (j := ⟨m, hlt⟩) hS
      rw [List.drop_eq_getElem_cons (hlt.trans_eq List.length_finRange.symm), List.foldlM_cons,
        List.getElem_finRange, Fin.cast_mk]
      by_cases hpivot : 0 < pivot a ⟨m, hlt⟩
      · obtain ⟨a', hcolumn, h'⟩ := h.step (j := ⟨m, hlt⟩) hpivot
        rw [hcolumn]
        apply ih (m := m + 1) h' hlt _ (by omega)
        intro i hi
        rcases Nat.lt_succ_iff_lt_or_eq.mp hi with hbefore | heq
        · exact hblocks i hbefore
        · obtain rfl : i = ⟨m, hlt⟩ := Fin.ext heq
          exact hblock.mpr hpivot
      · rw [factorColumn_of_not_pos hpivot]
        exact .inr ⟨⟨m, hlt⟩, _, rfl, mt hblock.mp hpivot, fun i hi => hblocks i hi⟩

/-- The factorisation ends with the factor of the symmetric matrix, or stops at the first of its
leading blocks that is not positive definite. -/
theorem factor_cases (a : Grid ℝ n n) :
    (∃ l, factor a = .ok l ∧ Factored a.symmetrized n l) ∨
      ∃ (j : Fin n) (value : ℝ), factor a = .error (.notPositiveDefinite j value) ∧
        ¬(leading a.symmetrized j).PosDef ∧ ∀ i < j, (leading a.symmetrized i).PosDef :=
  (factored_symmetrized a).foldlM_drop a.isSymm_symmetrized (Nat.zero_le n)
    fun _ h => absurd h (Nat.not_lt_zero _)

end Cholesky

end MatrixScript
