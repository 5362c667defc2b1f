import MatrixScript.Proofs.Bounds.Tridiagonal
import MatrixScript.Proofs.Tridiagonal.Reduction

/-!
# The basis of the tridiagonal form in exact arithmetic

The second pass multiplies out the reflections that the reduction has kept, from the first
column to the last.  The leading block of the basis is then their product (`Multiplied`), while
the diagonal of the tridiagonal matrix waits in the last row.
-/

namespace MatrixScript

namespace Tridiagonal

open Matrix

variable {n : Nat}

/-! ## The product of the reflections -/

theorem keptDirection_of_le (t : Tridiagonal ℝ n) {j k : Fin n} (h : j ≤ k) :
    keptDirection t j k = 0 := if_neg (not_lt.mpr h)

theorem keptReflector_mul_apply (t : Tridiagonal ℝ n) (j : Fin n) (p : Matrix (Fin n) (Fin n) ℝ)
    (k c : Fin n) :
    (keptReflector t j * p) k c = p k c -
      (t.diagonal.get j)⁻¹ * (keptDirection t j k * (keptDirection t j ᵥ* p) c) := by
  rw [keptReflector, reflector_mul, Matrix.sub_apply, Matrix.smul_apply, vecMulVec_apply,
    smul_eq_mul]

theorem transpose_keptProduct_mul_self {t : Tridiagonal ℝ n} {r : Nat} (hr : r ≤ n - 1)
    (ht : ∀ j : Fin n, 0 < j.val → j.val ≤ r → Cleared t j) :
    (keptProduct t r)ᵀ * keptProduct t r = 1 := by
  induction r with
  | zero => rw [keptProduct_zero, transpose_one, Matrix.one_mul]
  | succ r ih =>
      have hlength := (ht (Index.next ⟨r, hr⟩) (Nat.succ_pos r) le_rfl).length
      have hreflector : (keptReflector t (Index.next ⟨r, hr⟩))ᵀ *
          keptReflector t (Index.next ⟨r, hr⟩) = 1 := by
        rw [keptReflector, transpose_reflector, reflector_mul_self hlength]
      have hbefore := ih (by omega) fun j hpos hj => ht j hpos (by omega)
      rw [keptProduct_succ t ⟨r, hr⟩, transpose_mul, Matrix.mul_assoc,
        ← Matrix.mul_assoc _ (keptReflector t _), hreflector, Matrix.one_mul, hbefore]

/-- From index `r` on, the product of the first reflections is the identity. -/
theorem keptProduct_apply_of_le (t : Tridiagonal ℝ n) {r : Nat} (hr : r ≤ n - 1) {k j : Fin n}
    (h : r ≤ k.val ∨ r ≤ j.val) : keptProduct t r k j = (1 : Matrix (Fin n) (Fin n) ℝ) k j := by
  induction r generalizing k with
  | zero => rw [keptProduct_zero]
  | succ r ih =>
      have hproduct : keptDirection t (Index.next ⟨r, hr⟩) k *
          (keptDirection t (Index.next ⟨r, hr⟩) ᵥ* keptProduct t r) j = 0 := by
        rcases h with hk | hj
        · rw [keptDirection_of_le t hk, zero_mul]
        · have hcolumn : (keptDirection t (Index.next ⟨r, hr⟩) ᵥ* keptProduct t r) j =
              (keptDirection t (Index.next ⟨r, hr⟩) ᵥ* (1 : Matrix (Fin n) (Fin n) ℝ)) j := by
            simp only [vecMul, dotProduct]
            apply Finset.sum_congr rfl
            intro p _
            rw [ih (by omega) (.inr (by omega))]
          rw [hcolumn, vecMul_one, keptDirection_of_le t (k := j) hj, mul_zero]
      rw [keptProduct_succ t ⟨r, hr⟩, keptReflector_mul_apply, hproduct, mul_zero, sub_zero,
        ih (by omega) (by omega)]

/-! ## One column -/

/-- The columns before `m` have been multiplied out.  The reflections in the columns after them,
and the diagonal from `m` on, are where the reduction has left them. -/
structure Multiplied (t s : Tridiagonal ℝ n) (m : Nat) : Prop where
  diagonal : s.diagonal = t.diagonal
  subdiagonal : s.subdiagonal = t.subdiagonal
  block : ∀ k j : Fin n, k.val < m → j.val < m → s.basis.get k j = keptProduct t m k j
  column : ∀ k j : Fin n, k.val < m → j.val = m → s.basis.get k j = 0
  row : ∀ k j : Fin n, m ≤ k.val → k.val < n - 1 → j.val < m → s.basis.get k j = 0
  kept : ∀ k j : Fin n, m < j.val ∨ j.val = m ∧ m ≤ k.val → s.basis.get k j = t.basis.get k j
  moved : ∀ k j : Fin n, k.val = n - 1 → j.val < m → s.basis.get k j = t.basis.get j j

theorem multiplied_zero (t : Tridiagonal ℝ n) : Multiplied t t 0 where
  diagonal := rfl
  subdiagonal := rfl
  block _ _ h := absurd h (Nat.not_lt_zero _)
  column _ _ h := absurd h (Nat.not_lt_zero _)
  row _ _ _ _ h := absurd h (Nat.not_lt_zero _)
  kept _ _ _ := rfl
  moved _ _ _ h := absurd h (Nat.not_lt_zero _)

namespace Multiplied

variable {t s : Tridiagonal ℝ n} {i : Fin (n - 1)}

/-- With a one in place of the diagonal element, the leading block is the product so far. -/
theorem block_with_one (h : Multiplied t s i.val) {k j : Fin n} (hk : k ≤ Index.here i)
    (hj : j ≤ Index.here i) :
    (if k = Index.here i ∧ j = Index.here i then 1 else s.basis.get k j) =
      keptProduct t i.val k j := by
  have hi : i.val ≤ n - 1 := i.isLt.le
  have hhere := Index.val_here i
  -- Before `i` the block holds the product, and row and column `i` are zero up to there.
  rcases hk.lt_or_eq with hk | rfl <;> rcases hj.lt_or_eq with hj | rfl
  · rw [if_neg (by omega), h.block k j (by omega) (by omega)]
  · rw [if_neg (by omega), h.column k _ (by omega) rfl,
      keptProduct_apply_of_le t hi (.inr le_rfl), one_apply_ne (by omega)]
  · rw [if_neg (by omega), h.row _ j le_rfl i.isLt (by omega),
      keptProduct_apply_of_le t hi (.inl le_rfl), one_apply_ne (by omega)]
  · rw [if_pos ⟨rfl, rfl⟩, keptProduct_apply_of_le t hi (.inl le_rfl), one_apply_eq]

/-- The direction of the next reflection is still in its column. -/
theorem keptDirection_eq (h : Multiplied t s i.val) {k : Fin n} (hk : k ≤ Index.here i) :
    keptDirection t (Index.next i) k = s.basis.get k (Index.next i) :=
  (if_pos (Nat.lt_succ_of_le hk)).trans (h.kept _ _ (.inl (Nat.lt_succ_self i.val))).symm

/-- The products of the kept direction with the columns of the block. -/
theorem sum_direction_mul (h : Multiplied t s i.val) {j : Fin n} (hj : j ≤ Index.here i) :
    (Scalar.sum fun k => s.basis.get (Index.upTo i k) (Index.next i) *
      if Index.upTo i k = Index.here i ∧ j = Index.here i then 1
      else s.basis.get (Index.upTo i k) j) =
        (keptDirection t (Index.next i) ᵥ* keptProduct t i.val) j := by
  have hterm : ∀ k, s.basis.get (Index.upTo i k) (Index.next i) *
      (if Index.upTo i k = Index.here i ∧ j = Index.here i then 1
      else s.basis.get (Index.upTo i k) j) = keptDirection t (Index.next i) (Index.upTo i k) *
        keptProduct t i.val (Index.upTo i k) j := by
    intro k
    have hk : Index.upTo i k ≤ Index.here i := Nat.le_of_lt_succ k.isLt
    rw [h.block_with_one hk hj, h.keptDirection_eq hk]
  rw [Scalar.sum_real, Finset.sum_congr rfl fun k _ => hterm k]
  apply Index.sum_upTo_of_zero i fun p =>
    keptDirection t (Index.next i) p * keptProduct t i.val p j
  intro p hp
  rw [keptDirection_of_le t hp, zero_mul]

theorem basis_of_le (h : Multiplied t s i.val) {k j : Fin n} (hk : k ≤ Index.here i)
    (hj : j ≤ Index.here i) :
    (s.multiplyColumn i).basis.get k j = keptProduct t (i.val + 1) k j := by
  refine (Grid.get_ofFn _ k j).trans ((if_pos ⟨hk, hj⟩).trans ?_)
  simp only [Grid.get_ofFn, get_ofFn]
  rw [h.block_with_one hk hj, h.sum_direction_mul hj, h.diagonal, keptProduct_succ,
    keptReflector_mul_apply, h.keptDirection_eq hk]
  by_cases hhalf : t.diagonal.get (Index.next i) = 0
  · rw [if_pos ((Scalar.beq_zero_real _).mpr hhalf), inv_eq_zero.mpr hhalf, zero_mul, sub_zero]
  · rw [if_neg (mt (Scalar.beq_zero_real _).mp hhalf)]
    ring

theorem basis_of_not_le (s : Tridiagonal ℝ n) {k j : Fin n}
    (hkj : ¬(k ≤ Index.here i ∧ j ≤ Index.here i)) :
    (s.multiplyColumn i).basis.get k j =
      if k ≤ Index.here i ∧ j = Index.next i then 0
      else if k = Index.last k ∧ j = Index.here i then
        s.basis.get (Index.here i) (Index.here i)
      else s.basis.get k j :=
  (Grid.get_ofFn _ k j).trans (if_neg hkj)

theorem step (h : Multiplied t s i.val) (ht : ∀ j : Fin n, 0 < j.val → Cleared t j) :
    Multiplied t (s.multiplyColumn i) (i.val + 1) := by
  have hhere := Index.val_here i
  have hnext := Index.val_next i
  have hlast : ∀ k : Fin n, (Index.last k).val = n - 1 := fun _ => rfl
  constructor
  case diagonal => exact h.diagonal
  case subdiagonal => exact h.subdiagonal
  case block =>
    intro k j hk hj
    exact h.basis_of_le (by omega) (by omega)
  case column =>
    intro k j hk hj
    rw [basis_of_not_le s (by omega), if_pos (by omega)]
  case row =>
    intro k j hmk hk hj
    have hnotlast := hlast k
    rw [basis_of_not_le s (by omega), if_neg (by omega), if_neg (by omega)]
    rcases Nat.lt_succ_iff_lt_or_eq.mp hj with hj | hj
    · exact h.row k j (by omega) hk hj
    · rw [h.kept k j (.inr ⟨hj, by omega⟩)]
      exact (ht k (by omega)).row j (by omega)
  case kept =>
    intro k j hkj
    rw [basis_of_not_le s (by omega), if_neg (by omega), if_neg (by omega)]
    exact h.kept k j (by omega)
  case moved =>
    intro k j hk hj
    have hislast : k = Index.last k := Fin.ext hk
    rw [basis_of_not_le s (by omega), if_neg (by omega)]
    rcases Nat.lt_succ_iff_lt_or_eq.mp hj with hj | hj
    · rw [if_neg (by omega), h.moved k j hk hj]
    · obtain rfl : j = Index.here i := Fin.ext hj
      rw [if_pos ⟨hislast, rfl⟩, h.kept _ _ (.inr ⟨rfl, le_rfl⟩)]

end Multiplied

/-! ## All columns -/

theorem multiplied_multipliedColumns {t : Tridiagonal ℝ n}
    (ht : ∀ j : Fin n, 0 < j.val → Cleared t j) {m : Nat} (hm : m ≤ n - 1) :
    Multiplied t (Indexed.multipliedColumns t m) m := by
  induction m with
  | zero => exact multiplied_zero t
  | succ m ih =>
      rw [Indexed.multipliedColumns_succ t hm]
      exact (ih (by omega)).step (i := ⟨m, hm⟩) ht

theorem multiplied_multiplyColumns {t : Tridiagonal ℝ n}
    (ht : ∀ j : Fin n, 0 < j.val → Cleared t j) : Multiplied t t.multiplyColumns (n - 1) := by
  rw [← Indexed.multipliedColumns_all]
  exact multiplied_multipliedColumns ht le_rfl

section Finish

variable {t s : Tridiagonal ℝ n}

theorem toMatrix_basis_finish (h : Multiplied t s (n - 1)) :
    s.finish.basis.toMatrix = keptProduct t (n - 1) := by
  ext k j
  refine (Grid.get_ofFn _ k j).trans ?_
  have hlast : (Index.last k).val = n - 1 := rfl
  by_cases hk : k = Index.last k
  · rw [if_pos hk, keptProduct_apply_of_le t le_rfl (.inl (by omega)), one_apply]
    simp only [eq_comm]
  · rw [if_neg hk]
    rcases Nat.lt_or_ge j.val (n - 1) with hj | hj
    · exact h.block k j (by omega) hj
    · rw [h.column k j (by omega) (by omega), keptProduct_apply_of_le t le_rfl (.inr hj),
        one_apply_ne (by omega)]

theorem get_diagonal_finish (h : Multiplied t s (n - 1)) (j : Fin n) :
    s.finish.diagonal.get j = t.basis.get j j := by
  refine (get_ofFn _ j).trans ?_
  rcases Nat.lt_or_ge j.val (n - 1) with hj | hj
  · exact h.moved _ j rfl hj
  · have hval : j.val = n - 1 := by omega
    have hlast : Index.last j = j := Fin.ext hval.symm
    rw [hlast, h.kept j j (.inr ⟨hval, hj⟩)]

theorem get_subdiagonal_finish (h : Multiplied t s (n - 1)) {j : Fin n} (hj : 0 < j.val) :
    s.finish.subdiagonal.get j = t.subdiagonal.get j := by
  rw [← h.subdiagonal]
  exact (get_ofFn _ j).trans (if_neg hj.ne')

/-- The last pass takes the tridiagonal matrix out of the state. -/
theorem toMatrix_finish (h : Multiplied t s (n - 1)) : s.finish.toMatrix = remaining t 0 := by
  have hdiagonal : s.finish.diagonal.get = fun k => t.basis.get k k :=
    funext (get_diagonal_finish h)
  rw [toMatrix, hdiagonal, remaining_zero]
  exact tridiagonal_congr_subdiagonal _ fun k hk => get_subdiagonal_finish h hk

end Finish

/-! ## The tridiagonal form -/

section OfSymmetric

variable (a : Grid ℝ n n)

theorem cleared_reduceRows_start (j : Fin n) (hj : 0 < j.val) :
    Cleared (start a).reduceRows j := by
  rw [← reduceLeading_all]
  exact cleared_reduceLeading _ le_rfl hj (by omega)

theorem rowTaken_start : RowTaken (start a) (n - 1) := by
  intro k j hk _
  have hlast : Index.last j = k := Fin.ext hk.symm
  exact (get_ofFn _ j).trans (by rw [hlast]; rfl)

theorem toMatrix_basis_ofSymmetric :
    (ofSymmetric a).basis.toMatrix = keptProduct (start a).reduceRows (n - 1) :=
  toMatrix_basis_finish (multiplied_multiplyColumns (cleared_reduceRows_start a))

theorem toMatrix_ofSymmetric : (ofSymmetric a).toMatrix = remaining (start a).reduceRows 0 :=
  toMatrix_finish (multiplied_multiplyColumns (cleared_reduceRows_start a))

theorem transpose_basis_mul_self :
    (ofSymmetric a).basis.toMatrixᵀ * (ofSymmetric a).basis.toMatrix = 1 := by
  rw [toMatrix_basis_ofSymmetric]
  exact transpose_keptProduct_mul_self le_rfl fun j hj _ => cleared_reduceRows_start a j hj

theorem symmetrized_eq_conjugate :
    a.symmetrized = (ofSymmetric a).basis.toMatrix * (ofSymmetric a).toMatrix *
      (ofSymmetric a).basis.toMatrixᵀ := by
  rw [toMatrix_basis_ofSymmetric, toMatrix_ofSymmetric, ← remaining_start, ← reduceLeading_all]
  exact remaining_eq_keptProduct _ le_rfl (rowTaken_start a)

end OfSymmetric

end Tridiagonal

end MatrixScript
