import Mathlib.LinearAlgebra.Matrix.DotProduct
import Mathlib.Tactic.FieldSimp
import Mathlib.Tactic.LinearCombination
import MatrixScript.Eigen.Tridiagonal
import MatrixScript.Proofs.Bounds.Reflection
import MatrixScript.Proofs.Exact.Real

/-!
# Householder reflections in exact arithmetic

A reflection is `1 - u uᵀ / half` where `half` is half the squared length of `u`, and a zero
`half` stands for the identity.  It is its own inverse, and it takes a symmetric matrix `A` to
`A - u qᵀ - q uᵀ` (`reflector_conjugate`).
-/

namespace MatrixScript

namespace Tridiagonal

open Matrix

variable {n : Nat}

/-- The reflection in the direction `u`. -/
noncomputable def reflector (u : Fin n → ℝ) (half : ℝ) : Matrix (Fin n) (Fin n) ℝ :=
  1 - half⁻¹ • vecMulVec u u

theorem transpose_reflector (u : Fin n → ℝ) (half : ℝ) :
    (reflector u half)ᵀ = reflector u half := by
  rw [reflector, transpose_sub, transpose_one, transpose_smul, transpose_vecMulVec]

theorem reflector_mul (u : Fin n → ℝ) (half : ℝ) (A : Matrix (Fin n) (Fin n) ℝ) :
    reflector u half * A = A - half⁻¹ • vecMulVec u (u ᵥ* A) := by
  rw [reflector, Matrix.sub_mul, Matrix.one_mul, Matrix.smul_mul, vecMulVec_mul]

theorem mul_reflector (u : Fin n → ℝ) (half : ℝ) (A : Matrix (Fin n) (Fin n) ℝ) :
    A * reflector u half = A - half⁻¹ • vecMulVec (A *ᵥ u) u := by
  rw [reflector, Matrix.mul_sub, Matrix.mul_one, Matrix.mul_smul, mul_vecMulVec]

theorem reflector_mul_self {u : Fin n → ℝ} {half : ℝ} (h : u ⬝ᵥ u = half + half) :
    reflector u half * reflector u half = 1 := by
  have htwice : half⁻¹ * (half⁻¹ * (half + half)) = half⁻¹ + half⁻¹ := by
    by_cases hzero : half = 0
    · simp [hzero]
    · field_simp
  have hvector : u ᵥ* reflector u half = u - (half⁻¹ * (half + half)) • u := by
    rw [reflector, vecMul_sub, vecMul_one, vecMul_smul, vecMul_vecMulVec, h, smul_smul]
  rw [reflector_mul, hvector, reflector]
  ext i j
  simp only [Matrix.sub_apply, Matrix.smul_apply, vecMulVec_apply, Pi.sub_apply, Pi.smul_apply,
    smul_eq_mul]
  linear_combination u i * u j * htwice

/-- The vector `q` with which the reflected matrix is `A - u qᵀ - q uᵀ`. -/
noncomputable def corrector (A : Matrix (Fin n) (Fin n) ℝ) (u : Fin n → ℝ) (half : ℝ) :
    Fin n → ℝ :=
  half⁻¹ • A *ᵥ u - ((half⁻¹ • A *ᵥ u) ⬝ᵥ u / (half + half)) • u

theorem corrector_of_zero (A : Matrix (Fin n) (Fin n) ℝ) {u : Fin n → ℝ} (half : ℝ) {j : Fin n}
    (hj : u j = 0) : corrector A u half j = half⁻¹ * (A *ᵥ u) j := by
  rw [corrector, Pi.sub_apply, Pi.smul_apply, Pi.smul_apply, hj, smul_zero, sub_zero, smul_eq_mul]

/-- Of the matrix, the vector depends on the product with `u` where `u` is not zero. -/
theorem corrector_congr {A B : Matrix (Fin n) (Fin n) ℝ} {u : Fin n → ℝ} (half : ℝ) {j : Fin n}
    (h : ∀ k, u k ≠ 0 → (A *ᵥ u) k = (B *ᵥ u) k) (hj : (A *ᵥ u) j = (B *ᵥ u) j) :
    corrector A u half j = corrector B u half j := by
  have hinner : (A *ᵥ u) ⬝ᵥ u = (B *ᵥ u) ⬝ᵥ u := by
    apply Finset.sum_congr rfl
    intro k _
    by_cases hk : u k = 0
    · rw [hk, mul_zero, mul_zero]
    · rw [h k hk]
  simp only [corrector, Pi.sub_apply, Pi.smul_apply, smul_dotProduct, hinner, hj]

theorem reflector_conjugate {A : Matrix (Fin n) (Fin n) ℝ} (hA : A.IsSymm) (u : Fin n → ℝ)
    (half : ℝ) :
    reflector u half * A * reflector u half =
      A - (vecMulVec u (corrector A u half) + vecMulVec (corrector A u half) u) := by
  have hleft : u ᵥ* A = A *ᵥ u := by rw [← mulVec_transpose, hA.eq]
  rw [reflector_mul, hleft, mul_reflector]
  ext i j
  simp only [corrector, Matrix.sub_apply, Matrix.add_apply, Matrix.smul_apply, vecMulVec_apply,
    Pi.sub_apply, Pi.smul_apply, smul_eq_mul, sub_mulVec, smul_mulVec, vecMulVec_mulVec,
    smul_dotProduct, MulOpposite.smul_eq_mul_unop, MulOpposite.unop_op]
  ring

/-! ## The reflection of a row -/

/-- A product of vectors, the second of which is zero from a row on. -/
theorem accumulate_upTo_mul (i : Fin (n - 1)) (v : Fin n → ℝ) {w : Fin n → ℝ}
    (hw : ∀ p, Index.next i ≤ p → w p = 0) :
    Scalar.accumulate 0 (fun k => v (Index.upTo i k) * w (Index.upTo i k)) = v ⬝ᵥ w := by
  rw [Scalar.accumulate_real, zero_add]
  apply Index.sum_upTo_of_zero i fun p => v p * w p
  intro p hp
  rw [hw p hp, mul_zero]

/-- The sum of the magnitudes by which the row is divided. -/
noncomputable def rowScale (d : Vector ℝ n) (i : Fin (n - 1)) : ℝ :=
  Scalar.sum fun k => Scalar.abs (d.get (Index.upTo i k))

/-- The row before its diagonal, divided by `scale`. -/
noncomputable def scaledRow (d : Vector ℝ n) (i : Fin (n - 1)) (scale : ℝ) : Fin n → ℝ :=
  fun k => if k < Index.next i then d.get k / scale else 0

/-- The length of the divided row, with the sign that the last of its elements does not have. -/
noncomputable def rowLength (x : Fin n → ℝ) (i : Fin (n - 1)) : ℝ :=
  if 0 < x (Index.here i) then -√(x ⬝ᵥ x) else √(x ⬝ᵥ x)

section Reflection

variable {d : Vector ℝ n} {i : Fin (n - 1)} {scale : ℝ}

theorem scaledRow_of_lt {k : Fin n} (h : k < Index.next i) :
    scaledRow d i scale k = d.get k / scale := if_pos h

theorem scaledRow_of_le {k : Fin n} (h : Index.next i ≤ k) : scaledRow d i scale k = 0 :=
  if_neg (not_lt.mpr h)

theorem get_eq_zero_of_rowScale (h : rowScale d i = 0) {k : Fin n} (hk : k < Index.next i) :
    d.get k = 0 := by
  have hsum : ∑ m, |d.get (Index.upTo i m)| = 0 := (Scalar.sum_real _).symm.trans h
  have hterm := (Finset.sum_eq_zero_iff_of_nonneg fun m _ => abs_nonneg _).mp hsum
  exact abs_eq_zero.mp (hterm ⟨k.val, hk⟩ (Finset.mem_univ _))

theorem rowLength_mul_self (x : Fin n → ℝ) (i : Fin (n - 1)) :
    rowLength x i * rowLength x i = x ⬝ᵥ x := by
  have hroot : √(x ⬝ᵥ x) * √(x ⬝ᵥ x) = x ⬝ᵥ x :=
    Real.mul_self_sqrt (Finset.sum_nonneg fun k _ => mul_self_nonneg (x k))
  unfold rowLength
  split
  · rw [neg_mul_neg, hroot]
  · exact hroot

/-- The last element and the length differ in sign. -/
theorem mul_rowLength_nonpos (x : Fin n → ℝ) (i : Fin (n - 1)) :
    x (Index.here i) * rowLength x i ≤ 0 := by
  unfold rowLength
  split
  · exact mul_nonpos_of_nonneg_of_nonpos (by assumption : 0 < x _).le
      (neg_nonpos.mpr (Real.sqrt_nonneg _))
  · exact mul_nonpos_of_nonpos_of_nonneg (not_lt.mp (by assumption)) (Real.sqrt_nonneg _)

theorem reflection_real (d : Vector ℝ n) (i : Fin (n - 1)) (scale : ℝ) :
    let x := scaledRow d i scale
    (reflection d i scale).direction.get = x - Pi.single (Index.here i) (rowLength x i) ∧
      (reflection d i scale).half = x ⬝ᵥ x - x (Index.here i) * rowLength x i ∧
        (reflection d i scale).image = scale * rowLength x i := by
  intro x
  have hscaled : (Vector.ofFn fun k => if k < Index.next i then d.get k / scale else 0).get = x :=
    funext (get_ofFn _)
  unfold reflection
  dsimp only
  rw [hscaled, accumulate_upTo_mul i x fun p hp => scaledRow_of_le hp]
  refine ⟨?_, rfl, rfl⟩
  funext k
  rw [get_setAt, hscaled, Pi.sub_apply]
  by_cases hk : k = Index.here i
  · rw [if_pos hk, hk, Pi.single_eq_same]
    rfl
  · rw [if_neg hk, Pi.single_eq_of_ne hk, sub_zero]

theorem direction_of_le {k : Fin n} (h : Index.next i ≤ k) :
    (reflection d i scale).direction.get k = 0 := by
  have hne : k ≠ Index.here i := by
    rintro rfl
    exact absurd h (Nat.not_succ_le_self i.val)
  rw [(reflection_real d i scale).1, Pi.sub_apply, scaledRow_of_le h, Pi.single_eq_of_ne hne,
    sub_zero]

/-- The field `half` is half the squared length of the direction. -/
theorem direction_dotProduct_self (d : Vector ℝ n) (i : Fin (n - 1)) (scale : ℝ) :
    (reflection d i scale).direction.get ⬝ᵥ (reflection d i scale).direction.get =
      (reflection d i scale).half + (reflection d i scale).half := by
  obtain ⟨hdirection, hhalf, -⟩ := reflection_real d i scale
  have hlength := rowLength_mul_self (scaledRow d i scale) i
  rw [hdirection, hhalf, sub_dotProduct, dotProduct_sub, dotProduct_sub, dotProduct_single,
    single_dotProduct, single_dotProduct, Pi.single_eq_same]
  linear_combination hlength

/-- The reflection takes the row to a multiple of its last element. -/
theorem sub_scale_mul_direction (hscale : scale ≠ 0) {j : Fin n} (hj : j < Index.next i) :
    d.get j - scale * (reflection d i scale).direction.get j =
      if j = Index.here i then (reflection d i scale).image else 0 := by
  obtain ⟨hdirection, -, himage⟩ := reflection_real d i scale
  rw [hdirection, himage, Pi.sub_apply, scaledRow_of_lt hj, mul_sub, mul_div_cancel₀ _ hscale,
    sub_sub_cancel]
  by_cases hk : j = Index.here i
  · rw [if_pos hk, hk, Pi.single_eq_same]
  · rw [if_neg hk, Pi.single_eq_of_ne hk, mul_zero]

theorem row_dotProduct_direction (hscale : scale ≠ 0) :
    d.get ⬝ᵥ (reflection d i scale).direction.get = scale * (reflection d i scale).half := by
  obtain ⟨hdirection, hhalf, -⟩ := reflection_real d i scale
  have hterm : ∀ k, d.get k * (reflection d i scale).direction.get k =
      scale * (scaledRow d i scale k * (reflection d i scale).direction.get k) := by
    intro k
    rcases lt_or_ge k (Index.next i) with hk | hk
    · rw [scaledRow_of_lt hk, ← mul_assoc, mul_div_cancel₀ _ hscale]
    · rw [direction_of_le hk, mul_zero, mul_zero, mul_zero]
  calc d.get ⬝ᵥ (reflection d i scale).direction.get
      = scale * (scaledRow d i scale ⬝ᵥ (reflection d i scale).direction.get) :=
        (Finset.sum_congr rfl fun k _ => hterm k).trans (Finset.mul_sum _ _ _).symm
    _ = scale * (reflection d i scale).half := by
        rw [hdirection, hhalf, dotProduct_sub, dotProduct_single]

/-- A row that is not zero has a direction that is not zero. -/
theorem reflection_half_pos (hscale : rowScale d i ≠ 0) : 0 < (reflection d i (rowScale d i)).half := by
  obtain ⟨-, hhalf, -⟩ := reflection_real d i (rowScale d i)
  have hne : scaledRow d i (rowScale d i) ≠ 0 := by
    intro hzero
    apply hscale
    have hrow : ∀ k, |d.get (Index.upTo i k)| = 0 := by
      intro k
      have hk : Index.upTo i k < Index.next i := k.isLt
      have hquotient := (scaledRow_of_lt (d := d) hk).symm.trans (congrFun hzero _)
      rw [abs_eq_zero]
      exact (div_eq_zero_iff.mp hquotient).resolve_right hscale
    exact (Scalar.sum_real _).trans (Finset.sum_eq_zero fun k _ => hrow k)
  have hsquare : 0 < scaledRow d i (rowScale d i) ⬝ᵥ scaledRow d i (rowScale d i) :=
    lt_of_le_of_ne (Finset.sum_nonneg fun k _ => mul_self_nonneg _)
      (Ne.symm (mt dotProduct_self_eq_zero.mp hne))
  rw [hhalf]
  exact sub_pos.mpr ((mul_rowLength_nonpos _ i).trans_lt hsquare)

end Reflection

/-! ## The correction of the leading block -/

section Correction

variable {i : Fin (n - 1)} {r : Reflection ℝ n}

/-- The product of the leading block with the direction, over `half`. -/
noncomputable def blockProduct (a : Grid ℝ n n) (i : Fin (n - 1)) (r : Reflection ℝ n) :
    Vector ℝ n :=
  Vector.ofFn fun j =>
    if j < Index.next i then
      Scalar.accumulate 0 (fun k =>
        symmetric a j (Index.upTo i k) * r.direction.get (Index.upTo i k)) / r.half
    else 0

theorem get_blockProduct (a : Grid ℝ n n) (hr : ∀ p, Index.next i ≤ p → r.direction.get p = 0)
    {j : Fin n} (hj : j < Index.next i) :
    (blockProduct a i r).get j = (r.half⁻¹ • a.symmetrized *ᵥ r.direction.get) j := by
  rw [blockProduct, get_ofFn, if_pos hj, accumulate_upTo_mul i (symmetric a j) hr]
  exact div_eq_inv_mul _ _

theorem blockProduct_dotProduct (a : Grid ℝ n n)
    (hr : ∀ p, Index.next i ≤ p → r.direction.get p = 0) :
    (blockProduct a i r).get ⬝ᵥ r.direction.get =
      (r.half⁻¹ • a.symmetrized *ᵥ r.direction.get) ⬝ᵥ r.direction.get := by
  apply Finset.sum_congr rfl
  intro k _
  rcases lt_or_ge k (Index.next i) with hk | hk
  · rw [get_blockProduct a hr hk]
  · rw [hr k hk, mul_zero, mul_zero]

theorem get_correction (a : Grid ℝ n n) (i : Fin (n - 1)) (r : Reflection ℝ n) (j : Fin n) :
    (correction a i r).get j = (blockProduct a i r).get j -
      Scalar.accumulate 0 (fun k =>
        (blockProduct a i r).get (Index.upTo i k) * r.direction.get (Index.upTo i k)) /
          (r.half + r.half) * r.direction.get j :=
  get_ofFn _ j

/-- On the leading block the correction is that of the whole matrix. -/
theorem correction_real (a : Grid ℝ n n) (hr : ∀ p, Index.next i ≤ p → r.direction.get p = 0)
    {j : Fin n} (hj : j < Index.next i) :
    (correction a i r).get j = corrector a.symmetrized r.direction.get r.half j := by
  rw [get_correction, accumulate_upTo_mul i (blockProduct a i r).get hr,
    blockProduct_dotProduct a hr, get_blockProduct a hr hj]
  rfl

end Correction

end Tridiagonal

end MatrixScript
