import MatrixScript.Proofs.Exact.Partial
import MatrixScript.Proofs.Tridiagonal.Accumulation

/-!
# The tridiagonal form is an orthogonal similarity

The two passes of the reduction give an orthogonal basis in which the matrix is tridiagonal.
They divide only by a sum of magnitudes and by a squared length that are not zero, so that in
the arithmetic with undefined results every element of the outcome has a value (`HasValues`).
-/

namespace MatrixScript

namespace Tridiagonal

open Matrix PartialReal

variable {n : Nat}

/-! ## Forms with a value throughout -/

/-- Every element of `s` has a value, which is that of `t`. -/
structure HasValues (s : Tridiagonal PartialReal n) (t : Tridiagonal ℝ n) : Prop where
  basis : ∀ k j, s.basis.get k j = value (t.basis.get k j)
  diagonal : ∀ j, s.diagonal.get j = value (t.diagonal.get j)
  subdiagonal : ∀ j, s.subdiagonal.get j = value (t.subdiagonal.get j)

structure Reflection.HasValues (s : Reflection PartialReal n) (r : Reflection ℝ n) : Prop where
  direction : ∀ k, s.direction.get k = value (r.direction.get k)
  half : s.half = value r.half
  image : s.image = value r.image

theorem hasValues_start (a : Grid ℝ n n) : HasValues (start (a.map value)) (start a) where
  basis := Grid.get_map value a
  diagonal j := by
    rw [start, start, get_ofFn, get_ofFn, Grid.get_map]
  subdiagonal j := by
    rw [start, start, get_ofFn, get_ofFn, value_zero]

/-! ## The reflection of a row -/

section Reflection

variable {d' : Vector PartialReal n} {d : Vector ℝ n} {i : Fin (n - 1)} {scale : ℝ}

theorem sum_abs_value (hd : ∀ k, d'.get k = value (d.get k)) :
    (Scalar.sum fun k => Scalar.abs (d'.get (Index.upTo i k))) = value (rowScale d i) := by
  rw [rowScale, value_sum]
  congr 1
  funext k
  rw [hd, value_abs]

theorem accumulate_value_mul {v w : Fin n → ℝ} (hw : ∀ p, Index.next i ≤ p → w p = 0) :
    Scalar.accumulate 0 (fun k => value (v (Index.upTo i k)) * value (w (Index.upTo i k))) =
      value (v ⬝ᵥ w) := by
  rw [← accumulate_upTo_mul i v hw, value_accumulate]
  rfl

theorem value_rowLength (x : Fin n → ℝ) (i : Fin (n - 1)) :
    value (rowLength x i) = if 0 < value (x (Index.here i)) then -Scalar.sqrt (value (x ⬝ᵥ x))
      else Scalar.sqrt (value (x ⬝ᵥ x)) := by
  have hsquare : 0 ≤ x ⬝ᵥ x := Finset.sum_nonneg fun k _ => mul_self_nonneg (x k)
  rw [rowLength, ← value_sqrt hsquare, ← value_neg, apply_ite value]
  simp only [value_pos_iff]
  rfl

/-- A row that is divided by a number has its reflection. -/
theorem hasValues_reflection (hd : ∀ k, d'.get k = value (d.get k)) (hscale : scale ≠ 0) :
    (reflection d' i (value scale)).HasValues (reflection d i scale) := by
  have hscaled : (Vector.ofFn fun k =>
      if k < Index.next i then d'.get k / value scale else 0).get =
        fun k => value (scaledRow d i scale k) := by
    funext k
    rw [get_ofFn, scaledRow, apply_ite value, value_div hscale, hd, value_zero]
  have hzero : ∀ p, Index.next i ≤ p → scaledRow d i scale p = 0 := fun _ => scaledRow_of_le
  have hsquare := accumulate_value_mul (v := scaledRow d i scale) hzero
  have hlength := value_rowLength (scaledRow d i scale) i
  obtain ⟨hdirection, hhalf, himage⟩ := reflection_real d i scale
  constructor
  · intro k
    rw [hdirection, reflection]
    dsimp only
    rw [get_setAt, hscaled, hsquare, ← hlength, ← value_sub, ← apply_ite value, Pi.sub_apply]
    by_cases hk : k = Index.here i
    · rw [if_pos hk, hk, Pi.single_eq_same]
    · rw [if_neg hk, Pi.single_eq_of_ne hk, sub_zero]
  · rw [hhalf, reflection]
    dsimp only
    rw [hscaled, hsquare, ← hlength]
    rfl
  · rw [himage, reflection]
    dsimp only
    rw [hscaled, hsquare, ← hlength]
    rfl

end Reflection

/-! ## The correction of the leading block -/

section Correction

variable {a' : Grid PartialReal n n} {a : Grid ℝ n n} {i : Fin (n - 1)}
  {s : Reflection PartialReal n} {r : Reflection ℝ n}

theorem symmetric_value (ha : ∀ k j, a'.get k j = value (a.get k j)) (j k : Fin n) :
    symmetric a' j k = value (symmetric a j k) := by
  rw [symmetric, symmetric, apply_ite value, ha, ha]

theorem blockProduct_value (ha : ∀ k j, a'.get k j = value (a.get k j)) (hs : s.HasValues r)
    (hhalf : 0 < r.half) :
    (Vector.ofFn fun j => if j < Index.next i then
      Scalar.accumulate 0 (fun k =>
        symmetric a' j (Index.upTo i k) * s.direction.get (Index.upTo i k)) / s.half
      else 0).get = fun j => value ((blockProduct a i r).get j) := by
  funext j
  rw [get_ofFn, blockProduct, get_ofFn, apply_ite value, value_div hhalf.ne', value_accumulate,
    value_zero]
  simp only [symmetric_value ha, hs.direction, hs.half, value_mul]

/-- A direction of positive length has its correction. -/
theorem correction_value (ha : ∀ k j, a'.get k j = value (a.get k j)) (hs : s.HasValues r)
    (hhalf : 0 < r.half) (j : Fin n) :
    (correction a' i s).get j = value ((correction a i r).get j) := by
  have htwice : r.half + r.half ≠ 0 := (add_pos hhalf hhalf).ne'
  rw [get_correction, correction, get_ofFn, blockProduct_value ha hs hhalf, value_sub, value_mul,
    value_div htwice, value_accumulate, value_zero]
  simp only [hs.direction, hs.half, value_mul, value_add]

end Correction

/-! ## The passes -/

section Passes

variable {s : Tridiagonal PartialReal n} {t : Tridiagonal ℝ n}

theorem HasValues.passRow (h : HasValues s t) (i : Fin (n - 1)) :
    HasValues (s.passRow i) (t.passRow i) where
  basis k j := by
    simp only [Tridiagonal.passRow, Grid.get_ofFn, h.basis, apply_ite value, value_zero]
  diagonal j := by
    simp only [Tridiagonal.passRow, get_ofFn, h.basis, h.diagonal, apply_ite value, value_zero]
  subdiagonal j := by
    simp only [Tridiagonal.passRow, get_setAt, h.diagonal, h.subdiagonal, apply_ite value]

theorem get_diagonal_reflectRow {α : Type} [Scalar α] (t : Tridiagonal α n) (i : Fin (n - 1))
    (scale : α) (j : Fin n) :
    (t.reflectRow i scale).diagonal.get j =
      if j < Index.next i then (t.reflectRow i scale).basis.get (Index.here i) j
      else if j = Index.next i then (reflection t.diagonal i scale).half
      else t.diagonal.get j :=
  get_ofFn _ j

theorem HasValues.reflectRow (h : HasValues s t) {i : Fin (n - 1)}
    (hscale : rowScale t.diagonal i ≠ 0) :
    HasValues (s.reflectRow i (value (rowScale t.diagonal i)))
      (t.reflectRow i (rowScale t.diagonal i)) := by
  have hreflection := hasValues_reflection (i := i) h.diagonal hscale
  have hcorrection := correction_value (i := i) h.basis hreflection (reflection_half_pos hscale)
  have hbasis : ∀ k j, (s.reflectRow i (value (rowScale t.diagonal i))).basis.get k j =
      value ((t.reflectRow i (rowScale t.diagonal i)).basis.get k j) := by
    intro k j
    simp only [Tridiagonal.reflectRow, Grid.get_ofFn, h.basis, hreflection.direction, hcorrection,
      apply_ite value, value_sub, value_add, value_mul, value_zero]
  refine ⟨hbasis, fun j => ?_, fun j => ?_⟩
  · simp only [get_diagonal_reflectRow, hbasis, hreflection.half, h.diagonal, apply_ite value]
  · simp only [Tridiagonal.reflectRow, get_setAt, hreflection.image, h.subdiagonal,
      apply_ite value]

theorem HasValues.reduceRow (h : HasValues s t) (i : Fin (n - 1)) :
    HasValues (s.reduceRow i) (t.reduceRow i) := by
  have hscale := sum_abs_value (i := i) h.diagonal
  by_cases hzero : rowScale t.diagonal i = 0
  · have hs : s.reduceRow i = s.passRow i := by
      rw [Tridiagonal.reduceRow, hscale, value_beq_zero,
        if_pos ((Scalar.beq_zero_real _).mpr hzero)]
    rw [hs, reduceRow_of_zero hzero]
    exact h.passRow i
  · have hs : s.reduceRow i = s.reflectRow i (value (rowScale t.diagonal i)) := by
      rw [Tridiagonal.reduceRow, hscale, value_beq_zero,
        if_neg (mt (Scalar.beq_zero_real _).mp hzero)]
    rw [hs, reduceRow_of_ne_zero hzero]
    exact h.reflectRow hzero

theorem HasValues.reduceRows (h : HasValues s t) : HasValues s.reduceRows t.reduceRows := by
  unfold Tridiagonal.reduceRows
  induction List.finRange (n - 1) with
  | nil => exact h
  | cons i rows ih => exact ih.reduceRow i

/-- The basis is divided by `half` only where that is not zero. -/
theorem HasValues.multiplyColumn (h : HasValues s t) (i : Fin (n - 1)) :
    HasValues (s.multiplyColumn i) (t.multiplyColumn i) := by
  refine ⟨fun k j => ?_, h.diagonal, h.subdiagonal⟩
  simp only [Tridiagonal.multiplyColumn, Grid.get_ofFn, get_ofFn, h.basis, h.diagonal,
    value_beq_zero]
  by_cases hhalf : t.diagonal.get (Index.next i) = 0
  · have hbeq : (t.diagonal.get (Index.next i) == 0) = true := (Scalar.beq_zero_real _).mpr hhalf
    simp only [hbeq, if_true, apply_ite value, value_zero, value_one]
  · have hbeq : ¬(t.diagonal.get (Index.next i) == 0) = true := mt (Scalar.beq_zero_real _).mp hhalf
    simp only [hbeq, apply_ite value, value_sub, value_mul, value_div hhalf, value_sum,
      value_zero, value_one]

theorem HasValues.multiplyColumns (h : HasValues s t) :
    HasValues s.multiplyColumns t.multiplyColumns := by
  unfold Tridiagonal.multiplyColumns
  induction List.finRange (n - 1) generalizing s t with
  | nil => exact h
  | cons i columns ih => exact ih (h.multiplyColumn i)

theorem HasValues.finish (h : HasValues s t) : HasValues s.finish t.finish where
  basis k j := by
    simp only [Tridiagonal.finish, Grid.get_ofFn, h.basis, apply_ite value, value_zero, value_one]
  diagonal j := by
    simp only [Tridiagonal.finish, get_ofFn, h.basis]
  subdiagonal j := by
    simp only [Tridiagonal.finish, get_ofFn, h.subdiagonal, apply_ite value, value_zero]

end Passes

/-- The reduction to tridiagonal form divides by zero nowhere, its basis is orthogonal, and in
that basis the symmetric matrix with the lower triangle of `a` is the tridiagonal matrix.  The
subdiagonal begins with a zero that is not part of it. -/
theorem ofSymmetric_similar (a : Grid ℝ n n) :
    HasValues (ofSymmetric (a.map value)) (ofSymmetric a) ∧
      (ofSymmetric a).basis.toMatrixᵀ * (ofSymmetric a).basis.toMatrix = 1 ∧
        (ofSymmetric a).basis.toMatrixᵀ * a.symmetrized * (ofSymmetric a).basis.toMatrix =
            (ofSymmetric a).toMatrix ∧
          ∀ j : Fin n, j.val = 0 → (ofSymmetric a).subdiagonal.get j = 0 := by
  have horthogonal := transpose_basis_mul_self a
  refine ⟨(hasValues_start a).reduceRows.multiplyColumns.finish, horthogonal, ?_, ?_⟩
  · rw [symmetrized_eq_conjugate a, ← Matrix.mul_assoc, ← Matrix.mul_assoc, horthogonal,
      Matrix.one_mul, Matrix.mul_assoc, horthogonal, Matrix.mul_one]
  · intro j hj
    exact (get_ofFn _ j).trans (if_pos hj)

end Tridiagonal

end MatrixScript
