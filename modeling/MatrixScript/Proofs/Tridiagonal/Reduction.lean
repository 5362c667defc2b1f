import MatrixScript.Proofs.Tridiagonal.Reflector

/-!
# The reduction to tridiagonal form in exact arithmetic

A state of the reduction stands for a matrix: what is left of the leading block, and below it
the part that is tridiagonal already (`remaining`).  A step of the reduction reflects that
matrix, and keeps the reflection in the column that it has cleared (`remaining_reduceRow`).
-/

namespace MatrixScript

namespace Tridiagonal

open Matrix

variable {n : Nat}

/-! ## The matrix of a state -/

/-- The symmetric matrix with the diagonal `d` and, from index one on, the subdiagonal `e`. -/
def tridiagonal (d e : Fin n → ℝ) : Matrix (Fin n) (Fin n) ℝ :=
  Matrix.of fun k j =>
    if k = j then d k
    else if k.val = j.val + 1 then e k
    else if j.val = k.val + 1 then e j
    else 0

theorem tridiagonal_self (d e : Fin n → ℝ) (k : Fin n) : tridiagonal d e k k = d k := if_pos rfl

theorem tridiagonal_of_succ (d e : Fin n → ℝ) {k j : Fin n} (h : k.val = j.val + 1) :
    tridiagonal d e k j = e k := by
  have hne : k ≠ j := by omega
  rw [tridiagonal, of_apply, if_neg hne, if_pos h]

theorem tridiagonal_of_lt (d e : Fin n → ℝ) {k j : Fin n} (h : j.val + 1 < k.val) :
    tridiagonal d e k j = 0 := by
  have hne : k ≠ j := by omega
  have hbelow : ¬k.val = j.val + 1 := by omega
  have habove : ¬j.val = k.val + 1 := by omega
  rw [tridiagonal, of_apply, if_neg hne, if_neg hbelow, if_neg habove]

/-- Up to the diagonal, a row has one element of the diagonal and one of the subdiagonal. -/
theorem tridiagonal_congr {d e d' e' : Fin n → ℝ} {k j : Fin n} (hjk : j ≤ k) (hd : d k = d' k)
    (he : e k = e' k) : tridiagonal d e k j = tridiagonal d' e' k j := by
  have habove : ¬j.val = k.val + 1 := by omega
  simp only [tridiagonal, of_apply, if_neg habove, hd, he]

/-- The first element of the subdiagonal is not part of the matrix. -/
theorem tridiagonal_congr_subdiagonal (d : Fin n → ℝ) {e e' : Fin n → ℝ}
    (h : ∀ k : Fin n, 0 < k.val → e k = e' k) : tridiagonal d e = tridiagonal d e' := by
  ext k j
  simp only [tridiagonal, of_apply]
  grind

theorem isSymm_tridiagonal (d e : Fin n → ℝ) : (tridiagonal d e).IsSymm := by
  ext k j
  rw [transpose_apply]
  rcases eq_or_ne k j with rfl | hne
  · rfl
  · simp only [tridiagonal, of_apply, if_neg hne, if_neg hne.symm]
    grind

/-- The matrix that a tridiagonal form holds. -/
def toMatrix (t : Tridiagonal ℝ n) : Matrix (Fin n) (Fin n) ℝ :=
  tridiagonal t.diagonal.get t.subdiagonal.get

/-- The matrix of a state whose rows up to `r` are still to be reduced: the leading block that
they make up, and the tridiagonal part after it. -/
def remaining (t : Tridiagonal ℝ n) (r : Nat) : Matrix (Fin n) (Fin n) ℝ :=
  Matrix.of fun k j =>
    if k.val ≤ r ∧ j.val ≤ r then symmetric t.basis k j
    else tridiagonal (fun k => t.basis.get k k) t.subdiagonal.get k j

section Remaining

variable {t : Tridiagonal ℝ n} {r : Nat} {k j : Fin n}

theorem remaining_of_le (hk : k.val ≤ r) (hj : j.val ≤ r) :
    remaining t r k j = t.basis.symmetrized k j := if_pos ⟨hk, hj⟩

theorem remaining_of_lt (hk : r < k.val) :
    remaining t r k j = tridiagonal (fun k => t.basis.get k k) t.subdiagonal.get k j :=
  if_neg fun h => absurd h.1 (not_le.mpr hk)

theorem isSymm_remaining (t : Tridiagonal ℝ n) (r : Nat) : (remaining t r).IsSymm := by
  ext k j
  have hblock := t.basis.isSymm_symmetrized.apply k j
  have hrest := (isSymm_tridiagonal (fun k => t.basis.get k k) t.subdiagonal.get).apply k j
  by_cases h : k.val ≤ r ∧ j.val ≤ r
  · rw [transpose_apply, remaining_of_le h.2 h.1, remaining_of_le h.1 h.2, hblock]
  · rw [transpose_apply, remaining, of_apply, of_apply, if_neg h, if_neg fun h' => h h'.symm, hrest]

theorem remaining_start (a : Grid ℝ n n) : remaining (start a) (n - 1) = a.symmetrized := by
  ext k j
  exact remaining_of_le (by omega) (by omega)

theorem remaining_zero (t : Tridiagonal ℝ n) :
    remaining t 0 = tridiagonal (fun k => t.basis.get k k) t.subdiagonal.get := by
  ext k j
  by_cases h : k.val ≤ 0 ∧ j.val ≤ 0
  · obtain rfl : k = j := by omega
    rw [remaining_of_le h.1 h.2, tridiagonal_self, t.basis.symmetrized_of_le le_rfl]
  · rw [remaining, of_apply, if_neg h]

end Remaining

/-! ## The reflection kept in a column -/

/-- The direction of the reflection kept in column `j`. -/
def keptDirection (t : Tridiagonal ℝ n) (j : Fin n) : Fin n → ℝ :=
  fun k => if k < j then t.basis.get k j else 0

noncomputable def keptReflector (t : Tridiagonal ℝ n) (j : Fin n) : Matrix (Fin n) (Fin n) ℝ :=
  reflector (keptDirection t j) (t.diagonal.get j)

/-- The next row to be reduced is held in the vector of the diagonal. -/
def RowTaken (t : Tridiagonal ℝ n) (r : Nat) : Prop :=
  ∀ k j : Fin n, k.val = r → j ≤ k → t.diagonal.get j = t.basis.get k j

/-- Row and column `j` have been reduced. -/
structure Cleared (t : Tridiagonal ℝ n) (j : Fin n) : Prop where
  row : ∀ k < j, t.basis.get j k = 0
  length : keptDirection t j ⬝ᵥ keptDirection t j = t.diagonal.get j + t.diagonal.get j

/-- States that agree after index `r`. -/
structure AgreesAfter (r : Nat) (s t : Tridiagonal ℝ n) : Prop where
  basis : ∀ k j : Fin n, r < k.val ∨ r < j.val → s.basis.get k j = t.basis.get k j
  diagonal : ∀ j : Fin n, r < j.val → s.diagonal.get j = t.diagonal.get j
  subdiagonal : ∀ j : Fin n, r < j.val → s.subdiagonal.get j = t.subdiagonal.get j

namespace AgreesAfter

variable {r : Nat} {s t u : Tridiagonal ℝ n} {j : Fin n}

theorem trans (hst : AgreesAfter r s t) (htu : AgreesAfter r t u) : AgreesAfter r s u where
  basis k j h := (hst.basis k j h).trans (htu.basis k j h)
  diagonal j h := (hst.diagonal j h).trans (htu.diagonal j h)
  subdiagonal j h := (hst.subdiagonal j h).trans (htu.subdiagonal j h)

theorem mono {r' : Nat} (h : AgreesAfter r s t) (hr : r ≤ r') : AgreesAfter r' s t where
  basis k j hkj := h.basis k j (by omega)
  diagonal j hj := h.diagonal j (by omega)
  subdiagonal j hj := h.subdiagonal j (by omega)

theorem keptDirection_eq (h : AgreesAfter r s t) (hj : r < j.val) :
    keptDirection s j = keptDirection t j := by
  funext k
  unfold keptDirection
  rw [h.basis k j (.inr hj)]

theorem keptReflector_eq (h : AgreesAfter r s t) (hj : r < j.val) :
    keptReflector s j = keptReflector t j := by
  rw [keptReflector, keptReflector, h.keptDirection_eq hj, h.diagonal j hj]

theorem cleared (h : AgreesAfter r s t) (hj : r < j.val) (ht : Cleared t j) : Cleared s j where
  row k hk := (h.basis j k (.inl hj)).trans (ht.row k hk)
  length := by rw [h.keptDirection_eq hj, h.diagonal j hj, ht.length]

end AgreesAfter

/-! ## One step -/

/-- What a step of the reduction does: it takes `u qᵀ + q uᵀ` from the leading block, keeps the
direction `u` in the column of its row, and takes the row to a multiple of its last element. -/
structure Reduces (t t' : Tridiagonal ℝ n) (i : Fin (n - 1)) (r : Reflection ℝ n)
    (q : Fin n → ℝ) (scale : ℝ) : Prop where
  basis : ∀ k j, t'.basis.get k j =
    if j ≤ k ∧ k < Index.next i then
      t.basis.get k j - (r.direction.get j * q k + q j * r.direction.get k)
    else if k = Index.next i ∧ j < Index.next i then 0
    else if j = Index.next i ∧ k < Index.next i then r.direction.get k
    else t.basis.get k j
  diagonal : ∀ j, t'.diagonal.get j =
    if j < Index.next i then t'.basis.get (Index.here i) j
    else if j = Index.next i then r.half
    else t.diagonal.get j
  subdiagonal : ∀ j, t'.subdiagonal.get j =
    if j = Index.next i then r.image else t.subdiagonal.get j
  direction_zero : ∀ k, Index.next i ≤ k → r.direction.get k = 0
  length : r.direction.get ⬝ᵥ r.direction.get = r.half + r.half
  image : ∀ j < Index.next i, t.diagonal.get j - scale * r.direction.get j =
    if j = Index.here i then r.image else 0
  scale_eq : r.half⁻¹ * (t.diagonal.get ⬝ᵥ r.direction.get) = scale
  correction : ∀ j < Index.next i, q j = corrector t.basis.symmetrized r.direction.get r.half j

/-- A row of zeros is passed over, as if by a reflection without a direction. -/
theorem reduces_passRow {t : Tridiagonal ℝ n} {i : Fin (n - 1)}
    (h : rowScale t.diagonal i = 0) :
    Reduces t (t.passRow i) i ⟨Vector.ofFn fun _ => 0, 0, 0⟩ 0 0 := by
  have hdirection : (Vector.ofFn fun _ : Fin n => (0 : ℝ)).get = 0 := funext (get_ofFn _)
  have hrow : ∀ k < Index.next i, t.diagonal.get k = 0 := fun k => get_eq_zero_of_rowScale h
  have hbasis : ∀ k j, (t.passRow i).basis.get k j =
      if (k = Index.next i ∧ j < Index.next i) ∨ (j = Index.next i ∧ k < Index.next i) then 0
      else t.basis.get k j := Grid.get_ofFn _
  have hhere : Index.here i < Index.next i := Nat.lt_succ_self i.val
  constructor
  case basis =>
    intro k j
    rw [hbasis, hdirection]
    simp only [Pi.zero_apply, mul_zero, add_zero, sub_zero]
    grind
  case diagonal =>
    intro j
    rw [hbasis]
    refine (get_ofFn _ j).trans ?_
    grind
  case subdiagonal =>
    intro j
    refine (get_setAt _ _ _ j).trans ?_
    rw [hrow _ hhere]
  case direction_zero =>
    intro k _
    exact congrFun hdirection k
  case length => rw [hdirection, zero_dotProduct, add_zero]
  case image =>
    intro j hj
    rw [hdirection, hrow j hj, Pi.zero_apply, mul_zero, sub_zero, ite_self]
  case scale_eq => exact mul_eq_zero_of_left (inv_eq_zero.mpr rfl) _
  case correction =>
    intro j _
    simp [corrector, hdirection]

theorem reduces_reflectRow {t : Tridiagonal ℝ n} {i : Fin (n - 1)}
    (h : rowScale t.diagonal i ≠ 0) :
    Reduces t (t.reflectRow i (rowScale t.diagonal i)) i
      (reflection t.diagonal i (rowScale t.diagonal i))
      (correction t.basis i (reflection t.diagonal i (rowScale t.diagonal i))).get
      (rowScale t.diagonal i) where
  basis := Grid.get_ofFn _
  diagonal := get_ofFn _
  subdiagonal := get_setAt _ _ _
  direction_zero _ := direction_of_le
  length := direction_dotProduct_self _ _ _
  image _ := sub_scale_mul_direction h
  scale_eq := by
    rw [row_dotProduct_direction h, mul_comm, mul_assoc, mul_inv_cancel₀ (reflection_half_pos h).ne',
      mul_one]
  correction _ := correction_real t.basis fun _ => direction_of_le

theorem reduceRow_of_zero {t : Tridiagonal ℝ n} {i : Fin (n - 1)}
    (h : rowScale t.diagonal i = 0) : t.reduceRow i = t.passRow i :=
  if_pos ((Scalar.beq_zero_real _).mpr h)

theorem reduceRow_of_ne_zero {t : Tridiagonal ℝ n} {i : Fin (n - 1)}
    (h : rowScale t.diagonal i ≠ 0) : t.reduceRow i = t.reflectRow i (rowScale t.diagonal i) :=
  if_neg (mt (Scalar.beq_zero_real _).mp h)

theorem exists_reduces (t : Tridiagonal ℝ n) (i : Fin (n - 1)) :
    ∃ r q scale, Reduces t (t.reduceRow i) i r q scale := by
  by_cases h : rowScale t.diagonal i = 0
  · rw [reduceRow_of_zero h]
    exact ⟨_, _, _, reduces_passRow h⟩
  · rw [reduceRow_of_ne_zero h]
    exact ⟨_, _, _, reduces_reflectRow h⟩

namespace Reduces

variable {t t' : Tridiagonal ℝ n} {i : Fin (n - 1)} {r : Reflection ℝ n} {q : Fin n → ℝ}
  {scale : ℝ}

/-- After its row, a step changes nothing. -/
theorem agreesAfter (h : Reduces t t' i r q scale) : AgreesAfter (i.val + 1) t' t where
  basis k j hkj := by
    have hnext := Index.val_next i
    rw [h.basis, if_neg (by omega), if_neg (by omega), if_neg (by omega)]
  diagonal j hj := by
    have hnext := Index.val_next i
    rw [h.diagonal, if_neg (by omega), if_neg (by omega)]
  subdiagonal j hj := by
    have hnext := Index.val_next i
    rw [h.subdiagonal, if_neg (by omega)]

/-- In its row and column, a step leaves the diagonal element. -/
theorem basis_next (h : Reduces t t' i r q scale) :
    t'.basis.get (Index.next i) (Index.next i) = t.basis.get (Index.next i) (Index.next i) := by
  rw [h.basis, if_neg (by omega), if_neg (by omega), if_neg (by omega)]

theorem rowTaken (h : Reduces t t' i r q scale) : RowTaken t' i.val := by
  intro k j hk hj
  have hnext := Index.val_next i
  obtain rfl : k = Index.here i := Fin.ext hk
  rw [h.diagonal, if_pos (by omega)]

theorem keptDirection_eq (h : Reduces t t' i r q scale) :
    keptDirection t' (Index.next i) = r.direction.get := by
  funext k
  unfold keptDirection
  by_cases hk : k < Index.next i
  · rw [if_pos hk, h.basis, if_neg (by omega), if_neg (by omega), if_pos ⟨rfl, hk⟩]
  · rw [if_neg hk, h.direction_zero k (not_lt.mp hk)]

theorem diagonal_next (h : Reduces t t' i r q scale) :
    t'.diagonal.get (Index.next i) = r.half := by
  rw [h.diagonal, if_neg (lt_irrefl _), if_pos rfl]

theorem cleared (h : Reduces t t' i r q scale) : Cleared t' (Index.next i) where
  row k hk := by rw [h.basis, if_neg (by omega), if_pos ⟨rfl, hk⟩]
  length := by rw [h.keptDirection_eq, h.diagonal_next, h.length]

theorem keptReflector_eq (h : Reduces t t' i r q scale) :
    keptReflector t' (Index.next i) = reflector r.direction.get r.half := by
  rw [keptReflector, h.keptDirection_eq, h.diagonal_next]

/-- Up to its row, a step multiplies the direction by the symmetric matrix itself. -/
theorem remaining_mulVec_of_le (h : Reduces t t' i r q scale) {j : Fin n}
    (hj : j ≤ Index.next i) :
    (remaining t (i.val + 1) *ᵥ r.direction.get) j =
      (t.basis.symmetrized *ᵥ r.direction.get) j := by
  simp only [mulVec, dotProduct]
  apply Finset.sum_congr rfl
  intro k _
  rcases lt_or_ge k (Index.next i) with hk | hk
  · rw [remaining_of_le (r := i.val + 1) hj hk.le]
  · rw [h.direction_zero k hk, mul_zero, mul_zero]

theorem remaining_mulVec_of_lt (h : Reduces t t' i r q scale) {j : Fin n}
    (hj : Index.next i < j) : (remaining t (i.val + 1) *ᵥ r.direction.get) j = 0 := by
  simp only [mulVec, dotProduct]
  apply Finset.sum_eq_zero
  intro k _
  rcases lt_or_ge k (Index.next i) with hk | hk
  · rw [remaining_of_lt (r := i.val + 1) hj, tridiagonal_of_lt _ _ (by omega), zero_mul]
  · rw [h.direction_zero k hk, mul_zero]

section Corrector

variable {j : Fin n}

theorem corrector_of_lt (h : Reduces t t' i r q scale) (hj : j < Index.next i) :
    corrector (remaining t (i.val + 1)) r.direction.get r.half j = q j := by
  rw [h.correction j hj]
  apply corrector_congr _ _ (h.remaining_mulVec_of_le hj.le)
  intro k hk
  have hlt : k < Index.next i := not_le.mp (mt (h.direction_zero k) hk)
  exact h.remaining_mulVec_of_le hlt.le

theorem corrector_next (h : Reduces t t' i r q scale) (hrow : RowTaken t (i.val + 1)) :
    corrector (remaining t (i.val + 1)) r.direction.get r.half (Index.next i) = scale := by
  have hproduct : (t.basis.symmetrized *ᵥ r.direction.get) (Index.next i) =
      t.diagonal.get ⬝ᵥ r.direction.get := by
    simp only [mulVec, dotProduct]
    apply Finset.sum_congr rfl
    intro k _
    rcases lt_or_ge k (Index.next i) with hk | hk
    · rw [t.basis.symmetrized_of_le hk.le, hrow (Index.next i) k rfl hk.le]
    · rw [h.direction_zero k hk, mul_zero, mul_zero]
  rw [corrector_of_zero _ _ (h.direction_zero _ le_rfl), h.remaining_mulVec_of_le le_rfl, hproduct,
    h.scale_eq]

theorem corrector_of_gt (h : Reduces t t' i r q scale) (hj : Index.next i < j) :
    corrector (remaining t (i.val + 1)) r.direction.get r.half j = 0 := by
  rw [corrector_of_zero _ _ (h.direction_zero j hj.le), h.remaining_mulVec_of_lt hj, mul_zero]

end Corrector

/-- Element by element, what is left is corrected by the direction and its corrector. -/
theorem remaining_apply (h : Reduces t t' i r q scale) (hrow : RowTaken t (i.val + 1))
    {k j : Fin n} (hjk : j ≤ k) :
    remaining t' i.val k j = remaining t (i.val + 1) k j - (r.direction.get k *
      corrector (remaining t (i.val + 1)) r.direction.get r.half j +
        corrector (remaining t (i.val + 1)) r.direction.get r.half k * r.direction.get j) := by
  have hnext := Index.val_next i
  -- The leading block is corrected, the row takes its image, and what is after it stays.
  rcases lt_trichotomy k (Index.next i) with hk | rfl | hk
  · have hj : j < Index.next i := hjk.trans_lt hk
    rw [h.corrector_of_lt hk, h.corrector_of_lt hj, remaining_of_le (by omega) (by omega),
      remaining_of_le (by omega) (by omega), Grid.symmetrized_of_le _ hjk,
      Grid.symmetrized_of_le _ hjk, h.basis, if_pos ⟨hjk, hk⟩]
    ring
  · rw [h.direction_zero _ le_rfl, h.corrector_next hrow,
      remaining_of_le (r := i.val + 1) le_rfl hjk,
      Grid.symmetrized_of_le _ hjk, remaining_of_lt (by omega)]
    rcases hjk.eq_or_lt with rfl | hj
    · rw [tridiagonal_self, h.basis_next, h.direction_zero _ le_rfl]
      ring
    · have himage := h.image j hj
      rw [← hrow (Index.next i) j rfl hjk, zero_mul, zero_add, himage]
      by_cases hhere : j = Index.here i
      · rw [if_pos hhere, hhere, tridiagonal_of_succ _ _ rfl, h.subdiagonal, if_pos rfl]
      · have hval : j.val ≠ i.val := fun h => hhere (Fin.ext h)
        rw [if_neg hhere, tridiagonal_of_lt _ _ (by omega)]
  · rw [h.direction_zero k hk.le, h.corrector_of_gt hk, remaining_of_lt (by omega),
      remaining_of_lt (by omega), zero_mul, zero_mul, add_zero, sub_zero]
    exact tridiagonal_congr hjk (h.agreesAfter.basis k k (.inl hk)) (h.agreesAfter.subdiagonal k hk)

theorem remaining_eq (h : Reduces t t' i r q scale) (hrow : RowTaken t (i.val + 1)) :
    remaining t' i.val = reflector r.direction.get r.half * remaining t (i.val + 1) *
      reflector r.direction.get r.half := by
  rw [reflector_conjugate (isSymm_remaining t _)]
  ext k j
  rw [Matrix.sub_apply, Matrix.add_apply, vecMulVec_apply, vecMulVec_apply]
  rcases le_total j k with hjk | hkj
  · exact h.remaining_apply hrow hjk
  · rw [← (isSymm_remaining t' _).apply, ← (isSymm_remaining t _).apply,
      h.remaining_apply hrow hkj]
    ring

end Reduces

theorem agreesAfter_reduceRow (t : Tridiagonal ℝ n) (i : Fin (n - 1)) :
    AgreesAfter (i.val + 1) (t.reduceRow i) t := by
  obtain ⟨r, q, scale, h⟩ := exists_reduces t i
  exact h.agreesAfter

theorem rowTaken_reduceRow (t : Tridiagonal ℝ n) (i : Fin (n - 1)) :
    RowTaken (t.reduceRow i) i.val := by
  obtain ⟨r, q, scale, h⟩ := exists_reduces t i
  exact h.rowTaken

theorem cleared_reduceRow (t : Tridiagonal ℝ n) (i : Fin (n - 1)) :
    Cleared (t.reduceRow i) (Index.next i) := by
  obtain ⟨r, q, scale, h⟩ := exists_reduces t i
  exact h.cleared

/-- A step of the reduction is undone by the reflection that it keeps. -/
theorem remaining_reduceRow {t : Tridiagonal ℝ n} {i : Fin (n - 1)}
    (hrow : RowTaken t (i.val + 1)) :
    remaining t (i.val + 1) = keptReflector (t.reduceRow i) (Index.next i) *
      remaining (t.reduceRow i) i.val * keptReflector (t.reduceRow i) (Index.next i) := by
  obtain ⟨r, q, scale, h⟩ := exists_reduces t i
  have hinvolution := reflector_mul_self h.length
  rw [h.keptReflector_eq, h.remaining_eq hrow, ← Matrix.mul_assoc, ← Matrix.mul_assoc, hinvolution,
    Matrix.one_mul, Matrix.mul_assoc, hinvolution, Matrix.mul_one]

/-! ## The rows of the reduction -/

theorem take_finRange_succ {m : Nat} (i : Fin m) :
    (List.finRange m).take (i.val + 1) = (List.finRange m).take i.val ++ [i] := by
  have hlength : i.val < (List.finRange m).length := i.isLt.trans_eq List.length_finRange.symm
  rw [List.take_succ_eq_append_getElem hlength, List.getElem_finRange]
  rfl

/-- The reduction of the rows up to `r`, from the last of them on. -/
noncomputable def reduceLeading (t : Tridiagonal ℝ n) (r : Nat) : Tridiagonal ℝ n :=
  ((List.finRange (n - 1)).take r).foldr (fun i t => t.reduceRow i) t

theorem reduceLeading_zero (t : Tridiagonal ℝ n) : reduceLeading t 0 = t := rfl

theorem reduceLeading_succ (t : Tridiagonal ℝ n) (i : Fin (n - 1)) :
    reduceLeading t (i.val + 1) = reduceLeading (t.reduceRow i) i.val := by
  rw [reduceLeading, take_finRange_succ, List.foldr_append]
  rfl

theorem reduceLeading_all (t : Tridiagonal ℝ n) : reduceLeading t (n - 1) = t.reduceRows := by
  rw [reduceLeading, List.take_of_length_le List.length_finRange.le]
  rfl

/-- The product of the reflections kept in the columns up to `r`, the last one first. -/
noncomputable def keptProduct (t : Tridiagonal ℝ n) (r : Nat) : Matrix (Fin n) (Fin n) ℝ :=
  ((List.finRange (n - 1)).take r).foldl (fun p i => keptReflector t (Index.next i) * p) 1

theorem keptProduct_zero (t : Tridiagonal ℝ n) : keptProduct t 0 = 1 := rfl

theorem keptProduct_succ (t : Tridiagonal ℝ n) (i : Fin (n - 1)) :
    keptProduct t (i.val + 1) = keptReflector t (Index.next i) * keptProduct t i.val := by
  rw [keptProduct, take_finRange_succ, List.foldl_append]
  rfl

theorem agreesAfter_reduceLeading (t : Tridiagonal ℝ n) {r : Nat} (hr : r ≤ n - 1) :
    AgreesAfter r (reduceLeading t r) t := by
  induction r generalizing t with
  | zero => exact ⟨fun _ _ _ => rfl, fun _ _ => rfl, fun _ _ => rfl⟩
  | succ r ih =>
      rw [reduceLeading_succ t ⟨r, hr⟩]
      exact ((ih _ (by omega)).mono (Nat.le_succ r)).trans (agreesAfter_reduceRow t ⟨r, hr⟩)

theorem cleared_reduceLeading (t : Tridiagonal ℝ n) {r : Nat} (hr : r ≤ n - 1) {j : Fin n}
    (hpos : 0 < j.val) (hj : j.val ≤ r) : Cleared (reduceLeading t r) j := by
  induction r generalizing t with
  | zero => exact absurd hj (by omega)
  | succ r ih =>
      rw [reduceLeading_succ t ⟨r, hr⟩]
      rcases hj.lt_or_eq with hlt | heq
      · exact ih _ (by omega) (by omega)
      · obtain rfl : j = Index.next ⟨r, hr⟩ := Fin.ext heq
        exact (agreesAfter_reduceLeading _ (by omega)).cleared (Nat.lt_succ_self r)
          (cleared_reduceRow t ⟨r, hr⟩)

/-- What is left to be reduced is the tridiagonal matrix at the end, between the product of the
reflections made on the way and its transpose. -/
theorem remaining_eq_keptProduct (t : Tridiagonal ℝ n) {r : Nat} (hr : r ≤ n - 1)
    (hrow : RowTaken t r) :
    remaining t r = keptProduct (reduceLeading t r) r * remaining (reduceLeading t r) 0 *
      (keptProduct (reduceLeading t r) r)ᵀ := by
  -- The last row is reduced first, so the hypothesis is about the state after its step.
  induction r generalizing t with
  | zero =>
      rw [keptProduct_zero, reduceLeading_zero, transpose_one, Matrix.one_mul, Matrix.mul_one]
  | succ r ih =>
      have hreflector : keptReflector (reduceLeading (t.reduceRow ⟨r, hr⟩) r) (Index.next ⟨r, hr⟩) =
          keptReflector (t.reduceRow ⟨r, hr⟩) (Index.next ⟨r, hr⟩) :=
        (agreesAfter_reduceLeading _ (by omega)).keptReflector_eq (Nat.lt_succ_self r)
      have hsymm : (keptReflector (t.reduceRow ⟨r, hr⟩) (Index.next ⟨r, hr⟩))ᵀ =
          keptReflector (t.reduceRow ⟨r, hr⟩) (Index.next ⟨r, hr⟩) := transpose_reflector _ _
      rw [reduceLeading_succ t ⟨r, hr⟩, keptProduct_succ _ ⟨r, hr⟩, hreflector,
        remaining_reduceRow (i := ⟨r, hr⟩) hrow,
        ih _ (by omega) (rowTaken_reduceRow t ⟨r, hr⟩), transpose_mul, hsymm]
      simp only [Matrix.mul_assoc]

end Tridiagonal

end MatrixScript
