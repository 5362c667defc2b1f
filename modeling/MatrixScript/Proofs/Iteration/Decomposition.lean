import Mathlib.LinearAlgebra.Matrix.Trace
import MatrixScript.Proofs.Iteration.Sweep
import MatrixScript.Proofs.Tridiagonal.Accumulation

/-!
# The eigenvectors are orthonormal and the eigenvalues sum up to the trace

Whatever couplings it takes for negligible, the iteration rotates: its columns stay orthonormal
and its diagonal keeps its sum (`Carries`).  Sorting applies one permutation to both.
-/

namespace MatrixScript

open Matrix

variable {n : Nat}

/-! ## What the iteration keeps -/

namespace Iteration

/-- The columns are orthonormal, and the diagonal sums up to `total`. -/
structure Carries (total : ℝ) (s : Iteration ℝ n) : Prop where
  orthonormal : s.basisᵀ * s.basis = 1
  sum_diagonal : ∑ k, s.diagonal.get k = total

namespace Carries

variable {total relative : ℝ} {s : Iteration ℝ n}

theorem sweep (hs : Carries total s) (hrelative : 0 ≤ relative) {l m : Fin n} (hlm : l < m)
    (h : Unreduced relative s l m) : Carries total (s.sweep l m hlm) := by
  obtain ⟨i, hi⟩ := exists_here hlm
  have hrotates := h.rotates_sweep hrelative hlm hi
  refine ⟨hrotates.transpose_basis_mul_self hs.orthonormal, ?_⟩
  rw [hrotates.sum_diagonal, hs.sum_diagonal]
  exact sub_zero total

theorem converge (hs : Carries total s) (hrelative : 0 ≤ relative) {l : Fin n}
    {budget used used' : Nat} {s' : Iteration ℝ n}
    (h : Iteration.converge relative l budget used s = some (used', s')) : Carries total s' := by
  induction budget generalizing used s with
  | zero =>
      rw [Iteration.converge] at h
      split at h
      · cases h
      · cases h
        exact hs
  | succ budget ih =>
      rw [Iteration.converge] at h
      split at h
      case isTrue hlm =>
          exact ih (hs.sweep hrelative hlm (unreduced_blockEnd relative s l)) h
      case isFalse =>
          cases h
          exact hs

theorem diagonalize (hs : Carries total s) (hrelative : 0 ≤ relative) {limit : Nat}
    {indices : List (Fin n)} {s' : Iteration ℝ n}
    (h : (Iteration.diagonalize relative limit indices s).2 = .ok s') : Carries total s' := by
  induction indices generalizing s with
  | nil =>
      cases h
      exact hs
  | cons l rest ih =>
      rw [Iteration.diagonalize] at h
      cases hfound : Iteration.converge relative l limit 0 s with
      | none =>
          rw [hfound] at h
          cases h
      | some found =>
          rw [hfound] at h
          exact ih (hs.converge hrelative hfound) h

end Carries

end Iteration

/-! ## What it starts from -/

theorem DenseMatrix.trace_real (a : Grid ℝ n n) :
    DenseMatrix.trace ⟨n, n, a⟩ = a.toMatrix.trace := by
  unfold DenseMatrix.trace
  rw [Scalar.sum_real]
  exact Fintype.sum_equiv (finCongr (Nat.min_self n)) _ _ fun _ => rfl

theorem Grid.trace_symmetrized (a : Grid ℝ n n) : a.symmetrized.trace = a.toMatrix.trace :=
  Finset.sum_congr rfl fun _ _ => a.symmetrized_of_le le_rfl

theorem Tridiagonal.trace_toMatrix (t : Tridiagonal ℝ n) :
    t.toMatrix.trace = ∑ k, t.diagonal.get k :=
  Finset.sum_congr rfl fun k _ => Tridiagonal.tridiagonal_self _ _ k

theorem Iteration.basis_start (t : Tridiagonal ℝ n) :
    (Iteration.start t).basis = t.basis.toMatrix := by
  ext k j
  rw [Iteration.basis_apply, Iteration.start, get_ofFn, get_ofFn, Grid.toMatrix_apply]

/-- The reduction is a similarity, so it keeps the trace. -/
theorem Iteration.carries_start (a : Grid ℝ n n) :
    Carries (DenseMatrix.trace ⟨n, n, a⟩) (Iteration.start (Tridiagonal.ofSymmetric a)) := by
  have horthonormal := Tridiagonal.transpose_basis_mul_self a
  constructor
  · rw [basis_start, horthonormal]
  · calc ∑ k, (Tridiagonal.ofSymmetric a).diagonal.get k
      _ = (Tridiagonal.ofSymmetric a).toMatrix.trace := (Tridiagonal.trace_toMatrix _).symm
      _ = a.symmetrized.trace := by
          rw [Tridiagonal.symmetrized_eq_conjugate, Matrix.trace_mul_cycle, horthonormal,
            Matrix.one_mul]
      _ = DenseMatrix.trace ⟨n, n, a⟩ := by rw [Grid.trace_symmetrized, DenseMatrix.trace_real]

/-! ## Sorting -/

namespace Eigen

theorem descends_iff {x y : ℝ} : descends x y = true ↔ y ≤ x := by
  have hself : (x == x) = true := decide_eq_true rfl
  rw [descends, hself, Bool.not_true, Bool.false_or, decide_eq_true_iff]

theorem perm_order (diagonal : Vector ℝ n) :
    (order diagonal).toList.Perm (List.finRange n) :=
  List.mergeSort_perm _ _

theorem pairwise_order (diagonal : Vector ℝ n) :
    (order diagonal).toList.Pairwise fun i j => diagonal.get j ≤ diagonal.get i := by
  have hsorted : (order diagonal).toList.Pairwise fun i j =>
      descends (diagonal.get i) (diagonal.get j) = true := by
    apply List.pairwise_mergeSort
    · intro i j k hij hjk
      rw [descends_iff] at hij hjk ⊢
      exact hjk.trans hij
    · intro i j
      rw [Bool.or_eq_true, descends_iff, descends_iff]
      exact le_total _ _
  exact hsorted.imp descends_iff.mp

/-- Sorting permutes the indices. -/
theorem exists_order (diagonal : Vector ℝ n) :
    ∃ p : Equiv.Perm (Fin n), ∀ k, (order diagonal).get k = p k := by
  have hnodup : (order diagonal).toList.Nodup :=
    (perm_order diagonal).nodup_iff.mpr (List.nodup_finRange n)
  have hinjective : Function.Injective (order diagonal).get := by
    intro j k h
    have hlist : (order diagonal).toList[j.val] = (order diagonal).toList[k.val] := h
    exact Fin.ext (hnodup.getElem_inj_iff.mp hlist)
  exact ⟨.ofBijective _ (Finite.injective_iff_bijective.mp hinjective), fun _ => rfl⟩

theorem values_sorted (s : Iteration ℝ n) :
    (sorted s).values = List.ofFn fun k => s.diagonal.get ((order s.diagonal).get k) := by
  apply List.ext_getElem
  · simp [sorted]
  · intro k hk hk'
    simp only [sorted, List.getElem_map, List.getElem_ofFn]
    rfl

theorem pairwise_values_sorted (s : Iteration ℝ n) : (sorted s).values.Pairwise (· ≥ ·) :=
  List.pairwise_map.mpr (pairwise_order s.diagonal)

/-- Columns remain orthonormal in any order. -/
theorem transpose_mul_self_of_permuted {s : Iteration ℝ n} (hs : s.basisᵀ * s.basis = 1)
    {vectors : Grid ℝ n n} {p : Equiv.Perm (Fin n)}
    (h : ∀ i k, vectors.get i k = (s.columns.get (p k)).get i) :
    vectors.toMatrixᵀ * vectors.toMatrix = 1 := by
  have hvectors : vectors.toMatrix = s.basis.submatrix id p := by
    ext i k
    exact h i k
  calc vectors.toMatrixᵀ * vectors.toMatrix
    _ = s.basisᵀ.submatrix p (Equiv.refl _) * s.basis.submatrix (Equiv.refl _) p := by
        rw [hvectors, transpose_submatrix, Equiv.coe_refl]
    _ = (s.basisᵀ * s.basis).submatrix p p := submatrix_mul_equiv _ _ _ _ _
    _ = 1 := by rw [hs, submatrix_one_equiv]

end Eigen

namespace DenseMatrix

theorem eigen_eq_ok_iff {tolerance : ℝ} {limit : Nat} {a : Grid ℝ n n} {result : Eigen ℝ} :
    eigen tolerance limit ⟨n, n, a⟩ = .ok result ↔
      ∃ s, (Iteration.diagonalize (Scalar.max tolerance Scalar.epsilon) limit (List.finRange n)
        (Iteration.start (Tridiagonal.ofSymmetric a))).2 = .ok s ∧ Eigen.sorted s = result := by
  have hgrid : grid? ⟨n, n, a⟩ n n = some a := grid?_eq_some_iff.mpr rfl
  simp only [eigen, eigenCounting, hgrid]
  cases (Iteration.diagonalize (Scalar.max tolerance Scalar.epsilon) limit (List.finRange n)
        (Iteration.start (Tridiagonal.ofSymmetric a))).2 with
  | ok s => simp
  | error index => simp

/-- If the iteration ends, at whatever tolerance, the eigenvectors are orthonormal, the
eigenvalues sum up to the trace and descend, and one permutation has taken the diagonal and the
columns of the iteration to them. -/
theorem eigen_orthonormal {tolerance : ℝ} {limit : Nat} {a : Grid ℝ n n} {result : Eigen ℝ}
    (hok : eigen tolerance limit ⟨n, n, a⟩ = .ok result) :
    ∃ (s : Iteration ℝ n) (order : Equiv.Perm (Fin n)) (vectors : Grid ℝ n n),
      (Iteration.diagonalize (Scalar.max tolerance Scalar.epsilon) limit (List.finRange n)
        (Iteration.start (Tridiagonal.ofSymmetric a))).2 = .ok s ∧
      result.values = List.ofFn (fun k => s.diagonal.get (order k)) ∧
      result.vectors = ⟨n, n, vectors⟩ ∧
      (∀ i k, vectors.get i k = (s.columns.get (order k)).get i) ∧
      vectors.toMatrixᵀ * vectors.toMatrix = 1 ∧
      ∑ k, s.diagonal.get (order k) = trace ⟨n, n, a⟩ ∧
      result.values.Pairwise (· ≥ ·) := by
  obtain ⟨s, hs, rfl⟩ := eigen_eq_ok_iff.mp hok
  have hcarries :=
    (Iteration.carries_start a).diagonalize (Iteration.max_epsilon_pos tolerance).le hs
  obtain ⟨order, horder⟩ := Eigen.exists_order s.diagonal
  have hvectors : ∀ i k, (Grid.ofFn fun i k =>
      (s.columns.get ((Eigen.order s.diagonal).get k)).get i).get i k =
        (s.columns.get (order k)).get i := by
    intro i k
    rw [Grid.get_ofFn, horder]
  refine ⟨s, order, _, hs, ?_, rfl, hvectors,
    Eigen.transpose_mul_self_of_permuted hcarries.orthonormal hvectors, ?_,
    Eigen.pairwise_values_sorted s⟩
  · simp only [Eigen.values_sorted, horder]
  · rw [Equiv.sum_comp order s.diagonal.get, hcarries.sum_diagonal]

end DenseMatrix

/-! ## A coupling that is discarded -/

namespace Iteration

variable {relative : ℝ} {s : Iteration ℝ n}

theorem converge_of_blockEnd {l : Fin n} (h : s.blockEnd relative l = l) (budget used : Nat) :
    converge relative l budget used s = some (used, s) := by
  have hnot : ¬l < s.blockEnd relative l := by rw [h]; exact lt_irrefl l
  cases budget with
  | zero => exact if_neg hnot
  | succ budget => exact dif_neg hnot

/-- A state without a block that goes on past its start is diagonal already. -/
theorem diagonalize_of_blockEnd (h : ∀ l, s.blockEnd relative l = l) (limit : Nat)
    (indices : List (Fin n)) : (diagonalize relative limit indices s).2 = .ok s := by
  induction indices with
  | nil => rfl
  | cons l rest ih =>
      rw [diagonalize, converge_of_blockEnd (h l)]
      exact ih

end Iteration

/-- The tridiagonal form of a matrix with two rows has its elements, up to the sign of one. -/
theorem Tridiagonal.ofSymmetric_two (a : Grid ℝ 2 2) :
    (ofSymmetric a).diagonal.get 1 = a.get 1 1 ∧
      |(ofSymmetric a).subdiagonal.get 1| = |a.get 1 0| := by
  have hzero : (ofSymmetric a).basis.get 1 0 = 0 := Grid.get_ofFn _ 1 0
  have hone : (ofSymmetric a).basis.get 1 1 = 1 := Grid.get_ofFn _ 1 1
  have hlast : (ofSymmetric a).toMatrix 1 1 = (ofSymmetric a).diagonal.get 1 :=
    tridiagonal_self _ _ 1
  have hbelow : (ofSymmetric a).toMatrix 1 0 = (ofSymmetric a).subdiagonal.get 1 :=
    tridiagonal_of_succ _ _ rfl
  have hsquare := congrFun (congrFun (transpose_basis_mul_self a) 0) 0
  have hproduct := congrFun (congrFun (transpose_basis_mul_self a) 0) 1
  have hdiagonal := congrFun (congrFun (symmetrized_eq_conjugate a) 1) 1
  have hcoupling := congrFun (congrFun (symmetrized_eq_conjugate a) 1) 0
  have hne : (0 : Fin 2) ≠ 1 := by decide
  simp only [Matrix.mul_apply, Fin.sum_univ_two, transpose_apply, Grid.toMatrix_apply, hzero, hone,
    hlast, hbelow, one_apply_eq, one_apply_ne hne, zero_mul, one_mul, mul_zero, mul_one, zero_add,
    add_zero] at hsquare hproduct hdiagonal hcoupling
  have hcorner : (ofSymmetric a).basis.get 0 1 = 0 :=
    (mul_eq_zero.mp hproduct).resolve_left (left_ne_zero_of_mul_eq_one hsquare)
  have habs : |(ofSymmetric a).basis.get 0 0| = 1 := by
    rw [← abs_one, abs_eq_abs, ← mul_self_eq_mul_self_iff, hsquare, mul_one]
  constructor
  · rw [← hdiagonal, a.symmetrized_of_le le_rfl]
  · rw [← a.symmetrized_of_le (Fin.zero_le 1), hcoupling, hcorner, mul_zero, add_zero, abs_mul,
      habs, mul_one]

namespace DenseMatrix

/-- A matrix whose eigenvalues are found in ascending order, with a coupling between them. -/
noncomputable def ascending : Grid ℝ 2 2 :=
  Grid.ofFn ![![1, 1], ![1, 1 + 1]]

/-- Its coupling is small beside its diagonal at this tolerance, and is left out. -/
theorem negligible_ascending :
    (Iteration.start (Tridiagonal.ofSymmetric ascending)).negligible
      (Scalar.max 1 Scalar.epsilon) 0 := by
  obtain ⟨hdiagonal, hcoupling⟩ := Tridiagonal.ofSymmetric_two ascending
  have hone : ascending.get 1 0 = 1 := Grid.get_ofFn _ 1 0
  have htwo : ascending.get 1 1 = 1 + 1 := Grid.get_ofFn _ 1 1
  have hstart : (Iteration.start (Tridiagonal.ofSymmetric ascending)).coupling.get
      (Index.here 0) = (Tridiagonal.ofSymmetric ascending).subdiagonal.get 1 :=
    Indexed.get_coupling_start _ (by decide)
  have hsum : 2 ≤ |(Tridiagonal.ofSymmetric ascending).diagonal.get 0| +
      |(Tridiagonal.ofSymmetric ascending).diagonal.get 1| := by
    rw [hdiagonal, htwo, one_add_one_eq_two, abs_two]
    exact le_add_of_nonneg_left (abs_nonneg _)
  have hrelative : (1 : ℝ) ≤ Scalar.max 1 Scalar.epsilon := le_max_left _ _
  rw [Iteration.negligible_iff, hstart, hcoupling, hone, abs_one]
  calc (1 : ℝ)
    _ ≤ 1 * 2 := by norm_num
    _ ≤ Scalar.max 1 Scalar.epsilon * (|(Tridiagonal.ofSymmetric ascending).diagonal.get 0| +
        |(Tridiagonal.ofSymmetric ascending).diagonal.get 1|) :=
      mul_le_mul hrelative hsum zero_le_two (zero_le_one.trans hrelative)

theorem exists_eigen_ascending : ∃ result, eigen 1 0 ⟨2, 2, ascending⟩ = .ok result := by
  have hblock : ∀ l, (Iteration.start (Tridiagonal.ofSymmetric ascending)).blockEnd
      (Scalar.max 1 Scalar.epsilon) l = l := by
    intro l
    rcases Fin.exists_fin_two.mp ⟨l, rfl⟩ with rfl | rfl
    · exact Iteration.blockEnd_of_negligible (m := 0) le_rfl negligible_ascending
        fun k _ hk => by omega
    · exact Iteration.blockEnd_of_none fun k hk => by omega
  exact ⟨_, eigen_eq_ok_iff.mpr ⟨_, Iteration.diagonalize_of_blockEnd hblock 0 _, rfl⟩⟩

theorem eigen_orthonormal_ascending :
    ∃ result vectors, eigen 1 0 ⟨2, 2, ascending⟩ = .ok result ∧
      result.vectors = ⟨2, 2, vectors⟩ ∧ vectors.toMatrixᵀ * vectors.toMatrix = 1 := by
  obtain ⟨result, hok⟩ := exists_eigen_ascending
  obtain ⟨_, _, vectors, _, _, hvectors, _, horthonormal, _⟩ := eigen_orthonormal hok
  exact ⟨result, vectors, hok, hvectors, horthonormal⟩

end DenseMatrix

end MatrixScript
