import Mathlib.Analysis.InnerProductSpace.GramMatrix
import MatrixScript.Proofs.Profile.Scores

/-!
# Double centring

Double centring takes the means of the rows and of the columns out of a table, so that nothing
is left of terms that depend on the row only or on the column only.  The squared distance of
two points is the sum of their squared distances to the mean of all points, less twice an
inner product: what double centring leaves of it is the inner product.
-/

namespace MatrixScript

open BigOperators

/-! ## Centred tables -/

namespace Table

open Sample

variable {r c : Nat} {x h : Fin r → Fin c → ℝ}

/-- A table less the means of its rows and of its columns.  The mean of the whole table, which has
then been taken off twice, is added back. -/
noncomputable def centred (x : Fin r → Fin c → ℝ) (i : Fin r) (j : Fin c) : ℝ :=
  x i j - (mean (x i) + mean fun k => x k j) + mean fun k => mean (x k)

theorem centred_transpose (x : Fin r → Fin c → ℝ) (i : Fin r) (j : Fin c) :
    centred (fun l k => x k l) j i = centred x i j := by
  simp only [centred, mean]
  rw [Finset.expect_comm, add_comm (𝔼 k, x k j)]

theorem sum_centred_row (x : Fin r → Fin c → ℝ) (i : Fin r) : ∑ j, centred x i j = 0 := by
  rcases isEmpty_or_nonempty (Fin c) with hempty | hcolumns
  · exact Finset.sum_of_isEmpty _
  have hmean : 𝔼 j, centred x i j = 0 := by
    -- the means of the columns have the same mean as the means of the rows
    simp only [centred, mean]
    rw [Finset.expect_add_distrib, Finset.expect_sub_distrib, Finset.expect_add_distrib,
      Fintype.expect_const, Fintype.expect_const,
      Finset.expect_comm Finset.univ Finset.univ fun l k => x k l]
    ring
  rw [← Fintype.card_smul_expect, hmean, smul_zero]

theorem sum_centred_column (x : Fin r → Fin c → ℝ) (j : Fin c) : ∑ i, centred x i j = 0 := by
  simp only [← centred_transpose x]
  exact sum_centred_row _ j

theorem mean_of_margin {n : Nat} [Nonempty (Fin n)] {e : Fin n → ℝ} (he : ∑ l, e l = 0)
    (y : Fin n → ℝ) (b : ℝ) : mean (fun l => y l + b + e l) = mean y + b := by
  have hnone : 𝔼 l, e l = 0 := by
    rw [Fintype.expect_eq_sum_div_card, he, zero_div]
  simp only [mean]
  rw [Finset.expect_add_distrib, Finset.expect_add_distrib, Fintype.expect_const, hnone, add_zero]

/-- What is left of a table are the terms that sum to zero in every row and in every column. -/
theorem centred_of_margins (a : Fin r → ℝ) (b : Fin c → ℝ)
    (hx : ∀ i j, x i j = a i + b j + h i j) (hrow : ∀ i, ∑ j, h i j = 0)
    (hcolumn : ∀ j, ∑ i, h i j = 0) (i : Fin r) (j : Fin c) : centred x i j = h i j := by
  have : Nonempty (Fin r) := ⟨i⟩
  have : Nonempty (Fin c) := ⟨j⟩
  have hcolumnMean : mean (fun k => x k j) = mean a + b j := by
    simp only [hx]
    exact mean_of_margin (hcolumn j) a (b j)
  have hrowMean : ∀ k, mean (x k) = a k + mean b := by
    intro k
    have hterm : x k = fun l => b l + a k + h k l :=
      funext fun l => (hx k l).trans (by rw [add_comm (a k)])
    rw [hterm, mean_of_margin (hrow k), add_comm]
  have hwhole : mean (fun k => a k + mean b) = mean a + mean b :=
    (Finset.expect_add_distrib _ _ _).trans (congrArg _ (Fintype.expect_const _))
  simp only [centred, hrowMean]
  rw [hcolumnMean, hwhole, hx]
  ring

end Table

/-! ## Points around their mean -/

section Points

variable {E : Type*} [SeminormedAddCommGroup E] [InnerProductSpace ℝ E] {n : Nat}

/-- The points as seen from their mean. -/
noncomputable def fromMean (p : Fin n → E) (i : Fin n) : E :=
  p i - (n : ℝ)⁻¹ • ∑ k, p k

theorem sum_fromMean (p : Fin n → E) : ∑ i, fromMean p i = 0 := by
  rcases Nat.eq_zero_or_pos n with rfl | hn
  · exact Finset.sum_of_isEmpty _
  have hne : (n : ℝ) ≠ 0 := Nat.cast_ne_zero.mpr hn.ne'
  simp only [fromMean]
  rw [Finset.sum_sub_distrib, Finset.sum_const, Finset.card_univ, Fintype.card_fin,
    ← Nat.cast_smul_eq_nsmul ℝ, smul_inv_smul₀ hne, sub_self]

theorem dist_sq_eq (p : Fin n → E) (i j : Fin n) :
    dist (p i) (p j) ^ 2 = ‖fromMean p i‖ ^ 2 + ‖fromMean p j‖ ^ 2 +
      -2 * inner ℝ (fromMean p i) (fromMean p j) := by
  have hdifference : p i - p j = fromMean p i - fromMean p j := by
    rw [fromMean, fromMean, sub_sub_sub_cancel_right]
  rw [dist_eq_norm, hdifference, norm_sub_sq_real]
  ring

/-- The inner products of the points as seen from their mean are what is left of the squared
distances. -/
theorem centred_dist_sq (p : Fin n → E) (i j : Fin n) :
    Table.centred (fun i j => dist (p i) (p j) ^ 2) i j =
      -2 * inner ℝ (fromMean p i) (fromMean p j) := by
  refine Table.centred_of_margins (fun i => ‖fromMean p i‖ ^ 2) (fun j => ‖fromMean p j‖ ^ 2)
    (dist_sq_eq p) (fun i => ?_) (fun j => ?_) i j
  · rw [← Finset.mul_sum, ← inner_sum, sum_fromMean, inner_zero_right, mul_zero]
  · rw [← Finset.mul_sum, ← sum_inner, sum_fromMean, inner_zero_left, mul_zero]

end Points

/-! ## Double centring of a matrix -/

namespace DenseMatrix

theorem get_rowMeans (m : DenseMatrix ℝ) (i : Fin m.rows) :
    m.rowMeans.get i = Sample.mean (m.get i) := by
  rw [rowMeans, get_map, rowSums, MatrixScript.get_ofFn, rowSum_real, Sample.mean,
    Fintype.expect_eq_sum_div_card, Fintype.card_fin]
  rfl

theorem get_doubleCenter (m : DenseMatrix ℝ) (i : Fin m.rows) (j : Fin m.cols) :
    m.doubleCenter.get i j = -(1 / 2) * Table.centred m.get i j := by
  have hmean : Scalar.sum m.rowMeans.get / Scalar.ofCount m.rows =
      Sample.mean fun k => Sample.mean (m.get k) := by
    rw [Sample.mean, Scalar.sum_real, Fintype.expect_eq_sum_div_card, Fintype.card_fin]
    simp only [get_rowMeans]
    rfl
  refine (get_ofFn _ _ _ i j).trans ?_
  rw [hmean, get_rowMeans, get_columnMeans]
  rfl

theorem sum_row_doubleCenter (m : DenseMatrix ℝ) (i : Fin m.rows) :
    ∑ j : Fin m.cols, m.doubleCenter.get i j = 0 := by
  calc ∑ j : Fin m.cols, m.doubleCenter.get i j
      = ∑ j, -(1 / 2) * Table.centred m.get i j :=
        Finset.sum_congr rfl fun j _ => get_doubleCenter m i j
    _ = 0 := by rw [← Finset.mul_sum, Table.sum_centred_row, mul_zero]

theorem sum_column_doubleCenter (m : DenseMatrix ℝ) (j : Fin m.cols) :
    ∑ i : Fin m.rows, m.doubleCenter.get i j = 0 := by
  calc ∑ i : Fin m.rows, m.doubleCenter.get i j
      = ∑ i, -(1 / 2) * Table.centred m.get i j :=
        Finset.sum_congr rfl fun i _ => get_doubleCenter m i j
    _ = 0 := by rw [← Finset.mul_sum, Table.sum_centred_column, mul_zero]

section Distances

variable {E : Type*} [SeminormedAddCommGroup E] [InnerProductSpace ℝ E] {n : Nat}

/-- The squared distances between points. -/
noncomputable def squaredDistances (p : Fin n → E) : DenseMatrix ℝ :=
  ofFn n n fun i j => dist (p i) (p j) ^ 2

theorem get_doubleCenter_squaredDistances (p : Fin n → E) (i j : Fin n) :
    (squaredDistances p).doubleCenter.get i j = inner ℝ (fromMean p i) (fromMean p j) := by
  have hget : (squaredDistances p).get = fun i j => dist (p i) (p j) ^ 2 :=
    funext fun i => funext fun j => get_ofFn n n _ i j
  have hcentred : Table.centred (squaredDistances p).get i j =
      -2 * inner ℝ (fromMean p i) (fromMean p j) :=
    (congrArg (fun x : Fin n → Fin n → ℝ => Table.centred x i j) hget).trans
      (centred_dist_sq p i j)
  calc (squaredDistances p).doubleCenter.get i j
      = -(1 / 2) * Table.centred (squaredDistances p).get i j :=
        get_doubleCenter (squaredDistances p) i j
    _ = -(1 / 2) * (-2 * inner ℝ (fromMean p i) (fromMean p j)) := congrArg _ hcentred
    _ = inner ℝ (fromMean p i) (fromMean p j) := by ring

/-- Double centring leaves nothing in the margins of any matrix, and it recovers inner products: of
the squared distances between points of an inner product space it makes the products of the points
as seen from their mean, which form a symmetric and positive semidefinite matrix. -/
theorem doubleCenter_recovers_inner :
    (∀ m : DenseMatrix ℝ,
      (∀ i : Fin m.rows, ∑ j : Fin m.cols, m.doubleCenter.get i j = 0) ∧
      ∀ j : Fin m.cols, ∑ i : Fin m.rows, m.doubleCenter.get i j = 0) ∧
    ∀ (n : Nat) (p : Fin n → E),
      (∀ i j : Fin n, (squaredDistances p).doubleCenter.get i j =
        inner ℝ (p i - (n : ℝ)⁻¹ • ∑ k, p k) (p j - (n : ℝ)⁻¹ • ∑ k, p k)) ∧
      (Matrix.of fun i j : Fin n => (squaredDistances p).doubleCenter.get i j).PosSemidef := by
  refine ⟨fun m => ⟨m.sum_row_doubleCenter, m.sum_column_doubleCenter⟩,
    fun n p => ⟨get_doubleCenter_squaredDistances p, ?_⟩⟩
  have hgram : (Matrix.of fun i j : Fin n => (squaredDistances p).doubleCenter.get i j) =
      Matrix.gram ℝ (fromMean p) := by
    ext i j
    exact get_doubleCenter_squaredDistances p i j
  rw [hgram]
  exact Matrix.posSemidef_gram ℝ (fromMean p)

end Distances

end DenseMatrix

end MatrixScript
