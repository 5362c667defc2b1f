import Mathlib.Algebra.BigOperators.Field
import Mathlib.Algebra.Order.BigOperators.Expect
import Mathlib.Analysis.Real.Sqrt
import MatrixScript.DenseMatrix.Profile
import MatrixScript.Proofs.Exact.Real

/-!
# Standard scores and profiles

Two normalisations of a matrix work column by column: the scores of a column have mean zero and
variance one, and its shares sum to one.  In exact arithmetic each is a normal form.  A column
that is in it already stays as it is, so nothing changes the second time, and columns that differ
by their origin and unit, or by their unit only, have the same one.
-/

namespace MatrixScript

open BigOperators

theorem get_map {α β : Type} {n : Nat} (f : α → β) (v : Vector α n) (k : Fin n) :
    (v.map f).get k = f (v.get k) :=
  Vector.getElem_map f k.isLt

/-! ## Samples -/

namespace Sample

variable {n : Nat} {x : Fin n → ℝ}

noncomputable def mean (x : Fin n → ℝ) : ℝ :=
  𝔼 i, x i

/-- The mean square of the distances to the mean. -/
noncomputable def variance (x : Fin n → ℝ) : ℝ :=
  mean fun i => (x i - mean x) ^ 2

/-- The distance to the mean, in units of the standard deviation. -/
noncomputable def score (x : Fin n → ℝ) (i : Fin n) : ℝ :=
  (x i - mean x) / √(variance x)

/-- The part of the sum that a value makes up. -/
noncomputable def share (x : Fin n → ℝ) (i : Fin n) : ℝ :=
  x i / ∑ k, x k

/-- Not all of the values are the same. -/
def Varies (x : Fin n → ℝ) : Prop := ∃ i k, x i ≠ x k

theorem Varies.nonempty (h : Varies x) : Nonempty (Fin n) :=
  Exists.nonempty h

/-- If the values vary, not all of them are at the mean. -/
theorem Varies.variance_pos (h : Varies x) : 0 < variance x := by
  apply Finset.expect_pos' fun i _ => sq_nonneg _
  by_contra hnone
  -- no distance to the mean is left, so any two values are the same
  have hmean : ∀ i, x i = mean x := by
    intro i
    by_contra hi
    exact hnone ⟨i, Finset.mem_univ i, sq_pos_of_ne_zero (sub_ne_zero.mpr hi)⟩
  obtain ⟨i, k, hik⟩ := h
  exact hik ((hmean i).trans (hmean k).symm)

theorem mean_score [Nonempty (Fin n)] (x : Fin n → ℝ) : mean (score x) = 0 := by
  calc mean (score x)
      = (𝔼 i, (x i - mean x)) / √(variance x) := (Finset.expect_div _ _ _).symm
    _ = 0 := by rw [Finset.expect_sub_distrib, Fintype.expect_const, mean, sub_self, zero_div]

theorem variance_score (h : Varies x) : variance (score x) = 1 := by
  have := h.nonempty
  have hterm : ∀ i, (score x i - mean (score x)) ^ 2 = (x i - mean x) ^ 2 / variance x := by
    intro i
    rw [mean_score, sub_zero, score, div_pow, Real.sq_sqrt h.variance_pos.le]
  calc variance (score x)
      = 𝔼 i, (x i - mean x) ^ 2 / variance x := Finset.expect_congr rfl fun i _ => hterm i
    _ = variance x / variance x := (Finset.expect_div _ _ _).symm
    _ = 1 := div_self h.variance_pos.ne'

/-- Values with mean zero and variance one are their own scores. -/
theorem score_eq_self (hmean : mean x = 0) (hvariance : variance x = 1) : score x = x := by
  funext i
  rw [score, hmean, hvariance, Real.sqrt_one, sub_zero, div_one]

/-- Scores depend neither on the origin nor on the unit: the unit is a factor of the distance to the
mean and of the standard deviation. -/
theorem score_affine [Nonempty (Fin n)] (x : Fin n → ℝ) {a : ℝ} (ha : 0 < a) (b : ℝ) :
    score (fun i => a * x i + b) = score x := by
  have hmean : mean (fun i => a * x i + b) = a * mean x + b := by
    simp only [mean]
    rw [Finset.expect_add_distrib, ← Finset.mul_expect, Fintype.expect_const]
  have hdistance : ∀ i, a * x i + b - mean (fun i => a * x i + b) = a * (x i - mean x) := by
    intro i
    rw [hmean]
    ring
  have hvariance : variance (fun i => a * x i + b) = a ^ 2 * variance x := by
    simp only [variance, hdistance, mul_pow]
    exact (Finset.mul_expect _ _ _).symm
  funext i
  rw [score, hdistance, hvariance, Real.sqrt_mul (sq_nonneg a), Real.sqrt_sq ha.le,
    mul_div_mul_left _ _ ha.ne']
  rfl

theorem sum_share (h : ∑ k, x k ≠ 0) : ∑ i, share x i = 1 := by
  simp only [share]
  rw [← Finset.sum_div, div_self h]

/-- Values that sum to one are their own shares. -/
theorem share_eq_self (h : ∑ k, x k = 1) : share x = x := by
  funext i
  rw [share, h, div_one]

/-- Shares do not depend on the unit. -/
theorem share_mul (x : Fin n → ℝ) {a : ℝ} (ha : a ≠ 0) : share (fun i => a * x i) = share x := by
  funext i
  rw [share, ← Finset.mul_sum, mul_div_mul_left _ _ ha]
  rfl

end Sample

/-! ## Columns of a matrix -/

namespace DenseMatrix

section Columns

variable {α : Type}

def column (m : DenseMatrix α) (j : Fin m.cols) (i : Fin m.rows) : α := m.get i j

/-- Every column replaced by what `f` makes of it. -/
def mapColumns (m : DenseMatrix α) (f : (Fin m.rows → α) → Fin m.rows → α) : DenseMatrix α :=
  ofFn m.rows m.cols fun i j => f (m.column j) i

/-- One column replaced by another. -/
def replaceColumn (m : DenseMatrix α) (j : Fin m.cols) (x : Fin m.rows → α) : DenseMatrix α :=
  ofFn m.rows m.cols fun i k => if k = j then x i else m.get i k

variable (m : DenseMatrix α) {f : (Fin m.rows → α) → Fin m.rows → α}

theorem eq_mapColumns {g : Grid α m.rows m.cols} (h : ∀ i j, g.get i j = f (m.column j) i) :
    ⟨m.rows, m.cols, g⟩ = m.mapColumns f := by
  have hgrid : g = Grid.ofFn fun i j => f (m.column j) i := by
    apply Grid.ext_get
    intro i j
    rw [h, Grid.get_ofFn]
  rw [hgrid]
  rfl

/-- If every column stays as it is, so does the matrix. -/
theorem mapColumns_eq_self (h : ∀ j, f (m.column j) = m.column j) : m.mapColumns f = m :=
  (m.eq_mapColumns fun i j => (congrFun (h j) i).symm).symm

theorem column_replaceColumn (j k : Fin m.cols) (x : Fin m.rows → α) :
    (m.replaceColumn j x).column k = if k = j then x else m.column k := by
  funext i
  refine (get_ofFn _ _ _ i k).trans ?_
  split <;> rfl

/-- A column may be replaced by one of which `f` makes the same. -/
theorem mapColumns_replaceColumn {j : Fin m.cols} {x : Fin m.rows → α}
    (h : f x = f (m.column j)) : (m.replaceColumn j x).mapColumns f = m.mapColumns f := by
  have hcolumn : ∀ k : Fin m.cols, f ((m.replaceColumn j x).column k) = f (m.column k) := by
    intro k
    rw [column_replaceColumn]
    split
    · next hk => rw [h, hk]
    · rfl
  exact congrArg (ofFn m.rows m.cols) (funext fun i => funext fun k => congrFun (hcolumn k) i)

end Columns

/-! ## Exact arithmetic -/

theorem get_columnMeans (m : DenseMatrix ℝ) (j : Fin m.cols) :
    m.columnMeans.get j = Sample.mean (m.column j) := by
  rw [columnMeans, get_map, columnSums, MatrixScript.get_ofFn, columnSum_real, Sample.mean,
    Fintype.expect_eq_sum_div_card, Fintype.card_fin]
  rfl

theorem columnVariance_real (m : DenseMatrix ℝ) (mean : ℝ) (j : Fin m.cols) :
    m.columnVariance mean j = Sample.mean fun i => (m.column j i - mean) ^ 2 := by
  rw [Sample.mean, Fintype.expect_eq_sum_div_card, Fintype.card_fin, Finset.sum_div, columnVariance,
    Scalar.accumulate_real, zero_add]
  simp only [sq]
  rfl

theorem get_standardize (m : DenseMatrix ℝ) (i : Fin m.rows) (j : Fin m.cols) :
    m.standardize.get i j = Sample.score (m.column j) i := by
  refine (get_ofFn _ _ _ i j).trans ?_
  rw [MatrixScript.get_ofFn, get_columnMeans, columnVariance_real]
  rfl

theorem get_columnProfiles (m : DenseMatrix ℝ) (i : Fin m.rows) (j : Fin m.cols) :
    m.columnProfiles.get i j = Sample.share (m.column j) i := by
  refine (get_ofFn _ _ _ i j).trans ?_
  rw [columnSums, MatrixScript.get_ofFn, columnSum_real]
  rfl

theorem standardize_eq (m : DenseMatrix ℝ) : m.standardize = m.mapColumns Sample.score :=
  m.eq_mapColumns (g := m.standardize.grid) m.get_standardize

theorem columnProfiles_eq (m : DenseMatrix ℝ) : m.columnProfiles = m.mapColumns Sample.share :=
  m.eq_mapColumns (g := m.columnProfiles.grid) m.get_columnProfiles

theorem column_standardize (m : DenseMatrix ℝ) (j : Fin m.cols) :
    m.standardize.column j = Sample.score (m.column j) :=
  funext fun i => m.get_standardize i j

theorem column_columnProfiles (m : DenseMatrix ℝ) (j : Fin m.cols) :
    m.columnProfiles.column j = Sample.share (m.column j) :=
  funext fun i => m.get_columnProfiles i j

section Normalized

variable {m : DenseMatrix ℝ}

theorem standardize_eq_self (hmean : ∀ j, Sample.mean (m.column j) = 0)
    (hvariance : ∀ j, Sample.variance (m.column j) = 1) : m.standardize = m := by
  rw [standardize_eq]
  exact m.mapColumns_eq_self fun j => Sample.score_eq_self (hmean j) (hvariance j)

theorem mean_standardize (h : ∀ j, Sample.Varies (m.column j)) (j : Fin m.cols) :
    Sample.mean (m.standardize.column j) = 0 := by
  have := (h j).nonempty
  rw [column_standardize]
  exact Sample.mean_score (m.column j)

theorem variance_standardize (h : ∀ j, Sample.Varies (m.column j)) (j : Fin m.cols) :
    Sample.variance (m.standardize.column j) = 1 := by
  rw [column_standardize]
  exact Sample.variance_score (h j)

theorem standardize_replaceColumn {j : Fin m.cols} (h : Sample.Varies (m.column j)) {a : ℝ}
    (ha : 0 < a) (b : ℝ) :
    (m.replaceColumn j fun i => a * m.get i j + b).standardize = m.standardize := by
  have := h.nonempty
  rw [standardize_eq, standardize_eq]
  exact m.mapColumns_replaceColumn (Sample.score_affine (m.column j) ha b)

theorem columnProfiles_eq_self (h : ∀ j, ∑ i, m.column j i = 1) : m.columnProfiles = m := by
  rw [columnProfiles_eq]
  exact m.mapColumns_eq_self fun j => Sample.share_eq_self (h j)

theorem sum_columnProfiles (h : ∀ j, ∑ i, m.get i j ≠ 0) (j : Fin m.cols) :
    ∑ i, m.columnProfiles.column j i = 1 := by
  rw [column_columnProfiles]
  exact Sample.sum_share (h j)

theorem columnProfiles_replaceColumn (j : Fin m.cols) {a : ℝ} (ha : a ≠ 0) :
    (m.replaceColumn j fun i => a * m.get i j).columnProfiles = m.columnProfiles := by
  rw [columnProfiles_eq, columnProfiles_eq]
  exact m.mapColumns_replaceColumn (Sample.share_mul (m.column j) ha)

end Normalized

/-- Columns are normalised once and for all.  If no column is constant, the standardized columns
have mean zero and variance one, standardizing them again changes nothing, and neither does
another origin and unit for a column of the given matrix.  If no column sums to zero, the profiles
sum to one, are their own profiles, and do not depend on the units of the given columns. -/
theorem columns_normalized_once (m : DenseMatrix ℝ) :
    ((∀ j, Sample.Varies (m.column j)) →
      (∀ j : Fin m.cols, Sample.mean (m.standardize.column j) = 0 ∧
        Sample.variance (m.standardize.column j) = 1) ∧
      m.standardize.standardize = m.standardize ∧
      ∀ (j : Fin m.cols) (a b : ℝ), 0 < a →
        (m.replaceColumn j fun i => a * m.get i j + b).standardize = m.standardize) ∧
    ((∀ j, ∑ i, m.get i j ≠ 0) →
      (∀ j : Fin m.cols, ∑ i, m.columnProfiles.column j i = 1) ∧
      m.columnProfiles.columnProfiles = m.columnProfiles ∧
      ∀ (j : Fin m.cols) (a : ℝ), a ≠ 0 →
        (m.replaceColumn j fun i => a * m.get i j).columnProfiles = m.columnProfiles) := by
  constructor
  · intro h
    -- scores are in normal form already, so the second time there is nothing to do
    have hagain : m.standardize.standardize = m.standardize :=
      standardize_eq_self (mean_standardize h) (variance_standardize h)
    exact ⟨fun j => ⟨mean_standardize h j, variance_standardize h j⟩, hagain,
      fun j a b ha => standardize_replaceColumn (h j) ha b⟩
  · intro h
    have hagain : m.columnProfiles.columnProfiles = m.columnProfiles :=
      columnProfiles_eq_self (sum_columnProfiles h)
    exact ⟨sum_columnProfiles h, hagain, fun j a ha => columnProfiles_replaceColumn j ha⟩

/-- Three rows and two columns, none of them constant or balanced: the second column may be counted
in halves and from another origin, and the first one with the opposite sign. -/
theorem columns_normalized_once_staircase :
    let m : DenseMatrix ℝ := ofFn 3 2 fun i j => i.val + j.val
    (∀ j, Sample.Varies (m.column j)) ∧ (∀ j, ∑ i, m.get i j ≠ 0) ∧
      (∀ j : Fin m.cols, Sample.variance (m.standardize.column j) = 1) ∧
      m.standardize.standardize = m.standardize ∧
      (m.replaceColumn (1 : Fin 2) fun i => 2 * m.get i (1 : Fin 2) + 5).standardize =
        m.standardize ∧
      (∀ j : Fin m.cols, ∑ i, m.columnProfiles.column j i = 1) ∧
      m.columnProfiles.columnProfiles = m.columnProfiles ∧
      (m.replaceColumn (0 : Fin 2) fun i => -1 * m.get i (0 : Fin 2)).columnProfiles =
        m.columnProfiles := by
  intro m
  have hcolumn : ∀ j : Fin 2, m.column j = fun i : Fin 3 => (i.val + j.val : ℝ) :=
    fun j => funext fun i => get_ofFn _ _ _ i j
  have hvaries : ∀ j, Sample.Varies (m.column j) := by
    intro j
    have hsteps : Sample.Varies fun i : Fin 3 => (i.val + j.val : ℝ) := ⟨0, 1, by norm_num⟩
    exact (hcolumn j).symm ▸ hsteps
  have hsum : ∀ j, ∑ i, m.get i j ≠ 0 := by
    intro j
    have hthree : ∑ i : Fin 3, (i.val + j.val : ℝ) = 3 + 3 * j.val := by
      rw [Fin.sum_univ_three, Fin.val_zero, Fin.val_one, Fin.val_two]
      push_cast
      ring
    have hcolumnSum : ∑ i, m.get i j = 3 + 3 * j.val :=
      (congrArg (fun x : Fin 3 → ℝ => ∑ i, x i) (hcolumn j)).trans hthree
    rw [hcolumnSum]
    positivity
  obtain ⟨hscores, hprofiles⟩ := columns_normalized_once m
  obtain ⟨hstandard, hagain, haffine⟩ := hscores hvaries
  obtain ⟨hone, hagain', hunit⟩ := hprofiles hsum
  exact ⟨hvaries, hsum, fun j => (hstandard j).2, hagain, haffine _ 2 5 (by norm_num), hone,
    hagain', hunit _ (-1) (by norm_num)⟩

end DenseMatrix

end MatrixScript
