import MatrixScript.Proofs.Bounds.Iteration
import MatrixScript.Proofs.Cholesky.Inverse
import MatrixScript.Proofs.Tridiagonal.Similarity
import MatrixScript.Scalar.Float

/-!
# The lower triangle of a symmetric matrix

The inverse and the eigendecomposition of a symmetric matrix take its lower triangle for the
whole of it.  Both work in a copy of the matrix, in which what lies above the diagonal is
input that nothing may read, or a place where something has been put meanwhile.  So two matrices
that agree on and below the diagonal are told apart nowhere, in any arithmetic: by the routines
and by the programs in place that come to the same.
-/

namespace MatrixScript

variable {α : Type} {n : Nat}

/-- The grids agree on and below the diagonal. -/
def Grid.SameLower (a b : Grid α n n) : Prop :=
  ∀ i j, j ≤ i → a.get i j = b.get i j

/-- Outcomes with the same cause of failure, or with grids that agree on and below the
diagonal. -/
inductive SameOutcome {ε : Type} : Except ε (Grid α n n) → Except ε (Grid α n n) → Prop
  | ok {a b : Grid α n n} (h : a.SameLower b) : SameOutcome (.ok a) (.ok b)
  | error (cause : ε) : SameOutcome (.error cause) (.error cause)

/-- The lower triangle with the rows `2` and `1, 2`, and an element above its diagonal. -/
def cornered [Scalar α] (corner : α) : Grid α 2 2 :=
  .ofFn fun i j => if i < j then corner else if j < i then 1 else 1 + 1

theorem sameLower_cornered [Scalar α] (x y : α) : (cornered x).SameLower (cornered y) := by
  intro i j hji
  have hbelow : ¬ i < j := Nat.not_lt_of_le hji
  rw [cornered, cornered, Grid.get_ofFn, Grid.get_ofFn, if_neg hbelow, if_neg hbelow]

namespace SameOutcome

variable {ε β : Type} {x y : Except ε (Grid α n n)}

theorem bind (h : SameOutcome x y) {f : Grid α n n → Except ε (Grid α n n)}
    (hf : ∀ a b, a.SameLower b → SameOutcome (f a) (f b)) : SameOutcome (x >>= f) (y >>= f) := by
  cases h with
  | ok h => exact hf _ _ h
  | error cause => exact .error cause

theorem map_eq (h : SameOutcome x y) {f : Grid α n n → β}
    (hf : ∀ a b, a.SameLower b → f a = f b) : x.map f = y.map f := by
  cases h with
  | ok h => exact congrArg Except.ok (hf _ _ h)
  | error cause => rfl

end SameOutcome

/-! ## The inverse -/

namespace Cholesky

variable [Scalar α] {a b : Grid α n n}

theorem pivot_of_sameLower (h : a.SameLower b) (j : Fin n) : pivot a j = pivot b j := by
  have hbefore : ∀ k, a.get j (Index.before j k) = b.get j (Index.before j k) := fun k =>
    h j _ (Nat.le_of_lt k.isLt)
  simp only [pivot, hbefore, h j j (Nat.le_refl _)]

theorem entry_of_sameLower (h : a.SameLower b) (diagonal : α) {i j : Fin n} (hij : j ≤ i) :
    entry a diagonal i j = entry b diagonal i j := by
  have hbefore : ∀ p, j ≤ p → ∀ k,
      a.get p (Index.before j k) = b.get p (Index.before j k) := fun p hp k =>
    h p _ (Nat.le_trans (Nat.le_of_lt k.isLt) hp)
  simp only [entry, h i j hij, hbefore i hij, hbefore j (Nat.le_refl _)]

theorem factorColumn_of_sameLower (h : a.SameLower b) (j : Fin n) :
    SameOutcome (factorColumn a j) (factorColumn b j) := by
  have hpivot := pivot_of_sameLower h j
  unfold factorColumn
  dsimp only
  rw [hpivot]
  by_cases hpos : 0 < pivot b j
  · rw [if_pos hpos, if_pos hpos]
    refine .ok fun i k hki => ?_
    rw [Grid.get_ofFn, Grid.get_ofFn]
    split
    · rfl
    · split
      · rename_i hbelow
        exact entry_of_sameLower h _ (Nat.le_of_lt hbelow.2)
      · exact h i k hki
  · rw [if_neg hpos, if_neg hpos]
    exact .error _

theorem foldlM_factorColumn_of_sameLower (h : a.SameLower b) (columns : List (Fin n)) :
    SameOutcome (columns.foldlM factorColumn a) (columns.foldlM factorColumn b) := by
  induction columns generalizing a b with
  | nil => exact .ok h
  | cons j columns ih =>
      rw [List.foldlM_cons, List.foldlM_cons]
      exact (factorColumn_of_sameLower h j).bind fun _ _ hcolumn => ih hcolumn

/-- Forward substitution takes a row of the triangle up to its diagonal. -/
theorem inverseEntry_of_sameLower (h : a.SameLower b) (x : Grid α n n) (i j : Fin n) :
    inverseEntry a x i j = inverseEntry b x i j := by
  have hrow : ∀ k, a.get i (Index.between j i k) = b.get i (Index.between j i k) := fun k =>
    h i _ (Nat.le_of_lt (Nat.add_lt_of_lt_sub' k.isLt))
  simp only [inverseEntry, hrow, h i i (Nat.le_refl _)]

theorem invertLower_of_sameLower (h : a.SameLower b) : invertLower a = invertLower b := by
  have hrow : invertRow a = invertRow b := by
    funext x i
    simp only [invertRow, inverseEntry_of_sameLower h]
  rw [invertLower_eq, invertLower_eq, hrow]

/-- The products are the same ones, each with its factors in the other order. -/
theorem gram_comm (hmul : ∀ x y : α, x * y = y * x) (x : Grid α n n) (i j : Fin n) :
    gram x i j = gram x j i := by
  have hfirst : (if i ≤ j then j else i) = if j ≤ i then i else j := by
    by_cases hij : i ≤ j <;> by_cases hji : j ≤ i <;> grind
  unfold gram
  dsimp only
  rw [hfirst]
  simp only [hmul (x.get _ i)]

end Cholesky

namespace DenseMatrix

open Cholesky

variable [Scalar α] {a b : Grid α n n}

/-- The inverse of a symmetric matrix, or the pivot for which there is none, depends on the
elements on and below the diagonal only.  Where multiplication is commutative, the inverse is
symmetric to the last element. -/
theorem symmetricInverse_of_sameLower (h : a.SameLower b) :
    symmetricInverse ⟨n, n, a⟩ = symmetricInverse ⟨n, n, b⟩ ∧
      Indexed.symmetricInverse ⟨n, n, a⟩ = Indexed.symmetricInverse ⟨n, n, b⟩ ∧
        ((∀ x y : α, x * y = y * x) → ∀ m, symmetricInverse ⟨n, n, a⟩ = .ok m →
          ∃ c : Grid α n n, m = ⟨n, n, c⟩ ∧ ∀ i j, c.get i j = c.get j i) := by
  have hinverse : symmetricInverse ⟨n, n, a⟩ = symmetricInverse ⟨n, n, b⟩ := by
    rw [symmetricInverse_mk, symmetricInverse_mk]
    apply (foldlM_factorColumn_of_sameLower h (List.finRange n)).map_eq
    intro l l' hl
    rw [invertLower_of_sameLower hl]
  refine ⟨hinverse, ?_, ?_⟩
  · rw [Indexed.symmetricInverse_eq, Indexed.symmetricInverse_eq, hinverse]
  · intro hmul m hm
    rw [symmetricInverse_mk] at hm
    cases hfactor : factor a with
    | error cause =>
        rw [hfactor] at hm
        cases hm
    | ok l =>
        rw [hfactor] at hm
        cases hm
        refine ⟨_, rfl, fun i j => ?_⟩
        rw [Grid.get_ofFn, Grid.get_ofFn, gram_comm hmul]

theorem exists_factor_cornered (x : ℝ) : ∃ l, factor (cornered x) = .ok l := by
  have hcolumns : List.finRange 2 = [0, 1] := rfl
  have hget : ∀ i j, (cornered x).get i j = if i < j then x else if j < i then 1 else 1 + 1 :=
    Grid.get_ofFn _
  have hnone : Finset.Iio (0 : Fin 2) = ∅ := rfl
  have hbefore : Finset.Iio (1 : Fin 2) = {0} := rfl
  have hfirst : pivot (cornered x) 0 = 2 := by
    rw [pivot_real, hget, hnone, Finset.sum_empty]
    norm_num
  obtain ⟨a', ha', -, hbelow, hother⟩ :=
    exists_factorColumn (a := cornered x) (j := 0) (by rw [hfirst]; norm_num)
  have hentry : a'.get 1 0 * a'.get 1 0 = 1 / 2 := by
    rw [hbelow 1 (by decide), entry_real, hfirst, hget, hnone, Finset.sum_empty,
      div_mul_div_comm, Real.mul_self_sqrt (by norm_num)]
    norm_num
  have hsecond : 0 < pivot a' 1 := by
    rw [pivot_real, hbefore, Finset.sum_singleton, hentry, hother 1 1 (by decide), hget]
    norm_num
  obtain ⟨a'', ha'', -⟩ := exists_factorColumn hsecond
  refine ⟨a'', ?_⟩
  rw [factor, hcolumns, List.foldlM_cons, ha']
  change (factorColumn a' 1 >>= pure) = _
  rw [ha'']
  rfl

theorem symmetricInverse_of_sameLower_cornered : ∃ c : Grid ℝ 2 2,
    symmetricInverse ⟨2, 2, cornered 1⟩ = .ok ⟨2, 2, c⟩ ∧
      symmetricInverse ⟨2, 2, cornered 5⟩ = .ok ⟨2, 2, c⟩ ∧ c.get 0 1 = c.get 1 0 := by
  obtain ⟨l, hl⟩ := exists_factor_cornered 1
  have hok : symmetricInverse ⟨2, 2, cornered (1 : ℝ)⟩ =
      .ok (ofFn 2 2 (gram (invertLower l))) := by
    rw [symmetricInverse_mk, hl]
    rfl
  obtain ⟨hsame, -, hsymmetric⟩ := symmetricInverse_of_sameLower (sameLower_cornered (1 : ℝ) 5)
  obtain ⟨c, hc, hentries⟩ := hsymmetric mul_comm _ hok
  rw [hc] at hok
  exact ⟨c, hok, hsame ▸ hok, hentries 0 1⟩

end DenseMatrix

/-! ## The eigendecomposition -/

namespace Tridiagonal

/-- States of the reduction that agree, but for what lies above the diagonal of the rows up to
`r`, which are still to be reduced. -/
structure SameBelow (r : Nat) (s t : Tridiagonal α n) : Prop where
  basis : ∀ k j : Fin n, j ≤ k ∨ r < j.val → s.basis.get k j = t.basis.get k j
  diagonal : s.diagonal = t.diagonal
  subdiagonal : s.subdiagonal = t.subdiagonal

section Below

variable {s t : Tridiagonal α n} {r : Nat}

/-- Where no row is left, nothing is left out. -/
theorem SameBelow.eq (h : SameBelow 0 s t) : s = t := by
  have hbasis : s.basis = t.basis := Grid.ext_get fun k j => h.basis k j (by omega)
  cases s
  cases t
  simp only [mk.injEq]
  exact ⟨hbasis, h.diagonal, h.subdiagonal⟩

theorem SameBelow.symmetric_eq (h : SameBelow r s t) (j k : Fin n) :
    symmetric s.basis j k = symmetric t.basis j k := by
  unfold symmetric
  split
  · exact h.basis j k (.inl (by assumption))
  · exact h.basis k j (.inl (by omega))

end Below

variable [Scalar α]

section Step

variable {s t : Tridiagonal α n} {i : Fin (n - 1)}

theorem SameBelow.passRow (h : SameBelow (i.val + 1) s t) :
    SameBelow i.val (s.passRow i) (t.passRow i) where
  basis k j hkj := by
    have hnext := Index.val_next i
    simp only [Tridiagonal.passRow, Grid.get_ofFn]
    split
    · rfl
    · exact h.basis k j (by omega)
  diagonal := by
    have hnext := Index.val_next i
    have hhere := Index.val_here i
    apply ext_get
    intro j
    simp only [Tridiagonal.passRow, get_ofFn, h.diagonal]
    split
    · exact h.basis _ j (.inl (by omega))
    · rfl
  subdiagonal := by
    simp only [Tridiagonal.passRow, h.diagonal, h.subdiagonal]

theorem SameBelow.correction_eq {r : Nat} (h : SameBelow r s t) (u : Reflection α n) :
    correction s.basis i u = correction t.basis i u := by
  simp only [correction, h.symmetric_eq]

theorem SameBelow.reflectRow (h : SameBelow (i.val + 1) s t) (scale : α) :
    SameBelow i.val (s.reflectRow i scale) (t.reflectRow i scale) := by
  have hnext := Index.val_next i
  have hhere := Index.val_here i
  have hbasis : ∀ k j : Fin n, j ≤ k ∨ i.val < j.val →
      (s.reflectRow i scale).basis.get k j = (t.reflectRow i scale).basis.get k j := by
    intro k j hkj
    simp only [Tridiagonal.reflectRow, Grid.get_ofFn, h.diagonal, h.correction_eq]
    -- Column `i + 1` above the diagonal is written here for the first time, on both sides alike.
    split
    · rw [h.basis k j (by omega)]
    · split
      · rfl
      · split
        · rfl
        · exact h.basis k j (by omega)
  refine ⟨hbasis, ?_, ?_⟩
  · apply ext_get
    intro j
    rw [get_diagonal_reflectRow, get_diagonal_reflectRow, h.diagonal]
    split
    · exact hbasis _ j (.inl (by omega))
    · rfl
  · simp only [Tridiagonal.reflectRow, h.diagonal, h.subdiagonal]

theorem SameBelow.reduceRow (h : SameBelow (i.val + 1) s t) :
    SameBelow i.val (s.reduceRow i) (t.reduceRow i) := by
  unfold Tridiagonal.reduceRow
  dsimp only
  rw [h.diagonal]
  split
  · exact h.passRow
  · exact h.reflectRow _

end Step

variable {a b : Grid α n n}

theorem sameBelow_start (h : a.SameLower b) : SameBelow (n - 1) (start a) (start b) where
  basis k j hkj := h k j (by omega)
  diagonal := ext_get fun j => by
    rw [start, start, get_ofFn, get_ofFn]
    exact h _ j (Nat.le_sub_one_of_lt j.isLt)
  subdiagonal := rfl

theorem sameBelow_reducedRows (h : a.SameLower b) {m : Nat} (hm : m ≤ n - 1) :
    SameBelow (n - 1 - m) (Indexed.reducedRows (start a) m) (Indexed.reducedRows (start b) m) := by
  induction m with
  | zero =>
      rw [Indexed.reducedRows_zero, Indexed.reducedRows_zero]
      exact sameBelow_start h
  | succ m ih =>
      have hrow : n - 1 - m = n - 1 - (m + 1) + 1 := by omega
      have hbefore := ih (by omega)
      rw [hrow] at hbefore
      rw [Indexed.reducedRows_succ _ hm, Indexed.reducedRows_succ _ hm]
      exact hbefore.reduceRow (i := ⟨n - 1 - (m + 1), by omega⟩)

/-- The reduction has overwritten what lies above the diagonal before anything reads it. -/
theorem ofSymmetric_of_sameLower (h : a.SameLower b) : ofSymmetric a = ofSymmetric b := by
  have hreduced : SameBelow 0 (start a).reduceRows (start b).reduceRows := by
    rw [← Indexed.reducedRows_all, ← Indexed.reducedRows_all, ← Nat.sub_self (n - 1)]
    exact sameBelow_reducedRows h (Nat.le_refl _)
  rw [ofSymmetric, ofSymmetric, hreduced.eq]

end Tridiagonal

namespace DenseMatrix

variable [Scalar α] {a b : Grid α n n}

/-- The eigendecomposition of a symmetric matrix, or the eigenvalue that has not converged,
depends on the elements on and below the diagonal only, and so do the numbers of sweeps. -/
theorem eigen_of_sameLower (h : a.SameLower b) (tolerance : α) (limit : Nat) :
    eigen tolerance limit ⟨n, n, a⟩ = eigen tolerance limit ⟨n, n, b⟩ ∧
      eigenCounting tolerance limit ⟨n, n, a⟩ = eigenCounting tolerance limit ⟨n, n, b⟩ ∧
        Indexed.eigen tolerance limit ⟨n, n, a⟩ = Indexed.eigen tolerance limit ⟨n, n, b⟩ := by
  have hgrid : ∀ g : Grid α n n, grid? ⟨n, n, g⟩ n n = some g := fun g =>
    grid?_eq_some_iff.mpr rfl
  have hcounting : eigenCounting tolerance limit ⟨n, n, a⟩ =
      eigenCounting tolerance limit ⟨n, n, b⟩ := by
    simp only [eigenCounting, hgrid, Tridiagonal.ofSymmetric_of_sameLower h]
    cases (Iteration.diagonalize (Scalar.max tolerance Scalar.epsilon) limit (List.finRange n)
      (Iteration.start (Tridiagonal.ofSymmetric b))).2 with
    | ok s => rfl
    | error index => rfl
  have heigen : eigen tolerance limit ⟨n, n, a⟩ = eigen tolerance limit ⟨n, n, b⟩ :=
    congrArg Prod.snd hcounting
  refine ⟨heigen, hcounting, ?_⟩
  rcases Nat.eq_zero_or_pos n with rfl | hn
  · have hempty : a = b := Grid.ext_get fun i => i.elim0
    rw [hempty]
  · rw [Indexed.eigen_eq tolerance limit hn, Indexed.eigen_eq tolerance limit hn, heigen]

theorem eigen_of_sameLower_cornered :
    (cornered (0.5 : Float)).get 0 1 = 0.5 ∧ (cornered (1.5 : Float)).get 0 1 = 1.5 ∧
      eigen 1e-10 100 ⟨2, 2, cornered (0.5 : Float)⟩ =
        eigen 1e-10 100 ⟨2, 2, cornered (1.5 : Float)⟩ :=
  ⟨Grid.get_ofFn _ 0 1, Grid.get_ofFn _ 0 1,
    (eigen_of_sameLower (sameLower_cornered 0.5 1.5) 1e-10 100).1⟩

end DenseMatrix

end MatrixScript
