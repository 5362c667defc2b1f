import MatrixScript.Eigen.Tridiagonal
import MatrixScript.Proofs.Bounds.Checked

/-!
# The reflections of the reduction on plain indices

The reduction works in place on the matrix and on two vectors, and the loops here are
written out as they run.  In the vectors there is room that is not needed yet, or no
longer, and the loops keep intermediate results there, so what they leave is that of the
reduction only from some entry on: `AgreesFrom` says from which.
-/

namespace MatrixScript

namespace Tridiagonal

variable {α : Type} {n : Nat}

theorem symmetric_of_le (a : Grid α n n) {j k : Fin n} (h : k ≤ j) :
    symmetric a j k = a.get j k := if_pos h

theorem symmetric_of_lt (a : Grid α n n) {j k : Fin n} (h : j < k) :
    symmetric a j k = a.get k j := if_neg (Nat.not_le_of_lt h)

/-- Two forms that agree on the basis, and on the vectors from two entries on. -/
structure AgreesFrom (first second : Nat) (s t : Tridiagonal α n) : Prop where
  basis : s.basis = t.basis
  diagonal : ∀ k : Fin n, first ≤ k.val → s.diagonal.get k = t.diagonal.get k
  subdiagonal : ∀ k : Fin n, second ≤ k.val → s.subdiagonal.get k = t.subdiagonal.get k

end Tridiagonal

variable {α : Type} [Scalar α] {n : Nat}

namespace Scalar

/-- Adds the first `m` values of `f` to `init`. -/
def accumulateFirst (init : α) (f : Fin n → α) (m : Nat) : α :=
  accumulate init fun k : Fin m => if h : k.val < n then f ⟨k, h⟩ else 0

theorem accumulateFirst_succ (init : α) (f : Fin n → α) {m : Nat} (hm : m < n) :
    accumulateFirst init f (m + 1) = accumulateFirst init f m + f ⟨m, hm⟩ := by
  simp only [accumulateFirst, accumulate, Fin.foldl_succ_last, Fin.val_castSucc, Fin.val_last,
    hm, dif_pos]

theorem accumulateFirst_eq (init : α) (f : Fin n → α) {m : Nat} (hm : m ≤ n) :
    accumulateFirst init f m = accumulate init fun k : Fin m => f (k.castLE hm) := by
  unfold accumulateFirst
  congr 1
  funext k
  rw [dif_pos (Nat.lt_of_lt_of_le k.isLt hm)]
  rfl

end Scalar

namespace Indexed

open Scalar (accumulateFirst accumulateFirst_succ accumulateFirst_eq)

/-- Divides the first entries of a vector by `x` and adds up their products with the
weights, which may be the quotients themselves. -/
def divideFirst (v : Vector α n) (count : Nat) (x : α) (weight : Nat → α → Checked α α) :
    Checked α (Vector α n × α) :=
  loop (fun k s => do
    let y ← readAt s.1 k
    let w ← weight k (y / x)
    return (← writeAt s.1 k (y / x), s.2 + y / x * w)) count (v, 0)

theorem divideFirst_eq {v : Vector α n} {count : Nat} (hcount : count ≤ n) (x : α)
    {weight : Nat → α → Checked α α} {value : Fin n → α}
    (h : ∀ k : Fin n, k.val < count → weight k (v.get k / x) = .ok (value k)) :
    divideFirst v count x weight =
      .ok (Vector.ofFn fun k => if k.val < count then v.get k / x else v.get k,
        accumulateFirst 0 (fun k => v.get k / x * value k) count) := by
  apply loop_eq_ok fun m =>
    (Vector.ofFn fun k => if k.val < m then v.get k / x else v.get k,
      accumulateFirst 0 (fun k => v.get k / x * value k) m)
  · apply Prod.ext
    · apply ext_get
      intro k
      simp
    · rfl
  · intro m hm
    have hmn : m < n := by omega
    have hweight : weight m (v.get ⟨m, hmn⟩ / x) = .ok (value ⟨m, hmn⟩) := h ⟨m, hmn⟩ hm
    rw [readAt_of_lt _ hmn, ok_bind, get_ofFn, if_neg (Nat.lt_irrefl m), hweight, ok_bind,
      writeAt_of_lt _ hmn, ok_bind]
    congr 1
    apply Prod.ext
    · apply ext_get
      intro k
      simp only [get_setAt, get_ofFn, Fin.ext_iff]
      grind
    · exact (accumulateFirst_succ 0 (fun k => v.get k / x * value k) hmn).symm
  · rfl

/-! ## A row that is zero already -/

/-- Clears a row before the diagonal and the column of the same number above it, while
the row before it is taken out. -/
def clearRow (v : Grid α n n) (d : Vector α n) (row : Nat) :
    Checked α (Grid α n n × Vector α n) :=
  loop (fun j s => do
    let d ← writeAt s.2 j (← s.1.read (row - 1) j)
    let v ← s.1.write row j 0
    return (← v.write j row 0, d)) row (v, d)

def clearState (v : Grid α n n) (d : Vector α n) (i : Fin (n - 1)) (m : Nat) :
    Grid α n n × Vector α n :=
  (Grid.ofFn fun k j =>
    if (k = Index.next i ∧ j.val < m) ∨ (j = Index.next i ∧ k.val < m) then 0 else v.get k j,
  Vector.ofFn fun j => if j.val < m then v.get (Index.here i) j else d.get j)

theorem clearRow_eq (v : Grid α n n) (d : Vector α n) (i : Fin (n - 1)) :
    clearRow v d (i.val + 1) = .ok (clearState v d i (i.val + 1)) := by
  have hhere : i.val < n := by omega
  have hrow : i.val + 1 < n := by omega
  apply loop_eq_ok (clearState v d i)
  · apply Prod.ext
    · apply Grid.ext_get
      intro k j
      simp [clearState]
    · apply ext_get
      intro j
      simp [clearState]
  · intro m hm
    have hmn : m < n := by omega
    rw [Nat.add_sub_cancel, Grid.read_of_lt _ hhere hmn, ok_bind, writeAt_of_lt _ hmn, ok_bind,
      Grid.write_of_lt _ hrow hmn, ok_bind, Grid.write_of_lt _ hmn hrow, ok_bind]
    congr 1
    apply Prod.ext
    · apply Grid.ext_get
      intro k j
      simp only [clearState, Grid.get_set, Grid.get_ofFn, Fin.ext_iff, Index.next]
      grind
    · apply ext_get
      intro j
      simp only [clearState, get_setAt, get_ofFn, Grid.get_ofFn, Fin.ext_iff, Index.next,
        Index.here]
      grind
  · rfl

/-- Passes over a row that is zero before its diagonal. -/
def passRow (t : Tridiagonal α n) (row : Nat) : Checked α (Tridiagonal α n) := do
  let e ← writeAt t.subdiagonal row (← readAt t.diagonal (row - 1))
  let s ← clearRow t.basis t.diagonal row
  return ⟨s.1, ← writeAt s.2 row 0, e⟩

theorem passRow_eq (t : Tridiagonal α n) (i : Fin (n - 1)) :
    passRow t (i.val + 1) = .ok (t.passRow i) := by
  have hhere : i.val < n := by omega
  have hrow : i.val + 1 < n := by omega
  unfold passRow Tridiagonal.passRow
  rw [Nat.add_sub_cancel, readAt_of_lt _ hhere, ok_bind, writeAt_of_lt _ hrow, ok_bind,
    clearRow_eq, ok_bind, writeAt_of_lt _ hrow, ok_bind]
  congr 2
  apply ext_get
  intro j
  simp only [clearState, get_setAt, get_ofFn, Index.here, Index.next, Fin.ext_iff, Fin.lt_def]
  grind

/-! ## The reflection of a row -/

/-- The reflection of a row, its vector over the first entries of `d`. -/
def reflection (d : Vector α n) (row : Nat) (scale : α) :
    Checked α (Tridiagonal.Reflection α n) := do
  let s ← divideFirst d row scale fun _ y => .ok y
  let last ← readAt s.1 (row - 1)
  let length := if 0 < last then -Scalar.sqrt s.2 else Scalar.sqrt s.2
  return ⟨← writeAt s.1 (row - 1) (last - length), s.2 - last * length, scale * length⟩

theorem exists_reflection (d : Vector α n) (i : Fin (n - 1)) (scale : α) :
    ∃ u : Vector α n, reflection d (i.val + 1) scale =
        .ok { Tridiagonal.reflection d i scale with direction := u } ∧
      (∀ k : Fin n, k.val < i.val + 1 →
        u.get k = (Tridiagonal.reflection d i scale).direction.get k) ∧
      ∀ k : Fin n, i.val + 1 ≤ k.val → u.get k = d.get k := by
  have hhere : i.val < n := by omega
  have hrow : i.val + 1 ≤ n := by omega
  have hlast : (Vector.ofFn fun k : Fin n =>
      if k.val < i.val + 1 then d.get k / scale else d.get k).get ⟨i, hhere⟩ =
        d.get ⟨i, hhere⟩ / scale := by
    rw [get_ofFn, if_pos (Nat.lt_succ_self i.val)]
  have hquotient : ∀ k : Fin n, k.val < i.val + 1 → (Vector.ofFn fun k : Fin n =>
      if k < Index.next i then d.get k / scale else 0).get k = d.get k / scale := by
    intro k hk
    rw [get_ofFn, if_pos (show k < Index.next i from hk)]
  have hsquare : accumulateFirst 0 (fun k => d.get k / scale * (d.get k / scale)) (i.val + 1) =
      Scalar.accumulate 0 fun k : Fin (i.val + 1) =>
        (Vector.ofFn fun k : Fin n => if k < Index.next i then d.get k / scale else 0).get
            (Index.upTo i k) *
          (Vector.ofFn fun k : Fin n => if k < Index.next i then d.get k / scale else 0).get
            (Index.upTo i k) := by
    rw [accumulateFirst_eq _ _ hrow]
    congr 1
    funext k
    rw [hquotient (Index.upTo i k) k.isLt]
    rfl
  unfold reflection Tridiagonal.reflection
  rw [divideFirst_eq hrow scale fun _ _ => rfl, ok_bind, Nat.add_sub_cancel,
    readAt_of_lt _ hhere, ok_bind]
  dsimp only
  rw [hlast, writeAt_of_lt _ hhere, ok_bind, hsquare,
    hquotient (Index.here i) (Nat.lt_succ_self i.val)]
  refine ⟨_, rfl, ?_, ?_⟩
  · intro k hk
    rw [get_setAt, get_setAt, hquotient k hk, get_ofFn, if_pos hk]
    rfl
  · intro k hk
    have hne : k ≠ ⟨i, hhere⟩ := by
      intro h
      rw [h] at hk
      exact Nat.lt_irrefl _ hk
    rw [get_setAt, if_neg hne, get_ofFn, if_neg (Nat.not_lt_of_le hk)]

/-! ## The product of the leading block and the vector of the reflection -/

/-- Adds what column `j` of the block below its diagonal has to say: the products with `d`
to `g`, the multiples by `f` to the entries of `e`. -/
def addColumn (v : Grid α n n) (d : Vector α n) (f : α) (row j : Nat) (g : α) (e : Vector α n) :
    Checked α (α × Vector α n) :=
  loop (fun t s => do
    let x ← v.read (j + 1 + t) j
    let y ← readAt d (j + 1 + t)
    let z ← readAt s.2 (j + 1 + t)
    return (s.1 + x * y, ← writeAt s.2 (j + 1 + t) (z + x * f))) (row - (j + 1)) (g, e)

/-- Adds the product of the leading block and `d` to `e`, reading the block below its
diagonal only, and keeps `d` in column `row`. -/
def multiplyBlock (v : Grid α n n) (d e : Vector α n) (row : Nat) :
    Checked α (Grid α n n × Vector α n) :=
  loop (fun j s => do
    let f ← readAt d j
    let v ← s.1.write j row f
    let x ← v.read j j
    let y ← readAt s.2 j
    let r ← addColumn v d f row j (y + x * f) s.2
    return (v, ← writeAt r.2 j r.1)) row (v, e)

/-- The sum of the first `m` terms of element `j` of the product. -/
def blockSum (v : Grid α n n) (d : Vector α n) (j : Fin n) (m : Nat) : α :=
  accumulateFirst 0 (fun k => Tridiagonal.symmetric v j k * d.get k) m

theorem blockSum_succ (v : Grid α n n) (d : Vector α n) (j : Fin n) {m : Nat} (hm : m < n) :
    blockSum v d j (m + 1) =
      blockSum v d j m + Tridiagonal.symmetric v j ⟨m, hm⟩ * d.get ⟨m, hm⟩ :=
  accumulateFirst_succ 0 _ hm

/-- The vector within column `j`, down to row `j + t`: before `j` the sums are complete, the
rows that have been reached have the term of column `j` already. -/
def productState (v : Grid α n n) (d e : Vector α n) (row j t : Nat) : Vector α n :=
  Vector.ofFn fun k =>
    if k.val < row then
      blockSum v d k (if k.val < j then row else if j < k.val ∧ k.val < j + 1 + t then j + 1 else j)
    else e.get k

/-- The grid after `m` entries of `d` have been kept in column `row`. -/
def keptState (v : Grid α n n) (d : Vector α n) (row m : Nat) : Grid α n n :=
  Grid.ofFn fun k j => if j.val = row ∧ k.val < m then d.get k else v.get k j

/-- A row that column `j` has not reached has the terms of the columns before it. -/
theorem get_productState_of_unreached (v : Grid α n n) (d e : Vector α n) {row j t : Nat}
    {k : Fin n} (hk : k.val < row) (hj : k.val = j ∨ j + 1 + t ≤ k.val) :
    (productState v d e row j t).get k = blockSum v d k j := by
  have hbefore : ¬ k.val < j := by omega
  have hreached : ¬ (j < k.val ∧ k.val < j + 1 + t) := by omega
  rw [productState, get_ofFn, if_pos hk, if_neg hbefore, if_neg hreached]

omit [Scalar α] in
theorem set_keptState (v : Grid α n n) (d : Vector α n) {row : Nat} (hrow : row < n) (j : Fin n) :
    (keptState v d row j).set j ⟨row, hrow⟩ (d.get j) = keptState v d row (j.val + 1) := by
  apply Grid.ext_get
  intro k c
  simp only [keptState, Grid.get_set, Grid.get_ofFn, Fin.ext_iff]
  grind

theorem addColumn_eq (v : Grid α n n) (d e : Vector α n) {row : Nat} (hrow : row < n) {j : Fin n}
    (hj : j.val < row) {w : Grid α n n} (hw : ∀ k, w.get k j = v.get k j) :
    addColumn w d (d.get j) row j (blockSum v d j (j.val + 1)) (productState v d e row j 0) =
      .ok (blockSum v d j row, productState v d e row j (row - (j.val + 1))) := by
  apply loop_eq_ok fun t => (blockSum v d j (j.val + 1 + t), productState v d e row j t)
  · rfl
  · intro t ht
    have hkrow : j.val + 1 + t < row := by omega
    have hk : j.val + 1 + t < n := by omega
    have hbelow : j < ⟨j.val + 1 + t, hk⟩ := by
      show j.val < j.val + 1 + t
      omega
    have hacross : blockSum v d j (j.val + 1 + t + 1) =
        blockSum v d j (j.val + 1 + t) +
          v.get ⟨j.val + 1 + t, hk⟩ j * d.get ⟨j.val + 1 + t, hk⟩ := by
      rw [blockSum_succ v d j hk, Tridiagonal.symmetric_of_lt v hbelow]
    have hdown : blockSum v d ⟨j.val + 1 + t, hk⟩ (j.val + 1) =
        blockSum v d ⟨j.val + 1 + t, hk⟩ j.val + v.get ⟨j.val + 1 + t, hk⟩ j * d.get j := by
      rw [blockSum_succ v d _ j.isLt, Tridiagonal.symmetric_of_le v (Nat.le_of_lt hbelow)]
    have hold : (productState v d e row j t).get ⟨j.val + 1 + t, hk⟩ =
        blockSum v d ⟨j.val + 1 + t, hk⟩ j.val :=
      get_productState_of_unreached v d e hkrow (.inr (Nat.le_refl _))
    rw [Grid.read_of_lt _ hk j.isLt, ok_bind, readAt_of_lt _ hk, ok_bind, readAt_of_lt _ hk,
      ok_bind, writeAt_of_lt _ hk, ok_bind, hw, hold, ← hacross, ← hdown]
    congr 1
    apply Prod.ext
    · rfl
    · apply ext_get
      intro k
      simp only [productState, get_setAt, get_ofFn, Fin.ext_iff]
      grind
  · apply Prod.ext
    · show blockSum v d j (j.val + 1 + (row - (j.val + 1))) = _
      rw [Nat.add_sub_of_le hj]
    · rfl

theorem multiplyBlock_eq (v : Grid α n n) (d e : Vector α n) {row : Nat} (hrow : row < n)
    (he : ∀ k : Fin n, k.val < row → e.get k = 0) :
    multiplyBlock v d e row = .ok (keptState v d row row, productState v d e row row 0) := by
  apply loop_eq_ok fun j => (keptState v d row j, productState v d e row j 0)
  · apply Prod.ext
    · apply Grid.ext_get
      intro k j
      simp [keptState]
    · apply ext_get
      intro k
      have hzero : blockSum v d k 0 = 0 := rfl
      simp only [productState, get_ofFn]
      grind
  · intro j hj
    have hjn : j < n := by omega
    have hkept : (keptState v d row j).set ⟨j, hjn⟩ ⟨row, hrow⟩ (d.get ⟨j, hjn⟩) =
        keptState v d row (j + 1) := set_keptState v d hrow ⟨j, hjn⟩
    have hsame : ∀ k, (keptState v d row (j + 1)).get k ⟨j, hjn⟩ = v.get k ⟨j, hjn⟩ := by
      intro k
      have hne : ¬ (j = row ∧ k.val < j + 1) := by omega
      rw [keptState, Grid.get_ofFn, if_neg hne]
    have hfirst : (productState v d e row j 0).get ⟨j, hjn⟩ = blockSum v d ⟨j, hjn⟩ j :=
      get_productState_of_unreached v d e hj (.inl rfl)
    have hsum : blockSum v d ⟨j, hjn⟩ j + v.get ⟨j, hjn⟩ ⟨j, hjn⟩ * d.get ⟨j, hjn⟩ =
        blockSum v d ⟨j, hjn⟩ (j + 1) := by
      rw [blockSum_succ v d _ hjn, Tridiagonal.symmetric_of_le v (Nat.le_refl j)]
    have hcolumn := addColumn_eq v d e hrow (j := ⟨j, hjn⟩) hj hsame
    rw [readAt_of_lt _ hjn, ok_bind, Grid.write_of_lt _ hjn hrow, ok_bind, hkept,
      Grid.read_of_lt _ hjn hjn, ok_bind, readAt_of_lt _ hjn, ok_bind, hsame, hfirst, hsum,
      hcolumn, ok_bind, writeAt_of_lt _ hjn, ok_bind]
    congr 1
    apply Prod.ext
    · rfl
    · apply ext_get
      intro k
      simp only [productState, get_setAt, get_ofFn, Fin.ext_iff]
      grind
  · rfl

/-! ## The correction of the leading block -/

/-- Takes a multiple of the first entries of `d` off those of `e`. -/
def subtractFirst (d e : Vector α n) (row : Nat) (x : α) : Checked α (Vector α n) :=
  mapFirst e row fun k y => do return y - x * (← readAt d k)

theorem subtractFirst_eq (d e : Vector α n) {row : Nat} (hrow : row ≤ n) (x : α) :
    subtractFirst d e row x =
      .ok (Vector.ofFn fun k => if k.val < row then e.get k - x * d.get k else e.get k) := by
  apply mapFirst_eq hrow
  intro k hk
  rw [readAt_val]
  rfl

/-- Divides the first entries of `e` by `half` and takes off the multiple of `d` that is
left of their inner product. -/
def shiftFirst (d e : Vector α n) (row : Nat) (half : α) : Checked α (Vector α n) := do
  let p ← divideFirst e row half fun k _ => readAt d k
  subtractFirst d p.1 row (p.2 / (half + half))

theorem shiftFirst_eq (d e : Vector α n) {row : Nat} (hrow : row ≤ n) (half : α) :
    shiftFirst d e row half = .ok (Vector.ofFn fun k =>
      if k.val < row then
        e.get k / half -
          accumulateFirst 0 (fun k => e.get k / half * d.get k) row / (half + half) * d.get k
      else e.get k) := by
  unfold shiftFirst
  rw [divideFirst_eq hrow half fun k hk => readAt_val d k, ok_bind, subtractFirst_eq d _ hrow]
  congr 1
  apply ext_get
  intro k
  simp only [get_ofFn]
  grind

/-- The vector with which the leading block is corrected, over the first entries of `e`,
and the grid in which the vector `d` of the reflection has been kept. -/
def correction (v : Grid α n n) (d e : Vector α n) (row : Nat) (half : α) :
    Checked α (Grid α n n × Vector α n) := do
  let e ← mapFirst e row fun _ _ => .ok 0
  let s ← multiplyBlock v d e row
  return (s.1, ← shiftFirst d s.2 row half)

theorem get_productState (v : Grid α n n) (d e : Vector α n) {row : Nat} {k : Fin n}
    (hk : k.val < row) : (productState v d e row row 0).get k = blockSum v d k row := by
  rw [productState, get_ofFn, if_pos hk, if_pos hk]

theorem get_productState_of_le (v : Grid α n n) (d e : Vector α n) {row : Nat} {k : Fin n}
    (hk : row ≤ k.val) : (productState v d e row row 0).get k = e.get k := by
  rw [productState, get_ofFn, if_neg (Nat.not_lt_of_le hk)]

section Product

variable {v : Grid α n n} {d : Vector α n} {i : Fin (n - 1)} {r : Tridiagonal.Reflection α n}
  (hd : ∀ k : Fin n, k.val < i.val + 1 → d.get k = r.direction.get k)
include hd

/-- The entries of the product, in terms of the vector of the reflection. -/
theorem blockSum_eq (k : Fin n) :
    blockSum v d k (i.val + 1) = Scalar.accumulate 0 fun m =>
      Tridiagonal.symmetric v k (Index.upTo i m) * r.direction.get (Index.upTo i m) := by
  have hrow : i.val + 1 ≤ n := by omega
  rw [blockSum, accumulateFirst_eq _ _ hrow]
  congr 1
  funext m
  rw [← hd (Index.upTo i m) m.isLt]
  rfl

/-- The inner product of the vector of the reflection with what is left of the product. -/
theorem accumulateFirst_productState (e : Vector α n) :
    accumulateFirst 0 (fun k =>
      (productState v d e (i.val + 1) (i.val + 1) 0).get k / r.half * d.get k) (i.val + 1) =
        Scalar.accumulate 0 fun k => (Vector.ofFn fun j : Fin n =>
          if j < Index.next i then
            Scalar.accumulate 0 (fun m =>
              Tridiagonal.symmetric v j (Index.upTo i m) *
                r.direction.get (Index.upTo i m)) / r.half
          else 0).get (Index.upTo i k) * r.direction.get (Index.upTo i k) := by
  have hrow : i.val + 1 ≤ n := by omega
  rw [accumulateFirst_eq _ _ hrow]
  congr 1
  funext k
  have hk : (Index.upTo i k).val < i.val + 1 := k.isLt
  rw [get_ofFn, if_pos (show Index.upTo i k < Index.next i from hk), ← blockSum_eq hd,
    ← hd _ hk, ← get_productState v d e hk]
  rfl

theorem exists_correction (e : Vector α n) :
    ∃ q : Vector α n, correction v d e (i.val + 1) r.half =
        .ok (keptState v d (i.val + 1) (i.val + 1), q) ∧
      (∀ k : Fin n, k.val < i.val + 1 → q.get k = (Tridiagonal.correction v i r).get k) ∧
      ∀ k : Fin n, i.val + 1 ≤ k.val → q.get k = e.get k := by
  have hrow : i.val + 1 < n := by omega
  unfold correction
  rw [mapFirst_eq (Nat.le_of_lt hrow) fun k hk => rfl, ok_bind,
    multiplyBlock_eq v d _ hrow fun k hk => by rw [get_ofFn, if_pos hk], ok_bind,
    shiftFirst_eq d _ (Nat.le_of_lt hrow), ok_bind]
  refine ⟨_, rfl, ?_, ?_⟩
  · intro k hk
    rw [get_ofFn, if_pos hk, get_productState v d _ hk, accumulateFirst_productState hd,
      blockSum_eq hd, hd k hk]
    simp only [Tridiagonal.correction, get_ofFn, Fin.lt_def, Index.next, hk, if_true]
  · intro k hk
    rw [get_ofFn, if_neg (Nat.not_lt_of_le hk), get_productState_of_le v d _ hk, get_ofFn,
      if_neg (Nat.not_lt_of_le hk)]

end Product

/-! ## The reflected block -/

/-- Corrects column `j` of the leading block from the diagonal down. -/
def correctColumn (v : Grid α n n) (d e : Vector α n) (row j : Nat) : Checked α (Grid α n n) := do
  let f ← readAt d j
  let g ← readAt e j
  loop (fun t v => do
    let x ← v.read (j + t) j
    let y ← readAt e (j + t)
    let z ← readAt d (j + t)
    v.write (j + t) j (x - (f * y + g * z))) (row - j) v

/-- Corrects the leading block below its diagonal and clears row `row` before its own,
while row `row - 1` of the outcome is taken out. -/
def correctBlock (v : Grid α n n) (d e : Vector α n) (row : Nat) :
    Checked α (Grid α n n × Vector α n) :=
  loop (fun j s => do
    let v ← correctColumn s.1 s.2 e row j
    let d ← writeAt s.2 j (← v.read (row - 1) j)
    return (← v.write row j 0, d)) row (v, d)

/-- The grid after the columns before `j`, and `t` elements of column `j`. -/
def correctedState (v : Grid α n n) (d e : Vector α n) (row j t : Nat) : Grid α n n :=
  Grid.ofFn fun k c =>
    if c ≤ k ∧ k.val < row ∧ (c.val < j ∨ c.val = j ∧ k.val < j + t) then
      v.get k c - (d.get c * e.get k + e.get c * d.get k)
    else if k.val = row ∧ c.val < j then 0
    else v.get k c

/-- The row that is taken out, up to column `j`. -/
def takenState (v : Grid α n n) (d e : Vector α n) (i : Fin (n - 1)) (j : Nat) : Vector α n :=
  Vector.ofFn fun c =>
    if c.val < j then (correctedState v d e (i.val + 1) (i.val + 1) 0).get (Index.here i) c
    else d.get c

theorem correctColumn_eq (v : Grid α n n) (d e : Vector α n) {row : Nat} (hrow : row < n)
    {j : Nat} (hj : j < row) {d' : Vector α n} (hd : ∀ k : Fin n, j ≤ k.val → d'.get k = d.get k) :
    correctColumn (correctedState v d e row j 0) d' e row j =
      .ok (correctedState v d e row j (row - j)) := by
  have hjn : j < n := by omega
  unfold correctColumn
  rw [readAt_of_lt _ hjn, ok_bind, readAt_of_lt _ hjn, ok_bind, hd _ (Nat.le_refl j)]
  apply loop_eq_ok (correctedState v d e row j) rfl
  · intro t ht
    have hk : j + t < n := by omega
    have hold : (correctedState v d e row j t).get ⟨j + t, hk⟩ ⟨j, hjn⟩ =
        v.get ⟨j + t, hk⟩ ⟨j, hjn⟩ := by
      simp only [correctedState, Grid.get_ofFn]
      grind
    rw [Grid.read_of_lt _ hk hjn, ok_bind, readAt_of_lt _ hk, ok_bind, readAt_of_lt _ hk, ok_bind,
      Grid.write_of_lt _ hk hjn, hold, hd _ (Nat.le_add_right j t)]
    congr 1
    apply Grid.ext_get
    intro k c
    rw [Grid.get_set]
    split
    · next h =>
      obtain ⟨rfl, rfl⟩ := h
      have hnew : (⟨j, hjn⟩ : Fin n) ≤ ⟨j + t, hk⟩ := Nat.le_add_right j t
      have hinside : j + t < row := by omega
      rw [correctedState, Grid.get_ofFn,
        if_pos ⟨hnew, hinside, .inr ⟨rfl, Nat.lt_succ_self (j + t)⟩⟩]
    · next h =>
      -- Any other element is corrected before the step if it is corrected after it.
      have hsame : (c.val < j ∨ c.val = j ∧ k.val < j + (t + 1)) ↔
          (c.val < j ∨ c.val = j ∧ k.val < j + t) := by
        simp only [Fin.ext_iff] at h
        omega
      simp only [correctedState, Grid.get_ofFn, hsame]
  · rfl

theorem correctBlock_eq (v : Grid α n n) (d e : Vector α n) (i : Fin (n - 1)) :
    correctBlock v d e (i.val + 1) =
      .ok (correctedState v d e (i.val + 1) (i.val + 1) 0, takenState v d e i (i.val + 1)) := by
  have hhere : i.val < n := by omega
  have hrow : i.val + 1 < n := by omega
  apply loop_eq_ok fun j => (correctedState v d e (i.val + 1) j 0, takenState v d e i j)
  · apply Prod.ext
    · apply Grid.ext_get
      intro k c
      simp only [correctedState, Grid.get_ofFn]
      grind
    · apply ext_get
      intro c
      simp [takenState]
  · intro j hj
    have hjn : j < n := by omega
    have hfrom : ∀ k : Fin n, j ≤ k.val → (takenState v d e i j).get k = d.get k := by
      intro k hk
      rw [takenState, get_ofFn, if_neg (Nat.not_lt_of_le hk)]
    dsimp only
    rw [correctColumn_eq v d e hrow hj hfrom, ok_bind, Nat.add_sub_cancel,
      Grid.read_of_lt _ hhere hjn, ok_bind, writeAt_of_lt _ hjn, ok_bind,
      Grid.write_of_lt _ hrow hjn, ok_bind]
    congr 1
    apply Prod.ext
    · apply Grid.ext_get
      intro k c
      simp only [correctedState, Grid.get_set, Grid.get_ofFn, Fin.ext_iff, Fin.le_def]
      grind
    · apply ext_get
      intro c
      simp only [takenState, correctedState, get_setAt, get_ofFn, Grid.get_ofFn, Fin.ext_iff,
        Fin.le_def, Index.here]
      grind
  · rfl

/-- Clears a row before its last element by a reflection of the leading block. -/
def reflectRow (t : Tridiagonal α n) (row : Nat) (scale : α) : Checked α (Tridiagonal α n) := do
  let r ← reflection t.diagonal row scale
  let e ← writeAt t.subdiagonal row r.image
  let c ← correction t.basis r.direction e row r.half
  let s ← correctBlock c.1 r.direction c.2 row
  return ⟨s.1, ← writeAt s.2 row r.half, c.2⟩

/-- The corrected block is that of the reflection, with its vector kept in the column of
the row that has been cleared. -/
theorem correctedState_keptState (t : Tridiagonal α n) (i : Fin (n - 1)) (scale : α)
    {u q : Vector α n}
    (hu : ∀ k : Fin n, k.val < i.val + 1 →
      u.get k = (Tridiagonal.reflection t.diagonal i scale).direction.get k)
    (hq : ∀ k : Fin n, k.val < i.val + 1 →
      q.get k = (Tridiagonal.correction t.basis i
        (Tridiagonal.reflection t.diagonal i scale)).get k) :
    correctedState (keptState t.basis u (i.val + 1) (i.val + 1)) u q (i.val + 1) (i.val + 1) 0 =
      (t.reflectRow i scale).basis := by
  apply Grid.ext_get
  intro k j
  simp only [correctedState, keptState, Tridiagonal.reflectRow, Grid.get_ofFn, Index.next,
    Fin.ext_iff, Fin.lt_def, Fin.le_def]
  grind

theorem exists_reflectRow (t : Tridiagonal α n) (i : Fin (n - 1)) (scale : α) :
    ∃ e : Vector α n,
      reflectRow t (i.val + 1) scale = .ok { t.reflectRow i scale with subdiagonal := e } ∧
      ∀ k : Fin n, i.val + 1 ≤ k.val → e.get k = (t.reflectRow i scale).subdiagonal.get k := by
  have hrow : i.val + 1 < n := by omega
  obtain ⟨u, hreflection, hu, huafter⟩ := exists_reflection t.diagonal i scale
  obtain ⟨q, hcorrection, hq, hqafter⟩ := exists_correction (v := t.basis) hu
    (setAt t.subdiagonal (Index.next i) (Tridiagonal.reflection t.diagonal i scale).image)
  refine ⟨q, ?_, hqafter⟩
  unfold reflectRow
  rw [hreflection, ok_bind, writeAt_of_lt _ hrow, ok_bind]
  dsimp only
  rw [show (⟨i.val + 1, hrow⟩ : Fin n) = Index.next i from rfl, hcorrection, ok_bind,
    correctBlock_eq, ok_bind, writeAt_of_lt _ hrow, ok_bind,
    correctedState_keptState t i scale hu hq]
  congr 2
  apply ext_get
  intro j
  have hdiagonal : (t.reflectRow i scale).diagonal.get j =
      if j < Index.next i then (t.reflectRow i scale).basis.get (Index.here i) j
      else if j = Index.next i then (Tridiagonal.reflection t.diagonal i scale).half
      else t.diagonal.get j := get_ofFn _ j
  rw [hdiagonal, get_setAt, takenState, get_ofFn, correctedState_keptState t i scale hu hq]
  simp only [Index.next, Fin.ext_iff, Fin.lt_def]
  grind

/-! ## All rows -/

/-- Clears a row before its last element. -/
def reduceRow (t : Tridiagonal α n) (row : Nat) : Checked α (Tridiagonal α n) := do
  let scale ← addUp (-0) row fun k => do return Scalar.abs (← readAt t.diagonal k)
  if scale == 0 then passRow t row else reflectRow t row scale

theorem reduceRow_agreesFrom {s t : Tridiagonal α n} {i : Fin (n - 1)}
    (h : s.AgreesFrom 0 (i.val + 2) t) :
    ∃ s', reduceRow s (i.val + 1) = .ok s' ∧ s'.AgreesFrom 0 (i.val + 1) (t.reduceRow i) := by
  obtain ⟨v, d, e⟩ := s
  obtain rfl : v = t.basis := h.basis
  obtain rfl : d = t.diagonal := ext_get fun k => h.diagonal k (Nat.zero_le k)
  have hafter : ∀ k : Fin n, i.val + 1 ≤ k.val → ∀ x,
      (setAt e (Index.next i) x).get k = (setAt t.subdiagonal (Index.next i) x).get k := by
    intro k hk x
    have hrest := h.subdiagonal k
    simp only [get_setAt, Index.next, Fin.ext_iff] at hrest ⊢
    grind
  unfold reduceRow Tridiagonal.reduceRow
  dsimp only
  rw [addUp_eq_sum fun k => ?_, ok_bind]
  · by_cases hscale : (Scalar.sum fun k => Scalar.abs (t.diagonal.get (Index.upTo i k))) == 0
    · rw [if_pos hscale, if_pos hscale]
      exact ⟨_, passRow_eq _ i, rfl, fun _ _ => rfl, fun k hk => hafter k hk _⟩
    · rw [if_neg hscale, if_neg hscale]
      obtain ⟨e', hreflect, he'⟩ := exists_reflectRow ⟨t.basis, t.diagonal, e⟩ i
        (Scalar.sum fun k => Scalar.abs (t.diagonal.get (Index.upTo i k)))
      refine ⟨_, hreflect, rfl, fun _ _ => rfl, ?_⟩
      intro k hk
      exact (he' k hk).trans (hafter k hk _)
  · have hk : k.val < n := by omega
    rw [readAt_of_lt _ hk]
    rfl

/-- The reduction, from the last row to the second. -/
def reduceRows (t : Tridiagonal α n) : Checked α (Tridiagonal α n) :=
  loop (fun k t => reduceRow t (n - 1 - k)) (n - 1) t

/-- The reduction after the last `m` rows. -/
def reducedRows (t : Tridiagonal α n) (m : Nat) : Tridiagonal α n :=
  ((List.finRange (n - 1)).drop (n - 1 - m)).foldr (fun i t => t.reduceRow i) t

theorem reducedRows_zero (t : Tridiagonal α n) : reducedRows t 0 = t := by
  have hnone : (List.finRange (n - 1)).drop (n - 1) = [] :=
    List.drop_eq_nil_of_le (Nat.le_of_eq List.length_finRange)
  rw [reducedRows, Nat.sub_zero, hnone, List.foldr_nil]

theorem reducedRows_succ (t : Tridiagonal α n) {m : Nat} (hm : m < n - 1) :
    reducedRows t (m + 1) = (reducedRows t m).reduceRow ⟨n - 1 - (m + 1), by omega⟩ := by
  have hlength : n - 1 - (m + 1) < (List.finRange (n - 1)).length := by
    rw [List.length_finRange]
    omega
  have hnext : n - 1 - (m + 1) + 1 = n - 1 - m := by omega
  rw [reducedRows, List.drop_eq_getElem_cons hlength, List.foldr_cons, hnext, reducedRows,
    List.getElem_finRange]
  rfl

theorem reducedRows_all (t : Tridiagonal α n) : reducedRows t (n - 1) = t.reduceRows := by
  rw [reducedRows, Nat.sub_self, List.drop_zero]
  rfl

theorem reduceRows_agreesFrom (t : Tridiagonal α n) :
    ∃ s, reduceRows t = .ok s ∧ s.AgreesFrom 0 1 t.reduceRows := by
  have hloop : ∃ s, reduceRows t = .ok s ∧
      s.AgreesFrom 0 (n - (n - 1)) (reducedRows t (n - 1)) := by
    unfold reduceRows
    apply exists_loop_eq_ok fun m (s : Tridiagonal α n) =>
      s.AgreesFrom 0 (n - m) (reducedRows t m)
    · rw [reducedRows_zero]
      exact ⟨rfl, fun _ _ => rfl, fun _ _ => rfl⟩
    · intro m hm s hs
      have hrow : n - 1 - m = n - 1 - (m + 1) + 1 := by omega
      have hfrom : n - m = n - 1 - (m + 1) + 2 := by omega
      have hnext : n - (m + 1) = n - 1 - (m + 1) + 1 := by omega
      rw [hfrom] at hs
      rw [hrow, hnext, reducedRows_succ t hm]
      exact reduceRow_agreesFrom (i := ⟨n - 1 - (m + 1), by omega⟩) hs
  obtain ⟨s, hs, hagrees⟩ := hloop
  rw [reducedRows_all] at hagrees
  refine ⟨s, hs, hagrees.basis, hagrees.diagonal, ?_⟩
  intro k hk
  exact hagrees.subdiagonal k (by omega)

end Indexed

end MatrixScript
