import Mathlib.Data.List.Zip
import MatrixScript.DenseMatrix.Order
import MatrixScript.Proofs.Binary64.Order
import MatrixScript.Proofs.Matrix.Agreement

/-!
# The order of matrices

The three questions that a condition can ask of two matrices, and the union and the intersection,
are about one order: the elements are compared place by place.  Less is a strict partial order on
all matrices of one shape, also where an element is NaN, which makes them incomparable and unequal
even to themselves.  On matrices without NaN, less or equal is a partial order up to equality, and
the union and the intersection are its joins and its meets.
-/

namespace MatrixScript

/-! ## Places of a grid -/

namespace Grid

variable {α : Type} {r c : Nat}

theorem get_div_mod (g : Grid α r c) {t : Nat} (ht : t < r * c) :
    g.get ⟨t / c, row_lt ht⟩ ⟨t % c, column_lt ht⟩ = g.cells[t] := by
  have hoffset : t / c * c + t % c = t := Nat.div_add_mod' t c
  have hlt : t / c * c + t % c < r * c := by omega
  change g.cells[t / c * c + t % c] = g.cells[t]
  simp only [hoffset]

/-- A question about all pairs of cells in the order of storage is one about all places. -/
theorem all_zip_iff (g h : Grid α r c) (p : α → α → Bool) :
    ((g.cells.toList.zip h.cells.toList).all fun pair => p pair.1 pair.2) = true ↔
      ∀ i j, p (g.get i j) (h.get i j) = true := by
  rw [List.all_eq_true]
  constructor
  · intro hall i j
    have hlt : i.val * c + j.val < r * c := offset_lt i.isLt j.isLt
    have hlength : i.val * c + j.val < (g.cells.toList.zip h.cells.toList).length := by
      simpa using hlt
    have hpair := hall _ (List.getElem_mem hlength)
    rw [List.getElem_zip, Vector.getElem_toList, Vector.getElem_toList] at hpair
    exact hpair
  · intro hall pair hpair
    obtain ⟨t, ht, rfl⟩ := List.mem_iff_getElem.mp hpair
    have hlt : t < r * c := by simpa using ht
    have hcell := hall ⟨t / c, row_lt hlt⟩ ⟨t % c, column_lt hlt⟩
    rw [get_div_mod, get_div_mod] at hcell
    simpa using hcell

theorem any_zip_iff (g h : Grid α r c) (p : α → α → Bool) :
    ((g.cells.toList.zip h.cells.toList).any fun pair => p pair.1 pair.2) = true ↔
      ∃ i j, p (g.get i j) (h.get i j) = true := by
  have hall := all_zip_iff g h fun x y => !p x y
  rw [List.any_eq_not_all_not, Bool.not_eq_true', Bool.eq_false_iff, ne_eq, hall]
  simp only [Bool.not_eq_true', not_forall, Bool.not_eq_false]

end Grid

namespace DenseMatrix

open Binary64

/-! ## What the questions ask -/

section Questions

variable {r c : Nat} {g h : Grid Float r c}

/-- The question has the answer yes. -/
def Holds (question : Comparison) (a b : DenseMatrix Float) : Prop :=
  compare question a b = .ok true

/-- Less or equal, as two conditions can ask. -/
def AtMost (a b : DenseMatrix Float) : Prop := Holds .less a b ∨ Holds .equal a b

theorem compare_of_shape_ne {a b : DenseMatrix Float} (h : a.shape ≠ b.shape)
    (question : Comparison) :
    compare question a b = .error (.mismatch .comparison a.shape b.shape) :=
  if_neg h

theorem compare_equal (g h : Grid Float r c) :
    compare .equal ⟨r, c, g⟩ ⟨r, c, h⟩ = .ok (allEqual ⟨r, c, g⟩ ⟨r, c, h⟩) :=
  if_pos rfl

theorem compare_less (g h : Grid Float r c) :
    compare .less ⟨r, c, g⟩ ⟨r, c, h⟩ = .ok (allLess ⟨r, c, g⟩ ⟨r, c, h⟩) :=
  if_pos rfl

/-- The two scans go over the same pairs, each the other way round. -/
theorem allGreater_eq_allLess (a b : DenseMatrix Float) : allGreater a b = allLess b a := by
  unfold allGreater allLess
  rw [← List.zip_swap b.toList a.toList, List.all_map, List.any_map]
  rfl

theorem compare_greater (g h : Grid Float r c) :
    compare .greater ⟨r, c, g⟩ ⟨r, c, h⟩ = compare .less ⟨r, c, h⟩ ⟨r, c, g⟩ := by
  have hgreater : compare .greater ⟨r, c, g⟩ ⟨r, c, h⟩ = .ok (allGreater ⟨r, c, g⟩ ⟨r, c, h⟩) :=
    if_pos rfl
  rw [hgreater, allGreater_eq_allLess, compare_less]

theorem exists_answer (question : Comparison) {a b : DenseMatrix Float} (h : a.shape = b.shape) :
    ∃ answer, compare question a b = .ok answer :=
  ⟨_, if_pos h⟩

theorem not_holds_iff {question : Comparison} :
    ¬ Holds question ⟨r, c, g⟩ ⟨r, c, h⟩ ↔ compare question ⟨r, c, g⟩ ⟨r, c, h⟩ = .ok false := by
  have hshape : shape ⟨r, c, g⟩ = shape ⟨r, c, h⟩ := rfl
  obtain ⟨answer, hanswer⟩ := exists_answer question hshape
  rw [Holds, hanswer, Except.ok.injEq, Except.ok.injEq, Bool.not_eq_true]

theorem shape_eq_of_holds {question : Comparison} {a b : DenseMatrix Float}
    (hab : Holds question a b) : a.shape = b.shape := by
  by_contra hne
  rw [Holds, compare_of_shape_ne hne] at hab
  cases hab

theorem shape_eq_of_atMost {a b : DenseMatrix Float} (hab : AtMost a b) : a.shape = b.shape :=
  hab.elim shape_eq_of_holds shape_eq_of_holds

theorem holds_equal_iff :
    Holds .equal ⟨r, c, g⟩ ⟨r, c, h⟩ ↔ ∀ i j, (g.get i j == h.get i j) = true := by
  rw [Holds, compare_equal, Except.ok.injEq]
  exact Grid.all_zip_iff g h fun x y => x == y

theorem holds_less_iff :
    Holds .less ⟨r, c, g⟩ ⟨r, c, h⟩ ↔
      (∀ i j, g.get i j ≤ h.get i j) ∧ ∃ i j, g.get i j < h.get i j := by
  have hall := Grid.all_zip_iff g h fun x y => x ≤ y
  have hany := Grid.any_zip_iff g h fun x y => x < y
  simp only [decide_eq_true_eq] at hall hany
  rw [Holds, compare_less, Except.ok.injEq, allLess, Bool.and_eq_true]
  exact and_congr hall hany

theorem atMost_iff :
    AtMost ⟨r, c, g⟩ ⟨r, c, h⟩ ↔ ∀ i j, g.get i j ≤ h.get i j := by
  rw [AtMost, holds_less_iff, holds_equal_iff]
  constructor
  · rintro (⟨hle, -⟩ | heq) i j
    · exact hle i j
    · exact (beq_iff_le_and_le.mp (heq i j)).1
  · intro hle
    by_cases heq : ∀ i j, (g.get i j == h.get i j) = true
    · exact .inr heq
    · obtain ⟨i, hi⟩ := not_forall.mp heq
      obtain ⟨j, hij⟩ := not_forall.mp hi
      exact .inl ⟨hle, i, j, lt_iff_le_and_not_beq.mpr ⟨hle i j, hij⟩⟩

theorem atMost_iff_pointwise {a b : DenseMatrix Float} : AtMost a b ↔ Pointwise (· ≤ ·) a b := by
  constructor
  · intro hab
    obtain ⟨r, c, g⟩ := a
    obtain ⟨_, _, h⟩ := b
    cases shape_eq_of_atMost hab
    exact .intro (atMost_iff.mp hab)
  · rintro ⟨hcells⟩
    exact atMost_iff.mpr hcells

theorem holds_equal_iff_atMost :
    Holds .equal ⟨r, c, g⟩ ⟨r, c, h⟩ ↔
      AtMost ⟨r, c, g⟩ ⟨r, c, h⟩ ∧ AtMost ⟨r, c, h⟩ ⟨r, c, g⟩ := by
  rw [holds_equal_iff, atMost_iff, atMost_iff]
  simp only [beq_iff_le_and_le, forall_and]

theorem holds_less_iff_atMost :
    Holds .less ⟨r, c, g⟩ ⟨r, c, h⟩ ↔
      AtMost ⟨r, c, g⟩ ⟨r, c, h⟩ ∧ ¬ Holds .equal ⟨r, c, g⟩ ⟨r, c, h⟩ := by
  constructor
  · intro hless
    refine ⟨.inl hless, fun hequal => ?_⟩
    obtain ⟨-, i, j, hlt⟩ := holds_less_iff.mp hless
    exact (lt_iff_le_and_not_beq.mp hlt).2 (holds_equal_iff.mp hequal i j)
  · rintro ⟨hless | hequal, hne⟩
    · exact hless
    · exact absurd hequal hne

theorem not_holds_less_self : ¬ Holds .less ⟨r, c, g⟩ ⟨r, c, g⟩ := by
  intro hless
  obtain ⟨-, i, j, hlt⟩ := holds_less_iff.mp hless
  exact Binary64.lt_irrefl _ hlt

theorem holds_less_trans {k : Grid Float r c} (hgh : Holds .less ⟨r, c, g⟩ ⟨r, c, h⟩)
    (hhk : Holds .less ⟨r, c, h⟩ ⟨r, c, k⟩) : Holds .less ⟨r, c, g⟩ ⟨r, c, k⟩ := by
  rw [holds_less_iff] at hgh hhk ⊢
  obtain ⟨hle, i, j, hlt⟩ := hgh
  exact ⟨fun i j => Binary64.le_trans (hle i j) (hhk.1 i j), i, j,
    Binary64.lt_of_lt_of_le hlt (hhk.1 i j)⟩

theorem not_holds_less_symm (hless : Holds .less ⟨r, c, g⟩ ⟨r, c, h⟩) :
    ¬ Holds .less ⟨r, c, h⟩ ⟨r, c, g⟩ := fun hback =>
  not_holds_less_self (holds_less_trans hless hback)

end Questions

/-! ## Joins and meets -/

/-- No element is NaN. -/
def NaNFree (m : DenseMatrix Float) : Prop := ∀ i j, IsNumber (m.get i j)

instance (m : DenseMatrix Float) : Decidable m.NaNFree :=
  inferInstanceAs (Decidable (∀ i j, IsNumber (m.get i j)))

/-- The least matrix that both `a` and `b` are at most. -/
def IsJoin (a b u : DenseMatrix Float) : Prop :=
  AtMost a u ∧ AtMost b u ∧ ∀ d, AtMost a d → AtMost b d → AtMost u d

/-- The greatest matrix that is at most both `a` and `b`. -/
def IsMeet (a b u : DenseMatrix Float) : Prop :=
  AtMost u a ∧ AtMost u b ∧ ∀ d, AtMost d a → AtMost d b → AtMost d u

section Bounds

variable {α : Type} {r c : Nat} {g h : Grid α r c}

/-- A least bound of the elements at every place makes a least bound of matrices. -/
theorem exists_zipWith_bound (op : Operation) {f : α → α → α} {le : α → α → Prop}
    (hself : ∀ i j, le (f (g.get i j) (h.get i j)) (f (g.get i j) (h.get i j)))
    (hbound : ∀ i j z, le (f (g.get i j) (h.get i j)) z ↔ le (g.get i j) z ∧ le (h.get i j) z) :
    ∃ u, zipWith op f ⟨r, c, g⟩ ⟨r, c, h⟩ = .ok u ∧ Pointwise le ⟨r, c, g⟩ u ∧
      Pointwise le ⟨r, c, h⟩ u ∧
      ∀ d, Pointwise le ⟨r, c, g⟩ d → Pointwise le ⟨r, c, h⟩ d → Pointwise le u d := by
  refine ⟨_, zipWith_of_shape op f g h, .intro fun i j => ?_, .intro fun i j => ?_, ?_⟩
  · rw [Grid.get_ofFn]
    exact ((hbound i j _).mp (hself i j)).1
  · rw [Grid.get_ofFn]
    exact ((hbound i j _).mp (hself i j)).2
  · rintro _ ⟨hgd⟩ hhd
    refine .intro fun i j => ?_
    rw [Grid.get_ofFn]
    exact (hbound i j _).mpr ⟨hgd i j, pointwise_iff.mp hhd i j⟩

end Bounds

section Lattice

variable {a b c m : DenseMatrix Float}

theorem exists_isJoin_union (ha : a.NaNFree) (hb : b.NaNFree) (hshape : b.shape = a.shape) :
    ∃ u, union a b = .ok u ∧ IsJoin a b u := by
  obtain ⟨r, c, g⟩ := a
  obtain ⟨_, _, h⟩ := b
  cases hshape
  simp only [IsJoin, atMost_iff_pointwise]
  refine exists_zipWith_bound .union (fun i j => ?_) fun i j z => ?_
  · exact Binary64.le_refl (represents_max ⟨ha i j, rfl⟩ ⟨hb i j, rfl⟩).1
  · exact Binary64.max_le_iff (ha i j) (hb i j)

theorem exists_isMeet_intersection (ha : a.NaNFree) (hb : b.NaNFree)
    (hshape : b.shape = a.shape) : ∃ u, intersection a b = .ok u ∧ IsMeet a b u := by
  obtain ⟨r, c, g⟩ := a
  obtain ⟨_, _, h⟩ := b
  cases hshape
  simp only [IsMeet, atMost_iff_pointwise, ← pointwise_flip_iff (S := fun x y : Float => x ≤ y)]
  refine exists_zipWith_bound .intersection (fun i j => ?_) fun i j z => ?_
  · exact Binary64.le_refl (represents_min ⟨ha i j, rfl⟩ ⟨hb i j, rfl⟩).1
  · exact Binary64.le_min_iff (ha i j) (hb i j)

theorem NaNFree.exists_values (h : m.NaNFree) : ∃ F, Elements Represents F m :=
  exists_elements fun i j => ⟨_, h i j, rfl⟩

/-- Computations of the same numbers agree up to the signs of zeros. -/
theorem agree_of_represents {fits fits' : Prop} {s t : Shape} {F G : Nat → Nat → EReal}
    {x y : Except (MatrixError Float) (DenseMatrix Float)} (hx : Denotes Represents fits s F x)
    (hy : Denotes Represents fits' t G y) (hfits : fits ↔ fits')
    (hsame : fits → s = t ∧ ∀ i j, i < s.rows → j < s.cols → F i j = G i j) :
    Agree SameValue fits x y :=
  hx.agree (T := Eq) hy (fun hx hy heq => hx.sameValue (heq ▸ hy)) hfits hsame

theorem agree_distributive (op op' : Operation) {f g : Float → Float → Float}
    {f' g' : EReal → EReal → EReal}
    (hf : ∀ x y u v, Represents x u → Represents y v → Represents (f x y) (f' u v))
    (hg : ∀ x y u v, Represents x u → Represents y v → Represents (g x y) (g' u v))
    (hdistrib : ∀ u v w, f' u (g' v w) = g' (f' u v) (f' u w))
    (ha : a.NaNFree) (hb : b.NaNFree) (hc : c.NaNFree) :
    Agree SameValue (c.shape = b.shape ∧ b.shape = a.shape)
      (zipWith op' g b c >>= fun bc => zipWith op f a bc)
      (zipWith op f a b >>= fun ab => zipWith op f a c >>= fun ac => zipWith op' g ab ac) := by
  obtain ⟨F, hF⟩ := ha.exists_values
  obtain ⟨G, hG⟩ := hb.exists_values
  obtain ⟨H, hH⟩ := hc.exists_values
  have hleft := (denotes_zipWith op' hg rfl hG rfl hH).bind fun bc hbc hGH =>
    denotes_zipWith op hf rfl hF hbc hGH
  have hright := (denotes_zipWith op hf rfl hF rfl hG).bind fun ab hab hFG =>
    (denotes_zipWith op hf rfl hF rfl hH).bind fun ac hac hFH =>
      denotes_zipWith op' hg hab hFG hac hFH
  refine agree_of_represents hleft hright ?_ fun _ => ⟨rfl, fun _ _ _ _ => hdistrib _ _ _⟩
  constructor
  · rintro ⟨hcb, hba⟩
    exact ⟨hba, hcb.trans hba, rfl⟩
  · rintro ⟨hba, hca, -⟩
    exact ⟨hca.trans hba.symm, hba⟩

end Lattice

/-! ## The order of conditions -/

/-- What the answers about three matrices are if less is a strict partial order. -/
structure StrictlyOrdered (a b c : DenseMatrix Float) : Prop where
  irrefl : compare .less a a = .ok false
  asymm : Holds .less a b → compare .less b a = .ok false
  trans : Holds .less a b → Holds .less b c → Holds .less a c
  greater_iff : Holds .greater a b ↔ Holds .less b a
  less_excludes : Holds .less a b → compare .greater a b = .ok false
  equal_excludes : Holds .equal a b →
    compare .less a b = .ok false ∧ compare .greater a b = .ok false
  less_iff : Holds .less a b ↔ Pointwise (· ≤ ·) a b ∧ compare .equal a b = .ok false

/-- What the answers about three matrices are if less or equal is a partial order up to equality,
with unions for joins and intersections for meets. -/
structure LatticeOrdered (a b c : DenseMatrix Float) : Prop where
  refl : AtMost a a
  antisymm : Holds .equal a b ↔ AtMost a b ∧ AtMost b a
  trans : AtMost a b → AtMost b c → AtMost a c
  join : ∃ u, union a b = .ok u ∧ IsJoin a b u
  meet : ∃ u, intersection a b = .ok u ∧ IsMeet a b u

/-- Unions and intersections distribute over each other, and fail on the same shapes. -/
structure Distributive (a b c : DenseMatrix Float) : Prop where
  union_intersection : Agree SameValue (c.shape = b.shape ∧ b.shape = a.shape)
    (intersection b c >>= fun bc => union a bc)
    (union a b >>= fun ab => union a c >>= fun ac => intersection ab ac)
  intersection_union : Agree SameValue (c.shape = b.shape ∧ b.shape = a.shape)
    (union b c >>= fun bc => intersection a bc)
    (intersection a b >>= fun ab => intersection a c >>= fun ac => union ab ac)

section Laws

variable {a b c : DenseMatrix Float}

theorem strictlyOrdered (hb : b.shape = a.shape) (hc : c.shape = a.shape) :
    StrictlyOrdered a b c := by
  obtain ⟨r, n, f⟩ := a
  obtain ⟨_, _, g⟩ := b
  obtain ⟨_, _, h⟩ := c
  cases hb
  cases hc
  exact {
    irrefl := not_holds_iff.mp not_holds_less_self
    asymm := fun hless => not_holds_iff.mp (not_holds_less_symm hless)
    trans := holds_less_trans
    greater_iff := by rw [Holds, compare_greater, Holds]
    less_excludes := fun hless => by
      rw [compare_greater]
      exact not_holds_iff.mp (not_holds_less_symm hless)
    equal_excludes := fun hequal => by
      have hback : Holds .equal ⟨r, n, g⟩ ⟨r, n, f⟩ :=
        holds_equal_iff_atMost.mpr (holds_equal_iff_atMost.mp hequal).symm
      rw [compare_greater, ← not_holds_iff, ← not_holds_iff]
      exact ⟨fun hless => (holds_less_iff_atMost.mp hless).2 hequal,
        fun hless => (holds_less_iff_atMost.mp hless).2 hback⟩
    less_iff := by
      rw [holds_less_iff_atMost, not_holds_iff, atMost_iff_pointwise] }

theorem latticeOrdered (ha : a.NaNFree) (hb : b.NaNFree) (hba : b.shape = a.shape)
    (hca : c.shape = a.shape) : LatticeOrdered a b c := by
  have hjoin := exists_isJoin_union ha hb hba
  have hmeet := exists_isMeet_intersection ha hb hba
  obtain ⟨r, n, f⟩ := a
  obtain ⟨_, _, g⟩ := b
  obtain ⟨_, _, h⟩ := c
  cases hba
  cases hca
  exact {
    refl := atMost_iff.mpr fun i j => Binary64.le_refl (ha i j)
    antisymm := holds_equal_iff_atMost
    trans := by
      rw [atMost_iff, atMost_iff, atMost_iff]
      exact fun hab hbc i j => Binary64.le_trans (hab i j) (hbc i j)
    join := hjoin
    meet := hmeet }

theorem distributive (ha : a.NaNFree) (hb : b.NaNFree) (hc : c.NaNFree) : Distributive a b c where
  union_intersection := agree_distributive .union .intersection (fun _ _ _ _ => represents_max)
    (fun _ _ _ _ => represents_min) sup_inf_left ha hb hc
  intersection_union := agree_distributive .intersection .union (fun _ _ _ _ => represents_min)
    (fun _ _ _ _ => represents_max) inf_sup_left ha hb hc

end Laws

/-- Less is a strict partial order on the matrices of one shape, whatever their elements are, and
without NaN less or equal is a distributive lattice up to equality, with the union and the
intersection.  To compare two matrices, to unite them or to intersect them fails exactly if their
shapes differ. -/
theorem compare_lattice_order (a b c : DenseMatrix Float) :
    (b.shape = a.shape → c.shape = a.shape → StrictlyOrdered a b c) ∧
    (a.NaNFree → b.NaNFree → c.NaNFree →
      (b.shape = a.shape → c.shape = a.shape → LatticeOrdered a b c) ∧ Distributive a b c) ∧
    (∀ question, (a.shape = b.shape ∧ ∃ answer, compare question a b = .ok answer) ∨
      (a.shape ≠ b.shape ∧
        compare question a b = .error (.mismatch .comparison a.shape b.shape))) ∧
    Determined (b.shape = a.shape) a.shape (.mismatch .union a.shape b.shape) (union a b) ∧
    Determined (b.shape = a.shape) a.shape (.mismatch .intersection a.shape b.shape)
      (intersection a b) := by
  refine ⟨strictlyOrdered, fun ha hb hc => ⟨latticeOrdered ha hb, distributive ha hb hc⟩, ?_,
    determined_zipWith .union _ a b, determined_zipWith .intersection _ a b⟩
  intro question
  by_cases hshape : a.shape = b.shape
  · exact .inl ⟨hshape, exists_answer question hshape⟩
  · exact .inr ⟨hshape, compare_of_shape_ne hshape question⟩

/-- Between zeros of both signs and an infinity: the first matrix is less than the second only by
their last elements. -/
theorem compare_lattice_order_infinity :
    Holds .less ⟨1, 3, ⟨#v[0, -0, 1]⟩⟩ ⟨1, 3, ⟨#v[-0, 0, 1 / 0]⟩⟩ ∧
    StrictlyOrdered ⟨1, 3, ⟨#v[0, -0, 1]⟩⟩ ⟨1, 3, ⟨#v[-0, 0, 1 / 0]⟩⟩ ⟨1, 3, ⟨#v[0, 2, 0 / 0]⟩⟩ ∧
    LatticeOrdered ⟨1, 3, ⟨#v[0, -0, 1]⟩⟩ ⟨1, 3, ⟨#v[-0, 0, 1 / 0]⟩⟩ ⟨1, 3, ⟨#v[0, 2, 1 / 0]⟩⟩ ∧
    Distributive ⟨1, 3, ⟨#v[0, -0, 1]⟩⟩ ⟨1, 3, ⟨#v[-0, 0, 1 / 0]⟩⟩ ⟨1, 3, ⟨#v[0, 2, 1 / 0]⟩⟩ := by
  have hlattice := (compare_lattice_order ⟨1, 3, ⟨#v[0, -0, 1]⟩⟩ ⟨1, 3, ⟨#v[-0, 0, 1 / 0]⟩⟩
    ⟨1, 3, ⟨#v[0, 2, 1 / 0]⟩⟩).2.1 (by decide) (by decide) (by decide)
  exact ⟨rfl, (compare_lattice_order _ _ _).1 rfl rfl, hlattice.1 rfl rfl, hlattice.2⟩

end DenseMatrix

end MatrixScript
