import MatrixScript.Proofs.Relation.Lattice

/-!
# The semiring of relations

Without NaN, the max-min product is associative and distributes over the union on both sides, and
on matrices with elements between zero and one the identity matrices are its units.  Nothing is
rounded, so these laws hold of the elements' values as they stand; only the sign of a zero may
depend on the order in which maxima and minima are taken.  Both sides of a law fail on the same
shapes.
-/

namespace MatrixScript

namespace DenseMatrix

open Binary64

/-! ## Joins of meets -/

section Chain

variable {m n : ℕ}

/-- A path over two inner indices can be cut at either of them. -/
theorem iSup_inf_assoc (f : Fin m → EReal) (g : Fin m → Fin n → EReal) (h : Fin n → EReal) :
    ⨆ k, (⨆ l, f l ⊓ g l k) ⊓ h k = ⨆ l, f l ⊓ ⨆ k, g l k ⊓ h k := by
  simp only [iSup_inf_eq, inf_iSup_eq, inf_assoc]
  exact iSup_comm

/-- Between the bounds of the values, the bounds select one of them. -/
theorem iSup_inf_unit {f : Fin n → EReal} {low high : EReal}
    (hbounds : ∀ k, low ≤ f k ∧ f k ≤ high) (j : Fin n) :
    ⨆ k : Fin n, f k ⊓ (if k.val = j.val then high else low) = f j := by
  apply le_antisymm
  · refine iSup_le fun k => ?_
    split
    · rename_i hk
      rw [Fin.eq_of_val_eq hk]
      exact inf_le_left
    · exact inf_le_right.trans (hbounds j).1
  · refine le_iSup_of_le j ?_
    rw [if_pos rfl]
    exact le_inf le_rfl (hbounds j).2

end Chain

/-! ## Laws -/

section Laws

variable {a b c : DenseMatrix Float}

theorem denotes_union {s t : Shape} {F G : Nat → Nat → EReal} (ha : a.shape = s)
    (hF : Elements Represents F a) (hb : b.shape = t) (hG : Elements Represents G b) :
    Denotes Represents (t = s) s (fun i j => F i j ⊔ G i j) (union a b) :=
  denotes_zipWith .union (fun _ _ _ _ => represents_max) ha hF hb hG

theorem denotes_maxMin {s t : Shape} {F G : Nat → Nat → EReal} (ha : a.shape = s)
    (hF : Elements Represents F a) (hb : b.shape = t) (hG : Elements Represents G b) :
    Denotes Represents (t.rows = s.cols) ⟨s.rows, t.cols⟩
      (fun i j => ⨆ k : Fin s.cols, F i k ⊓ G k j) (maxMin a b) := by
  rw [maxMin_eq_product]
  exact denotes_product .maxMinProduct represents_maximum (fun _ _ _ _ => represents_min)
    ha hF hb hG

/-- All elements are between zero and one. -/
def Graded (m : DenseMatrix Float) : Prop := ∀ i j, 0 ≤ m.get i j ∧ m.get i j ≤ 1

instance (m : DenseMatrix Float) : Decidable m.Graded :=
  inferInstanceAs (Decidable (∀ i j, 0 ≤ m.get i j ∧ m.get i j ≤ 1))

theorem maxMin_assoc (ha : a.NaNFree) (hb : b.NaNFree) (hc : c.NaNFree) :
    Agree SameValue (b.rows = a.cols ∧ c.rows = b.cols)
      (maxMin a b >>= fun ab => maxMin ab c) (maxMin b c >>= fun bc => maxMin a bc) := by
  obtain ⟨F, hF⟩ := ha.exists_values
  obtain ⟨G, hG⟩ := hb.exists_values
  obtain ⟨H, hH⟩ := hc.exists_values
  have hleft := (denotes_maxMin rfl hF rfl hG).bind fun ab hab hFG =>
    denotes_maxMin hab hFG rfl hH
  have hright := (denotes_maxMin rfl hG rfl hH).bind fun bc hbc hGH =>
    denotes_maxMin rfl hF hbc hGH
  exact agree_of_represents hleft hright and_comm fun _ =>
    ⟨rfl, fun i j _ _ => iSup_inf_assoc _ _ _⟩

theorem maxMin_union (ha : a.NaNFree) (hb : b.NaNFree) (hc : c.NaNFree) :
    Agree SameValue (c.shape = b.shape ∧ b.rows = a.cols)
      (union b c >>= fun bc => maxMin a bc)
      (maxMin a b >>= fun ab => maxMin a c >>= fun ac => union ab ac) := by
  obtain ⟨F, hF⟩ := ha.exists_values
  obtain ⟨G, hG⟩ := hb.exists_values
  obtain ⟨H, hH⟩ := hc.exists_values
  have hleft := (denotes_union rfl hG rfl hH).bind fun bc hbc hGH =>
    denotes_maxMin rfl hF hbc hGH
  have hright := (denotes_maxMin rfl hF rfl hG).bind fun ab hab hFG =>
    (denotes_maxMin rfl hF rfl hH).bind fun ac hac hFH => denotes_union hab hFG hac hFH
  refine agree_of_represents hleft hright ?_ fun _ => ⟨rfl, fun i j _ _ => ?_⟩
  · simp only [shape, Shape.mk.injEq, true_and]
    constructor
    · rintro ⟨⟨hrows, hcols⟩, hinner⟩
      exact ⟨hinner, hrows.trans hinner, hcols⟩
    · rintro ⟨hinner, hinner', hcols⟩
      exact ⟨⟨hinner'.trans hinner.symm, hcols⟩, hinner⟩
  · simp only [inf_sup_left, iSup_sup_eq]

theorem union_maxMin (ha : a.NaNFree) (hb : b.NaNFree) (hc : c.NaNFree) :
    Agree SameValue (b.shape = a.shape ∧ c.rows = a.cols)
      (union a b >>= fun ab => maxMin ab c)
      (maxMin a c >>= fun ac => maxMin b c >>= fun bc => union ac bc) := by
  obtain ⟨F, hF⟩ := ha.exists_values
  obtain ⟨G, hG⟩ := hb.exists_values
  obtain ⟨H, hH⟩ := hc.exists_values
  have hleft := (denotes_union rfl hF rfl hG).bind fun ab hab hFG =>
    denotes_maxMin hab hFG rfl hH
  have hright := (denotes_maxMin rfl hF rfl hH).bind fun ac hac hFH =>
    (denotes_maxMin rfl hG rfl hH).bind fun bc hbc hGH => denotes_union hac hFH hbc hGH
  refine agree_of_represents hleft hright ?_ fun hfit => ⟨rfl, fun i j _ _ => ?_⟩
  · simp only [shape, Shape.mk.injEq, and_true]
    constructor
    · rintro ⟨⟨hrows, hcols⟩, hinner⟩
      exact ⟨hinner, hinner.trans hcols.symm, hrows⟩
    · rintro ⟨hinner, hinner', hrows⟩
      exact ⟨⟨hrows, hinner'.symm.trans hinner⟩, hinner⟩
  · -- Both products on the right run over the columns that the operands of the union share.
    rw [hfit.1]
    simp only [inf_sup_right, iSup_sup_eq]

theorem exists_ok_of_represents {fits : Prop} {s : Shape} {F G : Nat → Nat → EReal}
    {m : DenseMatrix Float}
    {x : Except (MatrixError Float) (DenseMatrix Float)} (hx : Denotes Represents fits s F x)
    (hfits : fits) (hm : m.shape = s) (hG : Elements Represents G m)
    (hsame : ∀ i j, i < s.rows → j < s.cols → F i j = G i j) :
    ∃ n, x = .ok n ∧ Pointwise SameValue n m := by
  have hagree := agree_of_represents hx (denotes_ok hm hG) (iff_true_intro hfits) fun _ =>
    ⟨rfl, hsame⟩
  obtain ⟨n, _, hn, ⟨⟩, hpointwise⟩ := hagree.of_fits hfits
  exact ⟨n, hn, hpointwise⟩

theorem elements_identity (r c : Nat) :
    Elements Represents (fun i j => if i = j then value 1 else value 0) (identity r c) := by
  refine elements_ofFn fun i j => ?_
  split
  · exact ⟨by decide, rfl⟩
  · exact ⟨by decide, rfl⟩

theorem Graded.nanFree (h : a.Graded) : a.NaNFree := fun i j => (le_iff.mp (h i j).1).2.1

theorem Graded.bounds (h : a.Graded) {F : Nat → Nat → EReal} (hF : Elements Represents F a)
    (i : Fin a.rows) (j : Fin a.cols) : value 0 ≤ F i j ∧ F i j ≤ value 1 := by
  rw [← (hF i j).2]
  exact ⟨(le_iff.mp (h i j).1).2.2, (le_iff.mp (h i j).2).2.2⟩

theorem maxMin_identity (ha : a.Graded) :
    ∃ m, maxMin a (identity a.cols a.cols) = .ok m ∧ Pointwise SameValue m a := by
  obtain ⟨F, hF⟩ := ha.nanFree.exists_values
  have hproduct := denotes_maxMin rfl hF rfl (elements_identity a.cols a.cols)
  refine exists_ok_of_represents hproduct rfl rfl hF fun i j hi hj => ?_
  exact iSup_inf_unit (fun k => ha.bounds hF ⟨i, hi⟩ k) ⟨j, hj⟩

theorem identity_maxMin (ha : a.Graded) :
    ∃ m, maxMin (identity a.rows a.rows) a = .ok m ∧ Pointwise SameValue m a := by
  obtain ⟨F, hF⟩ := ha.nanFree.exists_values
  have hproduct := denotes_maxMin rfl (elements_identity a.rows a.rows) rfl hF
  refine exists_ok_of_represents hproduct rfl rfl hF fun i j hi hj => ?_
  have hcomm (k : Fin a.rows) : (if i = k.val then value 1 else value 0) ⊓ F k j =
      F k j ⊓ (if k.val = i then value 1 else value 0) := by
    rw [inf_comm]
    simp only [eq_comm]
  exact (iSup_congr hcomm).trans (iSup_inf_unit (fun k => ha.bounds hF k ⟨j, hj⟩) ⟨i, hi⟩)

end Laws

/-- The max-min product is associative and distributes over the union on both sides, and the
identities are its units on matrices of elements between zero and one; all up to the signs of
zeros, and the two sides of each law fail on the same shapes. -/
theorem maxMin_semiring (a b c : DenseMatrix Float) (ha : a.NaNFree) (hb : b.NaNFree)
    (hc : c.NaNFree) :
    Agree SameValue (b.rows = a.cols ∧ c.rows = b.cols)
      (maxMin a b >>= fun ab => maxMin ab c) (maxMin b c >>= fun bc => maxMin a bc) ∧
    Agree SameValue (c.shape = b.shape ∧ b.rows = a.cols)
      (union b c >>= fun bc => maxMin a bc)
      (maxMin a b >>= fun ab => maxMin a c >>= fun ac => union ab ac) ∧
    Agree SameValue (b.shape = a.shape ∧ c.rows = a.cols)
      (union a b >>= fun ab => maxMin ab c)
      (maxMin a c >>= fun ac => maxMin b c >>= fun bc => union ac bc) ∧
    (a.Graded →
      (∃ m, maxMin a (identity a.cols a.cols) = .ok m ∧ Pointwise SameValue m a) ∧
      ∃ m, maxMin (identity a.rows a.rows) a = .ok m ∧ Pointwise SameValue m a) :=
  ⟨maxMin_assoc ha hb hc, maxMin_union ha hb hc, union_maxMin ha hb hc,
    fun ha => ⟨maxMin_identity ha, identity_maxMin ha⟩⟩

/-- A product of three matrices with zeros of both signs and the infinities. -/
theorem maxMin_semiring_infinity :
    (∃ m n,
      (maxMin ⟨2, 2, ⟨#v[0, 1, -0, 1 / 2]⟩⟩ ⟨2, 2, ⟨#v[-0, 1 / 0, -1 / 0, 3]⟩⟩ >>= fun ab =>
        maxMin ab ⟨2, 1, ⟨#v[2, 1 / 0]⟩⟩) = .ok m ∧
      (maxMin ⟨2, 2, ⟨#v[-0, 1 / 0, -1 / 0, 3]⟩⟩ ⟨2, 1, ⟨#v[2, 1 / 0]⟩⟩ >>= fun bc =>
        maxMin ⟨2, 2, ⟨#v[0, 1, -0, 1 / 2]⟩⟩ bc) = .ok n ∧
      Pointwise SameValue m n) ∧
    ∃ m, maxMin ⟨2, 2, ⟨#v[0, 1, -0, 1 / 2]⟩⟩ (identity 2 2) = .ok m ∧
      Pointwise SameValue m ⟨2, 2, ⟨#v[0, 1, -0, 1 / 2]⟩⟩ := by
  have hlaws := maxMin_semiring ⟨2, 2, ⟨#v[0, 1, -0, 1 / 2]⟩⟩
    ⟨2, 2, ⟨#v[-0, 1 / 0, -1 / 0, 3]⟩⟩ ⟨2, 1, ⟨#v[2, 1 / 0]⟩⟩ (by decide) (by decide) (by decide)
  exact ⟨hlaws.1.of_fits ⟨rfl, rfl⟩, (hlaws.2.2.2 (by decide)).1⟩

end DenseMatrix

end MatrixScript
