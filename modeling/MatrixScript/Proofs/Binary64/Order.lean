import Mathlib.Data.EReal.Basic
import Mathlib.Data.Fin.SuccPred
import Mathlib.Order.Compare
import Mathlib.Tactic.Tauto
import MatrixScript.Proofs.Binary64.Words

/-!
# The order of machine numbers

A machine number that is one stands for an extended real number, `Binary64.value`.  The
comparisons look at exponents before mantissas; as every mantissa has its full length unless the
exponent is the least there is, that comes to comparing the numbers themselves.  So away from NaN
the machine numbers are a chain in which only the two zeros coincide, the larger and the smaller
of two are its join and its meet, and a running maximum that starts from minus infinity is a join
over all indices.
-/

namespace MatrixScript

namespace Binary64

open Float.Model Float.Model.UnpackedFloat

/-! ## Values -/

/-- A machine number other than NaN. -/
def IsNumber (x : Float) : Prop := x.isNaN = false

instance (x : Float) : Decidable (IsNumber x) := inferInstanceAs (Decidable (_ = _))

/-- The real number `m * 2 ^ e`. -/
noncomputable def dyadic (m e : ℤ) : ℝ := m * ((2 : ℕ) : ℝ) ^ e

/-- What the parts of a machine number stand for; NaN, which stands for nothing, gives zero. -/
noncomputable def extended : UnpackedFloat → EReal
  | .notANumber => 0
  | .infinity .negative => ⊥
  | .infinity .positive => ⊤
  | .zero _ => 0
  | .finite s m e _ => (dyadic (s.apply m) e : ℝ)

/-- The number that a machine number stands for. -/
noncomputable def value (x : Float) : EReal := extended (parts x)

theorem isNumber_iff {x : Float} : IsNumber x ↔ parts x ≠ .notANumber := by
  change (parts x).isNaN = false ↔ _
  cases parts x with
  | notANumber => exact iff_of_false (by decide) fun hne => hne rfl
  | zero | infinity | finite => exact iff_of_true rfl (by rintro ⟨⟩)

theorem dyadic_neg (m e : ℤ) : dyadic (-m) e = -dyadic m e := by
  simp [dyadic]

theorem two_zpow_pos (e : ℤ) : 0 < ((2 : ℕ) : ℝ) ^ e :=
  zpow_pos (Nat.cast_pos.mpr Nat.two_pos) e

theorem dyadic_pos {m : ℕ} (hm : 0 < m) (e : ℤ) : 0 < dyadic m e :=
  mul_pos (by exact_mod_cast hm) (two_zpow_pos e)

/-! ## Comparing exponents before mantissas -/

/-- A mantissa is no longer than its length, and as long unless the exponent is the least one. -/
def Normalised (m : ℕ) (e : ℤ) : Prop :=
  m < 2 * hidden ∧ minExponent ≤ e ∧ (hidden ≤ m ∨ e = minExponent)

theorem normalised_parts {x : Float} {s : Sign} {m : ℕ} {e : ℤ} {hm : 0 < m}
    (h : parts x = .finite s m e hm) : Normalised m e := by
  obtain ⟨s', exponent, fraction, hstands⟩ := exists_standsFor_parts x
  rw [h] at hstands
  cases hstands with
  | subnormal hpos hlt => exact ⟨by omega, le_rfl, .inr rfl⟩
  | normal he he' hlt hm hq => exact ⟨by omega, by omega, .inl (by omega)⟩

theorem dyadic_lt_of_exponent_lt {m m' : ℕ} {e e' : ℤ} (h : Normalised m e)
    (h' : Normalised m' e') (he : e < e') : dyadic m e < dyadic m' e' := by
  obtain ⟨hlt, hmin, -⟩ := h
  obtain ⟨-, -, hfull⟩ := h'
  have hmantissa : m < m' * 2 := by
    rcases hfull with hfull | hleast
    · omega
    · omega
  have htwo : ((2 : ℕ) : ℝ) ≠ 0 := by norm_num
  unfold dyadic
  calc (m : ℤ) * ((2 : ℕ) : ℝ) ^ e
      < ((m' * 2 : ℕ) : ℝ) * ((2 : ℕ) : ℝ) ^ e := by
        apply mul_lt_mul_of_pos_right _ (two_zpow_pos e)
        exact_mod_cast hmantissa
    _ = (m' : ℤ) * ((2 : ℕ) : ℝ) ^ (e + 1) := by
        rw [zpow_add_one₀ htwo]
        push_cast
        ring
    _ ≤ (m' : ℤ) * ((2 : ℕ) : ℝ) ^ e' := by
        apply mul_le_mul_of_nonneg_left
        · exact zpow_le_zpow_right₀ (by norm_num) he
        · positivity

theorem dyadic_lt_of_mantissa_lt {m m' : ℤ} (h : m < m') (e : ℤ) : dyadic m e < dyadic m' e :=
  mul_lt_mul_of_pos_right (Int.cast_lt.mpr h) (two_zpow_pos e)

theorem compares_dyadic {m m' : ℕ} {e e' : ℤ} (h : Normalised m e) (h' : Normalised m' e') :
    ((compare e e').then (compare m m')).Compares (dyadic m e) (dyadic m' e') := by
  rcases lt_trichotomy e e' with he | rfl | he
  · rw [compare_lt_iff_lt.mpr he]
    exact dyadic_lt_of_exponent_lt h h' he
  · rw [compare_eq_iff_eq.mpr rfl]
    rcases lt_trichotomy m m' with hm | rfl | hm
    · rw [compare_lt_iff_lt.mpr hm]
      exact dyadic_lt_of_mantissa_lt (Int.ofNat_lt.mpr hm) e
    · rw [compare_eq_iff_eq.mpr rfl]
      exact rfl
    · rw [compare_gt_iff_gt.mpr hm]
      exact dyadic_lt_of_mantissa_lt (Int.ofNat_lt.mpr hm) e
  · rw [compare_gt_iff_gt.mpr he]
    exact dyadic_lt_of_exponent_lt h' h he

/-! ## Comparing values -/

/-- Two numbers in their parts compare as what they stand for. -/
def ComparesValues (u v : UnpackedFloat) : Prop :=
  ∃ o, u.compare v = some o ∧ o.Compares (extended u) (extended v)

section Parts

variable {u : UnpackedFloat} {s : Sign} {m : ℕ} {e : ℤ} {hm : 0 < m}

theorem extended_finite_pos : 0 < extended (.finite .positive m e hm) :=
  EReal.coe_pos.mpr (dyadic_pos hm e)

theorem extended_finite_neg : extended (.finite .negative m e hm) < 0 := by
  have hneg : dyadic (-m) e < 0 := by
    rw [dyadic_neg]
    exact neg_neg_of_pos (dyadic_pos hm e)
  exact EReal.coe_lt_coe_iff.mpr hneg

theorem comparesValues_negInfinity (hu : u ≠ .notANumber) :
    ComparesValues (.infinity .negative) u := by
  cases u with
  | notANumber => exact absurd rfl hu
  | infinity s =>
      cases s with
      | negative => exact ⟨.eq, rfl, rfl⟩
      | positive => exact ⟨.lt, rfl, bot_lt_top⟩
  | zero s => exact ⟨.lt, rfl, EReal.bot_lt_zero⟩
  | finite s m e hm => exact ⟨.lt, rfl, EReal.bot_lt_coe _⟩

theorem comparesValues_infinity (hu : u ≠ .notANumber) :
    ComparesValues (.infinity .positive) u := by
  cases u with
  | notANumber => exact absurd rfl hu
  | infinity s =>
      cases s with
      | negative => exact ⟨.gt, rfl, bot_lt_top⟩
      | positive => exact ⟨.eq, rfl, rfl⟩
  | zero s => exact ⟨.gt, rfl, EReal.zero_lt_top⟩
  | finite s m e hm => exact ⟨.gt, rfl, EReal.coe_lt_top _⟩

theorem comparesValues_zero (hu : u ≠ .notANumber) : ComparesValues (.zero s) u := by
  cases u with
  | notANumber => exact absurd rfl hu
  | infinity t =>
      cases t with
      | negative => exact ⟨.gt, rfl, EReal.bot_lt_zero⟩
      | positive => exact ⟨.lt, rfl, EReal.zero_lt_top⟩
  | zero t => exact ⟨.eq, rfl, rfl⟩
  | finite t m e hm =>
      cases t with
      | negative => exact ⟨.gt, rfl, extended_finite_neg⟩
      | positive => exact ⟨.lt, rfl, extended_finite_pos⟩

theorem comparesValues_finite {t : Sign} {m' : ℕ} {e' : ℤ} {hm' : 0 < m'}
    (h : Normalised m e) (h' : Normalised m' e') :
    ComparesValues (.finite s m e hm) (.finite t m' e' hm') := by
  have hcompares := compares_dyadic h h'
  cases s with
  | positive =>
      cases t with
      | positive => exact ⟨_, rfl, EReal.coe_strictMono.compares.mpr hcompares⟩
      | negative => exact ⟨.gt, rfl, extended_finite_neg.trans extended_finite_pos⟩
  | negative =>
      cases t with
      | positive => exact ⟨.lt, rfl, extended_finite_neg.trans extended_finite_pos⟩
      | negative =>
          refine ⟨_, rfl, Ordering.compares_swap.mpr (EReal.coe_strictMono.compares.mpr ?_)⟩
          change Ordering.Compares _ (dyadic (-m') e') (dyadic (-m) e)
          rw [dyadic_neg, dyadic_neg]
          have hanti : StrictAnti fun r : ℝ => -r := fun _ _ h => neg_lt_neg h
          exact hanti.compares.mpr hcompares

end Parts

theorem comparesValues_parts {x y : Float} (hx : IsNumber x) (hy : IsNumber y) :
    ComparesValues (parts x) (parts y) := by
  rw [isNumber_iff] at hx hy
  cases hu : parts x with
  | notANumber => exact absurd hu hx
  | infinity s =>
      cases s with
      | negative => exact comparesValues_negInfinity hy
      | positive => exact comparesValues_infinity hy
  | zero s => exact comparesValues_zero hy
  | finite s m e hm =>
      cases hv : parts y with
      | notANumber => exact absurd hv hy
      | infinity t =>
          cases t with
          | negative => exact ⟨.gt, rfl, EReal.bot_lt_coe _⟩
          | positive => exact ⟨.lt, rfl, EReal.coe_lt_top _⟩
      | zero t =>
          cases s with
          | negative => exact ⟨.lt, rfl, extended_finite_neg⟩
          | positive => exact ⟨.gt, rfl, extended_finite_pos⟩
      | finite t m' e' hm' =>
          exact comparesValues_finite (normalised_parts hu) (normalised_parts hv)

/-! ## The comparisons of the language -/

section Comparisons

variable {x y : Float}

theorem compare_eq_none (h : ¬ (IsNumber x ∧ IsNumber y)) : (parts x).compare (parts y) = none := by
  rw [isNumber_iff, isNumber_iff, not_and_or, not_not, not_not] at h
  rcases h with h | h
  · rw [h]
    rfl
  · rw [h]
    cases parts x <;> rfl

theorem lt_iff : x < y ↔ IsNumber x ∧ IsNumber y ∧ value x < value y := by
  have hlt : x < y ↔ ((parts x).compare (parts y) == some .lt) = true := decide_eq_true_iff
  rw [hlt]
  by_cases h : IsNumber x ∧ IsNumber y
  · obtain ⟨o, ho, hcompares⟩ := comparesValues_parts h.1 h.2
    rw [ho, beq_iff_eq, Option.some_inj, hcompares.eq_lt, ← and_assoc, and_iff_right h]
    rfl
  · rw [compare_eq_none h, ← and_assoc]
    simp [h]

theorem beq_iff : (x == y) = true ↔ IsNumber x ∧ IsNumber y ∧ value x = value y := by
  change ((parts x).compare (parts y) == some .eq) = true ↔ _
  by_cases h : IsNumber x ∧ IsNumber y
  · obtain ⟨o, ho, hcompares⟩ := comparesValues_parts h.1 h.2
    rw [ho, beq_iff_eq, Option.some_inj, hcompares.eq_eq, ← and_assoc, and_iff_right h]
    rfl
  · rw [compare_eq_none h, ← and_assoc]
    simp [h]

theorem le_iff : x ≤ y ↔ IsNumber x ∧ IsNumber y ∧ value x ≤ value y := by
  have hle : x ≤ y ↔ ((parts x).compare (parts y)).any Ordering.isLE = true := decide_eq_true_iff
  rw [hle]
  by_cases h : IsNumber x ∧ IsNumber y
  · obtain ⟨o, ho, hcompares⟩ := comparesValues_parts h.1 h.2
    have horder : o.isLE = true ↔ extended (parts x) ≤ extended (parts y) := by
      rw [← not_lt, ← hcompares.eq_gt]
      cases o <;> simp
    rw [ho, Option.any_some, horder, ← and_assoc, and_iff_right h]
    rfl
  · rw [compare_eq_none h, ← and_assoc]
    simp [h]

/-- NaN is not below itself either. -/
protected theorem lt_irrefl (x : Float) : ¬ x < x := fun h =>
  (lt_iff.mp h).2.2.false

protected theorem le_trans {z : Float} (hxy : x ≤ y) (hyz : y ≤ z) : x ≤ z := by
  obtain ⟨hx, -, hxy⟩ := le_iff.mp hxy
  obtain ⟨-, hz, hyz⟩ := le_iff.mp hyz
  exact le_iff.mpr ⟨hx, hz, hxy.trans hyz⟩

protected theorem lt_of_lt_of_le {z : Float} (hxy : x < y) (hyz : y ≤ z) : x < z := by
  obtain ⟨hx, -, hxy⟩ := lt_iff.mp hxy
  obtain ⟨-, hz, hyz⟩ := le_iff.mp hyz
  exact lt_iff.mpr ⟨hx, hz, hxy.trans_le hyz⟩

theorem lt_iff_le_and_not_beq : x < y ↔ x ≤ y ∧ ¬ (x == y) = true := by
  rw [lt_iff, le_iff, beq_iff]
  constructor
  · rintro ⟨hx, hy, hlt⟩
    exact ⟨⟨hx, hy, hlt.le⟩, fun h => hlt.ne h.2.2⟩
  · rintro ⟨⟨hx, hy, hle⟩, hne⟩
    exact ⟨hx, hy, lt_of_le_of_ne hle fun h => hne ⟨hx, hy, h⟩⟩

theorem beq_iff_le_and_le : (x == y) = true ↔ x ≤ y ∧ y ≤ x := by
  rw [beq_iff, le_iff, le_iff]
  constructor
  · rintro ⟨hx, hy, heq⟩
    exact ⟨⟨hx, hy, heq.le⟩, hy, hx, heq.ge⟩
  · rintro ⟨⟨hx, hy, hxy⟩, -, -, hyx⟩
    exact ⟨hx, hy, hxy.antisymm hyx⟩

theorem sign_eq_of_compare : ∀ {s t : Sign}, compare s t = .eq → s = t
  | .negative, .negative, _ => rfl
  | .positive, .positive, _ => rfl

theorem finite_eq_of_compare {s : Sign} {m m' : ℕ} {e e' : ℤ} {hm : 0 < m} {hm' : 0 < m'}
    (h : (compare e e').then (compare m m') = .eq) :
    UnpackedFloat.finite s m e hm = .finite s m' e' hm' := by
  obtain ⟨hexponent, hmantissa⟩ := Ordering.then_eq_eq.mp h
  cases compare_eq_iff_eq.mp hexponent
  cases compare_eq_iff_eq.mp hmantissa
  rfl

theorem eq_or_zeros_of_compare {u v : UnpackedFloat} (h : u.compare v = some .eq) :
    u = v ∨ (∃ s, u = .zero s) ∧ ∃ s, v = .zero s := by
  -- Unlike kinds and unlike signs are told apart at once, by `cases h`.
  cases u with
  | notANumber => cases h
  | infinity s =>
      cases v with
      | infinity t => exact .inl (congrArg _ (sign_eq_of_compare (Option.some_inj.mp h)))
      | notANumber | zero | finite => cases s <;> cases h
  | zero s =>
      cases v with
      | zero t => exact .inr ⟨⟨s, rfl⟩, t, rfl⟩
      | notANumber => cases h
      | infinity t | finite t => cases t <;> cases h
  | finite s m e hm =>
      cases v with
      | notANumber | zero => cases s <;> cases h
      | infinity t => cases s <;> cases t <;> cases h
      | finite t m' e' hm' =>
          cases s with
          | positive =>
              cases t with
              | positive => exact .inl (finite_eq_of_compare (Option.some_inj.mp h))
              | negative => cases h
          | negative =>
              cases t with
              | positive => cases h
              | negative =>
                  have hswap := Option.some_inj.mp h
                  exact .inl (finite_eq_of_compare (Ordering.swap_eq_eq.mp hswap))

/-- Only zeros are told apart by their signs alone. -/
theorem sameValue_iff (hx : IsNumber x) (hy : IsNumber y) :
    SameValue x y ↔ value x = value y := by
  constructor
  · rintro (rfl | ⟨hx, hy⟩)
    · rfl
    · obtain ⟨s, hs⟩ := beq_zero_iff.mp hx
      obtain ⟨t, ht⟩ := beq_zero_iff.mp hy
      rw [value, value, hs, ht]
      rfl
  · intro h
    obtain ⟨o, ho, hcompares⟩ := comparesValues_parts hx hy
    rw [hcompares.eq_eq.mpr h] at ho
    rcases eq_or_zeros_of_compare ho with heq | ⟨hs, ht⟩
    · exact .inl (eq_of_parts_eq heq)
    · exact .inr ⟨beq_zero_iff.mpr hs, beq_zero_iff.mpr ht⟩

end Comparisons

/-! ## Joins and meets -/

/-- A machine number other than NaN, with the number that it stands for. -/
def Represents (x : Float) (v : EReal) : Prop := IsNumber x ∧ value x = v

section Lattice

variable {x y : Float} {u v : EReal}

theorem Represents.sameValue (hx : Represents x v) (hy : Represents y v) : SameValue x y :=
  (sameValue_iff hx.1 hy.1).mpr (hx.2.trans hy.2.symm)

theorem max_eq_ite (hx : IsNumber x) (hy : IsNumber y) : max x y = if x < y then y else x := by
  rw [max, hx, hy]
  rfl

theorem min_eq_ite (hx : IsNumber x) (hy : IsNumber y) : min x y = if y < x then y else x := by
  rw [min, hx, hy]
  rfl

theorem represents_max (hx : Represents x u) (hy : Represents y v) :
    Represents (max x y) (u ⊔ v) := by
  obtain ⟨hx, rfl⟩ := hx
  obtain ⟨hy, rfl⟩ := hy
  rw [max_eq_ite hx hy]
  split
  · rename_i h
    exact ⟨hy, (sup_of_le_right (lt_iff.mp h).2.2.le).symm⟩
  · rename_i h
    have hle : value y ≤ value x := not_lt.mp fun hlt => h (lt_iff.mpr ⟨hx, hy, hlt⟩)
    exact ⟨hx, (sup_of_le_left hle).symm⟩

theorem represents_min (hx : Represents x u) (hy : Represents y v) :
    Represents (min x y) (u ⊓ v) := by
  obtain ⟨hx, rfl⟩ := hx
  obtain ⟨hy, rfl⟩ := hy
  rw [min_eq_ite hx hy]
  split
  · rename_i h
    exact ⟨hy, (inf_of_le_right (lt_iff.mp h).2.2.le).symm⟩
  · rename_i h
    have hle : value x ≤ value y := not_lt.mp fun hlt => h (lt_iff.mpr ⟨hy, hx, hlt⟩)
    exact ⟨hx, (inf_of_le_left hle).symm⟩

protected theorem le_refl (hx : IsNumber x) : x ≤ x := le_iff.mpr ⟨hx, hx, le_rfl⟩

protected theorem max_le_iff {z : Float} (hx : IsNumber x) (hy : IsNumber y) :
    max x y ≤ z ↔ x ≤ z ∧ y ≤ z := by
  obtain ⟨hmax, hvalue⟩ := represents_max ⟨hx, rfl⟩ ⟨hy, rfl⟩
  rw [le_iff, le_iff, le_iff, hvalue, sup_le_iff]
  tauto

protected theorem le_min_iff {z : Float} (hx : IsNumber x) (hy : IsNumber y) :
    z ≤ min x y ↔ z ≤ x ∧ z ≤ y := by
  obtain ⟨hmin, hvalue⟩ := represents_min ⟨hx, rfl⟩ ⟨hy, rfl⟩
  rw [le_iff, le_iff, le_iff, hvalue, le_inf_iff]
  tauto

theorem represents_negInfinity : Represents Scalar.negInfinity ⊥ :=
  ⟨by decide, rfl⟩

theorem iSup_fin_succ {n : ℕ} (f : Fin (n + 1) → EReal) :
    ⨆ k, f k = (⨆ k : Fin n, f k.castSucc) ⊔ f (Fin.last n) := by
  apply eq_of_forall_ge_iff
  intro bound
  rw [iSup_le_iff, sup_le_iff, iSup_le_iff, Fin.forall_fin_succ']

/-- A running maximum is the join of all the values. -/
theorem represents_maximum {n : ℕ} {f : Fin n → Float} {g : Fin n → EReal}
    (h : ∀ k, Represents (f k) (g k)) : Represents (Scalar.maximum f) (⨆ k, g k) := by
  induction n with
  | zero =>
      rw [Scalar.maximum, Fin.foldl_zero, iSup_of_empty]
      exact represents_negInfinity
  | succ n ih =>
      rw [Scalar.maximum, Fin.foldl_succ_last, iSup_fin_succ]
      exact represents_max (ih fun k => h k.castSucc) (h (Fin.last n))

end Lattice

/-! ## The other operand of NaN -/

section NaN

variable {x y x' y' : Float} {v : EReal}

/-- There is one NaN only. -/
theorem eq_of_not_isNumber (hx : ¬ IsNumber x) (hy : ¬ IsNumber y) : x = y := by
  rw [isNumber_iff, not_not] at hx hy
  exact eq_of_parts_eq (hx.trans hy.symm)

theorem max_of_left_not_isNumber (hx : ¬ IsNumber x) (y : Float) : max x y = y :=
  if_pos (Bool.eq_true_of_not_eq_false hx)

theorem min_of_left_not_isNumber (hx : ¬ IsNumber x) (y : Float) : min x y = y :=
  if_pos (Bool.eq_true_of_not_eq_false hx)

theorem max_of_right_not_isNumber (x : Float) (hy : ¬ IsNumber y) : max x y = x := by
  by_cases hx : IsNumber x
  · rw [max, hx, Bool.eq_true_of_not_eq_false hy]
    rfl
  · rw [max_of_left_not_isNumber hx, eq_of_not_isNumber hx hy]

theorem min_of_right_not_isNumber (x : Float) (hy : ¬ IsNumber y) : min x y = x := by
  by_cases hx : IsNumber x
  · rw [min, hx, Bool.eq_true_of_not_eq_false hy]
    rfl
  · rw [min_of_left_not_isNumber hx, eq_of_not_isNumber hx hy]

theorem SameValue.isNumber (h : SameValue x y) (hx : IsNumber x) : IsNumber y := by
  rcases h with rfl | ⟨-, hy⟩
  · exact hx
  · exact (beq_iff.mp hy).1

theorem SameValue.represents (h : SameValue x y) (hx : Represents x v) : Represents y v :=
  have hy := h.isNumber hx.1
  ⟨hy, ((sameValue_iff hx.1 hy).mp h).symm.trans hx.2⟩

theorem sameValue_max (h : SameValue x y) (h' : SameValue x' y') :
    SameValue (max x x') (max y y') := by
  by_cases hx : IsNumber x
  · by_cases hx' : IsNumber x'
    · have hleft := represents_max ⟨hx, rfl⟩ ⟨hx', rfl⟩
      have hright := represents_max (h.represents ⟨hx, rfl⟩) (h'.represents ⟨hx', rfl⟩)
      exact hleft.sameValue hright
    · have hy' : ¬ IsNumber y' := fun hy' => hx' (h'.symm.isNumber hy')
      rw [max_of_right_not_isNumber _ hx', max_of_right_not_isNumber _ hy']
      exact h
  · have hy : ¬ IsNumber y := fun hy => hx (h.symm.isNumber hy)
    rw [max_of_left_not_isNumber hx, max_of_left_not_isNumber hy]
    exact h'

/-- The smaller of two numbers is the same in either order, but for the sign of a zero. -/
theorem sameValue_min_comm (x y : Float) : SameValue (min x y) (min y x) := by
  by_cases hx : IsNumber x
  · by_cases hy : IsNumber y
    · have hleft := represents_min ⟨hx, rfl⟩ ⟨hy, rfl⟩
      have hright := represents_min ⟨hy, rfl⟩ ⟨hx, rfl⟩
      rw [inf_comm] at hright
      exact hleft.sameValue hright
    · rw [min_of_right_not_isNumber x hy, min_of_left_not_isNumber hy]
      exact .refl x
  · rw [min_of_left_not_isNumber hx, min_of_right_not_isNumber y hx]
    exact .refl y

end NaN

end Binary64

end MatrixScript
