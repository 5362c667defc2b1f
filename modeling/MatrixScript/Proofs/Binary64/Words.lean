import MatrixScript.Scalar.Float

/-!
# The words of machine numbers

A machine number is a word of a sign, an exponent of eleven bits and a fraction of fifty-two.
`StandsFor` says once what the two fields of a word, read as naturals, stand for; that the word of
a number can be put together again from the number (`pack_unpack`) is read off it.

Two numbers that are the same word, or that are both a zero, are the same as values
(`SameValue`): no comparison tells them apart, and no sum either but for the sign of a zero.
-/

namespace MatrixScript

namespace Binary64

open Float.Model Float.Model.UnpackedFloat

/-! ## Fields -/

/-- What a word stands for, by its sign and by its two fields as naturals. -/
inductive StandsFor (s : Sign) : (exponent fraction : Nat) → UnpackedFloat → Prop
  | zero : StandsFor s 0 0 (.zero s)
  | subnormal {f : Nat} (hpos : 0 < f) (hlt : f < hidden) :
      StandsFor s 0 f (.finite s f minExponent hpos)
  | normal {e f m : Nat} {q : Int} (he : 0 < e) (he' : e < 2047) (hlt : f < hidden)
      (hm : m = hidden + f) (hq : q = minExponent + (e - 1)) (hpos : 0 < m) :
      StandsFor s e f (.finite s m q hpos)
  | infinity : StandsFor s 2047 0 (.infinity s)
  | nan {f : Nat} (hpos : 0 < f) : StandsFor s 2047 f .notANumber

theorem toNat_implicit (f : BitVec 52) : (1#1 ++ f).toNat = hidden + f.toNat := by
  rw [BitVec.toNat_append, ← Nat.shiftLeft_add_eq_or_of_lt f.isLt]
  rfl

/-- Reading a word follows its fields. -/
theorem standsFor_unpack (word : BitVec Format.binary64.numBits) :
    StandsFor (Sign.ofBitVec (unpackSign word)) (unpackExponent word).toNat
      (unpackMantissa word).toNat (UnpackedFloat.unpack .binary64 word) := by
  have hfraction : (unpackMantissa word).toNat < hidden := (unpackMantissa word).isLt
  have hexponent : (unpackExponent word).toNat < 2048 := (unpackExponent word).isLt
  have hpos : unpackMantissa word ≠ 0#_ → 0 < (unpackMantissa word).toNat := fun hne =>
    Nat.pos_of_ne_zero fun h => hne (BitVec.eq_of_toNat_eq h)
  unfold UnpackedFloat.unpack
  dsimp only
  by_cases hones : unpackExponent word = -1#_
  · have hexponent : (unpackExponent word).toNat = 2047 := congrArg BitVec.toNat hones
    rw [if_pos hones, hexponent]
    by_cases hzero : unpackMantissa word = 0#_
    · rw [if_pos hzero, hzero]
      exact .infinity
    · rw [if_neg hzero]
      exact .nan (hpos hzero)
  · rw [if_neg hones]
    by_cases hzeros : unpackExponent word = 0#_
    · rw [if_pos hzeros, hzeros]
      by_cases hzero : unpackMantissa word = 0#_
      · rw [dif_pos hzero, hzero]
        exact .zero
      · rw [dif_neg hzero]
        exact .subnormal (hpos hzero) hfraction
    · have hne : (unpackExponent word).toNat ≠ 0 := fun h => hzeros (BitVec.eq_of_toNat_eq h)
      have hne' : (unpackExponent word).toNat ≠ 2047 := fun h => hones (BitVec.eq_of_toNat_eq h)
      have hbias : (Format.binary64.exponentBias : Int) = 1023 := rfl
      have hbits : (Format.binary64.mantissaBitsWithoutImplicit : Int) = 52 := rfl
      rw [if_neg hzeros]
      refine .normal (by omega) (by omega) hfraction (toNat_implicit _) ?_ _
      rw [hbias, hbits, minExponent]
      omega

theorem packComponents_fields (word : BitVec Format.binary64.numBits) :
    packComponents .binary64 (Sign.ofBitVec (unpackSign word)) (unpackExponent word)
      (unpackMantissa word) = word := by
  have hsign : ∀ bit : BitVec 1, (Sign.ofBitVec bit).toBitVec = bit := by decide
  unfold packComponents
  rw [hsign]
  change word.extractLsb' 63 1 ++ word.extractLsb' 52 11 ++ word.extractLsb' 0 52 = word
  have hhigh : word.extractLsb' 63 1 ++ word.extractLsb' 52 11 = word.extractLsb' 52 12 :=
    BitVec.extractLsb'_append_extractLsb'_eq_extractLsb' rfl
  have hwhole : word.extractLsb' 52 12 ++ word.extractLsb' 0 52 = word.extractLsb' 0 64 :=
    BitVec.extractLsb'_append_extractLsb'_eq_extractLsb' rfl
  rw [hhigh, hwhole]
  exact BitVec.extractLsb'_eq_self

theorem pack_of_standsFor {s : Sign} {e f : Nat} {u : UnpackedFloat} (h : StandsFor s e f u)
    (hu : u ≠ .notANumber) :
    UnpackedFloat.pack .binary64 u =
      packComponents .binary64 s (BitVec.ofNat 11 e) (BitVec.ofNat 52 f) := by
  have hhidden : hidden = 2 ^ 52 := rfl
  cases h with
  | zero => rfl
  | infinity => rfl
  | nan => exact absurd rfl hu
  | subnormal hpos hlt =>
      have hlog : f.log2 + 1 ≠ 53 := by
        have hlt := (Nat.log2_lt (Nat.ne_of_gt hpos)).mpr hlt
        omega
      exact if_neg hlog
  | @normal e f m q he he' hlt hm hq hpos =>
      have hlog : m.log2 + 1 = 53 := by
        have hlow : 52 ≤ m.log2 := (Nat.le_log2 (Nat.ne_of_gt hpos)).mpr (by omega)
        have hhigh : m.log2 < 53 := (Nat.log2_lt (Nat.ne_of_gt hpos)).mpr (by omega)
        omega
      have hbiased : (q + 1023 + 52).toNat = e := by
        rw [hq, minExponent]
        omega
      have hfits : ¬ 2048 ≤ (q + 1023 + 52).toNat + 1 := by omega
      -- The leading bit of the mantissa is not stored.
      have hfraction : BitVec.ofNat 52 m = BitVec.ofNat 52 f := by
        apply BitVec.eq_of_toNat_eq
        rw [BitVec.toNat_ofNat, BitVec.toNat_ofNat]
        omega
      change (if 2048 ≤ (q + 1023 + 52).toNat + 1 then _
        else if m.log2 + 1 = 53 then
          packComponents .binary64 s (BitVec.ofNat 11 (q + 1023 + 52).toNat) (BitVec.ofNat 52 m)
        else _) = _
      rw [if_neg hfits, if_pos hlog, hbiased, hfraction]

/-- A word that is read as no number has all bits of its exponent, and some of its fraction. -/
theorem fields_of_notANumber {word : BitVec Format.binary64.numBits}
    (h : UnpackedFloat.unpack .binary64 word = .notANumber) :
    unpackExponent word = -1#_ ∧ unpackMantissa word ≠ 0#_ := by
  have hstands := standsFor_unpack word
  rw [h] at hstands
  generalize he : (unpackExponent word).toNat = e, hf : (unpackMantissa word).toNat = f at hstands
  cases hstands with
  | nan hpos =>
      refine ⟨BitVec.eq_of_toNat_eq he, fun hzero => ?_⟩
      rw [hzero] at hf
      exact absurd hf (Nat.ne_of_lt hpos)

/-- The word of a number is the word that the number is put into. -/
theorem pack_unpack (x : Float.Model) : Float.Model.pack x.unpack = x := by
  obtain ⟨⟨word⟩, hvalid⟩ := x
  have hword : UnpackedFloat.pack .binary64 (UnpackedFloat.unpack .binary64 word) = word := by
    by_cases hnan : UnpackedFloat.unpack .binary64 word = .notANumber
    · obtain ⟨hexponent, hfraction⟩ := fields_of_notANumber hnan
      rw [hnan]
      exact (hvalid.eq_packedNaN hexponent hfraction).symm
    · rw [pack_of_standsFor (standsFor_unpack word) hnan, BitVec.ofNat_toNat, BitVec.ofNat_toNat,
        BitVec.setWidth_eq, BitVec.setWidth_eq, packComponents_fields]
  unfold Float.Model.pack Float.Model.unpack
  congr

/-! ## The parts of a number -/

/-- A machine number in its parts: its sign with its mantissa and its exponent, if it has them. -/
def parts (x : Float) : UnpackedFloat := x.toModel.unpack

/-- A number is the word that its parts are put into. -/
theorem ofModel_pack_parts (x : Float) : Float.ofModel (Float.Model.pack (parts x)) = x :=
  congrArg Float.ofModel (pack_unpack x.toModel)

theorem eq_of_parts_eq {x y : Float} (h : parts x = parts y) : x = y := by
  rw [← ofModel_pack_parts x, ← ofModel_pack_parts y, h]

theorem exists_standsFor_parts (x : Float) : ∃ s e f, StandsFor s e f (parts x) :=
  ⟨_, _, _, standsFor_unpack x.toModel.toBits.toBitVec⟩

theorem parts_add (x y : Float) :
    x + y = Float.ofModel (Float.Model.pack (UnpackedFloat.add .binary64 (parts x) (parts y))) :=
  rfl

theorem beq_zero_iff {x : Float} : (x == 0) = true ↔ ∃ s, parts x = .zero s := by
  change ((parts x).compare (.zero .positive) == some .eq) = true ↔ _
  cases parts x with
  | notANumber => exact iff_of_false Bool.false_ne_true (by rintro ⟨_, ⟨⟩⟩)
  | zero s => exact iff_of_true rfl ⟨s, rfl⟩
  | infinity s => cases s <;> exact iff_of_false Bool.false_ne_true (by rintro ⟨_, ⟨⟩⟩)
  | finite s m e hm => cases s <;> exact iff_of_false Bool.false_ne_true (by rintro ⟨_, ⟨⟩⟩)

/-! ## Numbers that are the same as values -/

/-- The same machine number, or two zeros of whatever sign. -/
def SameValue (x y : Float) : Prop :=
  x = y ∨ (x == 0) = true ∧ (y == 0) = true

theorem SameValue.refl (x : Float) : SameValue x x := .inl rfl

theorem SameValue.symm {x y : Float} (h : SameValue x y) : SameValue y x :=
  h.imp Eq.symm And.symm

theorem SameValue.trans {x y z : Float} (hxy : SameValue x y) (hyz : SameValue y z) :
    SameValue x z := by
  rcases hxy with rfl | ⟨hx, hy⟩
  · exact hyz
  · rcases hyz with rfl | ⟨-, hz⟩
    · exact .inr ⟨hx, hy⟩
    · exact .inr ⟨hx, hz⟩

/-- A zero of either sign is lost in a sum, but for the sign of a zero. -/
theorem sameValue_zero_add {x : Float} (hx : (x == 0) = true) (y : Float) :
    SameValue (x + y) y := by
  obtain ⟨s, hs⟩ := beq_zero_iff.mp hx
  have hpack := ofModel_pack_parts y
  cases hy : parts y with
  | zero t =>
      refine .inr ⟨beq_zero_iff.mpr ?_, beq_zero_iff.mpr ⟨t, hy⟩⟩
      rw [parts_add, hs, hy]
      cases s <;> cases t <;> exact ⟨_, rfl⟩
  | notANumber | infinity | finite =>
      rw [hy] at hpack
      rw [parts_add, hs, hy]
      exact .inl hpack

theorem SameValue.add {x y : Float} (h : SameValue x y) (z : Float) :
    SameValue (x + z) (y + z) := by
  rcases h with rfl | ⟨hx, hy⟩
  · exact .refl _
  · exact (sameValue_zero_add hx z).trans (sameValue_zero_add hy z).symm

end Binary64

end MatrixScript
