import MatrixScript.Decimal.Fixed
import MatrixScript.Decimal.Numeral
import MatrixScript.Proofs.Text.Fields

/-!
# Numbers that are written can be read

Whatever the number and the count of places, `Decimal.fixed` writes a text without
blanks (`isField_fixed`), and that text is a numeral (`exists_float?_fixed`).
-/

namespace MatrixScript

namespace Decimal

open Text (IsField)

/-! ## Digits -/

/-- There are digits, and nothing else. -/
structure AreDigits (text : List Char) : Prop where
  ne_nil : text ≠ []
  digits : ∀ c ∈ text, c.isDigit = true

theorem areDigits_toDigits (n : Nat) : AreDigits (Nat.toDigits 10 n) where
  ne_nil := Nat.toDigits_ne_nil
  digits := fun _ hc => Nat.isDigit_of_mem_toDigits (by omega) (by omega) hc

/-- Zeros in front of digits make digits. -/
theorem AreDigits.pad {digits : List Char} (h : AreDigits digits) (count : Nat) :
    AreDigits (List.replicate count '0' ++ digits) where
  ne_nil := List.append_ne_nil_of_right_ne_nil _ h.ne_nil
  digits := by
    intro c hc
    rcases List.mem_append.mp hc with hzero | hdigit
    · rw [List.eq_of_mem_replicate hzero]
      decide
    · exact h.digits c hdigit

/-- The digits before the point and the digits after it, with the point between them if
there are any places. -/
theorem exists_pointed (places n : Nat) :
    ∃ whole fraction, AreDigits whole ∧ (∀ c ∈ fraction, c.isDigit = true) ∧
      pointed places n = whole ++ if places = 0 then [] else '.' :: fraction := by
  have hpadded := (areDigits_toDigits n).pad (places + 1 - (Nat.toDigits 10 n).length)
  unfold pointed
  generalize hdigits : List.replicate (places + 1 - (Nat.toDigits 10 n).length) '0' ++
    Nat.toDigits 10 n = padded at hpadded
  by_cases hplaces : places = 0
  · refine ⟨padded, [], hpadded, by simp, ?_⟩
    rw [if_pos hplaces, if_pos hplaces, hdigits, List.append_nil]
  · -- There is one digit more than there are places, so at least one comes before the point.
    have hlength : places < padded.length := by
      rw [← hdigits, List.length_append, List.length_replicate]
      omega
    refine ⟨padded.take (padded.length - places), padded.drop (padded.length - places),
      ⟨?_, fun c hc => hpadded.digits c (List.mem_of_mem_take hc)⟩,
      fun c hc => hpadded.digits c (List.mem_of_mem_drop hc), ?_⟩
    · apply List.ne_nil_of_length_pos
      rw [List.length_take]
      omega
    · simp [hdigits, hplaces]

/-! ## Numerals -/

/-- A text that starts with a digit is not a word in any case of its letters. -/
theorem map_toLower_ne {c d : Char} {text word : List Char} (hc : c.isDigit = true)
    (hd : d.isDigit = false) :
    String.ofList ((c :: text).map Char.toLower) ≠ String.ofList (d :: word) := by
  intro heq
  have hlist := String.ofList_injective heq
  rw [List.map_cons, Text.toLower_of_isDigit hc, List.cons_eq_cons] at hlist
  rw [hlist.1, hd] at hc
  exact Bool.false_ne_true hc

theorem exists_unsigned? {whole fraction : List Char} (hwhole : AreDigits whole)
    (hfraction : ∀ c ∈ fraction, c.isDigit = true) (places : Nat) (negative : Bool) :
    ∃ numeral, Numeral.unsigned? negative
      (whole ++ if places = 0 then [] else '.' :: fraction) = some numeral := by
  obtain ⟨hne, hdigits⟩ := hwhole
  obtain ⟨c, text, rfl⟩ := List.exists_cons_of_ne_nil hne
  have hc : c.isDigit = true := hdigits c List.mem_cons_self
  have hpoint : Char.isDigit '.' = false := by decide
  -- None of the words starts with a digit.
  unfold Numeral.unsigned?
  rw [List.cons_append, if_neg (map_toLower_ne hc (by decide)),
    if_neg (not_or.mpr ⟨map_toLower_ne hc (by decide), map_toLower_ne hc (by decide)⟩),
    ← List.cons_append, List.takeWhile_append_of_pos hdigits,
    List.dropWhile_append_of_pos hdigits]
  by_cases hplaces : places = 0
  · simp [hplaces, Numeral.finish?]
  · have htake : fraction.takeWhile Char.isDigit = fraction := by
      rw [← List.append_nil fraction, List.takeWhile_append_of_pos hfraction, List.takeWhile_nil]
    have hdrop : fraction.dropWhile Char.isDigit = [] := by
      rw [← List.append_nil fraction, List.dropWhile_append_of_pos hfraction, List.dropWhile_nil]
    simp [hplaces, hpoint, htake, hdrop, Numeral.finish?]

theorem splitSign_sign (negative : Bool) {c : Char} (hc : c.isDigit = true)
    (text : List Char) :
    splitSign ((sign negative).toList ++ c :: text) = (negative, c :: text) := by
  cases negative with
  | true => rfl
  | false =>
      show splitSign (c :: text) = (false, c :: text)
      unfold splitSign
      split
      next heq =>
        rw [(List.cons_eq_cons.mp heq).1] at hc
        exact absurd hc (by decide)
      next heq =>
        rw [(List.cons_eq_cons.mp heq).1] at hc
        exact absurd hc (by decide)
      next => rfl

/-! ## Written numbers -/

theorem isBlank_of_mem_sign {negative : Bool} {c : Char}
    (hc : c ∈ (sign negative).toList) : Text.isBlank c = false := by
  cases negative with
  | true =>
      rw [show (sign true).toList = ['-'] from rfl, List.mem_singleton] at hc
      rw [hc]
      decide
  | false => exact nomatch hc

/-- A number is written without blanks. -/
theorem isField_fixed (places : Nat) (x : Float) : IsField (fixed places x).toList := by
  unfold fixed
  split
  next => exact Text.isField_of_all (by decide) (by decide)
  next negative _ =>
    cases negative with
    | true => exact Text.isField_of_all (by decide) (by decide)
    | false => exact Text.isField_of_all (by decide) (by decide)
  next negative m q _ =>
    generalize Binary64.roundScaled (m * Nat.pow 10 places) 1 (-q) = n
    obtain ⟨whole, fraction, hwhole, hfraction, heq⟩ := exists_pointed places n
    rw [String.toList_append, String.toList_ofList, heq]
    constructor
    · exact List.append_ne_nil_of_right_ne_nil _
        (List.append_ne_nil_of_left_ne_nil hwhole.ne_nil _)
    · intro c hc
      rcases List.mem_append.mp hc with hsign | hpointed
      · exact isBlank_of_mem_sign hsign
      rcases List.mem_append.mp hpointed with hdigit | hrest
      · exact Text.isBlank_of_isDigit (hwhole.digits c hdigit)
      by_cases hplaces : places = 0
      · simp [hplaces] at hrest
      · rw [if_neg hplaces] at hrest
        rcases List.mem_cons.mp hrest with rfl | hdigit
        · decide
        · exact Text.isBlank_of_isDigit (hfraction c hdigit)

/-- What is written for a number is a numeral. -/
theorem exists_float?_fixed (places : Nat) (x : Float) :
    ∃ y, float? (fixed places x) = some y := by
  suffices h : ∃ numeral, Numeral.ofText? (fixed places x) = some numeral by
    obtain ⟨numeral, h⟩ := h
    exact ⟨numeral.toFloat, by rw [float?, h, Option.map_some]⟩
  unfold fixed
  split
  next => exact ⟨.nan, by decide⟩
  next negative _ =>
    cases negative with
    | true => exact ⟨.infinity true, by decide⟩
    | false => exact ⟨.infinity false, by decide⟩
  next negative m q _ =>
    generalize Binary64.roundScaled (m * Nat.pow 10 places) 1 (-q) = n
    obtain ⟨whole, fraction, hwhole, hfraction, heq⟩ := exists_pointed places n
    obtain ⟨numeral, hread⟩ := exists_unsigned? hwhole hfraction places negative
    obtain ⟨c, text, rfl⟩ := List.exists_cons_of_ne_nil hwhole.ne_nil
    have hc : c.isDigit = true := hwhole.digits c List.mem_cons_self
    refine ⟨numeral, ?_⟩
    unfold Numeral.ofText?
    rw [String.toList_append, String.toList_ofList, heq, List.cons_append,
      splitSign_sign negative hc, ← List.cons_append]
    exact hread

end Decimal

end MatrixScript
