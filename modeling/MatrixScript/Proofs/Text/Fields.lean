import MatrixScript.Text.Blank

/-!
# Fields of a text

A field that is followed by a blank is the first field of a text, whatever comes after
the blank, and blanks at the ends of a text make no field.
-/

namespace MatrixScript

namespace Text

/-! ## Characters -/

variable {c : Char}

theorem isDigit_iff : c.isDigit = true ↔ 48 ≤ c.toNat ∧ c.toNat ≤ 57 := by
  delta Char.isDigit
  simp [UInt32.le_iff_toNat_le]

/-- The printable ASCII characters are not blank. -/
theorem isBlank_of_toNat (h : 33 ≤ c.toNat ∧ c.toNat ≤ 126) : isBlank c = false := by
  refine Bool.eq_false_iff.mpr fun hblank => ?_
  simp only [isBlank, blankRanges, List.any_cons, List.any_nil, Bool.or_eq_true,
    Bool.and_eq_true, decide_eq_true_eq, Bool.false_eq_true, or_false] at hblank
  omega

theorem isBlank_of_isDigit (h : c.isDigit = true) : isBlank c = false := by
  rw [isDigit_iff] at h
  exact isBlank_of_toNat (by omega)

/-- A digit has no other case. -/
theorem toLower_of_isDigit (h : c.isDigit = true) : c.toLower = c := by
  have hrange := isDigit_iff.mp h
  apply dif_neg
  intro hletter
  have hlow : 65 ≤ c.toNat := UInt32.le_iff_toNat_le.mp hletter.1
  omega

/-! ## Cutting into fields -/

/-- The text can stand as a field: there is something of it, and no blank in it. -/
structure IsField (text : List Char) : Prop where
  ne_nil : text ≠ []
  solid : ∀ c ∈ text, isBlank c = false

theorem isField_of_all {text : List Char} (hne : text ≠ [])
    (h : text.all (fun c => !isBlank c) = true) : IsField text := by
  refine ⟨hne, ?_⟩
  intro c hc
  have hsolid := List.all_eq_true.mp h c hc
  rwa [Bool.not_eq_true'] at hsolid

theorem fields_blank (hc : isBlank c = true) (text : List Char) :
    fields (c :: text) = fields text := by
  simp [fields, fieldStep, hc]

theorem fields_append_of_blank (hc : isBlank c = true) (text : List Char) :
    fields (text ++ [c]) = fields text := by
  simp [fields, fieldStep, hc]

/-- The characters of a field in front of a blank make one field, put in front of the
others. -/
theorem foldr_fieldStep_of_isField {field : List Char} (h : IsField field)
    (rest : List (List Char)) :
    field.foldr fieldStep (rest, false) = (field :: rest, true) := by
  obtain ⟨hne, hsolid⟩ := h
  induction field with
  | nil => exact absurd rfl hne
  | cons c field ih =>
      have hc : isBlank c = false := hsolid c List.mem_cons_self
      rw [List.foldr_cons]
      cases field with
      | nil => simp [fieldStep, hc]
      | cons d field =>
          rw [ih (List.cons_ne_nil _ _) fun e he => hsolid e (List.mem_cons_of_mem c he)]
          simp [fieldStep, hc]

theorem fields_append_blank {field : List Char} (h : IsField field) (hc : isBlank c = true)
    (text : List Char) : fields (field ++ c :: text) = field :: fields text := by
  unfold fields
  rw [List.foldr_append, List.foldr_cons]
  have hblank : fieldStep c (text.foldr fieldStep ([], false)) = (fields text, false) := by
    simp [fieldStep, fields, hc]
  rw [hblank, foldr_fieldStep_of_isField h]
  rfl

end Text

end MatrixScript
