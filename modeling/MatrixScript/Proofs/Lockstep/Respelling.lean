import MatrixScript.Proofs.Lexing.Pieces
import MatrixScript.Proofs.Lockstep.Spelling
import MatrixScript.Proofs.Text.Fields

/-!
# Pieces in another spelling

All that tells pieces apart is blind to the case of letters.  A word or a label that is
written in another case is therefore still a word or a label, in front of any rest that
differs from the one before in case at most (`Stands.respell`).
-/

namespace MatrixScript

namespace Lexer

/-! ## Characters -/

section Characters

variable {c d : Char}

/-- What does not hold of letters does not depend on their case. -/
theorem eq_of_toLower_eq {p : Char → Bool} (hp : ∀ c : Char, c.isAlpha = true → p c = false)
    (h : c.toLower = d.toLower) : p c = p d := by
  rcases eq_or_isAlpha_of_toLower_eq h with rfl | ⟨hc, hd⟩
  · rfl
  · rw [hp c hc, hp d hd]

theorem endsWord_of_isAlpha (c : Char) (h : c.isAlpha = true) : endsWord c = false := by
  have hends : wordEnds.all (fun c => !c.isAlpha) = true := by decide
  refine Bool.eq_false_iff.mpr fun hc => ?_
  have hletter := List.all_eq_true.mp hends c (mem_wordEnds_iff.mpr hc)
  simp [h] at hletter

theorem isDigit_of_isAlpha (c : Char) (h : c.isAlpha = true) : c.isDigit = false := by
  rw [isAlpha_iff] at h
  rw [Bool.eq_false_iff, ne_eq, Text.isDigit_iff]
  omega

theorem newline_of_isAlpha (c : Char) (h : c.isAlpha = true) : (c == '\n') = false := by
  rw [beq_eq_false_iff_ne]
  rintro rfl
  exact absurd h (by decide)

theorem isBlank_of_isAlpha (c : Char) (h : c.isAlpha = true) : Text.isBlank c = false := by
  rw [isAlpha_iff] at h
  exact Text.isBlank_of_toNat (by omega)

theorem isGap_of_isAlpha (c : Char) (h : c.isAlpha = true) : isGap c = false := by
  refine Bool.eq_false_iff.mpr fun hgap => ?_
  have hends := endsWord_of_isGap hgap
  rw [endsWord_of_isAlpha c h] at hends
  cases hends

theorem starts_word_of_toLower_eq (h : c.toLower = d.toLower) (hd : Pattern.word.Starts d) :
    Pattern.word.Starts c := by
  rcases eq_or_isAlpha_of_toLower_eq h with rfl | ⟨hc, _⟩
  · exact hd
  · exact .inl hc

/-- Only letters have another case. -/
theorem eq_of_toLower_eq_of_not_isAlpha (h : c.toLower = d.toLower) (hd : d.isAlpha = false) :
    c = d := by
  rcases eq_or_isAlpha_of_toLower_eq h with rfl | ⟨_, hd'⟩
  · rfl
  · rw [hd] at hd'
    cases hd'

end Characters

/-! ## Texts -/

section Texts

variable {text text' : List Char} {p : Char → Bool}

/-- Texts that are the same without regard to case start with characters that are. -/
theorem forall_mem_head?_of_map_toLower_eq (hp : ∀ c : Char, c.isAlpha = true → p c = false)
    (h : text'.map Char.toLower = text.map Char.toLower) {b : Bool}
    (htext : ∀ c ∈ text.head?, p c = b) : ∀ c ∈ text'.head?, p c = b := by
  intro c hc
  obtain ⟨tail, rfl⟩ := List.head?_eq_some_iff.mp hc
  obtain ⟨d, rest, rfl, hd, _⟩ := List.map_eq_cons_iff.mp h.symm
  rw [eq_of_toLower_eq hp hd.symm]
  exact htext d rfl

theorem StartsPiece.respell (h : StartsPiece text)
    (hlower : text'.map Char.toLower = text.map Char.toLower) : StartsPiece text' := by
  obtain ⟨d, hd, hgap⟩ := h
  obtain ⟨tail, rfl⟩ := List.head?_eq_some_iff.mp hd
  obtain ⟨c, tail', rfl, hc, _⟩ := List.map_eq_cons_iff.mp hlower
  exact ⟨c, rfl, (eq_of_toLower_eq isGap_of_isAlpha hc).trans hgap⟩

theorem forall_mem_of_map_toLower_eq (hp : ∀ c : Char, c.isAlpha = true → p c = false)
    (h : text'.map Char.toLower = text.map Char.toLower) {b : Bool}
    (htext : ∀ c ∈ text, p c = b) : ∀ c ∈ text', p c = b := by
  intro c hc
  have hlower : c.toLower ∈ text.map Char.toLower := h ▸ List.mem_map_of_mem hc
  obtain ⟨d, hd, hcd⟩ := List.mem_map.mp hlower
  rw [eq_of_toLower_eq hp hcd.symm]
  exact htext d hd

/-- A search for what is no letter stops at the same place. -/
theorem map_toLower_takeWhile_eq (hp : ∀ c : Char, c.isAlpha = true → p c = false)
    (h : text'.map Char.toLower = text.map Char.toLower) :
    (text'.takeWhile fun c => !p c).map Char.toLower =
      (text.takeWhile fun c => !p c).map Char.toLower := by
  induction text generalizing text' with
  | nil => rw [List.map_eq_nil_iff.mp h]
  | cons c text ih =>
      obtain ⟨d, tail, rfl, hd, htail⟩ := List.map_eq_cons_iff.mp h
      rw [List.takeWhile_cons, List.takeWhile_cons, eq_of_toLower_eq hp hd]
      split
      · rw [List.map_cons, List.map_cons, hd, ih htail]
      · rfl

theorem foldCase_ofList_eq (h : text'.map Char.toLower = text.map Char.toLower) :
    foldCase (String.ofList text') = foldCase (String.ofList text) := by
  rw [foldCase, foldCase, String.toList_ofList, String.toList_ofList, h]

end Texts

/-! ## Pieces -/

/-- A piece in another spelling: words and labels can change case. -/
structure Respells (kind : PieceKind) (text text' : List Char) : Prop where
  lower_eq : text'.map Char.toLower = text.map Char.toLower
  text_eq : kind ≠ .word → kind ≠ .label → text' = text

theorem Stands.respell {kind : PieceKind} {text text' rest rest' : List Char}
    (h : Stands kind text rest) (htext : Respells kind text text')
    (hrest : rest'.map Char.toLower = rest.map Char.toLower) : Stands kind text' rest' := by
  obtain ⟨hlower, heq⟩ := htext
  have hends : EndsRun rest → EndsRun rest' :=
    forall_mem_head?_of_map_toLower_eq endsWord_of_isAlpha hrest
  cases h with
  | @label tail _ htail hrun =>
      obtain ⟨c, tail', rfl, hc, htail'⟩ := List.map_eq_cons_iff.mp hlower
      obtain rfl : c = ':' := eq_of_toLower_eq_of_not_isAlpha hc (by decide)
      exact .label (forall_mem_of_map_toLower_eq endsWord_of_isAlpha htail' htail) (hends hrun)
  | @word c tail _ hc htail hrun =>
      obtain ⟨c', tail', rfl, hc', htail'⟩ := List.map_eq_cons_iff.mp hlower
      exact .word (starts_word_of_toLower_eq hc' hc)
        (forall_mem_of_map_toLower_eq endsWord_of_isAlpha htail' htail) (hends hrun)
  | newline =>
      rw [heq nofun nofun]
      exact .newline rest'
  | mark hmark =>
      rw [heq nofun nofun]
      exact .mark hmark rest'
  | number hc htail hrun =>
      rw [heq nofun nofun]
      exact .number hc htail (hends hrun)
  | quotation hinner =>
      rw [heq nofun nofun]
      exact .quotation hinner rest'
  | openQuotation hinner hnewline =>
      rw [heq nofun nofun]
      have hfeed : ∀ c ∈ rest.head?, (c == '\n') = true := fun c hc => by simp [hnewline c hc]
      have hfeed' := forall_mem_head?_of_map_toLower_eq newline_of_isAlpha hrest hfeed
      exact .openQuotation hinner fun c hc => beq_iff_eq.mp (hfeed' c hc)
  | parameter hd =>
      rw [heq nofun nofun]
      exact .parameter hd rest'
  | lonePercent hdigit =>
      rw [heq nofun nofun]
      exact .lonePercent (forall_mem_head?_of_map_toLower_eq isDigit_of_isAlpha hrest hdigit)
  | stray hc =>
      rw [heq nofun nofun]
      exact .stray hc rest'

/-- The word `rem` in any case. -/
theorem stands_rem {word rest : List Char}
    (h : foldCase (String.ofList word) = Command.rem.keyword) (hrest : EndsRun rest) :
    StartsPiece word ∧ Stands .word word rest := by
  have hstarts : StartsPiece ['r', 'e', 'm'] := ⟨'r', rfl, by decide⟩
  have hstands : Stands .word ['r', 'e', 'm'] rest := .word (by decide) (by simp; decide) hrest
  have hfold : foldCase (String.ofList word) = foldCase (String.ofList ['r', 'e', 'm']) := h
  have hlower := map_toLower_eq_of_foldCase_eq hfold
  rw [String.toList_ofList, String.toList_ofList] at hlower
  exact ⟨hstarts.respell hlower, hstands.respell ⟨hlower, fun hkind => absurd rfl hkind⟩ rfl⟩

end Lexer

end MatrixScript
