import MatrixScript.Proofs.Lockstep.Respelling
import MatrixScript.Proofs.Lockstep.Run

/-!
# Remarks that are not quoted

The text of a remark is read in three ways: while labels are collected, while a block is
passed over, and when the remark runs.  None of them does anything with a text that is not
quoted, so scripts that differ in such a text run the same (`report_run_of_remark`).
-/

namespace MatrixScript

open Lexer Machine

/-! ## Lines -/

/-- The text is empty or ends with a line feed, so that a line starts after it. -/
def EndsLine (text : List Char) : Prop :=
  ∀ c ∈ text.getLast?, c = '\n'

theorem EndsLine.of_append {before text : List Char} (h : EndsLine (before ++ text)) :
    EndsLine text := by
  intro c hc
  apply h c
  rw [List.getLast?_append, Option.mem_def.mp hc]
  rfl

theorem EndsLine.mem {text : List Char} (h : EndsLine text) (hne : text ≠ []) : '\n' ∈ text := by
  have hlast := List.getLast_mem hne
  rwa [h _ (List.getLast?_eq_some_getLast hne)] at hlast

/-- Lines are cut off piece by piece.  What is left ends as they do, and only with a line
feed can it be nothing. -/
theorem EndsLine.exists_cut? {lead : List Char} (h : EndsLine lead) (hne : lead ≠ []) :
    ∃ piece, cut? (lead.dropWhile isGap) = some piece ∧ EndsLine piece.rest ∧
      (piece.kind ≠ .newline → '\n' ∈ piece.rest) := by
  cases hcut : cut? (lead.dropWhile isGap) with
  | none =>
      have hmem := h.mem hne
      rw [← takeWhile_gap_of_cut?_eq_none hcut] at hmem
      exact absurd (List.mem_takeWhile_imp hmem) (by decide)
  | some piece =>
      have hsplit := rest_of_cut?_eq_some hcut
      have hrest : EndsLine piece.rest := .of_append (by rwa [hsplit])
      refine ⟨piece, rfl, hrest, fun hkind => ?_⟩
      by_cases hnil : piece.rest = []
      · rw [hnil, List.append_nil] at hsplit
        have htext : EndsLine piece.text := .of_append (by rwa [hsplit])
        have hcount := count_newline_of_cut? hcut
        rw [if_neg hkind, List.count_eq_zero] at hcount
        exact absurd (htext.mem (cut?_text_ne_nil hcut)) hcount
      · exact hrest.mem hnil

/-! ## Remarks -/

namespace Statement

/-- The rest of a line after the word `rem` that is set off from it and not quoted. -/
structure Unquoted (text : List Char) : Prop where
  newline : '\n' ∉ text
  blank : text.head? = some ' ' ∨ text.head? = some '\t'
  quote : (Text.trim text).head? ≠ some '"'

/-- A line of a remark: the word `rem`, after blanks, and a text that is not quoted, up to
the end of the line. -/
structure RemarkLine (gap word text rest : List Char) : Prop where
  gap : ∀ c ∈ gap, isGap c = true
  word : foldCase (String.ofList word) = Command.rem.keyword
  text : Unquoted text
  rest : ∀ c ∈ rest.head?, c = '\n'

theorem Unquoted.endsRun {text : List Char} (h : Unquoted text) (rest : List Char) :
    EndsRun (text ++ rest) := by
  intro c hc
  rcases h.blank with hblank | hblank <;> obtain ⟨tail, rfl⟩ := List.head?_eq_some_iff.mp hblank <;>
    cases hc <;> decide

variable {gap word text rest : List Char}

/-- Nothing is in front of the word `rem`, and all that follows it is the text. -/
theorem RemarkLine.cut? (h : RemarkLine gap word text rest) :
    Lexer.cut? ((gap ++ word ++ text ++ rest).dropWhile isGap) =
      some ⟨.word, word, text ++ rest⟩ := by
  obtain ⟨hstarts, hstands⟩ := stands_rem h.word (h.text.endsRun rest)
  rw [List.append_assoc, (hstarts.splitGap h.gap _).2]
  exact hstands.cut?_append

theorem RemarkLine.isRemark (h : RemarkLine gap word text rest) (after : List Char) :
    (⟨.word, word, after⟩ : Piece).IsRemark :=
  ⟨rfl, h.word⟩

end Statement

open Statement

/-- Texts are the same but for the text of one remark, which starts a line. -/
inductive Reworded : Phase → List Char → List Char → Prop where
  | same (phase : Phase) (text : List Char) : Reworded phase text text
  | remark {phase : Phase} {lead gap word text text' rest : List Char}
      (hphase : lead = [] → phase = .start) (hlead : EndsLine lead)
      (h : RemarkLine gap word text rest) (h' : RemarkLine gap word text' rest) :
      Reworded phase (lead ++ (gap ++ word ++ text ++ rest))
        (lead ++ (gap ++ word ++ text' ++ rest))

namespace Reworded

variable {phase : Phase}

theorem of_within {text text' : List Char} (h : Reworded .within text text') :
    Reworded .start text text' := by
  cases h with
  | same => exact .same _ _
  | remark _ hlead h h' => exact .remark (fun _ => rfl) hlead h h'

theorem cut_same (text : List Char) : CutAlike .exact Reworded phase text text := by
  cases hcut : Lexer.cut? (text.dropWhile isGap) with
  | none => exact .finish (cut?_eq_none_iff.mp hcut) (cut?_eq_none_iff.mp hcut)
  | some piece =>
      exact .piece hcut hcut ⟨rfl, rfl, fun _ _ => rfl, fun _ => rfl⟩ (fun _ => .same _ _)
        (fun _ _ => .same _ _) fun _ => ⟨rfl, .same _ _⟩

/-- The remark itself. -/
theorem cut_remark {gap word text text' rest : List Char} (h : RemarkLine gap word text rest)
    (h' : RemarkLine gap word text' rest) :
    CutAlike .exact Reworded .start (gap ++ word ++ text ++ rest)
      (gap ++ word ++ text' ++ rest) := by
  obtain ⟨hline, hafter⟩ := splitLine_append h.text.newline h.rest
  obtain ⟨hline', hafter'⟩ := splitLine_append h'.text.newline h'.rest
  have hremark := h.isRemark (text ++ rest)
  refine .piece h.cut? h'.cut?
    ⟨rfl, rfl, fun _ _ => rfl, fun hword => absurd hword hremark.text_ne_percent⟩
    (fun hkind => nomatch hkind) (fun _ hother => absurd hremark (hother rfl)) fun _ => ?_
  dsimp only
  rw [hline, hline', hafter, hafter']
  exact ⟨(if_neg h'.text.quote).trans (if_neg h.text.quote).symm, .same _ _⟩

/-- The lines before the remark. -/
theorem cut_lead {lead gap word text text' rest : List Char} (hne : lead ≠ [])
    (hlead : EndsLine lead) (h : RemarkLine gap word text rest)
    (h' : RemarkLine gap word text' rest) :
    CutAlike .exact Reworded phase (lead ++ (gap ++ word ++ text ++ rest))
      (lead ++ (gap ++ word ++ text' ++ rest)) := by
  obtain ⟨piece, hcut, hends, hfeed⟩ := hlead.exists_cut? hne
  have hcut_append (post : List Char) : Lexer.cut? ((lead ++ post).dropWhile isGap) =
      some { piece with rest := piece.rest ++ post } := by
    have hclosed : Closed lead post := .inl (hlead.mem hne)
    rw [hclosed.cut?_append.2, hcut, Option.map_some]
  refine .piece (hcut_append _) (hcut_append _) ⟨rfl, rfl, fun _ _ => rfl, fun hpercent => ?_⟩
    (fun _ => .remark (fun _ => rfl) hends h h')
    (fun hkind _ => .remark (fun hnil => ?_) hends h h') fun hremark => ?_
  · have hkind : piece.kind ≠ .newline := by
      intro hnewline
      rw [text_of_newline hcut hnewline] at hpercent
      exact absurd hpercent (by decide)
    dsimp only
    rw [(takeWhile_append_of_mem (hfeed hkind) (by decide) _).1,
      (takeWhile_append_of_mem (hfeed hkind) (by decide) _).1]
  · rw [hnil] at hfeed
    exact absurd (hfeed hkind) (by simp)
  · -- The line ends before the remark does.
    have hmem := hfeed (by rw [hremark.1]; exact nofun)
    have hline (post : List Char) := @takeWhile_append_of_mem (· != '\n') '\n' piece.rest hmem
      (by decide) post
    dsimp only
    rw [(hline _).1, (hline _).1, (hline _).2, (hline _).2]
    have hends' : EndsLine (piece.rest.dropWhile (· != '\n')) := by
      rw [← List.takeWhile_append_dropWhile (p := (· != '\n')) (l := piece.rest)] at hends
      exact hends.of_append
    exact ⟨rfl, .remark (fun _ => rfl) hends' h h'⟩

theorem cut {text text' : List Char} (h : Reworded phase text text') :
    CutAlike .exact Reworded phase text text' := by
  cases h with
  | same => exact cut_same text
  | @remark lead _ _ _ _ _ hphase hlead h h' =>
      by_cases hnil : lead = []
      · subst hnil
        rw [hphase rfl]
        exact cut_remark h h'
      · exact cut_lead hnil hlead h h'

end Reworded

/-- Two scripts that differ in the text of a remark. -/
def Alignment.ofReworded (params : List String) {source source' : List Char}
    (h : Reworded .start source source') : Alignment where
  spelling := .exact
  left := source
  right := source'
  params := params
  ahead := Reworded
  start := h
  of_within := Reworded.of_within
  cut := Reworded.cut

/-- Remarks do nothing.  On a line that starts with the word `rem`, the text after it can be
any other text of the line, if both are set off from the word and neither is quoted: the
script runs the same, whether the line runs, is jumped over or lies in a block that is passed
over. -/
theorem report_run_of_remark {before gap word text text' rest : List Char}
    (hbefore : EndsLine before) (hline : RemarkLine gap word text rest)
    (hline' : RemarkLine gap word text' rest) (params : List String) (limits : Limits)
    (world : World) (store : Store) (fuel : Nat) :
    let start (source : List Char) : Machine :=
      { Machine.new (String.ofList source) params limits world with store := store }
    report (run fuel (start (before ++ gap ++ word ++ text' ++ rest))) =
      report (run fuel (start (before ++ gap ++ word ++ text ++ rest))) := by
  intro start
  have hreworded : Reworded .start (before ++ gap ++ word ++ text ++ rest)
      (before ++ gap ++ word ++ text' ++ rest) := by
    have h : Reworded .start _ _ := .remark (fun _ => rfl) hbefore hline hline'
    simpa only [List.append_assoc] using h
  have hsource (source : List Char) : (start source).reader.lexer.source = source :=
    String.toList_ofList
  exact (Alignment.ofReworded params hreworded).report_run_of_exact rfl (hsource _) (hsource _)
    rfl rfl rfl rfl rfl fuel

/-- A remark in a block that is passed over, with words in it that would end the block.  If the
block were not passed over, the line before the remark would fail. -/
theorem report_run_of_remark_in_block :
    let before := "if A < B\nprint C\n".toList
    let text := " nothing to see".toList
    let text' := "\tendif rem \"%x :top".toList
    let after := "\nendif".toList
    let store := (Store.empty.insert ⟨0⟩ (DenseMatrix.identity 1 2)).insert ⟨1⟩
      (DenseMatrix.identity 1 2)
    let start (source : List Char) : Machine :=
      { Machine.new (String.ofList source) [] {} {} with store := store }
    EndsLine before ∧ RemarkLine [' '] "Rem".toList text after ∧
      RemarkLine [' '] "Rem".toList text' after ∧
      report (run 9 (start (before ++ [' '] ++ "Rem".toList ++ text' ++ after))) =
        report (run 9 (start (before ++ [' '] ++ "Rem".toList ++ text ++ after))) ∧
      (run 9 (start (before ++ [' '] ++ "Rem".toList ++ text ++ after))).1.map Except.toOption =
        some (some .finished) := by
  intro before text text' after store start
  have hends : EndsLine before := by
    intro c hc
    cases hc
    rfl
  have hafter : ∀ c ∈ after.head?, c = '\n' := by
    intro c hc
    cases hc
    rfl
  have hline : RemarkLine [' '] "Rem".toList text after :=
    ⟨by simp; decide, by decide, ⟨by decide, .inl rfl, by decide⟩, hafter⟩
  have hline' : RemarkLine [' '] "Rem".toList text' after :=
    ⟨by simp; decide, by decide, ⟨by decide, .inr rfl, by decide⟩, hafter⟩
  exact ⟨hends, hline, hline', report_run_of_remark hends hline hline' [] {} {} store 9,
    by decide +kernel⟩

end MatrixScript
