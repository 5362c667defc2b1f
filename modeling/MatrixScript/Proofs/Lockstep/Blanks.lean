import MatrixScript.Proofs.Lexing.Excerpt
import MatrixScript.Proofs.Lexing.Pieces
import MatrixScript.Proofs.Lockstep.Run

/-!
# Blanks between tokens

Spaces, tabs and carriage returns in front of tokens do not matter, and so neither does the
way in which lines end.  `Respaced` inserts such blanks into a script; scripts that are
`Orderly` then run the same (`report_run_of_respaced`).  All places after an insertion move, so
labels, loops and blocks are found elsewhere, but always in front of the same tokens.
-/

namespace MatrixScript

open Lexer Machine

/-- The script has remarks at the start of lines only, closes its quotations, and refers to
parameters by digits.  The flag says whether a line starts here. -/
inductive Orderly : Bool → List Char → Prop where
  | finish {first : Bool} {text : List Char} (hend : text.dropWhile isGap = []) : Orderly first text
  | piece {first : Bool} {text : List Char} {piece : Piece}
      (hcut : cut? (text.dropWhile isGap) = some piece) (hremark : ¬ piece.IsRemark)
      (hquote : piece.kind ≠ .quote false) (hpercent : piece.text ≠ ['%'])
      (hrest : Orderly (piece.kind = .newline) piece.rest) : Orderly first text
  | remark {text : List Char} {piece : Piece} (hcut : cut? (text.dropWhile isGap) = some piece)
      (hremark : piece.IsRemark) (hrest : Orderly false (piece.rest.dropWhile (· != '\n'))) :
      Orderly true text

/-- The script with more gaps in front of tokens and at its end.  The text of a remark is no
token and stays as it is; gaps at its end are in front of the line feed. -/
inductive Respaced : List Char → List Char → Prop where
  | finish {text gap : List Char} (hend : text.dropWhile isGap = [])
      (hgap : ∀ c ∈ gap, isGap c = true) : Respaced text (text ++ gap)
  | piece {text gap rest' : List Char} {piece : Piece}
      (hcut : cut? (text.dropWhile isGap) = some piece) (hremark : ¬ piece.IsRemark)
      (hgap : ∀ c ∈ gap, isGap c = true) (hrest : Respaced piece.rest rest') :
      Respaced text (text.takeWhile isGap ++ gap ++ piece.text ++ rest')
  | remark {text gap rest' : List Char} {piece : Piece}
      (hcut : cut? (text.dropWhile isGap) = some piece) (hremark : piece.IsRemark)
      (hgap : ∀ c ∈ gap, isGap c = true)
      (hrest : Respaced (piece.rest.dropWhile (· != '\n')) rest') :
      Respaced text (text.takeWhile isGap ++ gap ++ piece.text ++
        (piece.rest.takeWhile (· != '\n') ++ rest'))

/-! ## What follows a piece -/

theorem isGap_of_takeWhile_append (text : List Char) {gap : List Char}
    (hgap : ∀ c ∈ gap, isGap c = true) : ∀ c ∈ text.takeWhile isGap ++ gap, isGap c = true := by
  intro c hc
  rcases List.mem_append.mp hc with hc | hc
  · exact List.mem_takeWhile_imp hc
  · exact hgap c hc

theorem endsRun_of_head?_eq {text text' : List Char} (h : EndsRun text)
    (hhead : text'.head? = text.head?) : EndsRun text' :=
  fun c hc => h c (hhead ▸ hc)

theorem endsRun_append_of {text rest rest' : List Char} (h : EndsRun (text ++ rest))
    (hrest : EndsRun rest → EndsRun rest') : EndsRun (text ++ rest') := by
  cases text with
  | nil => exact hrest h
  | cons c text => exact endsRun_of_head?_eq h rfl

/-- Gaps end a word, and otherwise the first character stays. -/
theorem endsRun_respaced {text gap : List Char} {piece : Piece}
    (hcut : cut? (text.dropWhile isGap) = some piece) (hgap : ∀ c ∈ gap, isGap c = true)
    (h : EndsRun text) (rest : List Char) :
    EndsRun (text.takeWhile isGap ++ gap ++ piece.text ++ rest) := by
  have hgaps := isGap_of_takeWhile_append text hgap
  cases hlead : text.takeWhile isGap ++ gap with
  | cons c tail =>
      intro d hd
      cases hd
      exact endsWord_of_isGap (hgaps c (by simp [hlead]))
  | nil =>
      obtain ⟨htake, -⟩ := List.append_eq_nil_iff.mp hlead
      have hsplit := rest_of_cut?_eq_some hcut
      rw [htake, List.nil_append] at hsplit
      rw [← hsplit] at h
      obtain ⟨c, tail, htext⟩ := List.exists_cons_of_ne_nil (cut?_text_ne_nil hcut)
      rw [htext] at h ⊢
      exact endsRun_of_head?_eq h rfl

namespace Respaced

variable {text text' : List Char}

theorem endsRun (h : Respaced text text') (hends : EndsRun text) : EndsRun text' := by
  cases h with
  | @finish _ gap _ hgap =>
      rw [← List.append_nil text] at hends
      refine endsRun_append_of hends fun _ c hc => ?_
      exact endsWord_of_isGap (hgap c (List.mem_of_mem_head? hc))
  | piece hcut _ hgap _ => exact endsRun_respaced hcut hgap hends _
  | remark hcut _ hgap _ => exact endsRun_respaced hcut hgap hends _

/-- In front of a line feed and at the end of the script, only gaps are inserted. -/
theorem at_newline (h : Respaced text text') (hnewline : ∀ c ∈ text.head?, c = '\n') :
    ∃ gap rest, text' = gap ++ rest ∧ (∀ c ∈ gap, isGap c = true) ∧
      (∀ c ∈ rest.head?, c = '\n') ∧ Respaced text rest := by
  cases text with
  | nil =>
      cases h with
      | finish hend hgap => exact ⟨_, [], by simp, hgap, nofun, @finish [] [] hend nofun⟩
      | piece hcut => cases hcut
      | remark hcut => cases hcut
  | cons c text =>
      obtain rfl : c = '\n' := hnewline c rfl
      cases h with
      | finish hend => cases hend
      | piece hcut hremark hgap hrest =>
          obtain rfl := Option.some.inj hcut
          refine ⟨_, '\n' :: _, ?_, hgap, fun c hc => by cases hc; rfl,
            @piece ('\n' :: text) [] _ _ hcut hremark nofun hrest⟩
          rw [List.takeWhile_cons_of_neg (by decide)]
          simp
      | remark hcut hremark =>
          cases hcut
          cases hremark.1

/-- The text of a remark is followed by what followed it before, after gaps. -/
theorem splitLine_remark {comment : List Char} (h : Respaced text text')
    (hcomment : '\n' ∉ comment) (hnewline : ∀ c ∈ text.head?, c = '\n') :
    Statement.quotation ((comment ++ text').takeWhile (· != '\n')) =
        Statement.quotation comment ∧
      Respaced text ((comment ++ text').dropWhile (· != '\n')) := by
  obtain ⟨gap, rest, rfl, hgap, hrest, hrespaced⟩ := h.at_newline hnewline
  have hline : '\n' ∉ comment ++ gap := by
    rw [List.mem_append, not_or]
    exact ⟨hcomment, fun hmem => absurd (hgap _ hmem) (by decide)⟩
  obtain ⟨htake, hdrop⟩ := splitLine_append hline hrest
  rw [← List.append_assoc, htake, hdrop]
  refine ⟨?_, hrespaced⟩
  unfold Statement.quotation
  rw [Text.trim_append_of_blank fun c hc => isBlank_of_isGap (hgap c hc)]

end Respaced

/-! ## Cutting a script with more blanks -/

/-- The piece after inserted gaps. -/
theorem cut?_respaced {text gap rest' : List Char} {piece : Piece}
    (hcut : cut? (text.dropWhile isGap) = some piece) (hgap : ∀ c ∈ gap, isGap c = true)
    (hquote : piece.kind ≠ .quote false) (hpercent : piece.text ≠ ['%'])
    (hrest : EndsRun piece.rest → EndsRun rest') :
    cut? ((text.takeWhile isGap ++ gap ++ piece.text ++ rest').dropWhile isGap) =
      some { piece with rest := rest' } := by
  have hgaps := isGap_of_takeWhile_append text hgap
  rw [((startsPiece_of_cut? hcut).splitGap hgaps rest').2]
  exact ((stands_of_cut? hcut).of_rest hquote hpercent hrest).cut?_append

/-- The second script has more gaps than the first, which is orderly.  Within a statement no
line starts. -/
def Spaced (phase : Phase) (text text' : List Char) : Prop :=
  Respaced text text' ∧ ∃ first, (phase = .within → first = false) ∧ Orderly first text

namespace Spaced

variable {phase : Phase} {text text' : List Char}

theorem of_within (h : Spaced .within text text') : Spaced .start text text' := by
  obtain ⟨hrespaced, first, _, horderly⟩ := h
  exact ⟨hrespaced, first, nofun, horderly⟩

theorem cut (h : Spaced phase text text') : CutAlike .exact Spaced phase text text' := by
  obtain ⟨hrespaced, first, hfirst, horderly⟩ := h
  cases hrespaced with
  | finish hend hgap =>
      refine .finish hend ?_
      rw [List.dropWhile_append, hend]
      simpa using List.dropWhile_eq_nil_iff.mpr hgap
  | @piece _ gap rest' piece hcut hremark hgap hrest =>
      cases horderly with
      | finish hend =>
          rw [hend] at hcut
          cases hcut
      | remark hcut' hremark' =>
          obtain rfl := Option.some.inj (hcut.symm.trans hcut')
          exact absurd hremark' hremark
      | piece hcut' _ hquote hpercent horderly =>
          obtain rfl := Option.some.inj (hcut.symm.trans hcut')
          refine .piece hcut (cut?_respaced hcut hgap hquote hpercent hrest.endsRun)
            ⟨rfl, rfl, fun _ _ => rfl, fun hlone => absurd hlone hpercent⟩
            (fun _ => ⟨hrest, _, nofun, horderly⟩)
            (fun hkind _ => ⟨hrest, _, fun _ => decide_eq_false hkind, horderly⟩)
            fun hremark' => absurd hremark' hremark
  | @remark _ gap rest' piece hcut hremark hgap hrest =>
      cases horderly with
      | finish hend =>
          rw [hend] at hcut
          cases hcut
      | piece hcut' hremark' =>
          obtain rfl := Option.some.inj (hcut.symm.trans hcut')
          exact absurd hremark hremark'
      | remark hcut' _ horderly =>
          obtain rfl := Option.some.inj (hcut.symm.trans hcut')
          have hkind {kind : PieceKind} (hne : kind ≠ .word) : piece.kind ≠ kind :=
            fun heq => hne (heq.symm.trans hremark.1)
          have hends : EndsRun piece.rest →
              EndsRun (piece.rest.takeWhile (· != '\n') ++ rest') := by
            intro hends
            rw [← List.takeWhile_append_dropWhile (p := (· != '\n')) (l := piece.rest)] at hends
            exact endsRun_append_of hends hrest.endsRun
          have hcomment : '\n' ∉ piece.rest.takeWhile (· != '\n') :=
            fun hmem => absurd (List.mem_takeWhile_imp hmem) (by decide)
          obtain ⟨hquotation, hrespaced⟩ := hrest.splitLine_remark hcomment fun c hc => by
            simpa using not_of_mem_head?_dropWhile hc
          refine .piece hcut
            (cut?_respaced hcut hgap (hkind nofun) hremark.text_ne_percent hends)
            ⟨rfl, rfl, fun _ _ => rfl, fun hlone => absurd hlone hremark.text_ne_percent⟩
            (fun hnewline => absurd hnewline (hkind nofun)) (fun _ hother => ?_)
            fun _ => ⟨hquotation, hrespaced, false, nofun, horderly⟩
          -- A line starts here, so this is no place within a statement.
          cases phase with
          | start => exact absurd hremark (hother rfl)
          | within => exact absurd (hfirst rfl) (by decide)

end Spaced

/-- An orderly script and the script with more gaps. -/
def Alignment.ofSpaced (params : List String) {source source' : List Char}
    (h : Spaced .start source source') : Alignment where
  spelling := .exact
  left := source
  right := source'
  params := params
  ahead := Spaced
  start := h
  of_within := Spaced.of_within
  cut := Spaced.cut

/-- Blanks between tokens do not matter.  An orderly script into which spaces, tabs and carriage
returns are inserted, in front of tokens and at the end of remarks, comes to the same end as
before, with the same variables, output and files, or fails with the same error on the same
line. -/
theorem report_run_of_respaced {source source' : List Char} (horderly : Orderly true source)
    (hrespaced : Respaced source source') (params : List String) (limits : Limits)
    (world : World) (store : Store) (fuel : Nat) :
    let start (source : List Char) : Machine :=
      { Machine.new (String.ofList source) params limits world with store := store }
    report (run fuel (start source')) = report (run fuel (start source)) := by
  intro start
  have hspaced : Spaced .start source source' := ⟨hrespaced, true, nofun, horderly⟩
  exact @Alignment.report_run_of_exact (.ofSpaced params hspaced) (start source) (start source')
    rfl String.toList_ofList String.toList_ofList rfl rfl rfl rfl rfl fuel

/-- A script with line feeds, and with blanks and carriage returns before them. -/
theorem report_run_of_respaced_returns :
    let source := ['r', 'e', 'm', ' ', 'x', '\n', 'e', 'n', 'd']
    let source' := [' ', 'r', 'e', 'm', ' ', 'x', '\r', '\n', '\t', 'e', 'n', 'd', '\r']
    Orderly true source ∧ Respaced source source' ∧
      let start (source : List Char) : Machine :=
        { Machine.new (String.ofList source) [] {} {} with store := Store.empty }
      report (run 9 (start source')) = report (run 9 (start source)) := by
  intro source source'
  have hgap {c : Char} (hc : isGap c = true) : ∀ d ∈ [c], isGap d = true :=
    List.forall_mem_singleton.mpr hc
  have horderly : Orderly true source :=
    .remark rfl (by decide) <| .piece rfl (by decide) nofun (by decide) <|
      .piece rfl (by decide) nofun (by decide) <| .finish rfl
  have hrespaced : Respaced source _ :=
    @Respaced.remark _ [' '] _ _ rfl (by decide) (hgap rfl) <|
      @Respaced.piece _ ['\r'] _ _ rfl (by decide) (hgap rfl) <|
      @Respaced.piece _ ['\t'] _ _ rfl (by decide) (hgap rfl) <|
      @Respaced.finish _ ['\r'] rfl (hgap rfl)
  exact ⟨horderly, hrespaced, report_run_of_respaced horderly hrespaced [] {} {} Store.empty 9⟩

end MatrixScript
