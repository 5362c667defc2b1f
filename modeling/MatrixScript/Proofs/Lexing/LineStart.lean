import MatrixScript.Proofs.Lexing.Labels
import MatrixScript.Proofs.Lexing.Survey
import MatrixScript.Proofs.Lexing.Within

/-!
# Faults and the starts of lines

The line for errors is the line of the last token taken.  When a place without a token comes
next, that is the line of the place, unless the last token taken was the line feed before it.  A
survey may come to such a place at the start of a line (`Trails`).  If it does not, then every
line starts with a token (`Surveys.lineStarts`), and then no reading of the script comes to such
a place without the right line, whatever it jumps to or passes over (`Attentive`).
-/

namespace MatrixScript

namespace Lexer

open Cursor

/-! ## Starts of lines -/

/-- Nothing but gaps has come since the last line feed. -/
def OpensLine (before : List Char) : Prop :=
  ∃ start gap, before = start ++ '\n' :: gap ∧ ∀ c ∈ gap, isGap c = true

theorem not_mem_of_gap {gap : List Char} (h : ∀ c ∈ gap, isGap c = true) : '\n' ∉ gap :=
  fun hmem => absurd (h '\n' hmem) (by decide)

/-- A line feed that does not stand in the second part of a text stands in the first. -/
theorem feed_in_left {before text start rest : List Char}
    (h : before ++ text = start ++ '\n' :: rest) (htext : '\n' ∉ text) :
    ∃ more, before = start ++ '\n' :: more ∧ rest = more ++ text := by
  rcases List.append_eq_append_iff.mp h with ⟨more, -, hmore⟩ | ⟨more, hbefore, hmore⟩
  · exact absurd (by simp [hmore]) htext
  · cases more with
    | nil =>
        rw [List.nil_append] at hmore
        exact absurd (hmore ▸ List.mem_cons_self) htext
    | cons c more =>
        rw [List.cons_append, List.cons.injEq] at hmore
        exact ⟨more, hmore.1 ▸ hbefore, hmore.2⟩

/-- A line feed that does not stand in the first part of a text stands in the second. -/
theorem feed_in_right {text rest start more : List Char}
    (h : text ++ rest = start ++ '\n' :: more) (htext : '\n' ∉ text) :
    ∃ left, start = text ++ left ∧ rest = left ++ '\n' :: more := by
  rcases List.append_eq_append_iff.mp h with ⟨left, hstart, hrest⟩ | ⟨left, hleft, hrest⟩
  · exact ⟨left, hstart, hrest⟩
  · cases left with
    | nil => exact ⟨[], by simpa using hleft.symm, hrest.symm⟩
    | cons c left =>
        rw [List.cons_append, List.cons.injEq] at hrest
        exact absurd (by simp [hleft, ← hrest.1]) htext

theorem not_opensLine_nil : ¬ OpensLine [] := by
  rintro ⟨start, gap, h, -⟩
  simp at h

theorem opensLine_feed (before : List Char) : OpensLine (before ++ ['\n']) :=
  ⟨before, [], rfl, fun _ h => absurd h List.not_mem_nil⟩

theorem opensLine_append_gap {before gap : List Char} (hgap : ∀ c ∈ gap, isGap c = true) :
    OpensLine (before ++ gap) ↔ OpensLine before := by
  constructor
  · rintro ⟨start, rest, h, hrest⟩
    obtain ⟨more, hbefore, rfl⟩ := feed_in_left h (not_mem_of_gap hgap)
    exact ⟨start, more, hbefore, fun c hc => hrest c (List.mem_append_left _ hc)⟩
  · rintro ⟨start, rest, rfl, hrest⟩
    refine ⟨start, rest ++ gap, by simp, fun c hc => ?_⟩
    rcases List.mem_append.mp hc with hc | hc
    · exact hrest c hc
    · exact hgap c hc

/-- A line does not start after a token on it. -/
theorem not_opensLine_append {before text : List Char} {c : Char} (hfeed : '\n' ∉ text)
    (hc : c ∈ text) (hgap : isGap c = false) : ¬ OpensLine (before ++ text) := by
  rintro ⟨start, rest, h, hrest⟩
  obtain ⟨more, -, rfl⟩ := feed_in_left h hfeed
  rw [hrest c (List.mem_append_right _ hc)] at hgap
  cases hgap

/-! ## One token of a survey -/

variable {lexer lexer' : Lexer} {token : Token} {tokens : List Token}
  {before rest : List Char}

/-- A piece starts with a character that is no gap. -/
theorem exists_not_gap_of_cut? {piece : Piece} (hcut : cut? (rest.dropWhile isGap) = some piece) :
    ∃ c ∈ piece.text, isGap c = false := by
  cases htext : piece.text with
  | nil => exact absurd htext (cut?_text_ne_nil hcut)
  | cons c text =>
      refine ⟨c, List.mem_cons_self, ?_⟩
      have hnone := takeWhile_dropWhile_gap rest
      rw [← cut?_lossless hcut, htext, List.cons_append, List.takeWhile_cons] at hnone
      cases hgap : isGap c with
      | false => rfl
      | true => rw [hgap] at hnone; cases hnone

/-- What a survey passes over with a token: a line feed with the gaps before it, or a text on one
line that does not only consist of gaps. -/
inductive Passed (token : Token) : (text : List Char) → Prop where
  | feed {gap : List Char} (hgap : '\n' ∉ gap) : Passed token (gap ++ ['\n'])
  | solid {text : List Char} {c : Char} (hgo : token.endsStatement = false) (hfeed : '\n' ∉ text)
      (hc : c ∈ text) (hsolid : isGap c = false) : Passed token text

theorem Faces.past (h : lexer.Faces before rest) (hnext : lexer.next.outcome = .ok token)
    (hend : token.kind ≠ .delimiter .endOfScript) :
    ∃ text more, rest = text ++ more ∧ Passed token text ∧
      (lexer.past token).Faces (before ++ text) more ∧
      (lexer.past token).line = (after before).line := by
  obtain ⟨houtcome, hcursor⟩ := h.next_eq
  rw [hnext] at houtcome
  have hline : lexer.next.lexer.line = (after before).line := by
    have hplace : IsPlace lexer.source (after before) := h.source_eq ▸ isPlace_after before rest
    rw [line_next hnext]
    exact ((@line_scan (lexer.seek (after before)) hplace).1 token houtcome.symm).1
  cases hcut : cut? (rest.dropWhile isGap) with
  | none =>
      rw [scan_of_cut?_eq_none h.standsAt hcut] at houtcome
      cases houtcome
      exact absurd rfl hend
  | some piece =>
      rw [scan_of_cut?_eq_some h.standsAt hcut] at houtcome hcursor
      have hrest := rest_of_cut?_eq_some hcut
      have hfaces : lexer.next.lexer.Faces (before ++ (rest.takeWhile isGap ++ piece.text))
          piece.rest := by
        rw [List.append_assoc] at hcursor
        exact faces_next (hrest.symm ▸ h) hcursor
      have hgaps := List.count_eq_zero.mp (count_newline_gap rest)
      have hcount := count_newline_of_cut? hcut
      cases hcontent : piece.content (lexer.seek (after before)).params with
      | error e => rw [hcontent] at houtcome; cases houtcome
      | ok found =>
          obtain ⟨kind, lexeme⟩ := found
          rw [hcontent] at houtcome
          cases houtcome
          rcases endsStatement_of_cut? hcut hcontent (after (before ++ rest.takeWhile isGap)) with
            ⟨hkind, hfeed⟩ | ⟨hkind, hgo⟩
          · rw [past_of_ne_rem (by simp [hfeed])]
            refine ⟨_, _, hrest.symm, ?_, hfaces, hline⟩
            rw [text_of_newline hcut hkind]
            exact .feed hgaps
          · rw [if_neg hkind, List.count_eq_zero] at hcount
            obtain ⟨c, hc, hgap⟩ := exists_not_gap_of_cut? hcut
            have hfeed : '\n' ∉ rest.takeWhile isGap ++ piece.text := by simp [hgaps, hcount]
            by_cases hrem : kind = .command .rem
            · -- The rest of the line of a remark is passed over as well.
              rw [past_of_rem hrem]
              have hstand : lexer.next.lexer.StandsAt
                  (before ++ (rest.takeWhile isGap ++ piece.text)) piece.rest :=
                ⟨hfaces.source_eq, by rw [hcursor, List.append_assoc]⟩
              obtain ⟨-, hpeeked, hskip⟩ := hstand.skipLine (peeked_next lexer)
              refine ⟨rest.takeWhile isGap ++ piece.text ++ piece.rest.takeWhile (· != '\n'),
                piece.rest.dropWhile (· != '\n'), ?_, .solid hgo ?_ (by simp [hc]) hgap, ?_, ?_⟩
              · rw [List.append_assoc, List.takeWhile_append_dropWhile, hrest]
              · rw [List.mem_append, not_or]
                exact ⟨hfeed, fun hmem => absurd (List.mem_takeWhile_imp hmem) (by decide)⟩
              · rw [← List.append_assoc]
                exact faces_of_standsAt hskip hpeeked hfaces.sound.skipLine
              · rw [line_skipLine, hline]
            · rw [past_of_ne_rem hrem]
              exact ⟨_, _, hrest.symm, .solid hgo hfeed (by simp [hc]) hgap, hfaces, hline⟩

/-! ## The line of a survey -/

/-- The line for errors is that of the next token, or the one before it if that token is the first
on its line. -/
def Trails (lexer : Lexer) : Prop :=
  ∃ before rest, lexer.Faces before rest ∧
    (OpensLine before → lexer.line + 1 = (after before).line) ∧
    (¬ OpensLine before → lexer.line = (after before).line)

theorem trails_reset (lexer : Lexer) : lexer.reset.Trails :=
  ⟨[], lexer.source, faces_reset rfl, fun h => absurd h not_opensLine_nil, fun _ => rfl⟩

theorem Trails.past (h : lexer.Trails) (hnext : lexer.next.outcome = .ok token)
    (hend : token.kind ≠ .delimiter .endOfScript) : (lexer.past token).Trails := by
  obtain ⟨before, rest, hfaces, -, -⟩ := h
  obtain ⟨text, more, -, hpassed, hpast, hline⟩ := hfaces.past hnext hend
  refine ⟨_, _, hpast, ?_⟩
  rw [hline, line_after, line_after, List.count_append]
  cases hpassed with
  | feed hgap =>
      rw [← List.append_assoc, List.count_append, List.count_eq_zero.mpr hgap]
      exact ⟨fun _ => rfl, fun h => absurd (opensLine_feed _) h⟩
  | solid _ hfeed hc hsolid =>
      rw [List.count_eq_zero.mpr hfeed]
      exact ⟨fun h => absurd h (not_opensLine_append hfeed hc hsolid), fun _ => rfl⟩

theorem Meets.trails (h : Meets lexer tokens lexer') (htrails : lexer.Trails) :
    lexer'.Trails := by
  induction h with
  | refl => exact htrails
  | meet hnext hend _ ih => exact ih (htrails.past hnext hend)

/-! ## Faults -/

/-- The lexer stands right behind a parameter mark without its digit, which is the cause of an
error.  The line for errors is the line of the mark, or the line before it if the mark is the first
thing on its line. -/
structure Stranded (lexer : Lexer) (before rest : List Char) (cause : ParseError) : Prop where
  source_eq : lexer.source = before ++ '%' :: rest
  lone : ∀ c ∈ rest.head?, c.isDigit = false
  cause_eq : cause = .invalidParameter (String.ofList (rest.takeWhile fun c => !Text.isBlank c))
  cursor_eq : lexer.cursor = after (before ++ ['%'])
  line_before : OpensLine before → lexer.line + 1 = (after before).line
  line_eq : ¬ OpensLine before → lexer.line = (after before).line

/-- A fault is on the line where the lexer was before it. -/
theorem Faces.stranded {e : ParseError} (h : lexer.Faces before rest)
    (hnext : lexer.next.outcome = .error e)
    (hbefore : OpensLine before → lexer.line + 1 = (after before).line)
    (hline : ¬ OpensLine before → lexer.line = (after before).line) :
    ∃ start rest, lexer.next.lexer.Stranded start rest e := by
  obtain ⟨gap, rest, rfl, hgap, hlone, hcause, hcursor⟩ := h.exists_fault hnext
  refine ⟨before ++ gap, rest, ?_, hlone, hcause, hcursor, ?_, ?_⟩
  · rw [source_next, h.source_eq, List.append_assoc]
  all_goals
    rw [opensLine_append_gap hgap, line_next_of_error hnext, line_after, List.count_append,
      List.count_eq_zero.mpr (not_mem_of_gap hgap)]
  · exact hbefore
  · exact hline

theorem Trails.stranded {e : ParseError} (h : lexer.Trails)
    (hnext : lexer.next.outcome = .error e) :
    ∃ start rest, lexer.next.lexer.Stranded start rest e := by
  obtain ⟨before, rest, hfaces, hbefore, hline⟩ := h
  exact hfaces.stranded hnext hbefore hline

/-! ## Scripts whose lines start with tokens -/

/-- There is a token at the start of every line. -/
def LineStarts (source : List Char) (params : List String) : Prop :=
  ∀ before rest, source = before ++ rest → OpensLine before →
    ∃ token, (scanAt source params (after before)).outcome = .ok token

/-- A token stays ahead when gaps in front of it are passed over. -/
theorem Faces.exists_token {gap : List Char} (h : lexer.Faces before (gap ++ rest))
    (hgap : ∀ c ∈ gap, isGap c = true) (hnext : ∃ token, lexer.next.outcome = .ok token) :
    ∃ token, (scanAt lexer.source lexer.params (after (before ++ gap))).outcome = .ok token := by
  have hdrop : (gap ++ rest).dropWhile isGap = rest.dropWhile isGap :=
    List.dropWhile_append_of_pos hgap
  have hstand : (lexer.seek (after (before ++ gap))).StandsAt (before ++ gap) rest :=
    ⟨by rw [List.append_assoc]; exact h.source_eq, rfl⟩
  rw [h.next_eq.1] at hnext
  rw [scanAt_eq]
  cases hcut : cut? (rest.dropWhile isGap) with
  | none => exact ⟨_, by rw [scan_of_cut?_eq_none hstand hcut]⟩
  | some piece =>
      rw [← hdrop] at hcut
      rw [scan_of_cut?_eq_some h.standsAt hcut] at hnext
      rw [hdrop] at hcut
      rw [scan_of_cut?_eq_some hstand hcut]
      obtain ⟨token, htoken⟩ := hnext
      have hparams (cursor : Cursor) : (lexer.seek cursor).params = lexer.params := rfl
      rw [hparams] at htoken
      rw [hparams]
      cases hcontent : piece.content lexer.params with
      | error e =>
          rw [hcontent] at htoken
          cases htoken
      | ok found => exact ⟨_, rfl⟩

/-- At the end of the script only gaps are left. -/
theorem Faces.cut?_of_end (h : lexer.Faces before rest) (hnext : lexer.next.outcome = .ok token)
    (hend : token.kind = .delimiter .endOfScript) : cut? (rest.dropWhile isGap) = none := by
  have houtcome := h.next_eq.1
  rw [hnext] at houtcome
  cases hcut : cut? (rest.dropWhile isGap) with
  | none => rfl
  | some piece =>
      rw [scan_of_cut?_eq_some h.standsAt hcut] at houtcome
      cases hcontent : piece.content (lexer.seek (after before)).params with
      | error e => rw [hcontent] at houtcome; cases houtcome
      | ok found =>
          obtain ⟨kind, lexeme⟩ := found
          rw [hcontent] at houtcome
          cases houtcome
          rcases endsStatement_of_cut? hcut hcontent (after before) with ⟨-, hkind⟩ | ⟨-, hgo⟩
          · rw [show kind = _ from hkind] at hend
            cases hend
          · exact absurd hend (Token.endsStatement_eq_false_iff.mp hgo).2

theorem Meets.exists_next (h : Meets lexer tokens lexer')
    (hlast : ∃ token, lexer'.next.outcome = .ok token) :
    ∃ token, lexer.next.outcome = .ok token := by
  cases h with
  | refl => exact hlast
  | meet hnext _ _ => exact ⟨_, hnext⟩

/-- A survey that comes to the end of the script meets a token at the start of each line ahead. -/
theorem Meets.exists_token {last : Lexer} {final : Token} (h : Meets lexer tokens last)
    (hlast : last.next.outcome = .ok final) (hfinal : final.kind = .delimiter .endOfScript)
    (hfaces : lexer.Faces before rest) {left gap more : List Char}
    (hrest : rest = left ++ '\n' :: (gap ++ more)) (hgap : ∀ c ∈ gap, isGap c = true) :
    ∃ token,
      (scanAt lexer.source lexer.params (after (before ++ left ++ '\n' :: gap))).outcome =
        .ok token := by
  induction h generalizing before rest left with
  | refl lexer =>
      have hgaps := takeWhile_gap_of_cut?_eq_none (hfaces.cut?_of_end hlast hfinal)
      have hfeed := count_newline_gap rest
      rw [hgaps, hrest] at hfeed
      simp at hfeed
  | @meet lexer last token tokens hnext hend hmeets ih =>
      obtain ⟨text, others, rfl, hpassed, hpast, -⟩ := hfaces.past hnext hend
      have hsource := source_past lexer token
      have hparams := params_past lexer token
      -- The line feed is the one that has been passed over, or it is still ahead.
      cases hpassed with
      | feed hblank =>
          rw [List.append_assoc, List.singleton_append] at hrest
          obtain ⟨left, rfl, hmore⟩ := feed_in_right hrest hblank
          cases left with
          | nil =>
              rw [List.nil_append, List.cons.injEq] at hmore
              have htoken := (hmore.2 ▸ hpast).exists_token hgap (hmeets.exists_next ⟨_, hlast⟩)
              rw [hsource, hparams] at htoken
              simpa using htoken
          | cons c left =>
              rw [List.cons_append, List.cons.injEq] at hmore
              have htoken := ih hlast hpast hmore.2
              rw [hsource, hparams] at htoken
              simpa [← hmore.1] using htoken
      | solid _ hfeed _ _ =>
          obtain ⟨left, rfl, hmore⟩ := feed_in_right hrest hfeed
          have htoken := ih hlast hpast hmore
          rw [hsource, hparams] at htoken
          simpa using htoken

theorem Surveys.lineStarts (h : Surveys lexer.reset tokens none) :
    LineStarts lexer.source lexer.params := by
  cases h with
  | ended hmeets hnext hend =>
      rintro before rest hsource ⟨start, gap, rfl, hgap⟩
      rw [List.append_assoc, List.cons_append] at hsource
      exact hmeets.exists_token hnext hend (faces_reset rfl) hsource hgap

/-! ## Reading scripts whose lines start with tokens -/

/-- If there is no token next, then the line for errors is the line of that place. -/
structure Attentive (lexer : Lexer) : Prop where
  sound : lexer.Sound
  line_eq : ∀ e, lexer.next.outcome = .error e → lexer.line = lexer.position.line

theorem attentive_of_next (hsound : lexer.Sound) (hnext : ∃ token, lexer.next.outcome = .ok token) :
    lexer.Attentive where
  sound := hsound
  line_eq e he := by
    obtain ⟨token, htoken⟩ := hnext
    rw [htoken] at he
    cases he

theorem attentive_seek {cursor : Cursor} (h : IsPlace lexer.source cursor) :
    (lexer.seek cursor).Attentive where
  sound := sound_seek h
  line_eq _ _ := rfl

/-- After the end of a statement there is a token, or the script ends. -/
theorem LineStarts.exists_next (h : LineStarts lexer.source lexer.params) (hsound : lexer.Sound)
    (hnext : lexer.next.outcome = .ok token) (hends : token.endsStatement = true) :
    ∃ other, lexer.next.lexer.next.outcome = .ok other := by
  obtain ⟨before, rest, hfaces, -⟩ := hsound.exists_faces
  by_cases hend : token.kind = .delimiter .endOfScript
  · have hcut := hfaces.cut?_of_end hnext hend
    have hcursor := hfaces.next_eq.2
    rw [scan_of_cut?_eq_none hfaces.standsAt hcut] at hcursor
    rw [← List.append_nil rest] at hfaces
    obtain ⟨other, hother, -⟩ := (faces_next hfaces hcursor).next_of_nil
    exact ⟨other, hother⟩
  · have hrem : token.kind ≠ .command .rem := by
      rcases Token.endsStatement_iff.mp hends with hkind | hkind <;> simp [hkind]
    obtain ⟨text, more, rfl, hpassed, hpast, -⟩ := hfaces.past hnext hend
    rw [past_of_ne_rem hrem] at hpast
    cases hpassed with
    | @feed gap _ =>
        have hopens : OpensLine (before ++ (gap ++ ['\n'])) := by
          rw [← List.append_assoc]
          exact opensLine_feed _
        obtain ⟨other, hother⟩ := h _ more (by rw [hfaces.source_eq, ← List.append_assoc]) hopens
        refine ⟨other, ?_⟩
        rw [hpast.next_eq.1, ← scanAt_eq, source_next, params_next, hother]
    | solid hgo =>
        rw [hgo] at hends
        cases hends

theorem Attentive.next (h : lexer.Attentive) (hstarts : LineStarts lexer.source lexer.params) :
    lexer.next.lexer.Attentive := by
  cases hnext : lexer.next.outcome with
  | ok token =>
      cases hends : token.endsStatement with
      | true => exact attentive_of_next h.sound.next (hstarts.exists_next h.sound hnext hends)
      | false =>
          obtain ⟨hstart, hposition⟩ := h.sound.line_next.1 token hnext
          refine ⟨h.sound.next, fun e _ => ?_⟩
          rw [Lexer.line_next hnext, hposition hends, hstart]
  | error e =>
      refine ⟨h.sound.next, fun _ _ => ?_⟩
      rw [line_next_of_error hnext, h.line_eq e hnext, h.sound.line_next.2 e hnext]

theorem peek_lexer_of_error {e : ParseError} (h : lexer.next.outcome = .error e) :
    lexer.peek.lexer = lexer.next.lexer := by
  obtain ⟨_, _, hnext⟩ | ⟨_, _, _, hnext⟩ | ⟨_, hnone, hscan, hnext⟩ := next_cases lexer <;>
    rw [hnext] at h <;> cases h
  rw [hnext, peek_of_scan_error hnone hscan]

theorem Attentive.peek (h : lexer.Attentive) (hstarts : LineStarts lexer.source lexer.params) :
    lexer.peek.lexer.Attentive := by
  cases hpeek : lexer.peek.outcome with
  | ok token => exact attentive_of_next h.sound.peek ⟨token, (next_peek hpeek).2.1⟩
  | error e =>
      rw [peek_outcome] at hpeek
      rw [peek_lexer_of_error hpeek]
      exact h.next hstarts

theorem Attentive.skipLine (h : lexer.Attentive) : lexer.skipLine.2.Attentive := by
  have hpassed : ∀ other : Lexer, other.skipLine = lexer.skipLine → other.source = lexer.source →
      other.cursor = lexer.cursor → other.peeked = none → lexer.skipLine.2.Attentive := by
    intro other hsame hsource hcursor hpeeked
    obtain ⟨before, rest, hstand⟩ := isPlace_iff_standsAt.mp h.sound.cursor
    have hstand' : other.StandsAt before rest :=
      ⟨hsource.trans hstand.source_eq, hcursor.trans hstand.cursor_eq⟩
    obtain ⟨-, hnone, hskip⟩ := hstand'.skipLine hpeeked
    rw [hsame] at hnone hskip
    obtain ⟨token, htoken, -⟩ :=
      (faces_of_standsAt hskip hnone h.sound.skipLine).endsStatement_next
    exact attentive_of_next h.sound.skipLine ⟨token, htoken⟩
  cases hpeeked : lexer.peeked with
  | none => exact hpassed lexer rfl rfl rfl hpeeked
  | some token =>
      cases hends : token.endsStatement with
      | true =>
          have hsame : lexer.skipLine.2 = lexer := by
            unfold Lexer.skipLine
            simp only [hpeeked, hends, if_true]
          rwa [hsame]
      | false =>
          refine hpassed { lexer with peeked := none } ?_ rfl rfl rfl
          unfold Lexer.skipLine
          simp [hpeeked, hends]

/-- Whatever reads a script whose lines start with tokens has the right line for its faults. -/
theorem Attentive.moves {targets : Cursor → Prop} (hmoves : Moves targets lexer lexer')
    (htargets : ∀ c, targets c → IsPlace lexer.source c)
    (hstarts : LineStarts lexer.source lexer.params) (h : lexer.Attentive) :
    lexer'.Attentive := by
  induction hmoves with
  | refl => exact h
  | tail hway hmove ih =>
      rw [← Moves.source_eq hway, ← Moves.params_eq hway] at hstarts
      cases hmove with
      | next => exact ih.next hstarts
      | peek => exact ih.peek hstarts
      | skipLine => exact ih.skipLine
      | seek hcursor => exact attentive_seek (Moves.source_eq hway ▸ htargets _ hcursor)

/-- In such a script no fault comes up at the start of a line. -/
theorem Attentive.stranded {e : ParseError} (h : lexer.Attentive)
    (hstarts : LineStarts lexer.source lexer.params) (hnext : lexer.next.outcome = .error e) :
    ∃ start rest, lexer.next.lexer.Stranded start rest e := by
  obtain ⟨before, rest, hfaces, hposition⟩ := h.sound.exists_faces
  refine hfaces.stranded hnext (fun hopens => ?_) fun _ => ?_
  · obtain ⟨token, htoken⟩ := hstarts before rest hfaces.source_eq hopens
    rw [scanAt_eq, ← hfaces.next_eq.1, hnext] at htoken
    cases htoken
  · rw [h.line_eq e hnext, hposition]

end Lexer

end MatrixScript
