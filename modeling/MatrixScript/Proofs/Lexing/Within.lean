import MatrixScript.Proofs.Lexing.Line
import MatrixScript.Proofs.Lexing.Pattern

/-!
# Reading within a line

A lexer stays on its line while it takes no token that ends a statement, whatever else
it does but jump (`Stays`).  A statement that fails may have taken the end of its line,
and nothing after it (`Consumes`).  In both cases the line for errors is the line on
which the reading started (`Consumes.line_eq`).
-/

namespace MatrixScript

namespace Lexer

open Cursor

/-- One move on the way through a line. -/
inductive Pace : Lexer → Lexer → Prop where
  | token {lexer : Lexer} {token : Token} (h : lexer.next.outcome = .ok token)
      (hgo : token.endsStatement = false) : Pace lexer lexer.next.lexer
  | fault {lexer : Lexer} {e : ParseError} (h : lexer.next.outcome = .error e) :
      Pace lexer lexer.next.lexer
  | peek (lexer : Lexer) : Pace lexer lexer.peek.lexer
  | skipLine (lexer : Lexer) : Pace lexer lexer.skipLine.2

/-- The script is read without taking the end of a line. -/
def Stays : Lexer → Lexer → Prop :=
  Relation.ReflTransGen Pace

/-- The script is read up to the end of the line, which is taken last, if at all. -/
inductive Consumes (lexer : Lexer) : Lexer → Prop where
  | within {lexer' : Lexer} (h : Stays lexer lexer') : Consumes lexer lexer'
  | upToEnd {lexer' : Lexer} {token : Token} (h : Stays lexer lexer')
      (hnext : lexer'.next.outcome = .ok token) (hends : token.endsStatement = true) :
      Consumes lexer lexer'.next.lexer

section Stays

variable {lexer lexer' lexer'' : Lexer}

theorem Stays.refl : Stays lexer lexer := Relation.ReflTransGen.refl

theorem Stays.trans (h : Stays lexer lexer') (h' : Stays lexer' lexer'') :
    Stays lexer lexer'' :=
  Relation.ReflTransGen.trans h h'

theorem Pace.stays (h : Pace lexer lexer') : Stays lexer lexer' :=
  Relation.ReflTransGen.single h

theorem Stays.consumes (h : Stays lexer lexer') (h' : Consumes lexer' lexer'') :
    Consumes lexer lexer'' := by
  cases h' with
  | within hstays => exact .within (h.trans hstays)
  | upToEnd hstays hnext hends => exact .upToEnd (h.trans hstays) hnext hends

end Stays

/-! ## The line of the lexer -/

/-- Whatever a scan finds is on the line where it starts, and so is what follows unless
the line ends. -/
theorem line_scan {lexer : Lexer} (h : IsPlace lexer.source lexer.cursor) :
    (∀ token, lexer.scan.outcome = .ok token → token.start.line = lexer.cursor.line ∧
      (token.endsStatement = false → lexer.scan.cursor.line = lexer.cursor.line)) ∧
    ∀ e, lexer.scan.outcome = .error e → lexer.scan.cursor.line = lexer.cursor.line := by
  obtain ⟨before, rest, hstand⟩ := isPlace_iff_standsAt.mp h
  have hgap := count_newline_gap rest
  have hstart : (after (before ++ rest.takeWhile isGap)).line = lexer.cursor.line := by
    rw [hstand.cursor_eq, line_after, line_after, List.count_append, hgap, Nat.add_zero]
  cases hcut : cut? (rest.dropWhile isGap) with
  | none =>
      rw [takeWhile_gap_of_cut?_eq_none hcut] at hstart
      rw [scan_of_cut?_eq_none hstand hcut]
      refine ⟨?_, fun _ he => nomatch he⟩
      rintro _ ⟨⟩
      exact ⟨hstart, fun _ => hstart⟩
  | some piece =>
      have hend : piece.text.count '\n' = 0 →
          (after (before ++ rest.takeWhile isGap ++ piece.text)).line = lexer.cursor.line := by
        intro hcount
        rw [line_after, List.count_append, hcount, ← hstart, line_after, Nat.add_zero]
      rw [scan_of_cut?_eq_some hstand hcut]
      cases hcontent : piece.content lexer.params with
      | ok found =>
          refine ⟨?_, fun _ he => nomatch he⟩
          rintro _ ⟨⟩
          refine ⟨hstart, fun hgo => hend ?_⟩
          rcases endsStatement_of_cut? hcut hcontent (after (before ++ rest.takeWhile isGap)) with
            ⟨_, hkind⟩ | ⟨hkind, _⟩
          · exact absurd hkind (Token.endsStatement_eq_false_iff.mp hgo).1
          · rw [count_newline_of_cut? hcut, if_neg hkind]
      | error e =>
          refine ⟨fun _ hok => (nomatch hok), fun _ _ => hend ?_⟩
          rw [(text_of_content_error hcontent).1]
          rfl

/-- The lexer is on a line: the next token is looked for there, and errors are reported
there. -/
structure OnRow (row : Nat) (lexer : Lexer) : Prop where
  sound : lexer.Sound
  position_line : lexer.position.line = row
  line_eq : lexer.line = row

section OnRow

variable {row : Nat} {lexer lexer' : Lexer} {token : Token}

theorem Sound.line_next (h : lexer.Sound) :
    (∀ token, lexer.next.outcome = .ok token → token.start.line = lexer.position.line ∧
      (token.endsStatement = false →
        lexer.next.lexer.position.line = lexer.position.line)) ∧
    ∀ e, lexer.next.outcome = .error e →
      lexer.next.lexer.position.line = lexer.position.line := by
  have hscan := @line_scan (lexer.seek lexer.position) h.position
  have hposition : lexer.next.lexer.position = (lexer.seek lexer.position).scan.cursor := by
    rw [Lexer.position, peeked_next, h.next_eq.2]
  rw [h.next_eq.1, hposition]
  exact hscan

theorem OnRow.peek (h : OnRow row lexer) : OnRow row lexer.peek.lexer where
  sound := h.sound.peek
  line_eq := by rw [line_peek, h.line_eq]
  position_line := by
    cases hpeek : lexer.peek.outcome with
    | ok token =>
        have hnext := (next_peek hpeek).1
        rw [Lexer.position, peeked_peek hpeek]
        exact ((h.sound.line_next.1 token hnext).1).trans h.position_line
    | error e =>
        obtain ⟨_, _, hcase⟩ | ⟨_, _, _, hcase⟩ | ⟨_, hnone, hscan, hcase⟩ :=
          peek_cases lexer <;> rw [hcase] at hpeek <;> cases hpeek
        have hline := h.position_line
        rw [Lexer.position, hnone] at hline
        rw [hcase, Lexer.position, hnone, (line_scan h.sound.cursor).2 e hscan, hline]

/-- Unless the token in lookahead ends the line, the cursor is on the line of the next
token. -/
theorem Sound.line_cursor (h : lexer.Sound)
    (hgo : ∀ token, lexer.peeked = some token → token.endsStatement = false) :
    lexer.cursor.line = lexer.position.line := by
  unfold Lexer.position
  split
  · rename_i token hpeeked
    obtain ⟨hplace, houtcome, hcursor⟩ := h.peeked token hpeeked
    rw [← hcursor]
    exact ((@line_scan (lexer.seek token.start) hplace).1 token houtcome).2 (hgo token hpeeked)
  · rfl

theorem OnRow.skipLine (h : OnRow row lexer) : OnRow row lexer.skipLine.2 where
  sound := h.sound.skipLine
  line_eq := by rw [line_skipLine, h.line_eq]
  position_line := by
    have hcursor := h.sound.line_cursor
    rw [h.position_line] at hcursor
    unfold Lexer.skipLine
    split
    · rename_i token hpeeked
      split
      · exact h.position_line
      · rename_i hgo
        apply hcursor
        intro other hother
        rw [hpeeked] at hother
        cases hother
        exact Bool.eq_false_iff.mpr hgo
    · rename_i hnone
      exact hcursor fun token hsome => by rw [hnone] at hsome; cases hsome

theorem Pace.onRow (h : Pace lexer lexer') (hrow : OnRow row lexer) : OnRow row lexer' := by
  cases h with
  | token hnext hgo =>
      obtain ⟨hstart, hposition⟩ := hrow.sound.line_next.1 _ hnext
      refine ⟨hrow.sound.next, (hposition hgo).trans hrow.position_line, ?_⟩
      rw [Lexer.line_next hnext, hstart, hrow.position_line]
  | fault hnext =>
      refine ⟨hrow.sound.next, (hrow.sound.line_next.2 _ hnext).trans hrow.position_line, ?_⟩
      rw [line_next_of_error hnext, hrow.line_eq]
  | peek => exact hrow.peek
  | skipLine => exact hrow.skipLine

theorem Stays.onRow (h : Stays lexer lexer') (hrow : OnRow row lexer) : OnRow row lexer' := by
  induction h with
  | refl => exact hrow
  | tail _ hpace ih => exact hpace.onRow ih

/-- Errors are reported on the line where the reading started, even if its end has been
taken. -/
theorem Consumes.line_eq (h : Consumes lexer lexer') (hrow : OnRow row lexer) :
    lexer'.line = row := by
  cases h with
  | within hstays => exact (hstays.onRow hrow).line_eq
  | upToEnd hstays hnext _ =>
      have hlast := hstays.onRow hrow
      rw [Lexer.line_next hnext, (hlast.sound.line_next.1 _ hnext).1, hlast.position_line]

/-- After the first token of a statement the lexer is on its line. -/
theorem Sound.onRow_next (h : lexer.Sound) (hnext : lexer.next.outcome = .ok token)
    (hgo : token.endsStatement = false) : OnRow token.start.line lexer.next.lexer := by
  obtain ⟨hstart, hposition⟩ := h.line_next.1 token hnext
  exact ⟨h.next, (hposition hgo).trans hstart.symm, Lexer.line_next hnext⟩

end OnRow

end Lexer

end MatrixScript
