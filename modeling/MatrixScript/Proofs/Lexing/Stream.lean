import MatrixScript.Proofs.Lexing.Trail

/-!
# The tokens ahead of a lexer

`ahead` counts the characters from the next token on: it never grows while a
script is read, and every token but the end of the script makes it smaller.
`Upcoming` lists tokens that come next, and `Reads` the tokens that were taken on
the way from one lexer to another; the two fit together (`Reads.upcoming_iff`).
-/

namespace MatrixScript

theorem Token.is_iff {token : Token} {mark : Delimiter} :
    token.is mark = true ↔ token.kind = .delimiter mark := by
  unfold is delimiter?
  split <;> simp_all

theorem Token.is_eq_false_iff {token : Token} {mark : Delimiter} :
    token.is mark = false ↔ token.kind ≠ .delimiter mark := by
  rw [← Bool.not_eq_true, is_iff]

theorem Token.endsStatement_iff {token : Token} : token.endsStatement = true ↔
    token.kind = .delimiter .endOfLine ∨ token.kind = .delimiter .endOfScript := by
  rw [endsStatement, Bool.or_eq_true, is_iff, is_iff]

theorem Token.endsStatement_eq_false_iff {token : Token} : token.endsStatement = false ↔
    token.kind ≠ .delimiter .endOfLine ∧ token.kind ≠ .delimiter .endOfScript := by
  rw [← Bool.not_eq_true, endsStatement_iff, not_or]

theorem is_eq_false_of_endsStatement {token : Token} {mark : Delimiter}
    (hends : token.endsStatement = true) (hline : mark ≠ .endOfLine)
    (hscript : mark ≠ .endOfScript) : token.is mark = false := by
  rcases Token.endsStatement_iff.mp hends with hkind | hkind
  · simpa [Token.is, Token.delimiter?, hkind] using hline.symm
  · simpa [Token.is, Token.delimiter?, hkind] using hscript.symm

theorem bind_delimiter?_of_endsStatement {β : Type} {token : Token}
    {level : Delimiter → Option β} (hends : token.endsStatement = true)
    (hline : level .endOfLine = none) (hscript : level .endOfScript = none) :
    token.delimiter?.bind level = none := by
  rcases Token.endsStatement_iff.mp hends with hkind | hkind
  · simpa [Token.delimiter?, hkind] using hline
  · simpa [Token.delimiter?, hkind] using hscript

namespace Lexer

open Cursor

/-! ## Characters ahead -/

/-- The number of characters of a text from a cursor on. -/
def charsFrom (source : List Char) (cursor : Cursor) : Nat :=
  (dropBytes cursor.offset source).length

/-- The number of characters from the next token on. -/
def ahead (lexer : Lexer) : Nat :=
  charsFrom lexer.source lexer.position

@[simp] theorem charsFrom_after (before rest : List Char) :
    charsFrom (before ++ rest) (after before) = rest.length := by
  simp [charsFrom]

theorem charsFrom_le_length {source : List Char} {cursor : Cursor}
    (h : IsPlace source cursor) : charsFrom source cursor ≤ source.length := by
  obtain ⟨before, rest, rfl, rfl⟩ := h
  simp

theorem Sound.ahead_lt_tokenBound {lexer : Lexer} (h : lexer.Sound) :
    lexer.ahead < lexer.tokenBound :=
  Nat.lt_succ_of_le (charsFrom_le_length h.position)

/-- A scan goes forward, and by at least one character unless it finds the end of
the script. -/
theorem charsFrom_scan_le {lexer : Lexer} (h : IsPlace lexer.source lexer.cursor) :
    charsFrom lexer.source lexer.scan.cursor ≤ charsFrom lexer.source lexer.cursor ∧
      ∀ token, lexer.scan.outcome = .ok token → token.kind ≠ .delimiter .endOfScript →
        charsFrom lexer.source lexer.scan.cursor <
          charsFrom lexer.source lexer.cursor := by
  obtain ⟨before, rest, hstand⟩ := isPlace_iff_standsAt.mp h
  cases hcut : cut? (rest.dropWhile isGap) with
  | none =>
      rw [scan_of_cut?_eq_none hstand hcut, hstand.source_eq, hstand.cursor_eq]
      have hend := charsFrom_after (before ++ rest) []
      rw [List.append_nil] at hend
      rw [hend]
      refine ⟨Nat.zero_le _, ?_⟩
      rintro _ ⟨⟩ hkind
      exact absurd rfl hkind
  | some piece =>
      rw [scan_of_cut?_eq_some hstand hcut, hstand.source_eq, hstand.cursor_eq]
      have hrest := rest_of_cut?_eq_some hcut
      have hlength : (before ++ rest.takeWhile isGap ++ piece.text) ++ piece.rest =
          before ++ rest := by
        rw [List.append_assoc before, List.append_assoc, hrest]
      have hpos := List.length_pos_iff.mpr (cut?_text_ne_nil hcut)
      have hcount := congrArg List.length hrest
      simp only [List.length_append] at hcount
      rw [charsFrom_after, ← hlength, charsFrom_after]
      exact ⟨by omega, fun _ _ _ => by omega⟩

theorem charsFrom_token_start {lexer : Lexer} {token : Token}
    (h : IsPlace lexer.source lexer.cursor) (hscan : lexer.scan.outcome = .ok token) :
    charsFrom lexer.source token.start ≤ charsFrom lexer.source lexer.cursor ∧
      charsFrom lexer.source lexer.scan.cursor ≤ charsFrom lexer.source token.start := by
  obtain ⟨hplace, hagain⟩ := scan_seek_start h hscan
  refine ⟨?_, ?_⟩
  · obtain ⟨before, rest, hstand⟩ := isPlace_iff_standsAt.mp h
    cases hcut : cut? (rest.dropWhile isGap) with
    | none =>
        rw [scan_of_cut?_eq_none hstand hcut] at hscan
        cases hscan
        have hend := charsFrom_after (before ++ rest) []
        rw [List.append_nil] at hend
        rw [hstand.source_eq, hend]
        exact Nat.zero_le _
    | some piece =>
        rw [scan_of_cut?_eq_some hstand hcut] at hscan
        cases hcontent : piece.content lexer.params with
        | error e => rw [hcontent] at hscan; cases hscan
        | ok found =>
            rw [hcontent] at hscan
            cases hscan
            have hsplit : before ++ rest =
                before ++ rest.takeWhile isGap ++ rest.dropWhile isGap := by
              rw [List.append_assoc, List.takeWhile_append_dropWhile]
            rw [hstand.source_eq, hstand.cursor_eq, charsFrom_after, hsplit, charsFrom_after]
            exact List.length_dropWhile_le isGap rest
  · have hle := (@charsFrom_scan_le (lexer.seek token.start) hplace).1
    rwa [hagain] at hle

theorem Sound.ahead_next_lt {lexer : Lexer} {token : Token} (h : lexer.Sound)
    (hnext : lexer.next.outcome = .ok token)
    (hkind : token.kind ≠ .delimiter .endOfScript) :
    lexer.next.lexer.ahead < lexer.ahead := by
  have hlt := (@charsFrom_scan_le (lexer.seek lexer.position) h.position).2 token
    (h.next_eq.1.symm.trans hnext) hkind
  rw [ahead, Lexer.position, peeked_next, h.next_eq.2, source_next]
  exact hlt

theorem Sound.ahead_next_le {lexer : Lexer} (h : lexer.Sound) :
    lexer.next.lexer.ahead ≤ lexer.ahead := by
  have hle := (@charsFrom_scan_le (lexer.seek lexer.position) h.position).1
  rw [ahead, Lexer.position, peeked_next, h.next_eq.2, source_next]
  exact hle

theorem Sound.ahead_peek_le {lexer : Lexer} (h : lexer.Sound) :
    lexer.peek.lexer.ahead ≤ lexer.ahead := by
  obtain ⟨token, _, hpeek⟩ | ⟨token, hnone, hscan, hpeek⟩ | ⟨e, hnone, _, hpeek⟩ :=
    peek_cases lexer <;> rw [hpeek]
  · simp only [ahead, Lexer.position, hnone]
    exact (charsFrom_token_start h.cursor hscan).1
  · simp only [ahead, Lexer.position, hnone]
    exact (charsFrom_scan_le h.cursor).1

theorem Sound.charsFrom_cursor_le {lexer : Lexer} (h : lexer.Sound) :
    charsFrom lexer.source lexer.cursor ≤ lexer.ahead := by
  unfold ahead Lexer.position
  split
  · rename_i token hpeeked
    obtain ⟨hplace, _, hcursor⟩ := h.peeked token hpeeked
    have hle := (@charsFrom_scan_le (lexer.seek token.start) hplace).1
    rw [hcursor] at hle
    exact hle
  · exact Nat.le_refl _

theorem Sound.ahead_skipLine_le {lexer : Lexer} (h : lexer.Sound) :
    lexer.skipLine.2.ahead ≤ lexer.ahead := by
  obtain ⟨before, rest, hstand⟩ := isPlace_iff_standsAt.mp h.cursor
  have hpassed : charsFrom lexer.source
      ⟨lexer.cursor.offset + byteLength (rest.takeWhile (· != '\n')), lexer.cursor.line⟩ ≤
        charsFrom lexer.source lexer.cursor := by
    have hsplit : before ++ rest =
        before ++ rest.takeWhile (· != '\n') ++ rest.dropWhile (· != '\n') := by
      rw [List.append_assoc, List.takeWhile_append_dropWhile]
    rw [hstand.cursor_eq, hstand.source_eq, charsFrom_after]
    simp only [charsFrom, offset_after, ← byteLength_append]
    rw [hsplit, dropBytes_byteLength]
    exact List.length_dropWhile_le _ rest
  rw [← hstand.text_eq] at hpassed
  have hle := hpassed.trans h.charsFrom_cursor_le
  unfold Lexer.skipLine
  repeat' split
  · exact Nat.le_refl _
  · exact hle
  · exact hle

/-- Without a jump, the characters ahead get no more. -/
theorem Moves.ahead_le {lexer lexer' : Lexer} (h : Moves (fun _ => False) lexer lexer')
    (hsound : lexer.Sound) : lexer'.ahead ≤ lexer.ahead := by
  induction h with
  | refl => exact Nat.le_refl _
  | @tail middle last hmoves hmove ih =>
      have hmiddle : middle.Sound := Moves.sound (fun _ hfalse => hfalse.elim) hmoves hsound
      refine Nat.le_trans ?_ ih
      cases hmove with
      | next => exact hmiddle.ahead_next_le
      | peek => exact hmiddle.ahead_peek_le
      | skipLine => exact hmiddle.ahead_skipLine_le
      | seek hfalse => exact hfalse.elim

/-! ## Tokens ahead and tokens taken -/

/-- These are the next tokens. -/
def Upcoming (lexer : Lexer) : List Token → Prop
  | [] => True
  | token :: tokens => lexer.next.outcome = .ok token ∧ lexer.next.lexer.Upcoming tokens

instance Upcoming.decidable : (tokens : List Token) → (lexer : Lexer) →
    Decidable (lexer.Upcoming tokens)
  | [], _ => inferInstanceAs (Decidable True)
  | token :: tokens, lexer =>
      haveI := Upcoming.decidable tokens lexer.next.lexer
      inferInstanceAs (Decidable (lexer.next.outcome = .ok token ∧
        lexer.next.lexer.Upcoming tokens))

/-- One lexer comes from another by taking these tokens, and by looking at
tokens. -/
inductive Reads : Lexer → List Token → Lexer → Prop where
  | refl (lexer : Lexer) : Reads lexer [] lexer
  | look {lexer lexer' : Lexer} {token : Token} {tokens : List Token}
      (h : lexer.peek.outcome = .ok token) (hrest : Reads lexer.peek.lexer tokens lexer') :
      Reads lexer tokens lexer'
  | take {lexer lexer' : Lexer} {token : Token} {tokens : List Token}
      (h : lexer.next.outcome = .ok token) (hrest : Reads lexer.next.lexer tokens lexer') :
      Reads lexer (token :: tokens) lexer'

section Reads

variable {lexer lexer' lexer'' : Lexer} {tokens more : List Token} {token : Token}

theorem Reads.trans (h : Reads lexer tokens lexer') (h' : Reads lexer' more lexer'') :
    Reads lexer (tokens ++ more) lexer'' := by
  induction h with
  | refl => exact h'
  | look hpeek _ ih => exact .look hpeek (ih h')
  | take hnext _ ih => exact .take hnext (ih h')

theorem Reads.peek (h : lexer.peek.outcome = .ok token) :
    Reads lexer [] lexer.peek.lexer :=
  .look h (.refl _)

theorem Reads.next (h : lexer.next.outcome = .ok token) :
    Reads lexer [token] lexer.next.lexer :=
  .take h (.refl _)

theorem Reads.source_eq (h : Reads lexer tokens lexer') : lexer'.source = lexer.source := by
  induction h with
  | refl => rfl
  | look _ _ ih => rw [ih, source_peek]
  | take _ _ ih => rw [ih, source_next]

theorem Reads.sound (h : Reads lexer tokens lexer') (hsound : lexer.Sound) :
    lexer'.Sound := by
  induction h with
  | refl => exact hsound
  | look _ _ ih => exact ih hsound.peek
  | take _ _ ih => exact ih hsound.next

theorem upcoming_peek (h : lexer.peek.outcome = .ok token) :
    lexer.peek.lexer.Upcoming tokens ↔ lexer.Upcoming tokens := by
  obtain ⟨hnext, hnext', hlexer⟩ := next_peek h
  cases tokens with
  | nil => exact Iff.rfl
  | cons first rest => rw [Upcoming, Upcoming, hnext, hnext', hlexer]

/-- After some of the upcoming tokens have been taken, the others are next. -/
theorem Reads.upcoming_iff (h : Reads lexer tokens lexer') :
    lexer.Upcoming (tokens ++ more) ↔ lexer'.Upcoming more := by
  induction h with
  | refl => exact Iff.rfl
  | look hpeek _ ih => rw [← ih, upcoming_peek hpeek]
  | take hnext _ ih =>
      rw [List.cons_append, Upcoming, ih]
      exact and_iff_right hnext

/-- Each token that is taken before the end of the script takes up a character. -/
theorem Reads.ahead_add_length_le (h : Reads lexer tokens lexer') (hsound : lexer.Sound)
    (htokens : ∀ t ∈ tokens, t.kind ≠ .delimiter .endOfScript) :
    lexer'.ahead + tokens.length ≤ lexer.ahead := by
  induction h with
  | refl => exact Nat.le_refl _
  | look _ _ ih => exact (ih hsound.peek htokens).trans hsound.ahead_peek_le
  | take hnext _ ih =>
      have hlt := hsound.ahead_next_lt hnext (htokens _ (by simp))
      have hle := ih hsound.next fun t ht => htokens t (by simp [ht])
      rw [List.length_cons]
      omega

theorem Upcoming.reads (h : lexer.Upcoming tokens) : ∃ last, Reads lexer tokens last := by
  induction tokens generalizing lexer with
  | nil => exact ⟨lexer, .refl lexer⟩
  | cons first rest ih =>
      obtain ⟨last, hrest⟩ := ih h.2
      exact ⟨last, .take h.1 hrest⟩

theorem Upcoming.of_append (h : lexer.Upcoming (tokens ++ more)) : lexer.Upcoming tokens := by
  induction tokens generalizing lexer with
  | nil => trivial
  | cons first rest ih => exact ⟨h.1, ih h.2⟩

theorem Upcoming.length_le_ahead (h : lexer.Upcoming tokens) (hsound : lexer.Sound)
    (htokens : ∀ t ∈ tokens, t.kind ≠ .delimiter .endOfScript) :
    tokens.length ≤ lexer.ahead := by
  obtain ⟨last, hreads⟩ := h.reads
  have := hreads.ahead_add_length_le hsound htokens
  omega

end Reads

end Lexer

end MatrixScript
