import Mathlib.Logic.Relation
import MatrixScript.Proofs.Lexing.Scan

/-!
# Ways of a lexer through its source

A lexer is moved by four operations: a token is taken, a token is looked at, the
rest of a line is passed over, or reading goes on from another place.  `Sound` is
what all of them keep: the cursor and the token in lookahead are where the source
says they are.  `Moves` is a way made of such operations, with jumps to the places
that are given as its targets, and `Takes` records the tokens that are taken on a way
without jumps; the line for errors is that of the last one (`Takes.line_eq`).
-/

namespace MatrixScript

namespace Lexer

open Cursor

/-! ## Single operations -/

theorem next_of_peeked {lexer : Lexer} {token : Token}
    (h : lexer.peeked = some token) :
    lexer.next = ⟨.ok token, { lexer with peeked := none, line := token.start.line }, []⟩ := by
  unfold next
  rw [h]

theorem next_of_scan_ok {lexer : Lexer} {token : Token} (h : lexer.peeked = none)
    (hscan : lexer.scan.outcome = .ok token) :
    lexer.next = ⟨.ok token,
      { lexer with cursor := lexer.scan.cursor, line := token.start.line },
      lexer.scan.notes⟩ := by
  unfold next
  rw [h]
  simp only [hscan]

theorem next_of_scan_error {lexer : Lexer} {e : ParseError} (h : lexer.peeked = none)
    (hscan : lexer.scan.outcome = .error e) :
    lexer.next = ⟨.error e, { lexer with cursor := lexer.scan.cursor }, lexer.scan.notes⟩ := by
  unfold next
  rw [h]
  simp only [hscan]

theorem peek_of_peeked {lexer : Lexer} {token : Token}
    (h : lexer.peeked = some token) : lexer.peek = ⟨.ok token, lexer, []⟩ := by
  unfold peek
  rw [h]

theorem peek_of_scan_ok {lexer : Lexer} {token : Token} (h : lexer.peeked = none)
    (hscan : lexer.scan.outcome = .ok token) :
    lexer.peek = ⟨.ok token,
      { lexer with cursor := lexer.scan.cursor, peeked := some token },
      lexer.scan.notes⟩ := by
  unfold peek
  rw [h]
  simp only [hscan]

theorem peek_of_scan_error {lexer : Lexer} {e : ParseError} (h : lexer.peeked = none)
    (hscan : lexer.scan.outcome = .error e) :
    lexer.peek = ⟨.error e, { lexer with cursor := lexer.scan.cursor }, lexer.scan.notes⟩ := by
  unfold peek
  rw [h]
  simp only [hscan]

/-- Taking a token, by cases on the lookahead and on what the scan finds. -/
theorem next_cases (lexer : Lexer) :
    (∃ token, lexer.peeked = some token ∧ lexer.next =
      ⟨.ok token, { lexer with peeked := none, line := token.start.line }, []⟩) ∨
    (∃ token, lexer.peeked = none ∧ lexer.scan.outcome = .ok token ∧ lexer.next =
      ⟨.ok token, { lexer with cursor := lexer.scan.cursor, line := token.start.line },
        lexer.scan.notes⟩) ∨
    (∃ e, lexer.peeked = none ∧ lexer.scan.outcome = .error e ∧ lexer.next =
      ⟨.error e, { lexer with cursor := lexer.scan.cursor }, lexer.scan.notes⟩) := by
  rcases Option.eq_none_or_eq_some lexer.peeked with hpeeked | ⟨token, hpeeked⟩
  · right
    cases hscan : lexer.scan.outcome with
    | ok token => exact .inl ⟨token, hpeeked, rfl, next_of_scan_ok hpeeked hscan⟩
    | error e => exact .inr ⟨e, hpeeked, rfl, next_of_scan_error hpeeked hscan⟩
  · exact .inl ⟨token, hpeeked, next_of_peeked hpeeked⟩

/-- Looking at a token, by the same cases. -/
theorem peek_cases (lexer : Lexer) :
    (∃ token, lexer.peeked = some token ∧ lexer.peek = ⟨.ok token, lexer, []⟩) ∨
    (∃ token, lexer.peeked = none ∧ lexer.scan.outcome = .ok token ∧ lexer.peek =
      ⟨.ok token, { lexer with cursor := lexer.scan.cursor, peeked := some token },
        lexer.scan.notes⟩) ∨
    (∃ e, lexer.peeked = none ∧ lexer.scan.outcome = .error e ∧ lexer.peek =
      ⟨.error e, { lexer with cursor := lexer.scan.cursor }, lexer.scan.notes⟩) := by
  rcases Option.eq_none_or_eq_some lexer.peeked with hpeeked | ⟨token, hpeeked⟩
  · right
    cases hscan : lexer.scan.outcome with
    | ok token => exact .inl ⟨token, hpeeked, rfl, peek_of_scan_ok hpeeked hscan⟩
    | error e => exact .inr ⟨e, hpeeked, rfl, peek_of_scan_error hpeeked hscan⟩
  · exact .inl ⟨token, hpeeked, peek_of_peeked hpeeked⟩

@[simp] theorem source_next (lexer : Lexer) : lexer.next.lexer.source = lexer.source := by
  obtain ⟨_, _, h⟩ | ⟨_, _, _, h⟩ | ⟨_, _, _, h⟩ := next_cases lexer <;> rw [h]

@[simp] theorem params_next (lexer : Lexer) : lexer.next.lexer.params = lexer.params := by
  obtain ⟨_, _, h⟩ | ⟨_, _, _, h⟩ | ⟨_, _, _, h⟩ := next_cases lexer <;> rw [h]

@[simp] theorem peeked_next (lexer : Lexer) : lexer.next.lexer.peeked = none := by
  obtain ⟨_, _, h⟩ | ⟨_, hnone, _, h⟩ | ⟨_, hnone, _, h⟩ := next_cases lexer <;> rw [h]
  · exact hnone
  · exact hnone

@[simp] theorem source_peek (lexer : Lexer) : lexer.peek.lexer.source = lexer.source := by
  obtain ⟨_, _, h⟩ | ⟨_, _, _, h⟩ | ⟨_, _, _, h⟩ := peek_cases lexer <;> rw [h]

@[simp] theorem params_peek (lexer : Lexer) : lexer.peek.lexer.params = lexer.params := by
  obtain ⟨_, _, h⟩ | ⟨_, _, _, h⟩ | ⟨_, _, _, h⟩ := peek_cases lexer <;> rw [h]

@[simp] theorem source_skipLine (lexer : Lexer) :
    lexer.skipLine.2.source = lexer.source := by
  unfold skipLine
  repeat' split
  all_goals rfl

@[simp] theorem params_skipLine (lexer : Lexer) :
    lexer.skipLine.2.params = lexer.params := by
  unfold skipLine
  repeat' split
  all_goals rfl

/-- The line of a token that is taken is the one that errors are reported on. -/
theorem line_next {lexer : Lexer} {token : Token} (h : lexer.next.outcome = .ok token) :
    lexer.next.lexer.line = token.start.line := by
  obtain ⟨_, _, hnext⟩ | ⟨_, _, _, hnext⟩ | ⟨_, _, _, hnext⟩ := next_cases lexer <;>
    rw [hnext] at h ⊢ <;> cases h <;> rfl

/-- The token that is looked at is in lookahead. -/
theorem peeked_peek {lexer : Lexer} {token : Token} (h : lexer.peek.outcome = .ok token) :
    lexer.peek.lexer.peeked = some token := by
  obtain ⟨_, hsome, hpeek⟩ | ⟨_, _, _, hpeek⟩ | ⟨_, _, _, hpeek⟩ := peek_cases lexer <;>
    rw [hpeek] at h ⊢ <;> cases h
  · exact hsome
  · rfl

/-- Looking at a token does not change what is taken next, nor the way on. -/
theorem next_peek {lexer : Lexer} {token : Token} (h : lexer.peek.outcome = .ok token) :
    lexer.next.outcome = .ok token ∧ lexer.peek.lexer.next.outcome = .ok token ∧
      lexer.peek.lexer.next.lexer = lexer.next.lexer := by
  rw [next_of_peeked (peeked_peek h)]
  obtain ⟨_, hsome, hpeek⟩ | ⟨_, hnone, hscan, hpeek⟩ | ⟨_, _, _, hpeek⟩ := peek_cases lexer <;>
    rw [hpeek] at h ⊢ <;> cases h
  · rw [next_of_peeked hsome]
    exact ⟨rfl, rfl, rfl⟩
  · rw [next_of_scan_ok hnone hscan]
    refine ⟨rfl, rfl, ?_⟩
    simp [hnone]

/-- What is taken next can be looked at before. -/
theorem peek_of_next {lexer : Lexer} {token : Token} (h : lexer.next.outcome = .ok token) :
    lexer.peek.outcome = .ok token := by
  obtain ⟨_, hsome, hnext⟩ | ⟨_, hnone, hscan, hnext⟩ | ⟨_, _, _, hnext⟩ := next_cases lexer <;>
    rw [hnext] at h <;> cases h
  · rw [peek_of_peeked hsome]
  · rw [peek_of_scan_ok hnone hscan]

theorem peek_outcome (lexer : Lexer) : lexer.peek.outcome = lexer.next.outcome := by
  obtain ⟨_, hsome, hpeek⟩ | ⟨_, hnone, hscan, hpeek⟩ | ⟨_, hnone, hscan, hpeek⟩ :=
    peek_cases lexer <;> rw [hpeek]
  · rw [next_of_peeked hsome]
  · rw [next_of_scan_ok hnone hscan]
  · rw [next_of_scan_error hnone hscan]

/-! ## Sound lexers -/

/-- The cursor is a place of the source, a token in lookahead is what the source
has at its start and ends at the cursor, and the line for errors is the line of a
place. -/
structure Sound (lexer : Lexer) : Prop where
  cursor : IsPlace lexer.source lexer.cursor
  peeked : ∀ token, lexer.peeked = some token →
    IsPlace lexer.source token.start ∧
      (lexer.seek token.start).scan.outcome = .ok token ∧
      (lexer.seek token.start).scan.cursor = lexer.cursor
  line : ∃ place, IsPlace lexer.source place ∧ lexer.line = place.line

theorem Sound.position {lexer : Lexer} (h : lexer.Sound) :
    IsPlace lexer.source lexer.position := by
  unfold Lexer.position
  split
  · rename_i token hpeeked
    exact (h.peeked token hpeeked).1
  · exact h.cursor

theorem sound_seek {lexer : Lexer} {cursor : Cursor} (h : IsPlace lexer.source cursor) :
    (lexer.seek cursor).Sound where
  cursor := h
  peeked := fun _ hpeeked => by cases hpeeked
  line := ⟨cursor, h, rfl⟩

theorem sound_reset (lexer : Lexer) : lexer.reset.Sound :=
  sound_seek (isPlace_start _)

theorem reset_congr {lexer lexer' : Lexer} (hsource : lexer.source = lexer'.source)
    (hparams : lexer.params = lexer'.params) : lexer.reset = lexer'.reset := by
  simp only [reset, seek, hsource, hparams]

theorem sound_of_start {lexer : Lexer} (hcursor : lexer.cursor = .start)
    (hpeeked : lexer.peeked = none) (hline : lexer.line = 1) : lexer.Sound where
  cursor := by rw [hcursor]; exact isPlace_start _
  peeked := fun _ hsome => by rw [hpeeked] at hsome; cases hsome
  line := ⟨.start, isPlace_start _, hline⟩

/-- A scan depends on the text, the parameters and the cursor only. -/
theorem scan_congr {lexer other : Lexer} (hsource : lexer.source = other.source)
    (hparams : lexer.params = other.params) (hcursor : lexer.cursor = other.cursor) :
    lexer.scan = other.scan := by
  unfold scan
  rw [hsource, hparams, hcursor]

theorem scan_seek_cursor (lexer : Lexer) : (lexer.seek lexer.cursor).scan = lexer.scan :=
  scan_congr rfl rfl rfl

/-- What is taken next is what the source has at the position of the lexer. -/
theorem Sound.next_eq {lexer : Lexer} (h : lexer.Sound) :
    lexer.next.outcome = (lexer.seek lexer.position).scan.outcome ∧
      lexer.next.lexer.cursor = (lexer.seek lexer.position).scan.cursor := by
  obtain ⟨token, hsome, hnext⟩ | ⟨token, hnone, hscan, hnext⟩ | ⟨e, hnone, hscan, hnext⟩ :=
    next_cases lexer <;> rw [hnext]
  · obtain ⟨_, houtcome, hcursor⟩ := h.peeked token hsome
    simp only [Lexer.position, hsome, houtcome, hcursor, and_self]
  · simp only [Lexer.position, hnone, scan_seek_cursor, hscan, and_self]
  · simp only [Lexer.position, hnone, scan_seek_cursor, hscan, and_self]

/-- A token that is taken starts at a place of the source, and is what the source
has there. -/
theorem Sound.next_token {lexer : Lexer} {token : Token} (h : lexer.Sound)
    (hnext : lexer.next.outcome = .ok token) :
    IsPlace lexer.source token.start ∧
      (lexer.seek token.start).scan.outcome = .ok token ∧
      (lexer.seek token.start).scan.cursor = lexer.next.lexer.cursor := by
  obtain ⟨houtcome, hcursor⟩ := h.next_eq
  rw [hnext] at houtcome
  obtain ⟨hplace, hscan⟩ := @scan_seek_start (lexer.seek lexer.position) token
    h.position houtcome.symm
  have hsame : (lexer.seek token.start).scan = (lexer.seek lexer.position).scan :=
    (scan_congr rfl rfl rfl).trans hscan
  exact ⟨hplace, by rw [hsame, houtcome], by rw [hsame, hcursor]⟩

theorem Sound.next {lexer : Lexer} (h : lexer.Sound) : lexer.next.lexer.Sound where
  cursor := by
    rw [h.next_eq.2, source_next]
    exact @isPlace_scan_cursor (lexer.seek lexer.position) h.position
  peeked := fun token hpeeked => by rw [peeked_next] at hpeeked; cases hpeeked
  line := by
    rw [source_next]
    cases hnext : lexer.next.outcome with
    | ok token => exact ⟨token.start, (h.next_token hnext).1, line_next hnext⟩
    | error e =>
        obtain ⟨_, _, hcase⟩ | ⟨_, _, _, hcase⟩ | ⟨_, _, _, hcase⟩ := next_cases lexer <;>
          rw [hcase] at hnext <;> cases hnext
        rw [hcase]
        exact h.line

theorem Sound.peek {lexer : Lexer} (h : lexer.Sound) : lexer.peek.lexer.Sound := by
  obtain ⟨token, _, hpeek⟩ | ⟨token, hnone, hscan, hpeek⟩ | ⟨e, hnone, _, hpeek⟩ :=
    peek_cases lexer <;> rw [hpeek]
  · exact h
  · obtain ⟨hplace, hagain⟩ := scan_seek_start h.cursor hscan
    refine ⟨isPlace_scan_cursor h.cursor, ?_, h.line⟩
    rintro _ ⟨⟩
    have hsame : (Lexer.seek { lexer with
        cursor := lexer.scan.cursor, peeked := some token } token.start).scan =
          lexer.scan := (scan_congr rfl rfl rfl).trans hagain
    exact ⟨hplace, by rw [hsame, hscan], by rw [hsame]⟩
  · refine ⟨isPlace_scan_cursor h.cursor, ?_, h.line⟩
    intro token hpeeked
    rw [show (Lexer.peeked { lexer with cursor := lexer.scan.cursor }) = lexer.peeked from rfl,
      hnone] at hpeeked
    cases hpeeked

/-- Passing over the rest of a line stays on that line. -/
theorem StandsAt.advance {lexer : Lexer} {before text rest : List Char}
    (h : lexer.StandsAt before (text ++ rest)) (htext : text.count '\n' = 0) :
    { lexer with cursor.offset := lexer.cursor.offset + byteLength text }.StandsAt
      (before ++ text) rest where
  source_eq := by rw [h.source_eq, List.append_assoc]
  cursor_eq := by simp [h.cursor_eq, after, htext]

theorem Sound.skipLine {lexer : Lexer} (h : lexer.Sound) : lexer.skipLine.2.Sound := by
  have hpassed : (let text := (dropBytes lexer.cursor.offset lexer.source).takeWhile (· != '\n')
      ({ lexer with
          cursor.offset := lexer.cursor.offset + byteLength text
          peeked := none } : Lexer)).Sound := by
    obtain ⟨before, rest, hstand⟩ := isPlace_iff_standsAt.mp h.cursor
    rw [hstand.text_eq]
    have hline : (rest.takeWhile (· != '\n')).count '\n' = 0 := by
      rw [List.count_eq_zero]
      intro hmem
      exact absurd (List.mem_takeWhile_imp hmem) (by decide)
    have hsplit : lexer.StandsAt before
        (rest.takeWhile (· != '\n') ++ rest.dropWhile (· != '\n')) := by
      rw [List.takeWhile_append_dropWhile]
      exact hstand
    have hadvance := hsplit.advance hline
    exact ⟨⟨_, _, hadvance.source_eq, hadvance.cursor_eq⟩,
      (fun _ hpeeked => nomatch hpeeked), h.line⟩
  unfold Lexer.skipLine
  repeat' split
  · exact h
  · exact hpassed
  · exact hpassed

/-! ## Moves -/

/-- The four ways in which a lexer is moved; jumps go to given targets only. -/
inductive Move (targets : Cursor → Prop) : Lexer → Lexer → Prop where
  | next (lexer : Lexer) : Move targets lexer lexer.next.lexer
  | peek (lexer : Lexer) : Move targets lexer lexer.peek.lexer
  | skipLine (lexer : Lexer) : Move targets lexer lexer.skipLine.2
  | seek (lexer : Lexer) {cursor : Cursor} (h : targets cursor) :
      Move targets lexer (lexer.seek cursor)

/-- Any number of moves. -/
def Moves (targets : Cursor → Prop) : Lexer → Lexer → Prop :=
  Relation.ReflTransGen (Move targets)

section Moves

variable {targets : Cursor → Prop} {lexer lexer' lexer'' : Lexer}

theorem Moves.refl : Moves targets lexer lexer := Relation.ReflTransGen.refl

theorem Moves.trans (h : Moves targets lexer lexer') (h' : Moves targets lexer' lexer'') :
    Moves targets lexer lexer'' :=
  Relation.ReflTransGen.trans h h'

theorem Move.moves (h : Move targets lexer lexer') : Moves targets lexer lexer' :=
  Relation.ReflTransGen.single h

theorem Moves.mono {targets' : Cursor → Prop} (htargets : ∀ c, targets c → targets' c)
    (h : Moves targets lexer lexer') : Moves targets' lexer lexer' := by
  induction h with
  | refl => exact .refl
  | tail _ hmove ih =>
      refine ih.trans (Move.moves ?_)
      cases hmove with
      | next => exact .next _
      | peek => exact .peek _
      | skipLine => exact .skipLine _
      | seek hcursor => exact .seek _ (htargets _ hcursor)

theorem Moves.source_eq (h : Moves targets lexer lexer') : lexer'.source = lexer.source := by
  induction h with
  | refl => rfl
  | tail _ hmove ih => cases hmove <;> simpa [seek] using ih

theorem Moves.params_eq (h : Moves targets lexer lexer') : lexer'.params = lexer.params := by
  induction h with
  | refl => rfl
  | tail _ hmove ih => cases hmove <;> simpa [seek] using ih

/-- Moves keep a lexer sound as long as the targets of its jumps are places. -/
theorem Moves.sound (htargets : ∀ c, targets c → IsPlace lexer.source c)
    (h : Moves targets lexer lexer') (hsound : lexer.Sound) : lexer'.Sound := by
  induction h with
  | refl => exact hsound
  | tail hmoves hmove ih =>
      cases hmove with
      | next => exact ih.next
      | peek => exact ih.peek
      | skipLine => exact ih.skipLine
      | seek hcursor =>
          apply sound_seek
          rw [Moves.source_eq hmoves]
          exact htargets _ hcursor

end Moves

/-! ## The tokens of a way without jumps -/

/-- These are all the tokens taken on a way from one lexer to another on which the
script is only read, with the places passed where no token is found. -/
inductive Takes : Lexer → List Token → Lexer → Prop where
  | refl (lexer : Lexer) : Takes lexer [] lexer
  | next {lexer lexer' : Lexer} {tokens : List Token} {token : Token}
      (h : Takes lexer tokens lexer') (hnext : lexer'.next.outcome = .ok token) :
      Takes lexer (tokens ++ [token]) lexer'.next.lexer
  | fault {lexer lexer' : Lexer} {tokens : List Token} {e : ParseError}
      (h : Takes lexer tokens lexer') (hnext : lexer'.next.outcome = .error e) :
      Takes lexer tokens lexer'.next.lexer
  | peek {lexer lexer' : Lexer} {tokens : List Token} (h : Takes lexer tokens lexer') :
      Takes lexer tokens lexer'.peek.lexer
  | skipLine {lexer lexer' : Lexer} {tokens : List Token} (h : Takes lexer tokens lexer') :
      Takes lexer tokens lexer'.skipLine.2

section Takes

variable {lexer lexer' lexer'' : Lexer} {tokens more : List Token}

theorem Moves.takes (h : Moves (fun _ => False) lexer lexer') :
    ∃ tokens, Takes lexer tokens lexer' := by
  induction h with
  | refl => exact ⟨[], .refl lexer⟩
  | @tail last _ _ hmove ih =>
      obtain ⟨tokens, htakes⟩ := ih
      cases hmove with
      | next =>
          cases hnext : last.next.outcome with
          | ok token => exact ⟨_, htakes.next hnext⟩
          | error e => exact ⟨_, htakes.fault hnext⟩
      | peek => exact ⟨_, htakes.peek⟩
      | skipLine => exact ⟨_, htakes.skipLine⟩
      | seek hcursor => exact hcursor.elim

theorem Takes.moves {targets : Cursor → Prop} (h : Takes lexer tokens lexer') :
    Moves targets lexer lexer' := by
  induction h with
  | refl => exact .refl
  | next _ _ ih => exact ih.trans (Move.next _).moves
  | fault _ _ ih => exact ih.trans (Move.next _).moves
  | peek _ ih => exact ih.trans (Move.peek _).moves
  | skipLine _ ih => exact ih.trans (Move.skipLine _).moves

/-- The tokens taken are tokens of the source. -/
theorem Takes.token_mem {token : Token} (h : Takes lexer tokens lexer')
    (hsound : lexer.Sound) (hmem : token ∈ tokens) :
    IsPlace lexer.source token.start ∧ (lexer.seek token.start).scan.outcome = .ok token := by
  induction h with
  | refl => cases hmem
  | next htakes hnext ih =>
      rcases List.mem_append.mp hmem with hmem | hlast
      · exact ih hmem
      · obtain rfl := List.mem_singleton.mp hlast
        have hmoves : Moves (fun _ => False) lexer _ := htakes.moves
        have hthere := hmoves.sound (fun _ h => h.elim) hsound
        obtain ⟨hplace, hscan, _⟩ := hthere.next_token hnext
        rw [hmoves.source_eq] at hplace
        refine ⟨hplace, ?_⟩
        rw [← hscan]
        exact congrArg Scan.outcome
          (scan_congr hmoves.source_eq.symm hmoves.params_eq.symm rfl)
  | fault _ _ ih => exact ih hmem
  | peek _ ih => exact ih hmem
  | skipLine _ ih => exact ih hmem

@[simp] theorem line_peek (lexer : Lexer) : lexer.peek.lexer.line = lexer.line := by
  obtain ⟨_, _, h⟩ | ⟨_, _, _, h⟩ | ⟨_, _, _, h⟩ := peek_cases lexer <;> rw [h]

@[simp] theorem line_skipLine (lexer : Lexer) : lexer.skipLine.2.line = lexer.line := by
  unfold skipLine
  repeat' split
  all_goals rfl

theorem line_next_of_error {e : ParseError} (h : lexer.next.outcome = .error e) :
    lexer.next.lexer.line = lexer.line := by
  obtain ⟨_, _, hnext⟩ | ⟨_, _, _, hnext⟩ | ⟨_, _, _, hnext⟩ := next_cases lexer <;>
    rw [hnext] at h ⊢ <;> cases h

/-- The line for errors is that of the last token taken. -/
theorem Takes.line_eq (h : Takes lexer tokens lexer') :
    lexer'.line = (tokens.getLast?.map (·.start.line)).getD lexer.line := by
  induction h with
  | refl => rfl
  | next _ hnext _ => simp [line_next hnext]
  | fault _ hnext ih => rw [line_next_of_error hnext, ih]
  | peek _ ih => rw [line_peek, ih]
  | skipLine _ ih => rw [line_skipLine, ih]

end Takes

end Lexer

end MatrixScript
