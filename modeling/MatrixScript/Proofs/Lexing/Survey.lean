import MatrixScript.Proofs.Lexing.Line
import MatrixScript.Proofs.Lexing.Pattern

/-!
# Surveys of a script

Two routines go through a script without regard to its statements: one collects the labels,
the other one passes over a block.  Both meet token after token, and the text of a remark is
not read.  `Meets` tells the tokens on the way, `Passes` only their kinds.  Each of them takes
up a character, so a survey comes to the end of the script, or before that to a parameter mark
without its digit (`exists_surveys`, `Sound.fault_eq`).
-/

namespace MatrixScript

namespace Lexer

open Cursor

variable {lexer lexer' : Lexer} {token : Token} {tokens : List Token}

/-! ## Single tokens -/

/-- Where a survey goes on after the next token: behind it, or at the end of the line of a
remark. -/
def past (lexer : Lexer) (token : Token) : Lexer :=
  if token.kind = .command .rem then lexer.next.lexer.skipLine.2 else lexer.next.lexer

theorem past_of_rem (h : token.kind = .command .rem) :
    lexer.past token = lexer.next.lexer.skipLine.2 :=
  if_pos h

theorem past_of_ne_rem (h : token.kind ≠ .command .rem) : lexer.past token = lexer.next.lexer :=
  if_neg h

@[simp] theorem source_past (lexer : Lexer) (token : Token) :
    (lexer.past token).source = lexer.source := by
  unfold past
  split <;> simp

@[simp] theorem params_past (lexer : Lexer) (token : Token) :
    (lexer.past token).params = lexer.params := by
  unfold past
  split <;> simp

theorem Sound.past (h : lexer.Sound) (token : Token) : (lexer.past token).Sound := by
  unfold Lexer.past
  split
  · exact h.next.skipLine
  · exact h.next

theorem Sound.ahead_past_lt (h : lexer.Sound) (hnext : lexer.next.outcome = .ok token)
    (hend : token.kind ≠ .delimiter .endOfScript) : (lexer.past token).ahead < lexer.ahead := by
  have hlt := h.ahead_next_lt hnext hend
  unfold Lexer.past
  split
  · exact Nat.lt_of_le_of_lt h.next.ahead_skipLine_le hlt
  · exact hlt

/-! ## Kinds on the way -/

/-- The tokens from one lexer to another are of these kinds.  The texts of remarks are
passed over, and the end of the script is not. -/
inductive Passes : Lexer → List TokenKind → Lexer → Prop where
  | refl (lexer : Lexer) : Passes lexer [] lexer
  | take {lexer lexer' : Lexer} {token : Token} {kind : TokenKind} {kinds : List TokenKind}
      (hnext : lexer.next.outcome = .ok token) (hkind : token.kind = kind)
      (hend : kind ≠ .delimiter .endOfScript) (hrem : kind ≠ .command .rem)
      (hrest : Passes lexer.next.lexer kinds lexer') : Passes lexer (kind :: kinds) lexer'
  | remark {lexer lexer' : Lexer} {token : Token} {kinds : List TokenKind}
      (hnext : lexer.next.outcome = .ok token) (hkind : token.kind = .command .rem)
      (hrest : Passes lexer.next.lexer.skipLine.2 kinds lexer') :
      Passes lexer (.command .rem :: kinds) lexer'

section Passes

variable {lexer'' : Lexer} {kinds further : List TokenKind}

theorem Passes.trans (h : Passes lexer kinds lexer') (h' : Passes lexer' further lexer'') :
    Passes lexer (kinds ++ further) lexer'' := by
  induction h with
  | refl => exact h'
  | take hnext hkind hend hrem _ ih => exact .take hnext hkind hend hrem (ih h')
  | remark hnext hkind _ ih => exact .remark hnext hkind (ih h')

theorem Passes.of_append (h : Passes lexer (kinds ++ further) lexer'') :
    ∃ lexer', Passes lexer kinds lexer' ∧ Passes lexer' further lexer'' := by
  induction kinds generalizing lexer with
  | nil => exact ⟨lexer, .refl lexer, h⟩
  | cons kind kinds ih =>
      cases h with
      | take hnext hkind hend hrem hrest =>
          obtain ⟨lexer', hfirst, hmore⟩ := ih hrest
          exact ⟨lexer', .take hnext hkind hend hrem hfirst, hmore⟩
      | remark hnext hkind hrest =>
          obtain ⟨lexer', hfirst, hmore⟩ := ih hrest
          exact ⟨lexer', .remark hnext hkind hfirst, hmore⟩

theorem Passes.next {kind : TokenKind} (h : Passes lexer (kind :: kinds) lexer')
    (hrem : kind ≠ .command .rem) : ∃ token, lexer.next.outcome = .ok token ∧
      token.kind = kind ∧ Passes lexer.next.lexer kinds lexer' := by
  cases h with
  | take hnext hkind _ _ hrest => exact ⟨_, hnext, hkind, hrest⟩
  | remark => exact absurd rfl hrem

theorem Passes.params_eq (h : Passes lexer kinds lexer') : lexer'.params = lexer.params := by
  induction h with
  | refl => rfl
  | take _ _ _ _ _ ih => rw [ih, params_next]
  | remark _ _ _ ih => rw [ih, params_skipLine, params_next]

/-- Each token takes up a character. -/
theorem Passes.length_le (h : Passes lexer kinds lexer') (hsound : lexer.Sound) :
    kinds.length ≤ lexer.ahead := by
  induction h with
  | refl => exact Nat.zero_le _
  | take hnext hkind hend _ _ ih =>
      have hlt := hsound.ahead_next_lt hnext (hkind ▸ hend)
      have hle := ih hsound.next
      rw [List.length_cons]
      omega
  | remark hnext hkind _ ih =>
      have hlt := hsound.ahead_next_lt hnext (by simp [hkind])
      have hskip := hsound.next.ahead_skipLine_le
      have hle := ih hsound.next.skipLine
      rw [List.length_cons]
      omega

theorem Passes.tokenBound_eq (h : Passes lexer kinds lexer') (hsound : lexer.Sound) :
    ∃ bound, lexer.tokenBound = kinds.length + (bound + 1) := by
  have hlength := h.length_le hsound
  have hbound := hsound.ahead_lt_tokenBound
  exact ⟨lexer.tokenBound - kinds.length - 1, by omega⟩

end Passes

/-! ## Tokens on the way -/

/-- These are the tokens met on the way from one lexer to another. -/
inductive Meets : Lexer → List Token → Lexer → Prop where
  | refl (lexer : Lexer) : Meets lexer [] lexer
  | meet {lexer lexer' : Lexer} {token : Token} {tokens : List Token}
      (hnext : lexer.next.outcome = .ok token) (hend : token.kind ≠ .delimiter .endOfScript)
      (hrest : Meets (lexer.past token) tokens lexer') : Meets lexer (token :: tokens) lexer'

theorem Meets.passes (h : Meets lexer tokens lexer') :
    Passes lexer (tokens.map (·.kind)) lexer' := by
  induction h with
  | refl lexer => exact .refl lexer
  | @meet lexer _ token _ hnext hend _ ih =>
      by_cases hrem : token.kind = .command .rem
      · rw [past_of_rem hrem] at ih
        rw [List.map_cons, hrem]
        exact .remark hnext hrem ih
      · rw [past_of_ne_rem hrem] at ih
        exact .take hnext rfl hend hrem ih

theorem Meets.source_eq (h : Meets lexer tokens lexer') : lexer'.source = lexer.source := by
  induction h with
  | refl => rfl
  | meet _ _ _ ih => rw [ih, source_past]

theorem Meets.sound (h : Meets lexer tokens lexer') (hsound : lexer.Sound) : lexer'.Sound := by
  induction h with
  | refl => exact hsound
  | meet _ _ _ ih => exact ih (hsound.past _)

/-- The bound on the tokens of a script is large enough for those that are met, and for one
more. -/
theorem Meets.tokenBound_eq (h : Meets lexer tokens lexer') (hsound : lexer.Sound) :
    ∃ bound, lexer.tokenBound = tokens.length + (bound + 1) := by
  obtain ⟨bound, hbound⟩ := h.passes.tokenBound_eq hsound
  rw [List.length_map] at hbound
  exact ⟨bound, hbound⟩

/-! ## Complete surveys -/

/-- All tokens are met up to the end of the script, or up to a fault: a place with no token. -/
inductive Surveys (lexer : Lexer) (tokens : List Token) : Option ParseError → Prop where
  | ended {last : Lexer} {token : Token} (h : Meets lexer tokens last)
      (hnext : last.next.outcome = .ok token) (hend : token.kind = .delimiter .endOfScript) :
      Surveys lexer tokens none
  | faulted {last : Lexer} {e : ParseError} (h : Meets lexer tokens last)
      (hnext : last.next.outcome = .error e) : Surveys lexer tokens (some e)

theorem Surveys.exists_last {fault : Option ParseError} (h : Surveys lexer tokens fault) :
    ∃ last, Meets lexer tokens last ∧
      ((∃ token, last.next.outcome = .ok token ∧ token.kind = .delimiter .endOfScript) ∨
        ∃ e, last.next.outcome = .error e) := by
  cases h with
  | ended hmeets hnext hend => exact ⟨_, hmeets, .inl ⟨_, hnext, hend⟩⟩
  | faulted hmeets hnext => exact ⟨_, hmeets, .inr ⟨_, hnext⟩⟩

theorem Surveys.meet {fault : Option ParseError} (hnext : lexer.next.outcome = .ok token)
    (hend : token.kind ≠ .delimiter .endOfScript)
    (h : Surveys (lexer.past token) tokens fault) : Surveys lexer (token :: tokens) fault := by
  cases h with
  | ended hmeets hlast hkind => exact .ended (.meet hnext hend hmeets) hlast hkind
  | faulted hmeets hlast => exact .faulted (.meet hnext hend hmeets) hlast

/-- Every survey comes to its end, since with each token there are fewer characters ahead. -/
theorem exists_surveys (hsound : lexer.Sound) : ∃ tokens fault, Surveys lexer tokens fault := by
  induction hahead : lexer.ahead using Nat.strongRecOn generalizing lexer with
  | ind ahead ih =>
      cases hnext : lexer.next.outcome with
      | error e => exact ⟨[], some e, .faulted (.refl lexer) hnext⟩
      | ok token =>
          by_cases hend : token.kind = .delimiter .endOfScript
          · exact ⟨[], none, .ended (.refl lexer) hnext hend⟩
          · have hlt := hsound.ahead_past_lt hnext hend
            rw [hahead] at hlt
            obtain ⟨tokens, fault, hsurveys⟩ := ih _ hlt (hsound.past token) rfl
            exact ⟨token :: tokens, fault, hsurveys.meet hnext hend⟩

/-! ## Faults -/

/-- A parameter mark that is a piece by itself has no digit after it. -/
theorem not_isDigit_of_cut? {text : List Char} {piece : Piece} (hcut : cut? text = some piece)
    (hmark : piece.text = ['%']) : ∀ c ∈ piece.rest.head?, c.isDigit = false := by
  obtain rfl : '%' :: piece.rest = text := by
    rw [← cut?_lossless hcut, hmark, List.singleton_append]
  intro c hc
  cases hrest : piece.rest with
  | nil => rw [hrest] at hc; cases hc
  | cons d rest =>
      rw [hrest] at hc hcut
      cases hc
      by_contra hdigit
      have hparameter : cut? ('%' :: c :: rest) =
          some ⟨.parameter (c.toNat - '0'.toNat), ['%', c], rest⟩ := by
        rw [cut?, cutParameter, if_pos (by simpa using hdigit)]
      rw [hparameter] at hcut
      cases hcut
      cases hmark

/-- Where no token is found, there is a parameter mark without its digit after the gaps, and the
lexer stops right behind the mark. -/
theorem Faces.exists_fault {e : ParseError} {before text : List Char} (h : lexer.Faces before text)
    (hnext : lexer.next.outcome = .error e) :
    ∃ gap rest, text = gap ++ '%' :: rest ∧ (∀ c ∈ gap, isGap c = true) ∧
      (∀ c ∈ rest.head?, c.isDigit = false) ∧
      e = .invalidParameter (String.ofList (rest.takeWhile fun c => !Text.isBlank c)) ∧
      lexer.next.lexer.cursor = after (before ++ gap ++ ['%']) := by
  obtain ⟨houtcome, hcursor⟩ := h.next_eq
  rw [hnext] at houtcome
  cases hcut : cut? (text.dropWhile isGap) with
  | none => rw [scan_of_cut?_eq_none h.standsAt hcut] at houtcome; cases houtcome
  | some piece =>
      rw [scan_of_cut?_eq_some h.standsAt hcut] at houtcome hcursor
      cases hcontent : piece.content (lexer.seek (after before)).params with
      | ok found => rw [hcontent] at houtcome; cases houtcome
      | error cause =>
          rw [hcontent] at houtcome
          cases houtcome
          obtain ⟨hmark, hcause⟩ := text_of_content_error hcontent
          have hrest := rest_of_cut?_eq_some hcut
          rw [hmark, List.append_assoc, List.singleton_append] at hrest
          rw [hmark] at hcursor
          exact ⟨_, piece.rest, hrest.symm, fun c hc => List.mem_takeWhile_imp hc,
            not_isDigit_of_cut? hcut hmark, hcause, hcursor⟩

theorem Sound.exists_faces (h : lexer.Sound) :
    ∃ before rest, lexer.Faces before rest ∧ lexer.position = after before := by
  obtain ⟨before, rest, hsource, hposition⟩ := h.position
  exact ⟨before, rest, ⟨hsource, h, by rw [hposition]⟩, hposition⟩

/-- Where no token is found, there is a parameter mark without its digit. -/
theorem Sound.fault_eq {e : ParseError} (h : lexer.Sound) (hnext : lexer.next.outcome = .error e) :
    ∃ before rest, lexer.source = before ++ '%' :: rest ∧ (∀ c ∈ rest.head?, c.isDigit = false) ∧
      e = .invalidParameter (String.ofList (rest.takeWhile fun c => !Text.isBlank c)) := by
  obtain ⟨before, text, hfaces, -⟩ := h.exists_faces
  obtain ⟨gap, rest, rfl, -, hlone, hcause, -⟩ := hfaces.exists_fault hnext
  refine ⟨before ++ gap, rest, ?_, hlone, hcause⟩
  rw [hfaces.source_eq, List.append_assoc]

theorem Surveys.fault_eq {e : ParseError} (h : Surveys lexer tokens (some e))
    (hsound : lexer.Sound) :
    ∃ before rest, lexer.source = before ++ '%' :: rest ∧ (∀ c ∈ rest.head?, c.isDigit = false) ∧
      e = .invalidParameter (String.ofList (rest.takeWhile fun c => !Text.isBlank c)) := by
  cases h with
  | faulted hmeets hnext =>
      rw [← hmeets.source_eq]
      exact (hmeets.sound hsound).fault_eq hnext

end Lexer

end MatrixScript
