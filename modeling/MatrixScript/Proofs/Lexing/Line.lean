import MatrixScript.Proofs.Lexing.Stream

/-!
# A line in its place and on its own

The tokens of a line do not depend on the lines around it.  This module compares a
lexer that reads a line within a script (`here`) with one that reads a script of only
that line (`alone`): token by token they find the same, up to the end of the line.
-/

namespace MatrixScript

/-- Two tokens that differ at most in the place where they start. -/
def Token.Same (token other : Token) : Prop :=
  token.kind = other.kind ∧ token.lexeme = other.lexeme

namespace Lexer

open Cursor

/-! ## Lines -/

/-- A line with its line feed, or the last line without one. -/
def IsLine (line post : List Char) : Prop :=
  (∃ body, line = body ++ ['\n'] ∧ '\n' ∉ body) ∨ '\n' ∉ line ∧ post = []

theorem IsLine.rest_eq_nil {before rest post : List Char}
    (h : IsLine (before ++ '\n' :: rest) post) : rest = [] := by
  rcases h with ⟨body, heq, hbody⟩ | ⟨hline, _⟩
  · rcases List.eq_nil_or_concat rest with hnil | ⟨init, last, hlast⟩
    · exact hnil
    · rw [hlast, List.concat_eq_append, ← List.cons_append, ← List.append_assoc] at heq
      have hsame := (List.append_inj' heq rfl).1
      exact absurd (by rw [← hsame]; simp) hbody
  · exact absurd (by simp) hline

/-- A text that is read up to its line feed, or to its end if nothing follows. -/
def Closed (text post : List Char) : Prop :=
  '\n' ∈ text ∨ post = []

theorem IsLine.closed {line post : List Char} (h : IsLine line post) : Closed line post := by
  rcases h with ⟨body, rfl, _⟩ | ⟨_, hpost⟩
  · exact .inl (by simp)
  · exact .inr hpost

theorem Closed.cut?_append {text post : List Char} (h : Closed text post) :
    (text ++ post).takeWhile isGap = text.takeWhile isGap ∧
      cut? ((text ++ post).dropWhile isGap) =
        (cut? (text.dropWhile isGap)).map
          fun piece => { piece with rest := piece.rest ++ post } := by
  rcases h with hmem | rfl
  · obtain ⟨htake, hdrop⟩ := @takeWhile_append_of_mem isGap '\n' text hmem (by decide) post
    have hmem' : '\n' ∈ text.dropWhile isGap := by
      rw [← @List.takeWhile_append_dropWhile _ isGap text] at hmem
      rcases List.mem_append.mp hmem with hgap | hdropped
      · exact absurd (List.mem_takeWhile_imp hgap) (by decide)
      · exact hdropped
    exact ⟨htake, by rw [hdrop, Lexer.cut?_append hmem']⟩
  · simp only [List.append_nil, true_and]
    cases cut? (text.dropWhile isGap) <;> rfl

/-- What follows a line does not matter for the tokens in it. -/
theorem Piece.content_append {params : List String} {piece : Piece} {post : List Char}
    (h : Closed piece.rest post) :
    ({ piece with rest := piece.rest ++ post } : Piece).content params =
      piece.content params := by
  obtain ⟨kind, text, rest⟩ := piece
  cases kind with
  | stray =>
      have hsame : (rest ++ post).takeWhile (fun c => !Text.isBlank c) =
          rest.takeWhile fun c => !Text.isBlank c := by
        rcases h with hmem | rfl
        · exact (takeWhile_append_of_mem hmem (by decide) post).1
        · rw [List.append_nil]
      simp only [Piece.content, hsame]
  | newline | label | mark _ | quote _ | parameter _ | number | word => rfl

theorem endsStatement_of_ofChar? {c : Char} {mark : Delimiter}
    (h : Delimiter.ofChar? c = some mark) : mark ≠ .endOfLine ∧ mark ≠ .endOfScript := by
  unfold Delimiter.ofChar? at h
  split at h <;> cases h <;> decide

theorem mark_of_cut? {text : List Char} {piece : Piece} {mark : Delimiter}
    (h : cut? text = some piece) (hkind : piece.kind = .mark mark) :
    mark ≠ .endOfLine ∧ mark ≠ .endOfScript := by
  unfold cut? at h
  split at h
  · cases h
  · cases h; cases hkind
  · cases h; cases hkind
  · cases h
    unfold cutQuote at hkind
    split at hkind <;> cases hkind
  · cases h
    unfold cutParameter at hkind
    repeat' split at hkind
    all_goals cases hkind
  · split at h
    · rename_i hmark
      cases h
      cases hkind
      exact endsStatement_of_ofChar? hmark
    · split at h
      · cases h; cases hkind
      · split at h
        · cases h; cases hkind
        · cases h; cases hkind

theorem text_of_newline {text : List Char} {piece : Piece} (h : cut? text = some piece)
    (hkind : piece.kind = .newline) : piece.text = ['\n'] := by
  unfold cut? at h
  split at h
  · cases h
  · cases h; rfl
  · cases h; cases hkind
  · cases h
    unfold cutQuote at hkind
    split at hkind <;> cases hkind
  · cases h
    unfold cutParameter at hkind
    repeat' split at hkind
    all_goals cases hkind
  · repeat' split at h
    all_goals cases h; cases hkind

/-- A line feed is the only piece that ends a statement. -/
theorem endsStatement_of_cut? {text : List Char} {piece : Piece} {params : List String}
    {kind : TokenKind} {lexeme : String} (h : cut? text = some piece)
    (hcontent : piece.content params = .ok (kind, lexeme)) (start : Cursor) :
    (piece.kind = .newline ∧ kind = .delimiter .endOfLine) ∨
      (piece.kind ≠ .newline ∧ Token.endsStatement ⟨kind, lexeme, start⟩ = false) := by
  cases hkind : piece.kind with
  | newline =>
      simp only [Piece.content, hkind] at hcontent
      cases hcontent
      exact .inl ⟨rfl, rfl⟩
  | mark mark =>
      obtain ⟨hline, hscript⟩ := mark_of_cut? h hkind
      simp only [Piece.content, hkind] at hcontent
      cases hcontent
      exact .inr ⟨by simp, by
        simp [Token.endsStatement_eq_false_iff, hline, hscript]⟩
  | label | quote _ | number =>
      simp only [Piece.content, hkind] at hcontent
      cases hcontent
      exact .inr ⟨by simp, rfl⟩
  | parameter index =>
      simp only [Piece.content, hkind, substitute] at hcontent
      refine .inr ⟨by simp, ?_⟩
      split at hcontent
      · cases hcontent; rfl
      · split at hcontent <;> cases hcontent <;> rfl
  | word =>
      simp only [Piece.content, hkind, classifyWord] at hcontent
      refine .inr ⟨by simp, ?_⟩
      split at hcontent
      · cases hcontent; rfl
      · split at hcontent <;> cases hcontent <;> rfl
  | stray =>
      simp only [Piece.content, hkind] at hcontent
      refine .inr ⟨by simp, ?_⟩
      split at hcontent <;> cases hcontent
      rfl

/-! ## Lexers before a text -/

/-- The lexer reads on at `rest`, be it that it stands right before it, at its first
token, or that it has looked at that token. -/
structure Faces (lexer : Lexer) (before rest : List Char) : Prop where
  source_eq : lexer.source = before ++ rest
  sound : lexer.Sound
  scan_eq : (lexer.seek lexer.position).scan = (lexer.seek (after before)).scan

section Faces

variable {lexer : Lexer} {before rest : List Char} {token : Token}

theorem faces_of_standsAt (h : lexer.StandsAt before rest) (hpeeked : lexer.peeked = none)
    (hsound : lexer.Sound) : lexer.Faces before rest where
  source_eq := h.source_eq
  sound := hsound
  scan_eq := by rw [position, hpeeked, h.cursor_eq]

theorem faces_seek (h : lexer.source = before ++ rest) :
    (lexer.seek (after before)).Faces before rest :=
  faces_of_standsAt ⟨h, rfl⟩ rfl (sound_seek (h ▸ isPlace_after before rest))

theorem faces_reset (h : lexer.source = rest) : lexer.reset.Faces [] rest :=
  @faces_seek lexer [] rest h

theorem Faces.standsAt (h : lexer.Faces before rest) :
    (lexer.seek (after before)).StandsAt before rest := ⟨h.source_eq, rfl⟩

theorem Faces.next_eq (h : lexer.Faces before rest) :
    lexer.next.outcome = (lexer.seek (after before)).scan.outcome ∧
      lexer.next.lexer.cursor = (lexer.seek (after before)).scan.cursor := by
  rw [← h.scan_eq]
  exact h.sound.next_eq

theorem Faces.next_of_nil (h : lexer.Faces before []) :
    ∃ token, lexer.next.outcome = .ok token ∧ token.kind = .delimiter .endOfScript := by
  have hnext := h.next_eq.1
  rw [scan_of_cut?_eq_none h.standsAt rfl] at hnext
  exact ⟨_, hnext, rfl⟩

/-- A lexer at the first token of a text faces the text. -/
theorem faces_of_position (hsource : lexer.source = before ++ rest) (hsound : lexer.Sound)
    (hscan : (lexer.seek (after before)).scan.outcome = .ok token)
    (hposition : lexer.position = token.start) : lexer.Faces before rest where
  source_eq := hsource
  sound := hsound
  scan_eq := by
    have hplace : IsPlace lexer.source (after before) := hsource ▸ isPlace_after before rest
    obtain ⟨_, hagain⟩ := @scan_seek_start (lexer.seek (after before)) token hplace hscan
    rw [hposition, ← hagain]
    exact scan_congr rfl rfl rfl

theorem faces_seek_start (hsource : lexer.source = before ++ rest)
    (hscan : (lexer.seek (after before)).scan.outcome = .ok token) :
    (lexer.seek token.start).Faces before rest := by
  have hplace : IsPlace lexer.source (after before) := hsource ▸ isPlace_after before rest
  obtain ⟨hstart, _⟩ := @scan_seek_start (lexer.seek (after before)) token hplace hscan
  exact faces_of_position hsource (sound_seek hstart) hscan rfl

theorem Faces.peek (h : lexer.Faces before rest) (hpeek : lexer.peek.outcome = .ok token) :
    lexer.peek.lexer.Faces before rest := by
  refine faces_of_position ((source_peek lexer).trans h.source_eq) h.sound.peek ?_
    (by rw [position, peeked_peek hpeek])
  rw [← (next_peek hpeek).1, h.next_eq.1]
  exact congrArg Scan.outcome (scan_congr (source_peek lexer) (params_peek lexer) rfl)

end Faces

/-! ## Side by side -/

/-- Both lexers are at the same place of one line, which stands between `pre` and
`post` for the first lexer and on its own for the second. -/
structure Beside (pre post : List Char) (here alone : Lexer) (done rest : List Char) :
    Prop where
  here_faces : here.Faces (pre ++ done) (rest ++ post)
  alone_faces : alone.Faces done rest
  params_eq : here.params = alone.params
  closed : Closed rest post

section Beside

variable {pre post done rest : List Char} {here alone : Lexer} {token : Token}

/-- What two lexers side by side can find when they take a token: the same error, the
same token within the line, or the same end of the line. -/
inductive Beside.Next (pre post : List Char) (here alone : Lexer) (done rest : List Char) :
    Prop where
  | error {e : ParseError} (halone : alone.next.outcome = .error e)
      (hhere : here.next.outcome = .error e)
  | token {token token' : Token} {text rest' : List Char}
      (halone : alone.next.outcome = .ok token) (hhere : here.next.outcome = .ok token')
      (hsame : token'.Same token) (hends : token.endsStatement = false)
      (hrest : rest = text ++ rest') (htext : text ≠ [])
      (hhere_at : here.next.lexer.StandsAt (pre ++ (done ++ text)) (rest' ++ post))
      (halone_at : alone.next.lexer.StandsAt (done ++ text) rest')
      (hbeside : Beside pre post here.next.lexer alone.next.lexer (done ++ text) rest')
  | endOfLine {token token' : Token} {text rest' : List Char}
      (halone : alone.next.outcome = .ok token) (hhere : here.next.outcome = .ok token')
      (hsame : token'.Same token) (hends : token.kind = .delimiter .endOfLine)
      (hrest : rest = text ++ '\n' :: rest') (htext : '\n' ∉ text)
      (hfaces : here.next.lexer.Faces (pre ++ done ++ text ++ ['\n']) (rest' ++ post))
  | endOfScript {token token' : Token}
      (halone : alone.next.outcome = .ok token) (hhere : here.next.outcome = .ok token')
      (hsame : token'.Same token) (hends : token.kind = .delimiter .endOfScript)
      (hrest : rest.dropWhile isGap = []) (hpost : post = [])

theorem closed_of_cut? {piece : Piece} (h : Closed rest post)
    (hcut : cut? (rest.dropWhile isGap) = some piece) (hkind : piece.kind ≠ .newline) :
    Closed piece.rest post := by
  refine h.imp_left fun hmem => ?_
  have hcount := count_newline_of_cut? hcut
  rw [if_neg hkind, List.count_eq_zero] at hcount
  have hgap := List.count_eq_zero.mp (count_newline_gap rest)
  rw [← rest_of_cut?_eq_some hcut] at hmem
  simpa [hcount, hgap] using hmem

theorem faces_next {lexer : Lexer} {before text rest : List Char}
    (h : lexer.Faces before (text ++ rest))
    (hcursor : lexer.next.lexer.cursor = after (before ++ text)) :
    lexer.next.lexer.Faces (before ++ text) rest := by
  refine faces_of_standsAt ⟨?_, hcursor⟩ (peeked_next lexer) h.sound.next
  rw [source_next, h.source_eq, List.append_assoc]

theorem Beside.next (h : Beside pre post here alone done rest) :
    Beside.Next pre post here alone done rest := by
  obtain ⟨hgap, hcut⟩ := h.closed.cut?_append
  obtain ⟨hhere, hhere_cursor⟩ := h.here_faces.next_eq
  obtain ⟨halone, halone_cursor⟩ := h.alone_faces.next_eq
  cases hpiece : cut? (rest.dropWhile isGap) with
  | none =>
      rw [hpiece] at hcut
      rw [scan_of_cut?_eq_none h.here_faces.standsAt hcut] at hhere
      rw [scan_of_cut?_eq_none h.alone_faces.standsAt hpiece] at halone
      have hrest := cut?_eq_none_iff.mp hpiece
      have hline : '\n' ∉ rest := by
        intro hmem
        exact absurd (List.dropWhile_eq_nil_iff.mp hrest '\n' hmem) (by decide)
      exact .endOfScript halone hhere ⟨rfl, rfl⟩ rfl hrest (h.closed.resolve_left hline)
  | some piece =>
      rw [hpiece] at hcut
      rw [scan_of_cut?_eq_some h.here_faces.standsAt hcut] at hhere hhere_cursor
      rw [scan_of_cut?_eq_some h.alone_faces.standsAt hpiece] at halone halone_cursor
      have hrest : (rest.takeWhile isGap ++ piece.text) ++ piece.rest = rest :=
        rest_of_cut?_eq_some hpiece
      have hhere_faces := h.here_faces
      have halone_faces := h.alone_faces
      rw [← hrest, List.append_assoc _ piece.rest] at hhere_faces
      rw [← hrest] at halone_faces
      have hhere_at : here.next.lexer.cursor =
          after (pre ++ done ++ (rest.takeWhile isGap ++ piece.text)) := by
        rw [hhere_cursor, hgap, List.append_assoc (pre ++ done)]
      have halone_at : alone.next.lexer.cursor =
          after (done ++ (rest.takeWhile isGap ++ piece.text)) := by
        rw [halone_cursor, List.append_assoc done]
      have hhere_next := faces_next hhere_faces hhere_at
      have halone_next := faces_next halone_faces halone_at
      by_cases hkind : piece.kind = .newline
      · -- The line feed: the other lexer goes on with what follows the line.
        have htext := text_of_newline hpiece hkind
        simp only [Piece.content, hkind, Except.map, htext] at hhere halone
        rw [htext] at hhere_next hrest
        rw [List.append_assoc] at hrest
        refine .endOfLine halone hhere ⟨rfl, rfl⟩ rfl hrest.symm
          (List.count_eq_zero.mp (count_newline_gap rest)) ?_
        simpa using hhere_next
      · have hclosed := closed_of_cut? h.closed hpiece hkind
        rw [Piece.content_append hclosed,
          show (here.seek _).params = (alone.seek (after done)).params from h.params_eq] at hhere
        cases hcontent : piece.content (alone.seek (after done)).params with
        | error e =>
            rw [hcontent] at hhere halone
            exact .error halone hhere
        | ok found =>
            obtain ⟨kind, lexeme⟩ := found
            rw [hcontent] at hhere halone
            have hends := (endsStatement_of_cut? hpiece hcontent
              (after (done ++ rest.takeWhile isGap))).resolve_left fun hline => hkind hline.1
            rw [List.append_assoc pre] at hhere_next hhere_at
            refine .token halone hhere ⟨rfl, rfl⟩ hends.2 hrest.symm
              (by simp [cut?_text_ne_nil hpiece]) ⟨hhere_next.source_eq, hhere_at⟩
              ⟨halone_next.source_eq, halone_at⟩ ⟨hhere_next, halone_next, ?_, hclosed⟩
            rw [params_next, params_next, h.params_eq]

/-- A token that does not end the statement is taken from both lexers. -/
theorem Beside.take (h : Beside pre post here alone done rest)
    (hnext : alone.next.outcome = .ok token) (hgo : token.endsStatement = false) :
    ∃ token' text rest', here.next.outcome = .ok token' ∧ token'.Same token ∧
      rest = text ++ rest' ∧
      here.next.lexer.StandsAt (pre ++ (done ++ text)) (rest' ++ post) ∧
      alone.next.lexer.StandsAt (done ++ text) rest' ∧
      Beside pre post here.next.lexer alone.next.lexer (done ++ text) rest' := by
  cases h.next with
  | error halone _ => rw [halone] at hnext; cases hnext
  | endOfLine halone _ _ hends _ _ _ | endOfScript halone _ _ hends _ _ =>
      rw [halone] at hnext
      cases hnext
      simp [Token.endsStatement_eq_false_iff, hends] at hgo
  | @token _ token' text rest' halone hhere hsame _ hrest _ hhere_at halone_at hbeside =>
      rw [halone] at hnext
      cases hnext
      exact ⟨token', text, rest', hhere, hsame, hrest, hhere_at, halone_at, hbeside⟩

theorem Beside.peek {token' : Token} (h : Beside pre post here alone done rest)
    (halone : alone.peek.outcome = .ok token) (hhere : here.peek.outcome = .ok token') :
    Beside pre post here.peek.lexer alone.peek.lexer done rest where
  here_faces := h.here_faces.peek hhere
  alone_faces := h.alone_faces.peek halone
  params_eq := by rw [params_peek, params_peek, h.params_eq]
  closed := h.closed

/-! ## The end of a line -/

/-- Where only gaps are left, the lexer may as well stand at the end. -/
theorem Faces.of_gaps {lexer : Lexer} {before rest : List Char} (h : lexer.Faces before rest)
    (hgaps : rest.dropWhile isGap = []) : lexer.Faces (before ++ rest) [] where
  source_eq := by rw [h.source_eq, List.append_nil]
  sound := h.sound
  scan_eq := by
    have hend : (lexer.seek (after (before ++ rest))).StandsAt (before ++ rest) [] :=
      ⟨by rw [List.append_nil]; exact h.source_eq, rfl⟩
    have hcut : cut? (rest.dropWhile isGap) = none := by rw [hgaps]; rfl
    rw [h.scan_eq, scan_of_cut?_eq_none h.standsAt hcut, scan_of_cut?_eq_none hend rfl,
      List.append_nil]

/-- The lexer is before a text, with at most the line feed in front of it to be taken. -/
def Nears (lexer : Lexer) (before rest : List Char) : Prop :=
  lexer.Sound ∧ (lexer.Faces before rest ∨ ∃ token, lexer.next.outcome = .ok token ∧
    token.kind = .delimiter .endOfLine ∧ lexer.next.lexer.Faces before rest)

/-- When the end of the line is next, it is so in both places.  Then the first lexer
goes on with what follows the line. -/
theorem Beside.nears (h : Beside pre post here alone done rest)
    (hline : IsLine (done ++ rest) post) (hnext : alone.next.outcome = .ok token)
    (hends : token.endsStatement = true) : here.Nears (pre ++ (done ++ rest)) post := by
  refine ⟨h.here_faces.sound, ?_⟩
  cases h.next with
  | error halone _ => rw [halone] at hnext; cases hnext
  | token halone _ _ hgo _ _ _ _ _ =>
      rw [halone] at hnext
      cases hnext
      rw [hgo] at hends
      cases hends
  | @endOfLine _ token' text rest' halone hhere hsame hkind hrest _ hfaces =>
      rw [hrest, ← List.append_assoc] at hline
      obtain rfl := hline.rest_eq_nil
      refine .inr ⟨token', hhere, hsame.1.trans hkind, ?_⟩
      rw [hrest]
      simpa [List.append_assoc] using hfaces
  | endOfScript halone _ _ hkind hrest hpost =>
      subst hpost
      have hfaces := h.here_faces
      rw [List.append_nil] at hfaces
      left
      rw [← List.append_assoc]
      exact hfaces.of_gaps hrest

/-! ## The rest of a line -/

theorem StandsAt.skipLine {lexer : Lexer} {before text : List Char}
    (h : lexer.StandsAt before text) (hpeeked : lexer.peeked = none) :
    lexer.skipLine.1 = text.takeWhile (· != '\n') ∧ lexer.skipLine.2.peeked = none ∧
      lexer.skipLine.2.StandsAt (before ++ text.takeWhile (· != '\n'))
        (text.dropWhile (· != '\n')) := by
  have hcount : (text.takeWhile (· != '\n')).count '\n' = 0 := by
    rw [List.count_eq_zero]
    intro hmem
    exact absurd (List.mem_takeWhile_imp hmem) (by decide)
  have hsplit : lexer.StandsAt before
      (text.takeWhile (· != '\n') ++ text.dropWhile (· != '\n')) := by
    rwa [List.takeWhile_append_dropWhile]
  have hadvance := hsplit.advance hcount
  unfold Lexer.skipLine
  simp only [hpeeked, h.text_eq]
  exact ⟨trivial, trivial, hadvance.source_eq, hadvance.cursor_eq⟩

/-- Where a line feed or nothing is left, the end of the line is next. -/
theorem Faces.endsStatement_next {lexer : Lexer} {before rest : List Char}
    (h : lexer.Faces before (rest.dropWhile (· != '\n'))) :
    ∃ token, lexer.next.outcome = .ok token ∧ token.endsStatement = true := by
  have hnext := h.next_eq.1
  cases hrest : rest.dropWhile (· != '\n') with
  | nil =>
      rw [hrest] at h
      rw [scan_of_cut?_eq_none h.standsAt rfl] at hnext
      exact ⟨_, hnext, rfl⟩
  | cons c others =>
      have hc : c = '\n' := by
        have hhead := List.head?_dropWhile_not (· != '\n') rest
        rw [hrest] at hhead
        simpa using hhead
      subst hc
      rw [hrest] at h
      rw [scan_of_cut?_eq_some h.standsAt rfl] at hnext
      exact ⟨_, hnext, rfl⟩

/-- Both lexers pass over the same text, up to the end of the line. -/
theorem Beside.skipLine (h : Beside pre post here alone done rest)
    (hhere : here.StandsAt (pre ++ done) (rest ++ post)) (halone : alone.StandsAt done rest)
    (hhere_peeked : here.peeked = none) (halone_peeked : alone.peeked = none) :
    here.skipLine.1 = alone.skipLine.1 ∧
      Beside pre post here.skipLine.2 alone.skipLine.2
        (done ++ rest.takeWhile (· != '\n')) (rest.dropWhile (· != '\n')) := by
  obtain ⟨htake, hdrop⟩ : (rest ++ post).takeWhile (· != '\n') = rest.takeWhile (· != '\n') ∧
      (rest ++ post).dropWhile (· != '\n') = rest.dropWhile (· != '\n') ++ post := by
    rcases h.closed with hmem | rfl
    · exact takeWhile_append_of_mem hmem (by decide) post
    · simp
  obtain ⟨hhere_text, hhere_none, hhere_at⟩ := hhere.skipLine hhere_peeked
  obtain ⟨halone_text, halone_none, halone_at⟩ := halone.skipLine halone_peeked
  rw [htake, hdrop, List.append_assoc] at hhere_at
  refine ⟨by rw [hhere_text, halone_text, htake], ?_⟩
  refine ⟨faces_of_standsAt hhere_at hhere_none h.here_faces.sound.skipLine,
    faces_of_standsAt halone_at halone_none h.alone_faces.sound.skipLine,
    by rw [params_skipLine, params_skipLine, h.params_eq], ?_⟩
  refine h.closed.imp_left fun hmem => ?_
  rw [← @List.takeWhile_append_dropWhile _ (· != '\n') rest] at hmem
  rcases List.mem_append.mp hmem with hpassed | hleft
  · exact absurd (List.mem_takeWhile_imp hpassed) (by decide)
  · exact hleft

/-- After the rest of a line has been passed over, what follows the line is next. -/
theorem Beside.nears_skipLine (h : Beside pre post here alone done rest)
    (hline : IsLine (done ++ rest) post)
    (hhere : here.StandsAt (pre ++ done) (rest ++ post)) (halone : alone.StandsAt done rest)
    (hhere_peeked : here.peeked = none) (halone_peeked : alone.peeked = none) :
    here.skipLine.2.Nears (pre ++ (done ++ rest)) post := by
  obtain ⟨_, hbeside⟩ := h.skipLine hhere halone hhere_peeked halone_peeked
  obtain ⟨last, hnext, hends⟩ := hbeside.alone_faces.endsStatement_next
  have hsplit : done ++ rest.takeWhile (· != '\n') ++ rest.dropWhile (· != '\n') =
      done ++ rest := by rw [List.append_assoc, List.takeWhile_append_dropWhile]
  rw [← hsplit] at hline ⊢
  exact hbeside.nears hline hnext hends

end Beside

end Lexer

end MatrixScript
