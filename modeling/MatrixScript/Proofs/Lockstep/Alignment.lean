import MatrixScript.Proofs.Lexing.Line
import MatrixScript.Proofs.Lexing.Pattern
import MatrixScript.Proofs.Lockstep.Reading
import MatrixScript.Script.Statement

/-!
# Alignments of two scripts

An alignment says of two scripts which texts ahead correspond: they are cut into the same
pieces, and what follows corresponds again.  Lines that start with a remark are cut at
their first word only, so their texts need not be pieces alike, as long as nothing reads
them from within.  Lexers at corresponding places of aligned scripts find the same tokens
(`Aligned.next`), and therefore they read any statement in step (`Alignment.pacing`).
-/

namespace MatrixScript

/-- What may be read at a place: a statement that starts there, or anything. -/
inductive Phase where
  | start
  | within
  deriving DecidableEq, Repr

/-- What a remark writes: its text up to the next quotation mark, if it is quoted. -/
def Statement.quotation (text : List Char) : Option String :=
  if (Text.trim text).head? = some '"' then some (untilQuote (Text.trim text).tail) else none

theorem Statement.remark_eq : remark = ExecM.read Reader.skipLine >>= fun text =>
    (quotation text).elim (pure ()) fun quoted => ExecM.emit "con:" (quoted ++ "\n") := by
  refine congrArg (ExecM.read Reader.skipLine >>= ·) (funext fun text => ?_)
  unfold quotation
  cases Text.trim text with
  | nil => rfl
  | cons c rest =>
      by_cases hc : c = '"'
      · subst hc
        rfl
      · simp [hc]

namespace Lexer

open Cursor

/-! ## Pieces -/

/-- The word that starts a remark. -/
def Piece.IsRemark (piece : Piece) : Prop :=
  piece.kind = .word ∧ foldCase (String.ofList piece.text) = Command.rem.keyword

instance : DecidablePred Piece.IsRemark :=
  fun _ => inferInstanceAs (Decidable (_ ∧ _))

theorem Piece.IsRemark.text_ne_percent {piece : Piece} (h : piece.IsRemark) :
    piece.text ≠ ['%'] := by
  intro htext
  have hword := h.2
  rw [htext] at hword
  exact absurd hword (by decide)

/-- The pieces are the same but for the spelling of words and labels. -/
structure Piece.Accords (spelling : Spelling) (piece piece' : Piece) : Prop where
  kind_eq : piece'.kind = piece.kind
  fold_eq : spelling.fold (String.ofList piece'.text) = spelling.fold (String.ofList piece.text)
  text_eq : piece.kind ≠ .word → piece.kind ≠ .label → piece'.text = piece.text
  /-- A parameter mark without a digit is reported with what follows it. -/
  fault_eq : piece.text = ['%'] →
    spelling.fold (String.ofList (piece'.rest.takeWhile fun c => !Text.isBlank c)) =
      spelling.fold (String.ofList (piece.rest.takeWhile fun c => !Text.isBlank c))

theorem classifyWord_eq_rem_iff {word : String} :
    (classifyWord word).1 = .command .rem ↔ foldCase word = Command.rem.keyword := by
  constructor
  · intro h
    rcases classifyWord_cases word with ⟨command, hkeyword, hfound⟩ | ⟨_, _, hfound⟩ |
      ⟨_, _, hfound⟩ <;> rw [hfound] at h <;> cases h
    exact hkeyword.symm
  · intro h
    rw [classifyWord_of_command h.symm]

/-- Words that are spelled alike are the same command, function or name. -/
theorem classifyWord_accords {spelling : Spelling} {word word' : String}
    (h : spelling.fold word' = spelling.fold word) :
    (classifyWord word').1 = (classifyWord word).1 ∧
      spelling.fold (classifyWord word').2 = spelling.fold (classifyWord word).2 ∧
      ((classifyWord word).1 ≠ .word → (classifyWord word').2 = (classifyWord word).2) := by
  have hcase := Spelling.foldCase_eq_of_fold_eq h
  rcases classifyWord_cases word with
    ⟨command, hkeyword, hfound⟩ | ⟨builtin, hkeyword, hfound⟩ | ⟨hcommand, hfunction, hfound⟩
  · rw [hfound, classifyWord_of_command (hkeyword.trans hcase.symm), hcase]
    exact ⟨rfl, rfl, fun _ => rfl⟩
  · rw [hfound, classifyWord_of_function (hkeyword.trans hcase.symm), hcase]
    exact ⟨rfl, rfl, fun _ => rfl⟩
  · rw [hfound, classifyWord_of_name (hcase ▸ hcommand) (hcase ▸ hfunction)]
    exact ⟨rfl, h, fun hword => absurd rfl hword⟩

/-- Only the word `rem` is the command of that name. -/
theorem Piece.isRemark_iff {params : List String} {piece : Piece} {kind : TokenKind}
    {lexeme : String} (h : piece.content params = .ok (kind, lexeme)) :
    kind = .command .rem ↔ piece.IsRemark := by
  obtain ⟨shape, text, rest⟩ := piece
  cases shape with
  | word =>
      obtain rfl : (classifyWord (String.ofList text)).1 = kind :=
        congrArg Prod.fst (Except.ok.inj h)
      rw [classifyWord_eq_rem_iff]
      exact ⟨fun hword => ⟨rfl, hword⟩, fun hremark => hremark.2⟩
  | newline | label | mark _ | quote _ | number =>
      cases h
      exact ⟨fun hkind => (nomatch hkind), fun hremark => (nomatch hremark.1)⟩
  | parameter index =>
      refine ⟨?_, fun hremark => (nomatch hremark.1)⟩
      rintro rfl
      have hvalue := congrArg Prod.fst (Except.ok.inj h)
      unfold substitute at hvalue
      repeat' split at hvalue
      all_goals cases hvalue
  | stray =>
      refine ⟨?_, fun hremark => (nomatch hremark.1)⟩
      rintro rfl
      simp only [Piece.content] at h
      split at h <;> cases h

theorem Piece.Accords.content {spelling : Spelling} {piece piece' : Piece}
    (h : piece.Accords spelling piece') (params : List String) :
    (∃ e e', piece.content params = .error e ∧ piece'.content params = .error e' ∧
      e'.respell spelling.fold = e.respell spelling.fold) ∨
    ∃ kind lexeme lexeme', piece.content params = .ok (kind, lexeme) ∧
      piece'.content params = .ok (kind, lexeme') ∧
      spelling.fold lexeme' = spelling.fold lexeme ∧
      (kind ≠ .word → kind ≠ .label → lexeme' = lexeme) := by
  obtain ⟨hkind, hfold, htext, hfault⟩ := h
  obtain ⟨shape, text, rest⟩ := piece
  obtain ⟨shape', text', rest'⟩ := piece'
  obtain rfl : shape' = shape := hkind
  dsimp only at hfold htext hfault
  cases shape' with
  | word =>
      obtain ⟨hclass, hlexeme, heq⟩ := classifyWord_accords hfold
      have hcontent (text rest : List Char) : Piece.content params ⟨.word, text, rest⟩ =
          .ok (classifyWord (String.ofList text)) := rfl
      rw [hcontent, hcontent]
      generalize classifyWord (String.ofList text) = found at hclass hlexeme heq ⊢
      generalize classifyWord (String.ofList text') = found' at hclass hlexeme heq ⊢
      obtain ⟨kind, lexeme⟩ := found
      obtain ⟨_, lexeme'⟩ := found'
      cases hclass
      exact .inr ⟨kind, lexeme, lexeme', rfl, rfl, hlexeme, fun hword _ => heq hword⟩
  | label =>
      exact .inr ⟨.label, _, _, rfl, rfl, Spelling.fold_ofList_drop 1 hfold,
        fun _ hlabel => absurd rfl hlabel⟩
  | newline | mark _ | quote _ | parameter _ | number =>
      obtain rfl := htext nofun nofun
      exact .inr ⟨_, _, _, rfl, rfl, rfl, fun _ _ => rfl⟩
  | stray =>
      obtain rfl := htext nofun nofun
      by_cases hlone : text' = ['%']
      · refine .inl ⟨_, _, if_pos hlone, if_pos hlone, ?_⟩
        exact congrArg ParseError.invalidParameter (hfault hlone)
      · exact .inr ⟨_, _, _, if_neg hlone, if_neg hlone, rfl, fun _ _ => rfl⟩

/-- The next token is made of the first piece of the text that a lexer faces. -/
theorem Faces.next_of_cut? {lexer : Lexer} {before rest : List Char} {piece : Piece}
    (h : lexer.Faces before rest) (hcut : cut? (rest.dropWhile isGap) = some piece) :
    lexer.next.outcome = (piece.content lexer.params).map (fun found =>
        ⟨found.1, found.2, after (before ++ rest.takeWhile isGap)⟩) ∧
      lexer.next.lexer.StandsAt (before ++ rest.takeWhile isGap ++ piece.text) piece.rest := by
  obtain ⟨houtcome, hcursor⟩ := h.next_eq
  rw [scan_of_cut?_eq_some h.standsAt hcut] at houtcome hcursor
  refine ⟨houtcome, ?_, hcursor⟩
  rw [source_next, h.source_eq, List.append_assoc before, List.append_assoc,
    rest_of_cut?_eq_some hcut]

/-- Where only gaps are left, the end of the script is next, on the same line. -/
theorem Faces.next_of_gaps {lexer : Lexer} {before rest : List Char}
    (h : lexer.Faces before rest) (hgaps : rest.dropWhile isGap = []) :
    ∃ start, lexer.next.outcome = .ok ⟨.delimiter .endOfScript, "", start⟩ ∧
      start.line = 1 + before.count '\n' := by
  have hcut : cut? (rest.dropWhile isGap) = none := cut?_eq_none_iff.mpr hgaps
  have houtcome := h.next_eq.1
  rw [scan_of_cut?_eq_none h.standsAt hcut] at houtcome
  refine ⟨_, houtcome, ?_⟩
  have hcount := count_newline_gap rest
  rw [takeWhile_gap_of_cut?_eq_none hcut] at hcount
  simp [hcount]

end Lexer

open Lexer Cursor

/-! ## Corresponding texts -/

/-- Two texts are cut alike: both are at their end, or their first pieces accord and what
is left corresponds.  After a word `rem` at the start of a statement this is what follows
the line. -/
inductive CutAlike (spelling : Spelling) (ahead : Phase → List Char → List Char → Prop)
    (phase : Phase) (text text' : List Char) : Prop where
  | finish (left : text.dropWhile isGap = []) (right : text'.dropWhile isGap = [])
  | piece {piece piece' : Piece} (left : cut? (text.dropWhile isGap) = some piece)
      (right : cut? (text'.dropWhile isGap) = some piece')
      (accord : piece.Accords spelling piece')
      (newline : piece.kind = .newline → ahead .start piece.rest piece'.rest)
      (within : piece.kind ≠ .newline → (phase = .start → ¬ piece.IsRemark) →
        ahead .within piece.rest piece'.rest)
      (remark : piece.IsRemark →
        Statement.quotation (piece'.rest.takeWhile (· != '\n')) =
            Statement.quotation (piece.rest.takeWhile (· != '\n')) ∧
          ahead .start (piece.rest.dropWhile (· != '\n'))
            (piece'.rest.dropWhile (· != '\n')))

/-- Two scripts whose texts correspond from the start. -/
structure Alignment where
  spelling : Spelling
  left : List Char
  right : List Char
  params : List String
  ahead : Phase → List Char → List Char → Prop
  start : ahead .start left right
  of_within : ∀ {text text' : List Char}, ahead .within text text' → ahead .start text text'
  cut : ∀ {phase : Phase} {text text' : List Char}, ahead phase text text' →
    CutAlike spelling ahead phase text text'

namespace Alignment

variable {A : Alignment} {phase : Phase} {a b : Lexer}

/-- The lexers read the two scripts and are at corresponding places of them. -/
structure Aligned (A : Alignment) (phase : Phase) (a b : Lexer) : Prop where
  left_source : a.source = A.left
  right_source : b.source = A.right
  left_params : a.params = A.params
  right_params : b.params = A.params
  line_eq : b.line = a.line
  faces : ∃ before rest before' rest', a.Faces before rest ∧ b.Faces before' rest' ∧
    before'.count '\n' = before.count '\n' ∧ A.ahead phase rest rest'

theorem Aligned.start (h : A.Aligned .within a b) : A.Aligned .start a b := by
  obtain ⟨before, rest, before', rest', hleft, hright, hcount, hahead⟩ := h.faces
  exact { h with
    faces := ⟨before, rest, before', rest', hleft, hright, hcount, A.of_within hahead⟩ }

theorem Aligned.sound_left (h : A.Aligned phase a b) : a.Sound := by
  obtain ⟨_, _, _, _, hleft, _⟩ := h.faces
  exact hleft.sound

theorem Aligned.sound_right (h : A.Aligned phase a b) : b.Sound := by
  obtain ⟨_, _, _, _, _, hright, _⟩ := h.faces
  exact hright.sound

theorem Aligned.peek {token token' : Token} (h : A.Aligned phase a b)
    (left : a.peek.outcome = .ok token) (right : b.peek.outcome = .ok token') :
    A.Aligned phase a.peek.lexer b.peek.lexer := by
  obtain ⟨before, rest, before', rest', hleft, hright, hcount, hahead⟩ := h.faces
  refine ⟨?_, ?_, ?_, ?_, ?_, before, rest, before', rest', hleft.peek left, hright.peek right,
    hcount, hahead⟩
  · rw [source_peek, h.left_source]
  · rw [source_peek, h.right_source]
  · rw [params_peek, h.left_params]
  · rw [params_peek, h.right_params]
  · rw [line_peek, line_peek, h.line_eq]

/-! ## Places -/

/-- A lexer for either script, to be sent to a place. -/
def leftLexer (A : Alignment) : Lexer := { source := A.left, params := A.params }

@[inherit_doc leftLexer]
def rightLexer (A : Alignment) : Lexer := { source := A.right, params := A.params }

/-- Reading that goes on at these places reads corresponding texts. -/
def SamePlace (A : Alignment) (cursor cursor' : Cursor) : Prop :=
  A.Aligned .start (A.leftLexer.seek cursor) (A.rightLexer.seek cursor')

theorem SamePlace.line_eq {cursor cursor' : Cursor} (h : A.SamePlace cursor cursor') :
    cursor'.line = cursor.line := Aligned.line_eq h

theorem samePlace_after {before rest before' rest' : List Char} (hleft : A.left = before ++ rest)
    (hright : A.right = before' ++ rest') (hcount : before'.count '\n' = before.count '\n')
    (hahead : A.ahead .start rest rest') : A.SamePlace (after before) (after before') where
  left_source := rfl
  right_source := rfl
  left_params := rfl
  right_params := rfl
  line_eq := congrArg (1 + ·) hcount
  faces := ⟨before, rest, before', rest', faces_seek hleft, faces_seek hright, hcount, hahead⟩

theorem Aligned.seek {cursor cursor' : Cursor} (h : A.Aligned phase a b)
    (hplace : A.SamePlace cursor cursor') : A.Aligned .start (a.seek cursor) (b.seek cursor') := by
  have hleft : a.seek cursor = A.leftLexer.seek cursor := by
    simp only [Lexer.seek, leftLexer, h.left_source, h.left_params]
  have hright : b.seek cursor' = A.rightLexer.seek cursor' := by
    simp only [Lexer.seek, rightLexer, h.right_source, h.right_params]
  rw [hleft, hright]
  exact hplace

/-! ## Tokens -/

/-- What aligned lexers find when they take a token: errors that accord, the end of both
scripts, or tokens that accord, at places where reading can start again. -/
inductive Next (A : Alignment) (phase : Phase) (a b : Lexer) : Prop where
  | fault {e e' : ParseError} (left : a.next.outcome = .error e)
      (right : b.next.outcome = .error e')
      (accord : e'.respell A.spelling.fold = e.respell A.spelling.fold)
  | finish {token token' : Token} (left : a.next.outcome = .ok token)
      (right : b.next.outcome = .ok token') (accord : token.Accords A.spelling token')
      (line_eq : token'.start.line = token.start.line)
      (kind_eq : token.kind = .delimiter .endOfScript)
  | token {token token' : Token} (left : a.next.outcome = .ok token)
      (right : b.next.outcome = .ok token') (accord : token.Accords A.spelling token')
      (kind_ne : token.kind ≠ .delimiter .endOfScript)
      (place : A.SamePlace token.start token'.start)
      (start : token.kind ≠ .command .rem → A.Aligned .start a.next.lexer b.next.lexer ∧
        A.SamePlace a.next.lexer.position b.next.lexer.position)
      (within : token.endsStatement = false → (phase = .start → token.kind ≠ .command .rem) →
        A.Aligned .within a.next.lexer b.next.lexer)
      (remark : token.kind = .command .rem →
        Statement.quotation b.next.lexer.skipLine.1 = Statement.quotation a.next.lexer.skipLine.1 ∧
          A.Aligned .start a.next.lexer.skipLine.2 b.next.lexer.skipLine.2)

section Taking

variable {phase' : Phase} {token token' : Token} {done rest done' rest' : List Char}

theorem Aligned.of_next (h : A.Aligned phase a b) (left : a.next.outcome = .ok token)
    (right : b.next.outcome = .ok token') (line_eq : token'.start.line = token.start.line)
    (left_at : a.next.lexer.StandsAt done rest) (right_at : b.next.lexer.StandsAt done' rest')
    (count_eq : done'.count '\n' = done.count '\n') (ahead : A.ahead phase' rest rest') :
    A.Aligned phase' a.next.lexer b.next.lexer where
  left_source := by rw [source_next, h.left_source]
  right_source := by rw [source_next, h.right_source]
  left_params := by rw [params_next, h.left_params]
  right_params := by rw [params_next, h.right_params]
  line_eq := by rw [line_next left, line_next right, line_eq]
  faces := ⟨done, rest, done', rest',
    faces_of_standsAt left_at (peeked_next a) h.sound_left.next,
    faces_of_standsAt right_at (peeked_next b) h.sound_right.next, count_eq, ahead⟩

/-- Both lexers pass over the rest of a line. -/
theorem Aligned.of_skipLine (h : A.Aligned phase a b) (left : a.next.outcome = .ok token)
    (right : b.next.outcome = .ok token') (line_eq : token'.start.line = token.start.line)
    (left_at : a.next.lexer.StandsAt done rest) (right_at : b.next.lexer.StandsAt done' rest')
    (count_eq : done'.count '\n' = done.count '\n')
    (ahead : A.ahead phase' (rest.dropWhile (· != '\n')) (rest'.dropWhile (· != '\n'))) :
    A.Aligned phase' a.next.lexer.skipLine.2 b.next.lexer.skipLine.2 := by
  have hline (text : List Char) : (text.takeWhile (· != '\n')).count '\n' = 0 := by
    rw [List.count_eq_zero]
    intro hmem
    exact absurd (List.mem_takeWhile_imp hmem) (by decide)
  obtain ⟨_, left_none, left_at'⟩ := left_at.skipLine (peeked_next a)
  obtain ⟨_, right_none, right_at'⟩ := right_at.skipLine (peeked_next b)
  refine ⟨?_, ?_, ?_, ?_, ?_, _, _, _, _,
    faces_of_standsAt left_at' left_none h.sound_left.next.skipLine,
    faces_of_standsAt right_at' right_none h.sound_right.next.skipLine, ?_, ahead⟩
  · rw [source_skipLine, source_next, h.left_source]
  · rw [source_skipLine, source_next, h.right_source]
  · rw [params_skipLine, params_next, h.left_params]
  · rw [params_skipLine, params_next, h.right_params]
  · rw [line_skipLine, line_skipLine, line_next left, line_next right, line_eq]
  · rw [List.count_append, List.count_append, hline, hline, count_eq]

/-- The places where the next tokens start correspond. -/
theorem Aligned.samePlace_token (h : A.Aligned phase a b) (left : a.next.outcome = .ok token)
    (right : b.next.outcome = .ok token') (line_eq : token'.start.line = token.start.line) :
    A.SamePlace token.start token'.start := by
  obtain ⟨before, rest, before', rest', hleft, hright, hcount, hahead⟩ := h.faces
  have hstart : A.ahead .start rest rest' := by
    cases phase with
    | start => exact hahead
    | within => exact A.of_within hahead
  have hscan : (A.leftLexer.seek (after before)).scan.outcome = .ok token := by
    rw [← left, hleft.next_eq.1]
    exact congrArg Scan.outcome (scan_congr h.left_source.symm h.left_params.symm rfl)
  have hscan' : (A.rightLexer.seek (after before')).scan.outcome = .ok token' := by
    rw [← right, hright.next_eq.1]
    exact congrArg Scan.outcome (scan_congr h.right_source.symm h.right_params.symm rfl)
  exact
    { left_source := rfl
      right_source := rfl
      left_params := rfl
      right_params := rfl
      line_eq := line_eq
      faces := ⟨before, rest, before', rest',
        faces_seek_start (h.left_source.symm.trans hleft.source_eq) hscan,
        faces_seek_start (h.right_source.symm.trans hright.source_eq) hscan', hcount, hstart⟩ }

end Taking

theorem Aligned.next (h : A.Aligned phase a b) : A.Next phase a b := by
  obtain ⟨before, rest, before', rest', hleft, hright, hcount, hahead⟩ := h.faces
  cases A.cut hahead with
  | finish hend hend' =>
      obtain ⟨start, left, hline⟩ := hleft.next_of_gaps hend
      obtain ⟨start', right, hline'⟩ := hright.next_of_gaps hend'
      refine .finish left right ⟨rfl, rfl, fun _ _ => rfl⟩ ?_ rfl
      rw [hline, hline', hcount]
  | @piece piece piece' hcut hcut' accord newline within remark =>
      obtain ⟨left, left_at⟩ := hleft.next_of_cut? hcut
      obtain ⟨right, right_at⟩ := hright.next_of_cut? hcut'
      rw [h.left_params] at left
      rw [h.right_params] at right
      have hline : (before' ++ rest'.takeWhile isGap).count '\n' =
          (before ++ rest.takeWhile isGap).count '\n' := by
        simp [count_newline_gap, hcount]
      have hdone : (before' ++ rest'.takeWhile isGap ++ piece'.text).count '\n' =
          (before ++ rest.takeWhile isGap ++ piece.text).count '\n' := by
        rw [List.count_append, hline, count_newline_of_cut? hcut', accord.kind_eq,
          ← count_newline_of_cut? hcut, ← List.count_append]
      rcases accord.content A.params with ⟨e, e', hfault, hfault', hrespell⟩ |
        ⟨kind, lexeme, lexeme', hfound, hfound', hfold, heq⟩
      · rw [hfault] at left
        rw [hfault'] at right
        exact .fault left right hrespell
      rw [hfound] at left
      rw [hfound'] at right
      have hrem := Piece.isRemark_iff hfound
      have line_eq := congrArg (1 + ·) hline
      have hends := endsStatement_of_cut? hcut hfound (after (before ++ rest.takeWhile isGap))
      -- Lines go on within a statement and start again after a line feed.
      have hstart : kind ≠ .command .rem → A.ahead .start piece.rest piece'.rest := by
        intro hkind
        rcases hends with ⟨hnewline, _⟩ | ⟨hnewline, _⟩
        · exact newline hnewline
        · exact A.of_within (within hnewline fun _ hremark => hkind (hrem.mpr hremark))
      refine .token left right ⟨rfl, hfold, heq⟩ ?_ (h.samePlace_token left right line_eq)
        (fun hkind => ⟨?_, ?_⟩) (fun hgo hkind => ?_) fun hkind => ⟨?_, ?_⟩
      · rcases hends with ⟨_, hkind⟩ | ⟨_, hgo⟩
        · simp [hkind]
        · exact (Token.endsStatement_eq_false_iff.mp hgo).2
      · exact h.of_next left right line_eq left_at right_at hdone (hstart hkind)
      · rw [position, peeked_next, left_at.cursor_eq, position, peeked_next, right_at.cursor_eq]
        refine samePlace_after ?_ ?_ hdone (hstart hkind)
        · rw [← left_at.source_eq, source_next, h.left_source]
        · rw [← right_at.source_eq, source_next, h.right_source]
      · refine h.of_next left right line_eq left_at right_at hdone (within (fun hnewline => ?_) ?_)
        · rcases hends with ⟨_, hline⟩ | ⟨hne, _⟩
          · exact (Token.endsStatement_eq_false_iff.mp hgo).1 hline
          · exact hne hnewline
        · exact fun hphase hremark => hkind hphase (hrem.mpr hremark)
      · rw [(left_at.skipLine (peeked_next a)).1, (right_at.skipLine (peeked_next b)).1]
        exact (remark (hrem.mp hkind)).1
      · exact h.of_skipLine left right line_eq left_at right_at hdone (remark (hrem.mp hkind)).2

/-! ## Reading in step -/

/-- Within a statement, lexers at corresponding places with at most `n` tokens to come. -/
def Near (A : Alignment) (n : Nat) (a b : Lexer) : Prop :=
  A.Aligned .within a b ∧ min a.ahead b.ahead ≤ n

/-- The lexers tell the same line for errors. -/
def SameLine (a b : Lexer) : Prop := b.line = a.line

theorem Aligned.near (h : A.Aligned .within a b) : A.Near (min a.ahead b.ahead) a b :=
  ⟨h, le_rfl⟩

theorem Aligned.ahead_next_lt {token token' : Token} (h : A.Aligned phase a b)
    (left : a.next.outcome = .ok token) (right : b.next.outcome = .ok token')
    (hkind : token.kind ≠ .delimiter .endOfScript) (kind_eq : token'.kind = token.kind) :
    min a.next.lexer.ahead b.next.lexer.ahead < min a.ahead b.ahead := by
  have hleft := h.sound_left.ahead_next_lt left hkind
  have hright := h.sound_right.ahead_next_lt right (kind_eq ▸ hkind)
  omega

/-- Aligned lexers read statements in step. -/
theorem pacing (A : Alignment) : Pacing A.spelling A.Near SameLine where
  stop := fun h => h.1.line_eq
  mono := fun h hk => ⟨h.1, h.2.trans hk⟩
  bound := by
    intro n a b h
    have hleft := h.1.sound_left.ahead_lt_tokenBound
    have hright := h.1.sound_right.ahead_lt_tokenBound
    exact ⟨min a.ahead b.ahead, h.2, by omega, by omega, h.1.near⟩
  peek := by
    intro n a b token token' h left right
    have hleft := h.1.sound_left.ahead_peek_le
    have hright := h.1.sound_right.ahead_peek_le
    have hle := h.2
    exact ⟨h.1.peek left right, by omega⟩
  peek_fault := by
    intro n a b e e' h left right
    rw [SameLine, line_peek, line_peek]
    exact h.1.line_eq
  next := by
    intro n a b h
    have hstop {token token' : Token} (left : a.next.outcome = .ok token)
        (right : b.next.outcome = .ok token') (line_eq : token'.start.line = token.start.line) :
        SameLine a.next.lexer b.next.lexer := by
      rw [SameLine, line_next left, line_next right, line_eq]
    cases h.1.next with
    | fault left right accord =>
        refine .fault left right accord ?_
        rw [SameLine, line_next_of_error left, line_next_of_error right]
        exact h.1.line_eq
    | finish left right accord line_eq kind_eq =>
        refine .token left right accord (hstop left right line_eq) fun hgo => ?_
        exact absurd kind_eq (Token.endsStatement_eq_false_iff.mp hgo).2
    | token left right accord kind_ne place _ within _ =>
        refine .token left right accord (hstop left right place.line_eq) fun hgo => ?_
        have hlt := h.1.ahead_next_lt left right kind_ne accord.kind_eq
        exact ⟨_, hlt.trans_le h.2, (within hgo nofun).near⟩

end Alignment

end MatrixScript
