import MatrixScript.Proofs.Lexing.Scan

/-!
# The patterns of tokens

The language lists seven patterns, each a first character and what may follow it.
A cut takes the longest beginning of the text that matches any of them, or a single
character where none matches (`isFirst_of_cut?`).  What a token is follows from its
text alone: `Spells` gives the kind and the lexeme of each text, `spells_of_cut?`
says that cuts follow it, and `Spells.unique` that no text has two meanings.
-/

namespace MatrixScript

/-! ## Keywords -/

theorem Command.ofWord?_eq_some_iff {word : String} {command : Command} :
    ofWord? word = some command ↔ command.keyword = word := by
  constructor
  · intro h
    simpa using List.find?_some h
  · rintro rfl
    cases command <;> decide

theorem Builtin.ofWord?_eq_some_iff {word : String} {builtin : Builtin} :
    ofWord? word = some builtin ↔ builtin.keyword = word := by
  constructor
  · intro h
    simpa using List.find?_some h
  · rintro rfl
    cases builtin <;> decide

namespace Lexer

theorem classifyWord_of_command {word : String} {command : Command}
    (h : command.keyword = foldCase word) :
    classifyWord word = (.command command, foldCase word) := by
  simp only [classifyWord, Command.ofWord?_eq_some_iff.mpr h]

/-- No function is named as a command. -/
theorem classifyWord_of_function {word : String} {builtin : Builtin}
    (h : builtin.keyword = foldCase word) :
    classifyWord word = (.function builtin, foldCase word) := by
  have hcommand : Command.ofWord? (foldCase word) = none := by
    rw [← h]
    cases builtin <;> decide
  simp only [classifyWord, hcommand, Builtin.ofWord?_eq_some_iff.mpr h]

theorem classifyWord_of_name {word : String}
    (hcommand : ∀ command : Command, command.keyword ≠ foldCase word)
    (hfunction : ∀ builtin : Builtin, builtin.keyword ≠ foldCase word) :
    classifyWord word = (.word, word) := by
  have hcommand' : Command.ofWord? (foldCase word) = none :=
    Option.eq_none_iff_forall_ne_some.mpr fun command h =>
      hcommand command (Command.ofWord?_eq_some_iff.mp h)
  have hfunction' : Builtin.ofWord? (foldCase word) = none :=
    Option.eq_none_iff_forall_ne_some.mpr fun builtin h =>
      hfunction builtin (Builtin.ofWord?_eq_some_iff.mp h)
  simp only [classifyWord, hcommand', hfunction']

/-- A word is a command, a function or a name. -/
theorem classifyWord_cases (word : String) :
    (∃ command : Command, command.keyword = foldCase word ∧
      classifyWord word = (.command command, foldCase word)) ∨
    (∃ builtin : Builtin, builtin.keyword = foldCase word ∧
      classifyWord word = (.function builtin, foldCase word)) ∨
    (∀ command : Command, command.keyword ≠ foldCase word) ∧
      (∀ builtin : Builtin, builtin.keyword ≠ foldCase word) ∧
      classifyWord word = (.word, word) := by
  by_cases hcommand : ∃ command : Command, command.keyword = foldCase word
  · obtain ⟨command, hkeyword⟩ := hcommand
    exact .inl ⟨command, hkeyword, classifyWord_of_command hkeyword⟩
  by_cases hfunction : ∃ builtin : Builtin, builtin.keyword = foldCase word
  · obtain ⟨builtin, hkeyword⟩ := hfunction
    exact .inr (.inl ⟨builtin, hkeyword, classifyWord_of_function hkeyword⟩)
  · rw [not_exists] at hcommand hfunction
    exact .inr (.inr ⟨hcommand, hfunction, classifyWord_of_name hcommand hfunction⟩)

/-! ## Patterns -/

/-- The marks that are tokens by themselves. -/
def marks : List Char :=
  ['<', '>', '=', '+', '-', '*', '\x60', '~', '&', '^', '|', '(', ')', ',']

/-- The characters at which a label, a number or a word ends. -/
def wordEnds : List Char :=
  [' ', '\t', '\r', '\n', '"', '%'] ++ marks

theorem mem_marks_iff {c : Char} : c ∈ marks ↔ (Delimiter.ofChar? c).isSome := by
  unfold Delimiter.ofChar?
  split <;> simp_all [marks]

theorem mem_wordEnds_iff {c : Char} : c ∈ wordEnds ↔ endsWord c = true := by
  simp [wordEnds, endsWord, isGap, mem_marks_iff, or_assoc]

inductive Pattern where
  | newline
  | label
  | mark
  | quote
  | parameter
  | number
  | word
  deriving DecidableEq

namespace Pattern

/-- The characters that a text of the pattern can start with. -/
def Starts : Pattern → Char → Prop
  | newline, c => c = '\n'
  | label, c => c = ':'
  | mark, c => c ∈ marks
  | quote, c => c = '"'
  | parameter, c => c = '%'
  | number, c => c.isDigit = true
  | word, c => c.isAlpha = true ∨ c = '.'

/-- What can follow the first character. -/
def Continues : Pattern → List Char → Prop
  | newline, tail | mark, tail => tail = []
  | label, tail | number, tail | word, tail => ∀ c ∈ tail, c ∉ wordEnds
  | quote, tail => ∃ inner : List Char, (∀ c ∈ inner, c ≠ '"' ∧ c ≠ '\n') ∧
      (tail = inner ∨ tail = inner ++ ['"'])
  | parameter, tail => ∃ d : Char, d.isDigit = true ∧ tail = [d]

def all : List Pattern :=
  [newline, label, mark, quote, parameter, number, word]

theorem mem_all (pattern : Pattern) : pattern ∈ all := by
  cases pattern <;> decide

def Matches (pattern : Pattern) : List Char → Prop
  | [] => False
  | c :: tail => pattern.Starts c ∧ pattern.Continues tail

instance : (pattern : Pattern) → (c : Char) → Decidable (pattern.Starts c)
  | newline, c => inferInstanceAs (Decidable (c = '\n'))
  | label, c => inferInstanceAs (Decidable (c = ':'))
  | mark, c => inferInstanceAs (Decidable (c ∈ marks))
  | quote, c => inferInstanceAs (Decidable (c = '"'))
  | parameter, c => inferInstanceAs (Decidable (c = '%'))
  | number, c => inferInstanceAs (Decidable (c.isDigit = true))
  | word, c => inferInstanceAs (Decidable (c.isAlpha = true ∨ c = '.'))

private theorem isAlpha_eq_false_of_isDigit {c : Char} (h : c.isDigit = true) :
    c.isAlpha = false := by
  delta Char.isDigit at h
  delta Char.isAlpha Char.isUpper Char.isLower
  simp only [Bool.and_eq_true, decide_eq_true_eq, Bool.or_eq_false_iff, Bool.and_eq_false_iff,
    decide_eq_false_iff_not, UInt32.le_iff_toNat_le, ge_iff_le] at h ⊢
  simp only [Char.reduceVal, UInt32.reduceToNat] at h ⊢
  omega

/-- All patterns but numbers and words start with one of a few characters. -/
private def signs : List Char :=
  ['\n', ':', '"', '%'] ++ marks

-- These two run through the list of signs and not through all characters.
private theorem signs_unique : signs.all (fun c =>
    decide (∀ p ∈ all, ∀ q ∈ all, p.Starts c → q.Starts c → p = q)) = true := by
  decide

private theorem exists_starts_of_mem_signs : signs.all (fun c =>
    decide (∃ p ∈ all, p ≠ number ∧ p ≠ word ∧ p.Starts c)) = true := by
  decide

private theorem Starts.mem_signs {p : Pattern} {c : Char} (h : p.Starts c) :
    c ∈ signs ∨ p = number ∨ p = word := by
  cases p with
  | newline | label | quote | parameter => cases h; decide
  | mark => exact .inl (List.mem_append_right _ h)
  | number | word => simp

private theorem not_mem_signs {c : Char}
    (h : ∀ p : Pattern, p.Starts c → p = number ∨ p = word) : c ∉ signs := by
  intro hc
  obtain ⟨p, -, hnumber, hword, hp⟩ :=
    of_decide_eq_true (List.all_eq_true.mp exists_starts_of_mem_signs c hc)
  rcases h p hp with rfl | rfl
  · exact hnumber rfl
  · exact hword rfl

private theorem not_number_and_word {c : Char} (hnumber : number.Starts c) :
    ¬ word.Starts c := by
  rintro (hletter | rfl)
  · rw [isAlpha_eq_false_of_isDigit hnumber] at hletter
    exact absurd hletter (by simp)
  · exact absurd hnumber (by decide)

/-- The first character tells the pattern. -/
theorem Starts.unique {p q : Pattern} {c : Char} (hp : p.Starts c) (hq : q.Starts c) :
    p = q := by
  by_cases hc : c ∈ signs
  · have hsign := of_decide_eq_true (List.all_eq_true.mp signs_unique c hc)
    exact hsign p (mem_all p) q (mem_all q) hp hq
  · rcases hp.mem_signs.resolve_left hc with rfl | rfl <;>
      rcases hq.mem_signs.resolve_left hc with rfl | rfl
    · rfl
    · exact absurd hq (not_number_and_word hp)
    · exact absurd hp (not_number_and_word hq)
    · rfl

end Pattern

/-! ## Cuts by their pattern -/

/-- The piece that is cut off a text, by the pattern of its first character. -/
inductive Cuts : List Char → Piece → Prop where
  | newline (rest : List Char) : Cuts ('\n' :: rest) ⟨.newline, ['\n'], rest⟩
  | label (rest : List Char) : Cuts (':' :: rest) (cutRun .label ':' rest)
  | quote (rest : List Char) : Cuts ('"' :: rest) (cutQuote rest)
  | parameter (rest : List Char) : Cuts ('%' :: rest) (cutParameter rest)
  | mark {c : Char} {mark : Delimiter} (h : Delimiter.ofChar? c = some mark)
      (rest : List Char) : Cuts (c :: rest) ⟨.mark mark, [c], rest⟩
  | number {c : Char} (h : Pattern.number.Starts c) (rest : List Char) :
      Cuts (c :: rest) (cutRun .number c rest)
  | word {c : Char} (h : Pattern.word.Starts c) (rest : List Char) :
      Cuts (c :: rest) (cutRun .word c rest)
  | stray {c : Char} (h : ∀ p : Pattern, ¬ p.Starts c) (rest : List Char) :
      Cuts (c :: rest) ⟨.stray, [c], rest⟩

theorem startsWord_iff {c : Char} : startsWord c = true ↔ Pattern.word.Starts c := by
  simp [startsWord, Pattern.Starts]

private theorem ofChar?_eq_none_iff {c : Char} : Delimiter.ofChar? c = none ↔ c ∉ marks := by
  rw [mem_marks_iff, Option.not_isSome_iff_eq_none]

theorem cuts_of_cut? {text : List Char} {piece : Piece} (h : cut? text = some piece) :
    Cuts text piece := by
  unfold cut? at h
  split at h
  · exact absurd h (by simp)
  · cases h; exact .newline _
  · cases h; exact .label _
  · cases h; exact .quote _
  · cases h; exact .parameter _
  · rename_i c rest hnewline hlabel hquote hparameter
    split at h
    · rename_i hmark
      cases h; exact .mark hmark rest
    · rename_i hmark
      split at h
      · rename_i hdigit
        cases h; exact .number hdigit rest
      · rename_i hdigit
        split at h
        · rename_i hword
          cases h; exact .word (startsWord_iff.mp hword) rest
        · rename_i hword
          cases h
          refine .stray (fun p hp => ?_) rest
          cases p with
          | newline => exact hnewline hp
          | label => exact hlabel hp
          | quote => exact hquote hp
          | parameter => exact hparameter hp
          | mark => exact ofChar?_eq_none_iff.mp hmark hp
          | number => exact hdigit hp
          | word => exact hword (startsWord_iff.mpr hp)

/-- A text that does not start with a sign starts with a number, a word or a character
that is neither. -/
private theorem cut?_of_not_signs {c : Char} (h : c ∉ Pattern.signs) (rest : List Char) :
    cut? (c :: rest) = if c.isDigit then some (cutRun .number c rest)
      else if startsWord c then some (cutRun .word c rest)
      else some ⟨.stray, [c], rest⟩ := by
  have hmark : Delimiter.ofChar? c = none :=
    ofChar?_eq_none_iff.mpr fun hc => h (List.mem_append_right _ hc)
  unfold cut?
  split
  all_goals rename_i heq; cases heq
  · exact absurd (by decide) h
  · exact absurd (by decide) h
  · exact absurd (by decide) h
  · exact absurd (by decide) h
  · rw [hmark]

theorem Cuts.cut?_eq {text : List Char} {piece : Piece} (h : Cuts text piece) :
    cut? text = some piece := by
  cases h with
  | newline rest | label rest | quote rest | parameter rest => rfl
  | mark hmark rest =>
      unfold cut?
      split
      all_goals rename_i heq; cases heq
      · cases hmark
      · cases hmark
      · cases hmark
      · cases hmark
      · rw [hmark]
  | number hc rest =>
      have hdigit : Char.isDigit _ = true := hc
      rw [cut?_of_not_signs (Pattern.not_mem_signs fun p hp => .inl (hp.unique hc)),
        if_pos hdigit]
  | word hc rest =>
      have hdigit : ¬ Char.isDigit _ = true := fun hdigit =>
        Pattern.not_number_and_word hdigit hc
      rw [cut?_of_not_signs (Pattern.not_mem_signs fun p hp => .inr (hp.unique hc)),
        if_neg hdigit, if_pos (startsWord_iff.mpr hc)]
  | stray hc rest =>
      have hdigit : ¬ Char.isDigit _ = true := hc .number
      have hword := fun hword => hc .word (startsWord_iff.mp hword)
      rw [cut?_of_not_signs (Pattern.not_mem_signs fun p hp => absurd hp (hc p)),
        if_neg hdigit, if_neg hword]

/-! ## The longest match -/

/-- The text is the longest beginning of itself and the rest that matches a pattern, or
one character where none matches. -/
def IsFirst (text rest : List Char) : Prop :=
  (∃ p : Pattern, p.Matches text ∧
    ∀ (q : Pattern) (other : List Char), other <+: text ++ rest → q.Matches other →
      other.length ≤ text.length) ∨
  (∃ c, text = [c]) ∧
    ∀ (q : Pattern) (other : List Char), other <+: text ++ rest → ¬ q.Matches other

/-- What follows the first character can only be compared within its own pattern. -/
theorem isFirst_of_starts {p : Pattern} {c : Char} {tail rest : List Char}
    (hstart : p.Starts c) (htail : p.Continues tail)
    (hlongest : ∀ other : List Char, other <+: tail ++ rest → p.Continues other →
      other.length ≤ tail.length) : IsFirst (c :: tail) rest := by
  refine .inl ⟨p, ⟨hstart, htail⟩, ?_⟩
  intro q other hother hmatch
  cases other with
  | nil => exact absurd hmatch id
  | cons d other =>
      obtain ⟨rfl, hbegins⟩ := List.cons_prefix_cons.mp hother
      have hsame := hmatch.1.unique hstart
      subst hsame
      have := hlongest other hbegins hmatch.2
      simpa using this

theorem isFirst_of_not_starts {c : Char} (h : ∀ p : Pattern, ¬ p.Starts c) (rest : List Char) :
    IsFirst [c] rest := by
  refine .inr ⟨⟨c, rfl⟩, ?_⟩
  intro q other hother hmatch
  cases other with
  | nil => exact hmatch
  | cons d other =>
      obtain ⟨rfl, -⟩ := List.cons_prefix_cons.mp hother
      exact h q hmatch.1

/-- A beginning whose characters all go on is no longer than all that go on. -/
theorem length_le_length_takeWhile {p : Char → Bool} {run text : List Char}
    (hbegins : run <+: text) (hrun : ∀ c ∈ run, p c = true) :
    run.length ≤ (text.takeWhile p).length := by
  obtain ⟨rest, rfl⟩ := hbegins
  rw [List.takeWhile_append_of_pos hrun]
  simp

private theorem not_mem_wordEnds_of_run {rest : List Char} :
    ∀ c ∈ rest.takeWhile (fun d => !endsWord d), c ∉ wordEnds := by
  intro c hc
  have := List.mem_takeWhile_imp hc
  simpa [mem_wordEnds_iff] using this

theorem isFirst_cutRun {p : Pattern} (hrun : ∀ tail, p.Continues tail ↔ ∀ c ∈ tail, c ∉ wordEnds)
    (kind : PieceKind) {c : Char} (hc : p.Starts c) (rest : List Char) :
    IsFirst (cutRun kind c rest).text (cutRun kind c rest).rest := by
  have hgoes : ∀ d, d ∉ wordEnds ↔ (!endsWord d) = true := by simp [mem_wordEnds_iff]
  apply isFirst_of_starts hc
  · exact (hrun _).mpr not_mem_wordEnds_of_run
  · intro other hother hcontinues
    rw [cutRun, List.takeWhile_append_dropWhile] at hother
    have hall : ∀ d ∈ other, (!endsWord d) = true := fun d hd =>
      (hgoes d).mp ((hrun other).mp hcontinues d hd)
    exact length_le_length_takeWhile hother hall

theorem isQuotable_iff {c : Char} : isQuotable c = true ↔ c ≠ '"' ∧ c ≠ '\n' := by
  simp [isQuotable]

private theorem quotable_of_inner {rest : List Char} :
    ∀ c ∈ rest.takeWhile isQuotable, c ≠ '"' ∧ c ≠ '\n' :=
  fun _ hc => isQuotable_iff.mp (List.mem_takeWhile_imp hc)

theorem isFirst_cutQuote (rest : List Char) :
    IsFirst (cutQuote rest).text (cutQuote rest).rest := by
  have hinner := @quotable_of_inner rest
  have hsplit := List.takeWhile_append_dropWhile (p := isQuotable) (l := rest)
  -- No quotation has more characters inside than go on from the opening mark.
  have hbound : ∀ inner other : List Char, (∀ c ∈ inner, c ≠ '"' ∧ c ≠ '\n') →
      inner ++ other <+: rest → inner.length ≤ (rest.takeWhile isQuotable).length := by
    intro inner other hquotable hbegins
    exact length_le_length_takeWhile ((List.prefix_append inner other).trans hbegins)
      fun c hc => isQuotable_iff.mpr (hquotable c hc)
  unfold cutQuote
  split
  · rename_i after hafter
    rw [hafter] at hsplit
    refine @isFirst_of_starts .quote '"' (rest.takeWhile isQuotable ++ ['"']) after rfl
      ⟨_, hinner, .inr rfl⟩ ?_
    rintro other hother ⟨inner, hquotable, rfl | rfl⟩
    · have hle := hbound other [] hquotable (by simpa [hsplit] using hother)
      rw [List.length_append]
      omega
    · have hle := hbound inner ['"'] hquotable (by simpa [hsplit] using hother)
      rw [List.length_append, List.length_append]
      omega
  · rename_i hopen
    refine @isFirst_of_starts .quote '"' _ _ rfl ⟨_, hinner, .inl rfl⟩ ?_
    rw [hsplit]
    rintro other hother ⟨inner, hquotable, rfl | rfl⟩
    · exact hbound other [] hquotable (by simpa using hother)
    · -- A closing mark after `inner` would stand where the open quotation ends.
      obtain ⟨after, hafter⟩ := hother
      have hdrop : rest.dropWhile isQuotable = '"' :: after := by
        rw [← hafter, List.append_assoc]
        rw [List.dropWhile_append_of_pos fun c hc => isQuotable_iff.mpr (hquotable c hc)]
        rfl
      exact absurd hdrop (hopen after)

theorem isFirst_loneMark {rest : List Char}
    (h : ∀ d after, rest = d :: after → d.isDigit = false) : IsFirst ['%'] rest := by
  refine .inr ⟨⟨_, rfl⟩, ?_⟩
  intro q other hother hmatch
  cases other with
  | nil => exact hmatch
  | cons c other =>
      obtain ⟨rfl, after, hafter⟩ := List.cons_prefix_cons.mp hother
      have hsame : q = .parameter := hmatch.1.unique rfl
      subst hsame
      obtain ⟨d, hd, rfl⟩ := hmatch.2
      rw [h d after hafter.symm] at hd
      exact absurd hd (by simp)

theorem isFirst_cutParameter (rest : List Char) :
    IsFirst (cutParameter rest).text (cutParameter rest).rest := by
  unfold cutParameter
  split
  · rename_i d after
    split
    · rename_i hd
      refine @isFirst_of_starts .parameter '%' [d] after rfl ⟨d, hd, rfl⟩ ?_
      rintro other - ⟨_, -, rfl⟩
      exact le_rfl
    · rename_i hd
      apply isFirst_loneMark
      rintro _ _ ⟨⟩
      simpa using hd
  · exact isFirst_loneMark fun _ _ h => by simp at h

theorem isFirst_single {p : Pattern} (hsingle : ∀ tail, p.Continues tail ↔ tail = []) {c : Char}
    (hc : p.Starts c) (rest : List Char) : IsFirst [c] rest := by
  apply isFirst_of_starts hc ((hsingle []).mpr rfl)
  intro other _ hother
  rw [(hsingle other).mp hother]

/-- A cut takes the longest match. -/
theorem isFirst_of_cut? {text : List Char} {piece : Piece} (h : cut? text = some piece) :
    IsFirst piece.text piece.rest := by
  cases cuts_of_cut? h with
  | newline rest => exact isFirst_single (p := .newline) (fun _ => Iff.rfl) rfl rest
  | mark hmark rest =>
      exact isFirst_single (p := .mark) (fun _ => Iff.rfl)
        (mem_marks_iff.mpr (by rw [hmark]; rfl)) rest
  | label rest => exact isFirst_cutRun (p := .label) (fun _ => Iff.rfl) _ rfl rest
  | number hc rest => exact isFirst_cutRun (p := .number) (fun _ => Iff.rfl) _ hc rest
  | word hc rest => exact isFirst_cutRun (p := .word) (fun _ => Iff.rfl) _ hc rest
  | quote rest => exact isFirst_cutQuote rest
  | parameter rest => exact isFirst_cutParameter rest
  | stray hc rest => exact isFirst_of_not_starts hc rest

/-- A label, a number or a word goes on to a character that ends it, or to the end. -/
theorem IsFirst.run_ends {p : Pattern} {text rest : List Char} (h : IsFirst text rest)
    (hrun : ∀ tail, p.Continues tail ↔ ∀ c ∈ tail, c ∉ wordEnds) (hmatch : p.Matches text)
    {d : Char} (hd : d ∈ rest.head?) : d ∈ wordEnds := by
  by_contra hnot
  obtain ⟨after, rfl⟩ := List.head?_eq_some_iff.mp hd
  have hlonger : p.Matches (text ++ [d]) := by
    cases text with
    | nil => exact absurd hmatch id
    | cons c tail =>
        refine ⟨hmatch.1, (hrun _).mpr ?_⟩
        intro e he
        rcases List.mem_append.mp he with he | he
        · exact (hrun tail).mp hmatch.2 e he
        · rw [List.mem_singleton.mp he]
          exact hnot
  have hbegins : text ++ [d] <+: text ++ d :: after := ⟨after, by simp⟩
  rcases h with ⟨_, _, hlongest⟩ | ⟨_, hnone⟩
  · have hle := hlongest p _ hbegins hlonger
    rw [List.length_append, List.length_singleton] at hle
    omega
  · exact hnone p _ hbegins hlonger

/-! ## What a text spells -/

/-- The kind and the lexeme of the token that is written as the text. -/
inductive Spells (params : List String) : List Char → TokenKind → String → Prop where
  | newline : Spells params ['\n'] (.delimiter .endOfLine) "\n"
  | mark {c : Char} {mark : Delimiter} (h : Delimiter.ofChar? c = some mark) :
      Spells params [c] (.delimiter mark) (String.ofList [c])
  | label {name : List Char} (h : ∀ c ∈ name, c ∉ wordEnds) :
      Spells params (':' :: name) .label (String.ofList name)
  | closedQuote {inner : List Char} (h : ∀ c ∈ inner, c ≠ '"' ∧ c ≠ '\n') :
      Spells params ('"' :: inner ++ ['"']) .quote (String.ofList inner)
  | openQuote {inner : List Char} (h : ∀ c ∈ inner, c ≠ '"' ∧ c ≠ '\n') :
      Spells params ('"' :: inner) .quote (String.ofList inner)
  /-- A parameter has the value that is given for its digit, or none. -/
  | parameter {d : Char} {kind : TokenKind} {lexeme : String} (h : d.isDigit = true)
      (hvalue : substitute (params[d.toNat - '0'.toNat]?.getD "") = (kind, lexeme)) :
      Spells params ['%', d] kind lexeme
  | number {text : List Char} (h : Pattern.number.Matches text) :
      Spells params text .number (String.ofList text)
  | command {text : List Char} {command : Command} (h : Pattern.word.Matches text)
      (hkeyword : command.keyword = foldCase (String.ofList text)) :
      Spells params text (.command command) (foldCase (String.ofList text))
  | function {text : List Char} {builtin : Builtin} (h : Pattern.word.Matches text)
      (hkeyword : builtin.keyword = foldCase (String.ofList text)) :
      Spells params text (.function builtin) (foldCase (String.ofList text))
  | word {text : List Char} (h : Pattern.word.Matches text)
      (hcommand : ∀ command : Command, command.keyword ≠ foldCase (String.ofList text))
      (hfunction : ∀ builtin : Builtin, builtin.keyword ≠ foldCase (String.ofList text)) :
      Spells params text .word (String.ofList text)
  /-- A character that starts no pattern stands for itself. -/
  | stray {c : Char} (h : ∀ p : Pattern, ¬ p.Starts c) :
      Spells params [c] .string (String.ofList [c])

theorem spells_of_classifyWord {params : List String} {text : List Char} {kind : TokenKind}
    {lexeme : String} (h : Pattern.word.Matches text)
    (hclass : classifyWord (String.ofList text) = (kind, lexeme)) :
    Spells params text kind lexeme := by
  rcases classifyWord_cases (String.ofList text) with
    ⟨command, hkeyword, hfound⟩ | ⟨builtin, hkeyword, hfound⟩ | ⟨hcommand, hfunction, hfound⟩ <;>
    rw [hfound] at hclass <;> cases hclass
  · exact .command h hkeyword
  · exact .function h hkeyword
  · exact .word h hcommand hfunction

theorem spells_cutQuote {params : List String} {rest : List Char} {kind : TokenKind}
    {lexeme : String} (h : (cutQuote rest).content params = .ok (kind, lexeme)) :
    Spells params (cutQuote rest).text kind lexeme := by
  unfold cutQuote at h ⊢
  split at h <;> cases h
  · have hinner := @Spells.closedQuote params _ (@quotable_of_inner rest)
    simpa [unquote] using hinner
  · have hinner := @Spells.openQuote params _ (@quotable_of_inner rest)
    simpa [unquote] using hinner

theorem spells_cutParameter {params : List String} {rest : List Char} {kind : TokenKind}
    {lexeme : String} (h : (cutParameter rest).content params = .ok (kind, lexeme)) :
    Spells params (cutParameter rest).text kind lexeme := by
  unfold cutParameter at h ⊢
  split at h
  · split at h
    · rename_i hd
      rw [if_pos hd]
      exact .parameter hd (Except.ok.inj h)
    · exact absurd h (by simp [Piece.content])
  · exact absurd h (by simp [Piece.content])

/-- The token of a piece is what the text of the piece spells. -/
theorem spells_of_cut? {params : List String} {text : List Char} {piece : Piece}
    {kind : TokenKind} {lexeme : String} (h : cut? text = some piece)
    (hcontent : piece.content params = .ok (kind, lexeme)) :
    Spells params piece.text kind lexeme := by
  cases cuts_of_cut? h with
  | newline rest => cases hcontent; exact .newline
  | label rest => cases hcontent; exact .label not_mem_wordEnds_of_run
  | mark hmark rest => cases hcontent; exact .mark hmark
  | number hc rest => cases hcontent; exact .number ⟨hc, not_mem_wordEnds_of_run⟩
  | word hc rest =>
      have hclass := Except.ok.inj hcontent
      exact spells_of_classifyWord ⟨hc, not_mem_wordEnds_of_run⟩ hclass
  | quote rest => exact spells_cutQuote hcontent
  | parameter rest => exact spells_cutParameter hcontent
  | stray hc rest =>
      have hlone : ¬ [_] = ['%'] := fun heq => hc .parameter (List.cons.inj heq).1
      rw [Piece.content, if_neg hlone] at hcontent
      cases hcontent
      exact .stray hc

/-- A piece that is no token is the mark of a parameter by itself. -/
theorem text_of_content_error {params : List String} {piece : Piece} {e : ParseError}
    (h : piece.content params = .error e) :
    piece.text = ['%'] ∧ e = .invalidParameter
      (String.ofList (piece.rest.takeWhile fun c => !Text.isBlank c)) := by
  unfold Piece.content at h
  split at h
  all_goals try cases h
  split at h
  · rename_i hlone
    cases h
    exact ⟨hlone, rfl⟩
  · cases h

private theorem cutRun_self (kind : PieceKind) (c : Char) {run : List Char}
    (h : ∀ d ∈ run, d ∉ wordEnds) : (cutRun kind c run).text = c :: run := by
  have hrun : run.takeWhile (fun d => !endsWord d) = run := by
    rw [List.takeWhile_eq_self_iff]
    intro d hd
    simpa [mem_wordEnds_iff] using h d hd
  rw [cutRun, hrun]

private theorem cutQuote_self {inner : List Char} (h : ∀ c ∈ inner, c ≠ '"' ∧ c ≠ '\n') :
    cutQuote inner = ⟨.quote false, '"' :: inner, []⟩ ∧
      cutQuote (inner ++ ['"']) = ⟨.quote true, '"' :: inner ++ ['"'], []⟩ := by
  have hquotable : ∀ c ∈ inner, isQuotable c = true := fun c hc => isQuotable_iff.mpr (h c hc)
  have htake : (inner ++ ['"']).takeWhile isQuotable = inner ++ ['"'].takeWhile isQuotable :=
    List.takeWhile_append_of_pos hquotable
  have hdrop : (inner ++ ['"']).dropWhile isQuotable = ['"'].dropWhile isQuotable :=
    List.dropWhile_append_of_pos hquotable
  constructor
  · rw [cutQuote, List.takeWhile_eq_self_iff.mpr hquotable,
      List.dropWhile_eq_nil_iff.mpr hquotable]
  · simp [cutQuote, htake, hdrop, isQuotable]

/-- A text that spells a token is cut off whole when it stands by itself. -/
theorem Spells.exists_cut? {params : List String} {text : List Char} {kind : TokenKind}
    {lexeme : String} (h : Spells params text kind lexeme) :
    ∃ piece, cut? text = some piece ∧ piece.content params = .ok (kind, lexeme) := by
  have hword : ∀ {text : List Char}, Pattern.word.Matches text →
      ∃ piece, cut? text = some piece ∧
        piece.content params = .ok (classifyWord (String.ofList text)) := by
    rintro (_ | ⟨c, run⟩) hmatch
    · exact absurd hmatch id
    · refine ⟨_, (Cuts.word hmatch.1 run).cut?_eq, ?_⟩
      simp only [Piece.content, cutRun_self _ c hmatch.2]
      rfl
  cases h with
  | newline => exact ⟨_, (Cuts.newline []).cut?_eq, rfl⟩
  | mark hmark => exact ⟨_, (Cuts.mark hmark []).cut?_eq, rfl⟩
  | @label name hname =>
      refine ⟨_, (Cuts.label name).cut?_eq, ?_⟩
      simp only [Piece.content, cutRun_self _ ':' hname]
      rfl
  | @closedQuote inner hinner =>
      refine ⟨_, (Cuts.quote (inner ++ ['"'])).cut?_eq, ?_⟩
      simp [(cutQuote_self hinner).2, Piece.content, unquote]
  | @openQuote inner hinner =>
      refine ⟨_, (Cuts.quote inner).cut?_eq, ?_⟩
      simp [(cutQuote_self hinner).1, Piece.content, unquote]
  | @parameter d kind lexeme hd hvalue =>
      refine ⟨_, (Cuts.parameter [d]).cut?_eq, ?_⟩
      rw [cutParameter, if_pos hd, ← hvalue]
      rfl
  | @number text hmatch =>
      cases text with
      | nil => exact absurd hmatch id
      | cons c run =>
          refine ⟨_, (Cuts.number hmatch.1 run).cut?_eq, ?_⟩
          simp only [Piece.content, cutRun_self _ c hmatch.2]
          rfl
  | command hmatch hkeyword =>
      rw [← classifyWord_of_command hkeyword]
      exact hword hmatch
  | function hmatch hkeyword =>
      rw [← classifyWord_of_function hkeyword]
      exact hword hmatch
  | word hmatch hcommand hfunction =>
      rw [← classifyWord_of_name hcommand hfunction]
      exact hword hmatch
  | stray hc =>
      refine ⟨_, (Cuts.stray hc []).cut?_eq, ?_⟩
      have hlone : ¬ [_] = ['%'] := fun heq => hc .parameter (List.cons.inj heq).1
      rw [Piece.content, if_neg hlone]

/-- No text has two meanings. -/
theorem Spells.unique {params : List String} {text : List Char} {kind kind' : TokenKind}
    {lexeme lexeme' : String} (h : Spells params text kind lexeme)
    (h' : Spells params text kind' lexeme') : kind' = kind ∧ lexeme' = lexeme := by
  obtain ⟨piece, hcut, hcontent⟩ := h.exists_cut?
  obtain ⟨piece', hcut', hcontent'⟩ := h'.exists_cut?
  rw [hcut] at hcut'
  cases hcut'
  rw [hcontent] at hcontent'
  cases hcontent'
  exact ⟨rfl, rfl⟩

end Lexer

end MatrixScript
