import MatrixScript.Proofs.Lexing.Pattern

/-!
# Pieces and what follows them

A piece ends where what follows does not go on with it.  `Stands` says this for each kind
of piece by its text and by the first character of the rest, and cuts are exactly that
(`stands_of_cut?`, `Stands.cut?_append`).  So a piece is found again in a text that has been
changed behind it (`Stands.of_rest`).
-/

namespace MatrixScript

namespace Lexer

/-- No label, number or word goes on with this text. -/
def EndsRun (rest : List Char) : Prop :=
  ∀ c ∈ rest.head?, endsWord c = true

/-- A text is a piece of some kind in front of a rest. -/
inductive Stands : PieceKind → List Char → List Char → Prop where
  | newline (rest : List Char) : Stands .newline ['\n'] rest
  | mark {c : Char} {mark : Delimiter} (h : Delimiter.ofChar? c = some mark) (rest : List Char) :
      Stands (.mark mark) [c] rest
  | label {tail rest : List Char} (htail : ∀ d ∈ tail, endsWord d = false) (hrest : EndsRun rest) :
      Stands .label (':' :: tail) rest
  | number {c : Char} {tail rest : List Char} (hc : Pattern.number.Starts c)
      (htail : ∀ d ∈ tail, endsWord d = false) (hrest : EndsRun rest) :
      Stands .number (c :: tail) rest
  | word {c : Char} {tail rest : List Char} (hc : Pattern.word.Starts c)
      (htail : ∀ d ∈ tail, endsWord d = false) (hrest : EndsRun rest) :
      Stands .word (c :: tail) rest
  | quotation {inner : List Char} (hinner : ∀ d ∈ inner, isQuotable d = true)
      (rest : List Char) : Stands (.quote true) ('"' :: inner ++ ['"']) rest
  | openQuotation {inner rest : List Char} (hinner : ∀ d ∈ inner, isQuotable d = true)
      (hrest : ∀ d ∈ rest.head?, d = '\n') : Stands (.quote false) ('"' :: inner) rest
  | parameter {d : Char} (hd : d.isDigit = true) (rest : List Char) :
      Stands (.parameter (d.toNat - '0'.toNat)) ['%', d] rest
  | lonePercent {rest : List Char} (hrest : ∀ d ∈ rest.head?, d.isDigit = false) :
      Stands .stray ['%'] rest
  | stray {c : Char} (h : ∀ p : Pattern, ¬ p.Starts c) (rest : List Char) : Stands .stray [c] rest

/-! ## Runs and quotations -/

theorem not_of_mem_head?_dropWhile {p : Char → Bool} {text : List Char} {c : Char}
    (h : c ∈ (text.dropWhile p).head?) : p c = false := by
  have hhead := List.head?_dropWhile_not p text
  rw [Option.mem_def.mp h] at hhead
  exact hhead

theorem endsWord_of_run {rest : List Char} :
    ∀ d ∈ rest.takeWhile (fun d => !endsWord d), endsWord d = false := by
  intro d hd
  simpa using List.mem_takeWhile_imp hd

theorem endsRun_of_run (rest : List Char) : EndsRun (rest.dropWhile fun d => !endsWord d) := by
  intro c hc
  simpa using not_of_mem_head?_dropWhile hc

theorem cutRun_append_of_endsRun (kind : PieceKind) (c : Char) {tail rest : List Char}
    (htail : ∀ d ∈ tail, endsWord d = false) (hrest : EndsRun rest) :
    cutRun kind c (tail ++ rest) = ⟨kind, c :: tail, rest⟩ := by
  have hgo : ∀ d ∈ tail, (!endsWord d) = true := fun d hd => by simp [htail d hd]
  rw [cutRun, List.takeWhile_append_of_pos hgo, List.dropWhile_append_of_pos hgo]
  cases rest with
  | nil => simp
  | cons d rest =>
      have hd : endsWord d = true := hrest d rfl
      simp [hd]

theorem cutQuote_append_of_quotation {inner : List Char}
    (hinner : ∀ d ∈ inner, isQuotable d = true) (rest : List Char) :
    cutQuote (inner ++ '"' :: rest) = ⟨.quote true, '"' :: inner ++ ['"'], rest⟩ := by
  have htake : (inner ++ '"' :: rest).takeWhile isQuotable = inner := by
    rw [List.takeWhile_append_of_pos hinner, List.takeWhile_cons_of_neg (by decide),
      List.append_nil]
  have hdrop : (inner ++ '"' :: rest).dropWhile isQuotable = '"' :: rest := by
    rw [List.dropWhile_append_of_pos hinner, List.dropWhile_cons_of_neg (by decide)]
  unfold cutQuote
  rw [htake, hdrop]
  rfl

theorem cutQuote_append_of_open {inner rest : List Char}
    (hinner : ∀ d ∈ inner, isQuotable d = true) (hrest : ∀ d ∈ rest.head?, d = '\n') :
    cutQuote (inner ++ rest) = ⟨.quote false, '"' :: inner, rest⟩ := by
  unfold cutQuote
  rw [List.takeWhile_append_of_pos hinner, List.dropWhile_append_of_pos hinner]
  cases rest with
  | nil => simp
  | cons d rest =>
      obtain rfl : d = '\n' := hrest d rfl
      rw [List.takeWhile_cons_of_neg (by decide), List.dropWhile_cons_of_neg (by decide)]
      simp

theorem stands_cutQuote (rest : List Char) :
    Stands (cutQuote rest).kind (cutQuote rest).text (cutQuote rest).rest := by
  have hinner : ∀ d ∈ rest.takeWhile isQuotable, isQuotable d = true :=
    fun _ hd => List.mem_takeWhile_imp hd
  unfold cutQuote
  split
  · exact .quotation hinner _
  · rename_i hopen
    refine .openQuotation hinner fun d hd => ?_
    have hends := not_of_mem_head?_dropWhile hd
    have hquote : d ≠ '"' := by
      rintro rfl
      obtain ⟨after, hafter⟩ := List.head?_eq_some_iff.mp hd
      exact hopen after hafter
    simpa [isQuotable, hquote] using hends

theorem stands_cutParameter (rest : List Char) :
    Stands (cutParameter rest).kind (cutParameter rest).text (cutParameter rest).rest := by
  cases rest with
  | nil => exact .lonePercent nofun
  | cons d rest =>
      by_cases hd : d.isDigit = true
      · rw [show cutParameter (d :: rest) = _ from if_pos hd]
        exact .parameter hd rest
      · rw [show cutParameter (d :: rest) = _ from if_neg hd]
        refine .lonePercent fun c hc => ?_
        obtain rfl : d = c := by simpa using hc
        simpa using hd

/-! ## Cuts -/

theorem stands_of_cut? {text : List Char} {piece : Piece} (h : cut? text = some piece) :
    Stands piece.kind piece.text piece.rest := by
  cases cuts_of_cut? h with
  | newline rest => exact .newline rest
  | label rest => exact .label endsWord_of_run (endsRun_of_run rest)
  | quote rest => exact stands_cutQuote rest
  | parameter rest => exact stands_cutParameter rest
  | mark hmark rest => exact .mark hmark rest
  | number hc rest => exact .number hc endsWord_of_run (endsRun_of_run rest)
  | word hc rest => exact .word hc endsWord_of_run (endsRun_of_run rest)
  | stray hc rest => exact .stray hc rest

theorem Stands.cut?_append {kind : PieceKind} {text rest : List Char}
    (h : Stands kind text rest) : cut? (text ++ rest) = some ⟨kind, text, rest⟩ := by
  cases h with
  | newline => rfl
  | mark hmark => exact (Cuts.mark hmark rest).cut?_eq
  | @label tail _ htail hrest =>
      exact congrArg some (cutRun_append_of_endsRun .label ':' htail hrest)
  | @number c tail _ hc htail hrest =>
      exact (Cuts.number hc (tail ++ rest)).cut?_eq.trans
        (congrArg some (cutRun_append_of_endsRun .number c htail hrest))
  | @word c tail _ hc htail hrest =>
      exact (Cuts.word hc (tail ++ rest)).cut?_eq.trans
        (congrArg some (cutRun_append_of_endsRun .word c htail hrest))
  | @quotation inner hinner =>
      have hcut := (Cuts.quote (inner ++ '"' :: rest)).cut?_eq
      rw [cutQuote_append_of_quotation hinner] at hcut
      simpa using hcut
  | openQuotation hinner hrest =>
      exact congrArg some (cutQuote_append_of_open hinner hrest)
  | parameter hd => exact congrArg some (if_pos hd)
  | lonePercent hrest =>
      cases rest with
      | nil => rfl
      | cons d rest =>
          have hd : ¬ d.isDigit = true := by simp [hrest d rfl]
          exact congrArg some (if_neg hd)
  | stray hc => exact (Cuts.stray hc rest).cut?_eq

/-- A piece is found in front of any rest that does not go on with it.  Quotations that are
not closed and a parameter mark without a digit depend on more than that. -/
theorem Stands.of_rest {kind : PieceKind} {text rest rest' : List Char} (h : Stands kind text rest)
    (hquote : kind ≠ .quote false) (hpercent : text ≠ ['%'])
    (hrest : EndsRun rest → EndsRun rest') : Stands kind text rest' := by
  cases h with
  | newline => exact .newline rest'
  | mark hmark => exact .mark hmark rest'
  | label htail hends => exact .label htail (hrest hends)
  | number hc htail hends => exact .number hc htail (hrest hends)
  | word hc htail hends => exact .word hc htail (hrest hends)
  | quotation hinner => exact .quotation hinner rest'
  | openQuotation => exact absurd rfl hquote
  | parameter hd => exact .parameter hd rest'
  | lonePercent => exact absurd rfl hpercent
  | stray hc => exact .stray hc rest'

/-! ## Gaps in front of a piece -/

theorem endsWord_of_isGap {c : Char} (h : isGap c = true) : endsWord c = true := by
  simp [endsWord, h]

theorem isBlank_of_isGap {c : Char} (h : isGap c = true) : Text.isBlank c = true := by
  simp only [isGap, Bool.or_eq_true, decide_eq_true_eq] at h
  rcases h with (rfl | rfl) | rfl <;> decide

theorem bne_newline_of_isGap {c : Char} (h : isGap c = true) : (c != '\n') = true := by
  rw [bne_iff_ne]
  rintro rfl
  exact absurd h (by decide)

/-- The text starts with something to be cut off. -/
def StartsPiece (text : List Char) : Prop :=
  ∃ c ∈ text.head?, isGap c = false

theorem startsPiece_of_cut? {text : List Char} {piece : Piece}
    (h : cut? (text.dropWhile isGap) = some piece) : StartsPiece piece.text := by
  obtain ⟨c, tail, htext⟩ := List.exists_cons_of_ne_nil (cut?_text_ne_nil h)
  have hhead : c ∈ (text.dropWhile isGap).head? := by
    rw [← cut?_lossless h, htext]
    rfl
  exact ⟨c, by rw [htext]; rfl, not_of_mem_head?_dropWhile hhead⟩

/-- The gaps in front of a piece are all that is passed over. -/
theorem StartsPiece.splitGap {gap text : List Char} (h : StartsPiece text)
    (hgap : ∀ c ∈ gap, isGap c = true) (rest : List Char) :
    (gap ++ text ++ rest).takeWhile isGap = gap ∧
      (gap ++ text ++ rest).dropWhile isGap = text ++ rest := by
  obtain ⟨c, hc, hstop⟩ := h
  obtain ⟨tail, rfl⟩ := List.head?_eq_some_iff.mp hc
  have hstop' : ¬ isGap c = true := by simp [hstop]
  rw [List.append_assoc, List.takeWhile_append_of_pos hgap, List.dropWhile_append_of_pos hgap,
    List.cons_append, List.takeWhile_cons_of_neg hstop', List.dropWhile_cons_of_neg hstop',
    List.append_nil]
  exact ⟨rfl, rfl⟩

/-! ## The rest of a line -/

theorem bne_newline_of_cut? {text : List Char} {piece : Piece} (h : cut? text = some piece)
    (hkind : piece.kind ≠ .newline) : ∀ c ∈ piece.text, (c != '\n') = true := by
  have hcount := count_newline_of_cut? h
  rw [if_neg hkind, List.count_eq_zero] at hcount
  intro c hc
  rw [bne_iff_ne]
  rintro rfl
  exact hcount hc

/-- A text without a line feed, in front of one or at the end, is the rest of its line. -/
theorem splitLine_append {text rest : List Char} (htext : '\n' ∉ text)
    (hrest : ∀ c ∈ rest.head?, c = '\n') :
    (text ++ rest).takeWhile (· != '\n') = text ∧
      (text ++ rest).dropWhile (· != '\n') = rest := by
  have hgo : ∀ c ∈ text, (c != '\n') = true := by
    intro c hc
    rw [bne_iff_ne]
    rintro rfl
    exact htext hc
  rw [List.takeWhile_append_of_pos hgo, List.dropWhile_append_of_pos hgo]
  cases rest with
  | nil => simp
  | cons c rest =>
      obtain rfl : c = '\n' := hrest c rfl
      simp

end Lexer

end MatrixScript
