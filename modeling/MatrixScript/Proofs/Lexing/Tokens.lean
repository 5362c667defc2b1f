import MatrixScript.Proofs.Lexing.Line
import MatrixScript.Proofs.Lexing.Pattern

/-!
# The tokens of a script

Taking tokens from the start until the end of the script is found cuts the source
into gaps and texts, one text for each result (`Covers`).  Nothing is lost or read
twice, errors included, and after the last text only gaps are left, where the end of
the script is found for ever (`Tokenizes`).
-/

namespace MatrixScript

namespace Lexer

open Cursor

/-- The lexer after a number of results, going on after errors. -/
def afterTokens (lexer : Lexer) : Nat → Lexer
  | 0 => lexer
  | count + 1 => lexer.next.lexer.afterTokens count

/-- The text stands between two byte offsets of the source. -/
def Slice (source : List Char) (first last : Nat) (text : List Char) : Prop :=
  ∃ before after, source = before ++ text ++ after ∧ byteLength before = first ∧
    byteLength (before ++ text) = last

/-- One result uses up the source from `first` to `last`: a gap up to `start`, and then
the text of a token, or the mark of a parameter without a digit. -/
structure Covers (source : List Char) (params : List String) (first start last : Nat)
    (gap text rest : List Char) (outcome : Except ParseError Token) : Prop where
  first_le : first ≤ start
  start_lt : start < last
  gap_slice : Slice source first start gap
  gap_blank : ∀ c ∈ gap, c = ' ' ∨ c = '\t' ∨ c = '\r'
  text_slice : Slice source start last text
  rest_slice : Slice source last (byteLength source) rest
  longest : IsFirst text rest
  run_ends : ∀ p ∈ [Pattern.label, .number, .word], p.Matches text →
    (∀ c ∈ text.tail, c ∉ wordEnds) ∧ ∀ c ∈ rest.head?, c ∈ wordEnds
  token_eq : ∀ token, outcome = .ok token → token.start.offset = start ∧
    ∀ kind lexeme, Spells params text kind lexeme ↔ kind = token.kind ∧ lexeme = token.lexeme
  error_eq : ∀ e, outcome = .error e → text = ['%'] ∧ last = start + 1 ∧
    e = .invalidParameter (String.ofList (rest.takeWhile fun c => !Text.isBlank c))

/-- The results of a lexer cover its source, and then only the end of the script is
found. -/
structure Tokenizes (lexer : Lexer) (count : Nat) : Prop where
  covers : ∀ i < count, ∃ start gap text rest, Covers lexer.source lexer.params
    (lexer.afterTokens i).cursor.offset start (lexer.afterTokens (i + 1)).cursor.offset
    gap text rest (lexer.afterTokens i).next.outcome
  gap_end : ∃ gap, Slice lexer.source (lexer.afterTokens count).cursor.offset
    (byteLength lexer.source) gap ∧ ∀ c ∈ gap, c = ' ' ∨ c = '\t' ∨ c = '\r'
  finished : ∀ i ≥ count, (lexer.afterTokens i).next.outcome =
    .ok ⟨.delimiter .endOfScript, "", after lexer.source⟩

theorem isGap_iff {c : Char} : isGap c = true ↔ c = ' ' ∨ c = '\t' ∨ c = '\r' := by
  simp [isGap, or_assoc]

theorem blank_of_takeWhile (rest : List Char) :
    ∀ c ∈ rest.takeWhile isGap, c = ' ' ∨ c = '\t' ∨ c = '\r' :=
  fun _ hc => isGap_iff.mp (List.mem_takeWhile_imp hc)

/-! ## One result -/

section Step

variable {lexer : Lexer} {before rest : List Char}

theorem next_outcome_of_peeked_eq_none (h : lexer.peeked = none) :
    lexer.next.outcome = lexer.scan.outcome ∧ lexer.next.lexer.cursor = lexer.scan.cursor := by
  cases hscan : lexer.scan.outcome with
  | ok token => rw [next_of_scan_ok h hscan]; exact ⟨rfl, rfl⟩
  | error e => rw [next_of_scan_error h hscan]; exact ⟨rfl, rfl⟩

theorem StandsAt.next {piece : Piece} (h : lexer.StandsAt before rest)
    (hpeeked : lexer.peeked = none) (hcut : cut? (rest.dropWhile isGap) = some piece) :
    lexer.next.lexer.StandsAt (before ++ rest.takeWhile isGap ++ piece.text) piece.rest where
  source_eq := by
    rw [source_next, h.source_eq, List.append_assoc before, List.append_assoc,
      rest_of_cut?_eq_some hcut]
  cursor_eq := by
    rw [(next_outcome_of_peeked_eq_none hpeeked).2, scan_of_cut?_eq_some h hcut]

/-- A result covers the gap and the text of the piece that is cut off. -/
theorem StandsAt.covers {piece : Piece} (h : lexer.StandsAt before rest)
    (hpeeked : lexer.peeked = none) (hcut : cut? (rest.dropWhile isGap) = some piece) :
    Covers lexer.source lexer.params lexer.cursor.offset
      (byteLength (before ++ rest.takeWhile isGap)) lexer.next.lexer.cursor.offset
      (rest.takeWhile isGap) piece.text piece.rest lexer.next.outcome := by
  have hnext := h.next hpeeked hcut
  have hsource : lexer.source = before ++ rest.takeWhile isGap ++ piece.text ++ piece.rest := by
    rw [← source_next, hnext.source_eq]
  have houtcome := (next_outcome_of_peeked_eq_none hpeeked).1
  rw [scan_of_cut?_eq_some h hcut] at houtcome
  rw [h.cursor_eq, hnext.cursor_eq, offset_after, offset_after]
  have hfirst := isFirst_of_cut? hcut
  refine
    { first_le := by simp
      start_lt := ?_
      gap_slice := ⟨before, piece.text ++ piece.rest, by simp [hsource], rfl, rfl⟩
      gap_blank := blank_of_takeWhile rest
      text_slice := ⟨_, piece.rest, hsource, rfl, rfl⟩
      rest_slice := ⟨_, [], by rw [List.append_nil, hsource], rfl, by rw [hsource]⟩
      longest := hfirst
      run_ends := ?_
      token_eq := ?_
      error_eq := ?_ }
  · have hpos := List.length_pos_iff.mpr (cut?_text_ne_nil hcut)
    have hle := length_le_byteLength piece.text
    rw [byteLength_append (before ++ _)]
    omega
  · intro p hp hmatch
    have hrun : ∀ tail, p.Continues tail ↔ ∀ c ∈ tail, c ∉ wordEnds := by
      simp only [List.mem_cons, List.not_mem_nil, or_false] at hp
      rcases hp with rfl | rfl | rfl <;> exact fun _ => Iff.rfl
    refine ⟨?_, fun c hc => hfirst.run_ends hrun hmatch hc⟩
    cases htext : piece.text with
    | nil => simp
    | cons c tail =>
        rw [htext] at hmatch
        exact (hrun tail).mp hmatch.2
  · intro token htoken
    cases hcontent : piece.content lexer.params with
    | error e => rw [houtcome, hcontent] at htoken; cases htoken
    | ok found =>
        rw [houtcome, hcontent] at htoken
        cases htoken
        have hspells := spells_of_cut? hcut hcontent
        refine ⟨rfl, fun kind lexeme => ⟨hspells.unique, ?_⟩⟩
        rintro ⟨rfl, rfl⟩
        exact hspells
  · intro e he
    cases hcontent : piece.content lexer.params with
    | error e' =>
        rw [houtcome, hcontent] at he
        cases he
        obtain ⟨htext, hmessage⟩ := text_of_content_error hcontent
        refine ⟨htext, ?_, hmessage⟩
        rw [byteLength_append (before ++ _), htext]
        rfl
    | ok found => rw [houtcome, hcontent] at he; cases he

/-- Where only gaps are left, the end of the script is found, and nothing follows it. -/
theorem StandsAt.next_end (h : lexer.StandsAt before rest) (hpeeked : lexer.peeked = none)
    (hcut : cut? (rest.dropWhile isGap) = none) :
    lexer.next.outcome = .ok ⟨.delimiter .endOfScript, "", after lexer.source⟩ ∧
      lexer.next.lexer.StandsAt lexer.source [] := by
  obtain ⟨houtcome, hcursor⟩ := next_outcome_of_peeked_eq_none hpeeked
  rw [scan_of_cut?_eq_none h hcut, ← h.source_eq] at houtcome hcursor
  exact ⟨houtcome, by rw [source_next, List.append_nil], hcursor⟩

theorem StandsAt.finished (h : lexer.StandsAt before rest) (hpeeked : lexer.peeked = none)
    (hcut : cut? (rest.dropWhile isGap) = none) (i : Nat) :
    (lexer.afterTokens i).next.outcome =
      .ok ⟨.delimiter .endOfScript, "", after lexer.source⟩ := by
  induction i generalizing lexer before rest with
  | zero => exact (h.next_end hpeeked hcut).1
  | succ i ih =>
      have hagain := ih (h.next_end hpeeked hcut).2 (peeked_next lexer) rfl
      rwa [source_next] at hagain

end Step

/-! ## All results -/

theorem Tokenizes.of_next {lexer : Lexer} {count start : Nat} {gap text rest : List Char}
    (hfirst : Covers lexer.source lexer.params lexer.cursor.offset start
      lexer.next.lexer.cursor.offset gap text rest lexer.next.outcome)
    (h : Tokenizes lexer.next.lexer count) : Tokenizes lexer (count + 1) where
  covers := by
    intro i hi
    cases i with
    | zero => exact ⟨start, gap, text, rest, hfirst⟩
    | succ i =>
        have hlater := h.covers i (by omega)
        rwa [source_next, params_next] at hlater
  gap_end := by
    have hend := h.gap_end
    rwa [source_next] at hend
  finished := by
    intro i hi
    cases i with
    | zero => omega
    | succ i =>
        have hlater := h.finished i (by omega)
        rwa [source_next] at hlater

/-- Each result before the end takes at least one character, so the results run out
before the characters do. -/
theorem StandsAt.exists_tokenizes {lexer : Lexer} {before rest : List Char}
    (h : lexer.StandsAt before rest) (hpeeked : lexer.peeked = none) :
    ∃ count ≤ rest.length, Tokenizes lexer count := by
  induction hlength : rest.length using Nat.strong_induction_on generalizing lexer before rest with
  | _ length ih =>
      subst hlength
      cases hcut : cut? (rest.dropWhile isGap) with
      | none =>
          have hgap := takeWhile_gap_of_cut?_eq_none hcut
          refine ⟨0, Nat.zero_le _, fun i hi => absurd hi (Nat.not_lt_zero i), ?_,
            fun i _ => h.finished hpeeked hcut i⟩
          refine ⟨rest, ⟨before, [], ?_, ?_, ?_⟩, ?_⟩
          · rw [h.source_eq, List.append_nil]
          · rw [afterTokens, h.cursor_eq, offset_after]
          · rw [h.source_eq]
          · have hblank := blank_of_takeWhile rest
            rwa [hgap] at hblank
      | some piece =>
          have hshorter : piece.rest.length < rest.length := by
            have hpos := List.length_pos_iff.mpr (cut?_text_ne_nil hcut)
            have hcount := congrArg List.length (rest_of_cut?_eq_some hcut)
            simp only [List.length_append] at hcount
            omega
          obtain ⟨count, hcount, hrest⟩ :=
            ih _ hshorter (h.next hpeeked hcut) (peeked_next lexer) rfl
          exact ⟨count + 1, by omega, hrest.of_next (h.covers hpeeked hcut)⟩

/-- No text spells the end of the script. -/
theorem Spells.kind_ne_endOfScript {params : List String} {text : List Char}
    {kind : TokenKind} {lexeme : String} (h : Spells params text kind lexeme) :
    kind ≠ .delimiter .endOfScript := by
  obtain ⟨piece, hcut, hcontent⟩ := h.exists_cut?
  rcases endsStatement_of_cut? hcut hcontent .start with ⟨_, hkind⟩ | ⟨_, hends⟩
  · rw [hkind]
    decide
  · exact (Token.endsStatement_eq_false_iff.mp hends).2

/-- The results up to the first end of the script are all that is taken. -/
theorem takeAll_of_finished {lexer : Lexer} {count bound : Nat}
    (hbefore : ∀ i < count, ∀ token, (lexer.afterTokens i).next.outcome = .ok token →
      token.is .endOfScript = false)
    (hend : ∃ token, (lexer.afterTokens count).next.outcome = .ok token ∧
      token.is .endOfScript = true)
    (hbound : count < bound) : (lexer.takeAll bound).1 =
      (List.range (count + 1)).map fun i => (lexer.afterTokens i).next.outcome := by
  induction count generalizing lexer bound with
  | zero =>
      obtain ⟨token, houtcome, his⟩ := hend
      obtain ⟨bound, rfl⟩ : ∃ fewer, bound = fewer + 1 := ⟨bound - 1, by omega⟩
      rw [afterTokens] at houtcome
      simp [takeAll, houtcome, his, afterTokens]
  | succ count ih =>
      obtain ⟨bound, rfl⟩ : ∃ fewer, bound = fewer + 1 := ⟨bound - 1, by omega⟩
      have hrest := @ih lexer.next.lexer bound (fun i hi => hbefore (i + 1) (by omega)) hend
        (by omega)
      rw [List.range_succ_eq_map, List.map_cons, List.map_map]
      have hfirst := hbefore 0 (by omega)
      rw [afterTokens] at hfirst
      cases houtcome : lexer.next.outcome with
      | ok token => simp [takeAll, houtcome, hfirst token houtcome, hrest, afterTokens]
      | error e => simp [takeAll, houtcome, hrest, afterTokens]

theorem Tokenizes.takeAll_eq {lexer : Lexer} {count bound : Nat} (h : Tokenizes lexer count)
    (hbound : count < bound) : (lexer.takeAll bound).1 =
      (List.range (count + 1)).map fun i => (lexer.afterTokens i).next.outcome := by
  apply takeAll_of_finished _ ⟨_, h.finished count le_rfl, rfl⟩ hbound
  intro i hi token htoken
  obtain ⟨start, gap, text, rest, hcovers⟩ := h.covers i hi
  have hspells := ((hcovers.token_eq token htoken).2 _ _).mpr ⟨rfl, rfl⟩
  exact Token.is_eq_false_iff.mpr hspells.kind_ne_endOfScript

/-- Tokenizing is lossless and maximal, and it ends: at most as many results as the
source has bytes cover it in order, with only gaps between them and after them, and
every result from then on is the end of the script. -/
theorem tokenizes_source (source : String) (params : List String) :
    let lexer : Lexer := { source := source.toList, params := params }
    ∃ count ≤ source.utf8ByteSize, Tokenizes lexer count ∧
      ∀ bound > count, (lexer.takeAll bound).1 =
        (List.range (count + 1)).map fun i => (lexer.afterTokens i).next.outcome := by
  intro lexer
  have hstart : lexer.StandsAt [] source.toList := ⟨rfl, rfl⟩
  obtain ⟨count, hcount, htokens⟩ := hstart.exists_tokenizes rfl
  have hbytes : source.toList.length ≤ source.utf8ByteSize := by
    have hle := length_le_byteLength source.toList
    rwa [byteLength_eq_utf8ByteSize, String.ofList_toList] at hle
  exact ⟨count, by omega, htokens, fun bound hbound => htokens.takeAll_eq hbound⟩

end Lexer

end MatrixScript
