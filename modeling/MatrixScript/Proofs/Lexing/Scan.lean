import Mathlib.Data.List.TakeWhile
import MatrixScript.Proofs.Lexing.Place

/-!
# What a scan finds

One scan passes over the gaps in front of the cursor and cuts one piece off the
text.  The piece and the text after it are what was there (`cut?_lossless`), a
line feed is always a piece of its own (`count_newline_of_cut?`), and therefore
the scan goes from one place of the source to another (`scan_of_standsAt`).
Pieces end with their line at the latest, so a piece does not depend on the lines
that follow (`cut?_append`).
-/

namespace MatrixScript

namespace Lexer

open Cursor

/-! ## Pieces -/

private theorem cutRun_lossless (kind : PieceKind) (c : Char) (rest : List Char) :
    (cutRun kind c rest).text ++ (cutRun kind c rest).rest = c :: rest := by
  simp [cutRun]

private theorem cutQuote_lossless (rest : List Char) :
    (cutQuote rest).text ++ (cutQuote rest).rest = '"' :: rest := by
  have hsplit := List.takeWhile_append_dropWhile (p := isQuotable) (l := rest)
  unfold cutQuote
  split
  · rename_i after hafter
    rw [hafter] at hsplit
    simpa using hsplit
  · simp

private theorem cutParameter_lossless (rest : List Char) :
    (cutParameter rest).text ++ (cutParameter rest).rest = '%' :: rest := by
  unfold cutParameter
  split
  · split <;> rfl
  · rfl

/-- A piece and the text after it make up the text it was cut from. -/
theorem cut?_lossless {text : List Char} {piece : Piece}
    (h : cut? text = some piece) : piece.text ++ piece.rest = text := by
  unfold cut? at h
  split at h
  · exact absurd h (by simp)
  · cases h; rfl
  · cases h; exact cutRun_lossless _ _ _
  · cases h; exact cutQuote_lossless _
  · cases h; exact cutParameter_lossless _
  · split at h
    · cases h; rfl
    · split at h
      · cases h; exact cutRun_lossless _ _ _
      · split at h
        · cases h; exact cutRun_lossless _ _ _
        · cases h; rfl

theorem cut?_eq_none_iff {text : List Char} : cut? text = none ↔ text = [] := by
  cases text with
  | nil => exact iff_of_true rfl rfl
  | cons c rest =>
      refine iff_of_false ?_ (List.cons_ne_nil c rest)
      unfold cut?
      repeat' split
      · contradiction
      all_goals simp

/-- The characters of a run are those that cannot end a word. -/
private theorem newline_not_mem_run (rest : List Char) :
    '\n' ∉ rest.takeWhile fun d => !endsWord d := by
  intro hmem
  have := List.mem_takeWhile_imp hmem
  exact absurd this (by decide)

private theorem newline_not_mem_quoted (rest : List Char) :
    '\n' ∉ rest.takeWhile isQuotable := by
  intro hmem
  have := List.mem_takeWhile_imp hmem
  exact absurd this (by decide)

private theorem count_newline_cutRun {kind : PieceKind} {c : Char} {rest : List Char}
    (hc : c ≠ '\n') : (cutRun kind c rest).text.count '\n' = 0 := by
  rw [cutRun, List.count_cons_of_ne hc]
  exact List.count_eq_zero.mpr (newline_not_mem_run rest)

private theorem count_newline_cutQuote (rest : List Char) :
    (cutQuote rest).text.count '\n' = 0 ∧ (cutQuote rest).kind ≠ .newline := by
  have hinner := List.count_eq_zero.mpr (newline_not_mem_quoted rest)
  unfold cutQuote
  split <;> simp [hinner]

private theorem count_newline_cutParameter (rest : List Char) :
    (cutParameter rest).text.count '\n' = 0 ∧ (cutParameter rest).kind ≠ .newline := by
  unfold cutParameter
  split
  · split
    · rename_i d _ hd
      have hne : d ≠ '\n' := by rintro rfl; exact absurd hd (by decide)
      simp [hne]
    · simp
  · simp

/-- A line feed is a piece of its own, and no other piece contains one. -/
theorem count_newline_of_cut? {text : List Char} {piece : Piece}
    (h : cut? text = some piece) :
    piece.text.count '\n' = if piece.kind = .newline then 1 else 0 := by
  unfold cut? at h
  split at h
  · exact absurd h (by simp)
  · cases h; rfl
  · cases h; exact count_newline_cutRun (by decide)
  · cases h
    rw [(count_newline_cutQuote _).1, if_neg (count_newline_cutQuote _).2]
  · cases h
    rw [(count_newline_cutParameter _).1, if_neg (count_newline_cutParameter _).2]
  · rename_i c rest hnl _ _ _
    have hc : c ≠ '\n' := by simpa using hnl
    split at h
    · cases h; simp [hc]
    · split at h
      · cases h; exact count_newline_cutRun hc
      · split at h
        · cases h; exact count_newline_cutRun hc
        · cases h; simp [hc]

theorem cut?_text_ne_nil {text : List Char} {piece : Piece}
    (h : cut? text = some piece) : piece.text ≠ [] := by
  unfold cut? at h
  split at h
  · exact absurd h (by simp)
  · cases h; simp
  · cases h; simp [cutRun]
  · cases h; unfold cutQuote; split <;> simp
  · cases h; unfold cutParameter; repeat' split
    all_goals simp
  · repeat' split at h
    all_goals cases h; simp [cutRun]

/-! ## Pieces and the lines that follow -/

/-- A search that stops within a text does not see what follows it. -/
theorem takeWhile_append_of_mem {p : Char → Bool} {x : Char} {text : List Char}
    (hx : x ∈ text) (hp : p x = false) (rest : List Char) :
    (text ++ rest).takeWhile p = text.takeWhile p ∧
      (text ++ rest).dropWhile p = text.dropWhile p ++ rest := by
  induction text with
  | nil => exact absurd hx (by simp)
  | cons c text ih =>
      by_cases hc : p c = true
      · have hne : x ≠ c := by rintro rfl; rw [hp] at hc; exact absurd hc (by simp)
        have hmem : x ∈ text := by simpa [hne] using hx
        simp [hc, ih hmem]
      · simp [hc]

private theorem cutRun_append (kind : PieceKind) (c : Char) {text : List Char}
    (h : '\n' ∈ text) (rest : List Char) :
    cutRun kind c (text ++ rest) =
      { cutRun kind c text with rest := (cutRun kind c text).rest ++ rest } := by
  have hsplit := takeWhile_append_of_mem (p := fun d => !endsWord d) h (by decide) rest
  simp only [cutRun, hsplit.1, hsplit.2]

private theorem cutQuote_append {text : List Char} (h : '\n' ∈ text)
    (rest : List Char) :
    cutQuote (text ++ rest) =
      { cutQuote text with rest := (cutQuote text).rest ++ rest } := by
  have hsplit := takeWhile_append_of_mem (p := isQuotable) h (by decide) rest
  have hne : text.dropWhile isQuotable ≠ [] := by
    intro hnil
    have hall := List.dropWhile_eq_nil_iff.mp hnil '\n' h
    exact absurd hall (by decide)
  unfold cutQuote
  rw [hsplit.1, hsplit.2]
  cases htail : text.dropWhile isQuotable with
  | nil => exact absurd htail hne
  | cons d tail =>
      by_cases hd : d = '"'
      · subst hd; rfl
      · simp [hd]

private theorem cutParameter_append {text : List Char} (h : '\n' ∈ text)
    (rest : List Char) :
    cutParameter (text ++ rest) =
      { cutParameter text with rest := (cutParameter text).rest ++ rest } := by
  cases text with
  | nil => exact absurd h (by simp)
  | cons d text =>
      rw [List.cons_append, cutParameter, cutParameter]
      split <;> rfl

/-- A piece ends with its line at the latest, so it is the same whatever lines
follow. -/
theorem cut?_append {text : List Char} (h : '\n' ∈ text) (rest : List Char) :
    cut? (text ++ rest) =
      (cut? text).map fun piece => { piece with rest := piece.rest ++ rest } := by
  cases text with
  | nil => exact absurd h (by simp)
  | cons c text =>
      have htail : c ≠ '\n' → '\n' ∈ text := by
        intro hc
        simpa [Ne.symm hc] using h
      rw [List.cons_append]
      unfold cut?
      split
      all_goals rename_i heq; cases heq
      · rfl
      · simp [cutRun_append .label ':' (htail (by decide)) rest]
      · simp [cutQuote_append (htail (by decide)) rest]
      · simp [cutParameter_append (htail (by decide)) rest]
      · rename_i hnl _ _ _
        have hrun := fun kind => cutRun_append kind c (htail (by simpa using hnl)) rest
        split <;> rename_i hmark
        · simp [hmark]
        · split <;> rename_i hdigit
          · simp [hmark, hdigit, hrun .number]
          · split <;> rename_i hword
            · simp [hmark, hdigit, hword, hrun .word]
            · simp [hmark, hdigit, hword]

/-! ## Scans -/

/-- The next token is looked for between `before` and `rest`. -/
structure StandsAt (lexer : Lexer) (before rest : List Char) : Prop where
  source_eq : lexer.source = before ++ rest
  cursor_eq : lexer.cursor = after before

theorem isPlace_iff_standsAt {lexer : Lexer} :
    IsPlace lexer.source lexer.cursor ↔ ∃ before rest, lexer.StandsAt before rest :=
  ⟨fun ⟨before, rest, hsource, hcursor⟩ => ⟨before, rest, hsource, hcursor⟩,
    fun ⟨before, rest, h⟩ => ⟨before, rest, h.source_eq, h.cursor_eq⟩⟩

theorem StandsAt.text_eq {lexer : Lexer} {before rest : List Char}
    (h : lexer.StandsAt before rest) :
    dropBytes lexer.cursor.offset lexer.source = rest := by
  rw [h.source_eq, h.cursor_eq, offset_after, dropBytes_byteLength]

theorem count_newline_gap (text : List Char) : (text.takeWhile isGap).count '\n' = 0 := by
  rw [List.count_eq_zero]
  intro hmem
  have := List.mem_takeWhile_imp hmem
  exact absurd this (by decide)

/-- After the gaps there is none. -/
theorem takeWhile_dropWhile_gap (text : List Char) :
    (text.dropWhile isGap).takeWhile isGap = [] := by
  induction text with
  | nil => rfl
  | cons c text ih =>
      by_cases hc : isGap c = true
      · rw [List.dropWhile_cons_of_pos hc, ih]
      · rw [List.dropWhile_cons_of_neg hc, List.takeWhile_cons_of_neg hc]

theorem dropWhile_dropWhile_gap (text : List Char) :
    (text.dropWhile isGap).dropWhile isGap = text.dropWhile isGap := by
  have hsplit := List.takeWhile_append_dropWhile (p := isGap) (l := text.dropWhile isGap)
  rwa [takeWhile_dropWhile_gap, List.nil_append] at hsplit

theorem takeWhile_gap_of_cut?_eq_none {rest : List Char}
    (hcut : cut? (rest.dropWhile isGap) = none) : rest.takeWhile isGap = rest := by
  have hsplit := List.takeWhile_append_dropWhile (p := isGap) (l := rest)
  rwa [cut?_eq_none_iff.mp hcut, List.append_nil] at hsplit

/-- Where only gaps are left, the scan finds the end of the script. -/
theorem scan_of_cut?_eq_none {lexer : Lexer} {before rest : List Char}
    (h : lexer.StandsAt before rest) (hcut : cut? (rest.dropWhile isGap) = none) :
    lexer.scan = ⟨.ok ⟨.delimiter .endOfScript, "", after (before ++ rest)⟩,
      after (before ++ rest), []⟩ := by
  have hgap := takeWhile_gap_of_cut?_eq_none hcut
  have hlast : (⟨byteLength lexer.source, lexer.cursor.line⟩ : Cursor) =
      after (before ++ rest) := by
    have hcount := count_newline_gap rest
    rw [hgap] at hcount
    rw [h.source_eq, h.cursor_eq, after, after, List.count_append, hcount, Nat.add_zero]
  unfold scan
  simp only [h.text_eq, hcut, hlast]

/-- Everywhere else it finds the piece after the gaps, and goes on after it. -/
theorem scan_of_cut?_eq_some {lexer : Lexer} {before rest : List Char} {piece : Piece}
    (h : lexer.StandsAt before rest)
    (hcut : cut? (rest.dropWhile isGap) = some piece) :
    lexer.scan =
      ⟨(piece.content lexer.params).map fun (kind, lexeme) =>
          ⟨kind, lexeme, after (before ++ rest.takeWhile isGap)⟩,
        after (before ++ rest.takeWhile isGap ++ piece.text),
        piece.notes lexer.cursor.line⟩ := by
  have hstart : (⟨lexer.cursor.offset + byteLength (rest.takeWhile isGap),
      lexer.cursor.line⟩ : Cursor) = after (before ++ rest.takeWhile isGap) := by
    simp [h.cursor_eq, after, count_newline_gap]
  have hend : (⟨lexer.cursor.offset + byteLength (rest.takeWhile isGap) +
        byteLength piece.text,
      if piece.kind = .newline then lexer.cursor.line + 1 else lexer.cursor.line⟩ :
        Cursor) = after (before ++ rest.takeWhile isGap ++ piece.text) := by
    have hcount := count_newline_of_cut? hcut
    have hgap := count_newline_gap rest
    simp only [h.cursor_eq, after, byteLength_append, List.count_append, hcount, hgap]
    split <;> simp [Nat.add_assoc]
  unfold scan
  simp only [h.text_eq, hcut, hstart, hend]

/-- What is left of the text after a scan. -/
theorem rest_of_cut?_eq_some {rest : List Char} {piece : Piece}
    (hcut : cut? (rest.dropWhile isGap) = some piece) :
    rest.takeWhile isGap ++ piece.text ++ piece.rest = rest := by
  rw [List.append_assoc, cut?_lossless hcut, List.takeWhile_append_dropWhile]

theorem isPlace_scan_cursor {lexer : Lexer} (h : IsPlace lexer.source lexer.cursor) :
    IsPlace lexer.source lexer.scan.cursor := by
  obtain ⟨before, rest, hstand⟩ := isPlace_iff_standsAt.mp h
  rw [hstand.source_eq]
  cases hcut : cut? (rest.dropWhile isGap) with
  | none =>
      rw [scan_of_cut?_eq_none hstand hcut]
      exact ⟨before ++ rest, [], by simp, rfl⟩
  | some piece =>
      rw [scan_of_cut?_eq_some hstand hcut]
      refine ⟨before ++ rest.takeWhile isGap ++ piece.text, piece.rest, ?_, rfl⟩
      rw [List.append_assoc before, List.append_assoc, rest_of_cut?_eq_some hcut]

/-- A scan from the start of the token that was found finds it again. -/
theorem scan_seek_start {lexer : Lexer} {token : Token}
    (h : IsPlace lexer.source lexer.cursor) (hscan : lexer.scan.outcome = .ok token) :
    IsPlace lexer.source token.start ∧ (lexer.seek token.start).scan = lexer.scan := by
  obtain ⟨before, rest, hstand⟩ := isPlace_iff_standsAt.mp h
  cases hcut : cut? (rest.dropWhile isGap) with
  | none =>
      rw [scan_of_cut?_eq_none hstand hcut] at hscan ⊢
      cases hscan
      have hend : (lexer.seek (after (before ++ rest))).StandsAt (before ++ rest) [] :=
        ⟨by simp [seek, hstand.source_eq], rfl⟩
      refine ⟨⟨before ++ rest, [], by simp [hstand.source_eq], rfl⟩, ?_⟩
      rw [scan_of_cut?_eq_none hend rfl, List.append_nil]
  | some piece =>
      have hsource : lexer.source =
          before ++ rest.takeWhile isGap ++ rest.dropWhile isGap := by
        rw [hstand.source_eq, List.append_assoc, List.takeWhile_append_dropWhile]
      rw [scan_of_cut?_eq_some hstand hcut] at hscan ⊢
      obtain ⟨⟨kind, lexeme⟩, hcontent, rfl⟩ : ∃ found, piece.content lexer.params =
          .ok found ∧ token = ⟨found.1, found.2, after (before ++ rest.takeWhile isGap)⟩ := by
        cases hcontent : piece.content lexer.params with
        | error e => rw [hcontent] at hscan; cases hscan
        | ok found => rw [hcontent] at hscan; cases hscan; exact ⟨found, rfl, rfl⟩
      have hagain : (lexer.seek (after (before ++ rest.takeWhile isGap))).StandsAt
          (before ++ rest.takeWhile isGap) (rest.dropWhile isGap) := ⟨hsource, rfl⟩
      have hcut' : cut? ((rest.dropWhile isGap).dropWhile isGap) = some piece := by
        rw [dropWhile_dropWhile_gap]
        exact hcut
      refine ⟨⟨_, _, hsource, rfl⟩, ?_⟩
      rw [scan_of_cut?_eq_some hagain hcut']
      simp [takeWhile_dropWhile_gap, seek, hstand.cursor_eq, count_newline_gap]

end Lexer

end MatrixScript
