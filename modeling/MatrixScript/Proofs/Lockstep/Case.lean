import MatrixScript.Proofs.Lexing.Excerpt
import MatrixScript.Proofs.Lockstep.Respelling
import MatrixScript.Proofs.Lockstep.Run

/-!
# The case of letters

Keywords, the names of functions, variables and labels, and the word for the console can be
written in any case.  `Recased` changes the case of words and labels in a script; it then
runs the same (`report_run_of_recased`), unless a file is named by a word whose case
matters.
-/

namespace MatrixScript

open Lexer Machine

/-! ## What a remark writes -/

namespace Text

theorem trimEnd_append_cons {c : Char} (hc : isBlank c = false) (before text : List Char) :
    trimEnd (before ++ c :: text) = before ++ c :: trimEnd text := by
  have hstop : ¬ isBlank c = true := by simp [hc]
  unfold trimEnd
  rw [List.reverse_append, List.reverse_cons, List.append_assoc, List.dropWhile_append]
  split
  · rename_i hnil
    rw [List.isEmpty_iff.mp hnil, List.singleton_append, List.dropWhile_cons_of_neg hstop]
    simp
  · simp

theorem trim_append_of_blank_left {lead : List Char} (h : ∀ c ∈ lead, isBlank c = true)
    (text : List Char) : trim (lead ++ text) = trim text := by
  rw [trim, trim, trimStart, trimStart, List.dropWhile_append_of_pos h]

theorem trim_cons {c : Char} (hc : isBlank c = false) (text : List Char) :
    trim (c :: text) = c :: trimEnd text := by
  rw [trim, trimStart, List.dropWhile_cons_of_neg (by simp [hc])]
  exact trimEnd_append_cons hc [] text

end Text

namespace Statement

theorem quotation_append_of_blank {lead : List Char} (h : ∀ c ∈ lead, Text.isBlank c = true)
    (text : List Char) : quotation (lead ++ text) = quotation text := by
  rw [quotation, quotation, Text.trim_append_of_blank_left h]

/-- What starts a piece is not blank, but for line feeds. -/
theorem isBlank_of_starts {p : Pattern} {c : Char} (h : p.Starts c) (hp : p ≠ .newline) :
    Text.isBlank c = false := by
  cases p with
  | newline => exact absurd rfl hp
  | label | quote | parameter =>
      cases h
      decide
  | mark =>
      have hmarks : marks.all (fun c => !Text.isBlank c) = true := by decide
      simpa using List.all_eq_true.mp hmarks c h
  | number =>
      have hdigit := Text.isDigit_iff.mp h
      exact Text.isBlank_of_toNat (by omega)
  | word =>
      rcases h with hletter | rfl
      · exact isBlank_of_isAlpha c hletter
      · decide

theorem quotation_of_not_quote {c : Char} (hblank : Text.isBlank c = false) (hquote : c ≠ '"')
    (text : List Char) : quotation (c :: text) = none := by
  rw [quotation, Text.trim_cons hblank, List.head?_cons, if_neg (by simpa using hquote)]

/-- Texts that start with other pieces write nothing. -/
theorem quotation_eq_of_starts {p : Pattern} {c d : Char} (hc : p.Starts c) (hd : p.Starts d)
    (hnewline : p ≠ .newline) (hquote : p ≠ .quote) (text text' : List Char) :
    quotation (d :: text') = quotation (c :: text) := by
  have hplain {c : Char} (hc : p.Starts c) (text : List Char) : quotation (c :: text) = none := by
    refine quotation_of_not_quote (isBlank_of_starts hc hnewline) ?_ text
    rintro rfl
    exact hquote (hc.unique rfl)
  rw [hplain hc, hplain hd]

/-- Of a closed quotation, what follows it does not count. -/
theorem quotation_of_closed {inner : List Char} (h : ∀ c ∈ inner, isQuotable c = true)
    (text : List Char) : quotation ('"' :: inner ++ '"' :: text) = some (String.ofList inner) := by
  have hgo : ∀ c ∈ inner, (c != '"') = true :=
    fun c hc => bne_iff_ne.mpr (isQuotable_iff.mp (h c hc)).1
  rw [quotation, List.cons_append, Text.trim_cons (by decide),
    Text.trimEnd_append_cons (by decide), List.head?_cons, if_pos rfl, List.tail_cons, untilQuote,
    List.takeWhile_append_of_pos hgo, List.takeWhile_cons_of_neg (by decide), List.append_nil]

end Statement

/-! ## Scripts in another case -/

/-- The script with words and labels in another case.  The text of a remark is cut into
pieces as all else, so in it words may change too where they are not quoted. -/
inductive Recased : List Char → List Char → Prop where
  | finish {text : List Char} (hend : text.dropWhile isGap = []) : Recased text text
  | piece {text text' rest' : List Char} {piece : Piece}
      (hcut : cut? (text.dropWhile isGap) = some piece)
      (htext : Respells piece.kind piece.text text') (hrest : Recased piece.rest rest') :
      Recased text (text.takeWhile isGap ++ text' ++ rest')

namespace Recased

open Statement

variable {text text' : List Char}

theorem lower_eq (h : Recased text text') : text'.map Char.toLower = text.map Char.toLower := by
  induction h with
  | finish => rfl
  | piece hcut htext _ ih =>
      conv_rhs => rw [← rest_of_cut?_eq_some hcut]
      simp only [List.map_append, htext.lower_eq, ih]

theorem cut?_eq {rest' : List Char} {piece : Piece}
    (hcut : cut? (text.dropWhile isGap) = some piece) (htext : Respells piece.kind piece.text text')
    (hrest : Recased piece.rest rest') :
    cut? ((text.takeWhile isGap ++ text' ++ rest').dropWhile isGap) =
      some ⟨piece.kind, text', rest'⟩ := by
  have hstarts := (startsPiece_of_cut? hcut).respell htext.lower_eq
  rw [(hstarts.splitGap (fun _ hc => List.mem_takeWhile_imp hc) rest').2]
  exact ((stands_of_cut? hcut).respell htext hrest.lower_eq).cut?_append

/-- A remark writes the same, if what follows the first piece of its text does. -/
theorem quotation_append_eq {kind : PieceKind} {rest rest' : List Char}
    (h : Stands kind text rest) (hkind : kind ≠ .newline) (htext : Respells kind text text')
    (hrest : rest'.map Char.toLower = rest.map Char.toLower)
    (hquotation : quotation (rest'.takeWhile (· != '\n')) =
      quotation (rest.takeWhile (· != '\n'))) :
    quotation (text' ++ rest'.takeWhile (· != '\n')) =
      quotation (text ++ rest.takeWhile (· != '\n')) := by
  have hstands := h.respell htext hrest
  cases h with
  | newline => exact absurd rfl hkind
  | label =>
      cases hstands
      exact quotation_eq_of_starts (p := .label) rfl rfl nofun nofun _ _
  | word hc =>
      cases hstands with
      | word hc' => exact quotation_eq_of_starts hc hc' nofun nofun _ _
  | mark hmark =>
      have hc : Pattern.mark.Starts _ := mem_marks_iff.mpr (Option.isSome_of_eq_some hmark)
      rw [htext.text_eq nofun nofun]
      exact quotation_eq_of_starts hc hc nofun nofun _ _
  | number hc =>
      rw [htext.text_eq nofun nofun]
      exact quotation_eq_of_starts hc hc nofun nofun _ _
  | parameter | lonePercent =>
      rw [htext.text_eq nofun nofun]
      exact quotation_eq_of_starts (p := .parameter) rfl rfl nofun nofun _ _
  | quotation hinner =>
      rw [htext.text_eq nofun nofun, List.append_assoc, List.append_assoc]
      exact (quotation_of_closed hinner _).trans (quotation_of_closed hinner _).symm
  | openQuotation _ hnewline =>
      cases hstands with
      | openQuotation _ hnewline' =>
          -- An open quotation is all there is of the line.
          have hnil {rest : List Char} (hrest : ∀ c ∈ rest.head?, c = '\n') :
              rest.takeWhile (· != '\n') = [] := (@splitLine_append [] rest nofun hrest).1
          rw [hnil hnewline, hnil hnewline', htext.text_eq nofun nofun]
  | @stray c hc =>
      rw [htext.text_eq nofun nofun]
      by_cases hblank : Text.isBlank c = true
      · have hlead : ∀ d ∈ [c], Text.isBlank d = true := List.forall_mem_singleton.mpr hblank
        rw [quotation_append_of_blank hlead, quotation_append_of_blank hlead, hquotation]
      · have hplain := quotation_of_not_quote (Bool.eq_false_iff.mpr hblank) (hc .quote)
        exact (hplain _).trans (hplain _).symm

/-- After a remark, the next line is what it was, and the remark writes the same. -/
theorem splitLine (h : Recased text text') :
    quotation (text'.takeWhile (· != '\n')) = quotation (text.takeWhile (· != '\n')) ∧
      Recased (text.dropWhile (· != '\n')) (text'.dropWhile (· != '\n')) := by
  induction h with
  | @finish text hend =>
      have hnil : text.dropWhile (· != '\n') = [] := by
        refine List.dropWhile_eq_nil_iff.mpr fun c hc => bne_iff_ne.mpr ?_
        rintro rfl
        exact absurd (List.dropWhile_eq_nil_iff.mp hend _ hc) (by decide)
      rw [hnil]
      exact ⟨rfl, .finish rfl⟩
  | @piece text text' rest' piece hcut htext hrest ih =>
      have hgap : ∀ c ∈ text.takeWhile isGap, isGap c = true :=
        fun c hc => List.mem_takeWhile_imp hc
      have hsplit := rest_of_cut?_eq_some hcut
      generalize text.takeWhile isGap = gap at hgap hsplit ⊢
      rw [← hsplit]
      by_cases hkind : piece.kind = .newline
      · have hfeed := text_of_newline hcut hkind
        have hgap' : '\n' ∉ gap := fun hmem => absurd (hgap _ hmem) (by decide)
        have hline (rest : List Char) := @splitLine_append gap ('\n' :: rest) hgap' fun c hc => by
          cases hc
          rfl
        rw [htext.text_eq (by simp [hkind]) (by simp [hkind]), hfeed, List.append_assoc,
          List.append_assoc, List.singleton_append, List.singleton_append, (hline _).1, (hline _).1,
          (hline _).2, (hline _).2]
        exact ⟨rfl, @Recased.piece _ ['\n'] _ ⟨.newline, ['\n'], _⟩ rfl ⟨rfl, fun _ _ => rfl⟩ hrest⟩
      · have hblank : ∀ c ∈ gap, Text.isBlank c = true := fun c hc => isBlank_of_isGap (hgap c hc)
        have hpiece := bne_newline_of_cut? hcut hkind
        have hlead : ∀ c ∈ gap ++ piece.text, (c != '\n') = true :=
          List.forall_mem_append.mpr ⟨fun c hc => bne_newline_of_isGap (hgap c hc), hpiece⟩
        have hfeed : ∀ c ∈ piece.text, (c == '\n') = false := by simpa using hpiece
        have hfeed' := forall_mem_of_map_toLower_eq newline_of_isAlpha htext.lower_eq hfeed
        have hlead' : ∀ c ∈ gap ++ text', (c != '\n') = true :=
          List.forall_mem_append.mpr ⟨fun c hc => bne_newline_of_isGap (hgap c hc),
            by simpa using hfeed'⟩
        rw [List.takeWhile_append_of_pos hlead, List.takeWhile_append_of_pos hlead',
          List.dropWhile_append_of_pos hlead, List.dropWhile_append_of_pos hlead',
          List.append_assoc, List.append_assoc, quotation_append_of_blank hblank,
          quotation_append_of_blank hblank]
        exact ⟨quotation_append_eq (stands_of_cut? hcut) hkind htext hrest.lower_eq ih.1, ih.2⟩

theorem cut {phase : Phase} (h : Recased text text') :
    CutAlike .anyCase (fun _ => Recased) phase text text' := by
  cases h with
  | finish hend => exact .finish hend hend
  | @piece _ text' rest' piece hcut htext hrest =>
      have hfault := map_toLower_takeWhile_eq isBlank_of_isAlpha hrest.lower_eq
      exact .piece hcut (cut?_eq hcut htext hrest)
        ⟨rfl, foldCase_ofList_eq htext.lower_eq, htext.text_eq, fun _ => foldCase_ofList_eq hfault⟩
        (fun _ => hrest) (fun _ _ => hrest) fun _ => hrest.splitLine

end Recased

/-- A script and the script in another case. -/
def Alignment.ofRecased (params : List String) {source source' : List Char}
    (h : Recased source source') : Alignment where
  spelling := .anyCase
  left := source
  right := source'
  params := params
  ahead := fun _ => Recased
  start := h
  of_within := fun h => h
  cut := Recased.cut

/-- Case does not matter.  A script in which the case of words and labels is changed comes to
the same end as before, with the same variables, output and files, or fails with the same
error on the same line, up to the case of what the error quotes.  This takes that no statement
that the script comes to names a file by a word, unless the word means the console, and that
files with labels of points are not named by words at all. -/
theorem report_run_of_recased {source source' : List Char} (hrecased : Recased source source')
    (params : List String) (limits : Limits) (world : World) (store : Store) :
    let start (source : List Char) : Machine :=
      { Machine.new (String.ofList source) params limits world with store := store }
    (∀ count now, run count (start source) = (none, now) → now.CaseFree) → ∀ fuel,
      (report (run fuel (start source'))).respell foldCase =
        (report (run fuel (start source))).respell foldCase := by
  intro start hcase fuel
  exact @Alignment.report_run (.ofRecased params hrecased) (start source) (start source')
    String.toList_ofList String.toList_ofList rfl rfl rfl rfl rfl fuel fun _ => hcase

/-- A matrix is saved to the console, with all words in another case. -/
theorem report_run_of_recased_console :
    let source := ['s', 'a', 'v', 'e', ' ', 'A', ' ', 'c', 'o', 'n', ':']
    let source' := ['S', 'a', 'v', 'E', ' ', 'a', ' ', 'C', 'O', 'N', ':']
    let start (source : List Char) : Machine :=
      { Machine.new (String.ofList source) [] {} {} with
        store := Store.empty.insert ⟨0⟩ (DenseMatrix.ofFn 1 1 fun _ _ => 0) }
    Recased source source' ∧
      (∀ count now, run count (start source) = (none, now) → now.CaseFree) ∧
      (report (run 2 (start source'))).respell foldCase =
        (report (run 2 (start source))).respell foldCase := by
  intro source source' start
  have hrecased : Recased source _ :=
    @Recased.piece _ ['S', 'a', 'v', 'E'] _ _ rfl ⟨rfl, fun h => absurd rfl h⟩ <|
      @Recased.piece _ ['a'] _ _ rfl ⟨rfl, fun h => absurd rfl h⟩ <|
      @Recased.piece _ ['C', 'O', 'N', ':'] _ _ rfl ⟨rfl, fun h => absurd rfl h⟩ <| .finish rfl
  have hcase : ∀ count now, run count (start source) = (none, now) → now.CaseFree :=
    @caseFree_of_run (start source) 2 (by decide +kernel) (by decide +kernel)
  exact ⟨hrecased, hcase, report_run_of_recased hrecased [] {} {} _ hcase 2⟩

/-- Files with labels of points are not the console under any name, so the case of a word that
names one matters: there may be a file `con:` and none that is called `CON:`. -/
theorem run_recased_label_files :
    let zeros (rows cols : Nat) : DenseMatrix Float := DenseMatrix.ofFn rows cols fun _ _ => 0
    let world : World := { disk := Disk.ofFiles [("con:", "x\n".toUTF8)] }
    let start (source : List Char) : Machine :=
      { Machine.new (String.ofList source) [] {} world with
        store := ((Store.empty.insert ⟨19⟩ (zeros 1 1)).insert ⟨21⟩ (zeros 1 2)).insert ⟨11⟩
          (zeros 2 1) }
    let command := ['c', 'o', 'm', 'p', 'o', 'c', 'o', 'r', ' ', 'T', ' ', 'V', ' ', 'L']
    let console := [' ', 'c', 'o', 'n', ':']
    let console' := [' ', 'C', 'O', 'N', ':']
    let source := command ++ console ++ console ++ console ++ console ++ console
    let source' := command ++ console ++ console ++ console ++ console' ++ console'
    let result (source : List Char) := (run 2 (start source)).1.map
      (Except.mapError fun err : ScriptError => (err.line, err.error.kind))
    Recased source source' ∧
      (start source).reader.lexer.next.lexer.CaseFree
        [.other, .other, .other, .file, .file, .file, .file, .file] ∧
      result source = some (.ok .finished) ∧ result source' = some (.error (1, .io)) := by
  intro zeros world start command console console' source source' result
  have hrecased : Recased source _ :=
    @Recased.piece _ ['c', 'o', 'm', 'p', 'o', 'c', 'o', 'r'] _ _ rfl ⟨rfl, fun _ _ => rfl⟩ <|
      @Recased.piece _ ['T'] _ _ rfl ⟨rfl, fun _ _ => rfl⟩ <|
      @Recased.piece _ ['V'] _ _ rfl ⟨rfl, fun _ _ => rfl⟩ <|
      @Recased.piece _ ['L'] _ _ rfl ⟨rfl, fun _ _ => rfl⟩ <|
      @Recased.piece _ ['c', 'o', 'n', ':'] _ _ rfl ⟨rfl, fun _ _ => rfl⟩ <|
      @Recased.piece _ ['c', 'o', 'n', ':'] _ _ rfl ⟨rfl, fun _ _ => rfl⟩ <|
      @Recased.piece _ ['c', 'o', 'n', ':'] _ _ rfl ⟨rfl, fun _ _ => rfl⟩ <|
      @Recased.piece _ ['C', 'O', 'N', ':'] _ _ rfl ⟨rfl, fun h => absurd rfl h⟩ <|
      @Recased.piece _ ['C', 'O', 'N', ':'] _ _ rfl ⟨rfl, fun h => absurd rfl h⟩ <| .finish rfl
  exact ⟨hrecased, by decide +kernel, by decide +kernel, by decide +kernel⟩

end MatrixScript
