import Mathlib.Data.Finset.Card
import Mathlib.Data.Finset.Dedup
import MatrixScript.Proofs.Lexing.Labels
import MatrixScript.Proofs.Lexing.Survey

/-!
# The table of labels

The index has the labels that a survey of the script meets: as many as there are names among
them, each with the place after its first occurrence (`Indexes`).  One token keeps the index in
step with the tokens that have been met (`collectFrom_of_token`), and so does the whole survey,
unless the names are too many (`collectFrom_of_meets`).
-/

namespace MatrixScript

open Lexer

/-- Each token that is met is what the script has at its start. -/
theorem Lexer.Meets.scanAt_eq {lexer lexer' : Lexer} {tokens : List Token}
    (h : Meets lexer tokens lexer') (hsound : lexer.Sound) :
    ∀ token ∈ tokens, (scanAt lexer.source lexer.params token.start).outcome = .ok token := by
  induction h with
  | refl => simp
  | @meet lexer _ token _ hnext _ _ ih =>
      intro other hmem
      rcases List.mem_cons.mp hmem with rfl | hmem
      · rw [Lexer.scanAt_eq]
        exact (hsound.next_token hnext).2.1
      · have hother := ih (hsound.past token) other hmem
        rwa [source_past, params_past] at hother

namespace LabelIndex

/-! ## Labels among tokens -/

def labelsIn (tokens : List Token) : List Token :=
  tokens.filter fun token => token.kind = .label

/-- The names of the labels among some tokens, all in one case. -/
def namesIn (tokens : List Token) : Finset String :=
  ((labelsIn tokens).map fun token => foldCase token.lexeme).toFinset

/-- The first label of a name, in any case. -/
def firstIn? (tokens : List Token) (name : String) : Option Token :=
  (labelsIn tokens).find? fun token => foldCase token.lexeme == foldCase name

section Tokens

variable {tokens more : List Token} {token : Token} {name : String}

theorem labelsIn_append : labelsIn (tokens ++ more) = labelsIn tokens ++ labelsIn more :=
  List.filter_append ..

theorem labelsIn_of_label (h : token.kind = .label) : labelsIn [token] = [token] := by
  simp [labelsIn, h]

theorem labelsIn_of_ne_label (h : token.kind ≠ .label) : labelsIn [token] = [] := by
  simp [labelsIn, h]

theorem namesIn_append : namesIn (tokens ++ more) = namesIn tokens ∪ namesIn more := by
  simp only [namesIn, labelsIn_append, List.map_append, List.toFinset_append]

theorem namesIn_of_label (h : token.kind = .label) :
    namesIn [token] = {foldCase token.lexeme} := by
  simp [namesIn, labelsIn_of_label h]

theorem namesIn_of_ne_label (h : token.kind ≠ .label) : namesIn [token] = ∅ := by
  simp [namesIn, labelsIn_of_ne_label h]

theorem firstIn?_append :
    firstIn? (tokens ++ more) name = (firstIn? tokens name).or (firstIn? more name) := by
  simp only [firstIn?, labelsIn_append, List.find?_append]

theorem firstIn?_of_label (h : token.kind = .label) :
    firstIn? [token] name =
      if foldCase token.lexeme == foldCase name then some token else none := by
  rw [firstIn?, labelsIn_of_label h, List.find?_singleton]

theorem firstIn?_of_ne_label (h : token.kind ≠ .label) : firstIn? [token] name = none := by
  rw [firstIn?, labelsIn_of_ne_label h, List.find?_nil]

theorem isSome_firstIn? : (firstIn? tokens name).isSome ↔ foldCase name ∈ namesIn tokens := by
  simp [firstIn?, namesIn, List.find?_isSome]

theorem firstIn?_congr {name' : String} (h : foldCase name = foldCase name') :
    firstIn? tokens name = firstIn? tokens name' := by
  rw [firstIn?, firstIn?, h]

end Tokens

/-! ## The index of some tokens -/

/-- The label of a token: its target is the place where the token ends. -/
def ofToken (source : List Char) (params : List String) (token : Token) : Label :=
  ⟨token.lexeme, (scanAt source params token.start).cursor⟩

/-- The index has the labels among the tokens, and of each name the first one. -/
structure Indexes (source : List Char) (params : List String) (tokens : List Token)
    (index : LabelIndex) : Prop where
  size_eq : index.size = (namesIn tokens).card
  find?_eq : ∀ name, index.find? name = (firstIn? tokens name).map (ofToken source params)

theorem indexes_nil (source : List Char) (params : List String) : Indexes source params [] {} :=
  ⟨rfl, fun _ => rfl⟩

section Indexes

variable {source : List Char} {params : List String} {seen : List Token} {token : Token}
  {index : LabelIndex}

theorem Indexes.mem_iff (h : Indexes source params seen index) {name : String} :
    (index.find? name).isSome ↔ foldCase name ∈ namesIn seen := by
  rw [h.find?_eq, Option.isSome_map, isSome_firstIn?]

theorem Indexes.other (h : Indexes source params seen index) (hkind : token.kind ≠ .label) :
    Indexes source params (seen ++ [token]) index where
  size_eq := by
    rw [namesIn_append, namesIn_of_ne_label hkind, Finset.union_empty, h.size_eq]
  find?_eq name := by
    rw [firstIn?_append, firstIn?_of_ne_label hkind, Option.or_none, h.find?_eq]

theorem Indexes.known (h : Indexes source params seen index) (hkind : token.kind = .label)
    (hknown : (index.find? token.lexeme).isSome) :
    Indexes source params (seen ++ [token]) index where
  size_eq := by
    rw [namesIn_append, namesIn_of_label hkind, Finset.union_singleton,
      Finset.insert_eq_of_mem (h.mem_iff.mp hknown), h.size_eq]
  find?_eq name := by
    rw [firstIn?_append, firstIn?_of_label hkind, h.find?_eq]
    by_cases hname : foldCase token.lexeme = foldCase name
    · -- The name has been met, so its first label stays the same.
      rw [h.find?_eq, Option.isSome_map, firstIn?_congr hname] at hknown
      obtain ⟨first, hfirst⟩ := Option.isSome_iff_exists.mp hknown
      rw [hfirst, Option.some_or]
    · rw [if_neg (by simpa using hname), Option.or_none]

theorem Indexes.card_of_fresh (h : Indexes source params seen index) (hkind : token.kind = .label)
    (hfresh : index.find? token.lexeme = none) :
    (namesIn (seen ++ [token])).card = index.size + 1 := by
  have hnotMem : foldCase token.lexeme ∉ namesIn seen := by
    rw [← h.mem_iff, hfresh]
    exact Bool.false_ne_true
  rw [namesIn_append, namesIn_of_label hkind, Finset.union_singleton,
    Finset.card_insert_of_notMem hnotMem, h.size_eq]

theorem Indexes.fresh (h : Indexes source params seen index) (hkind : token.kind = .label)
    (hfresh : index.find? token.lexeme = none) :
    Indexes source params (seen ++ [token]) ⟨index.labels ++ [ofToken source params token]⟩ where
  size_eq := by
    rw [h.card_of_fresh hkind hfresh]
    exact List.length_append
  find?_eq name := by
    have hfind := h.find?_eq name
    unfold find? at hfind ⊢
    rw [List.find?_append, hfind, List.find?_singleton, firstIn?_append, firstIn?_of_label hkind,
      Option.map_or]
    by_cases hname : foldCase token.lexeme = foldCase name
    · simp [ofToken, hname]
    · simp [ofToken, hname]

end Indexes

/-! ## Collecting over a survey -/

section Collecting

variable {max : Nat} {lexer last : Lexer} {seen tokens : List Token} {token : Token}
  {index : LabelIndex}

theorem ofToken_of_next (hsound : lexer.Sound) (hnext : lexer.next.outcome = .ok token) :
    ofToken lexer.source lexer.params token = ⟨token.lexeme, lexer.next.lexer.position⟩ := by
  rw [ofToken, Lexer.scanAt_eq, (hsound.next_token hnext).2.2, position, peeked_next]

/-- A token is entered into the index, or it is a label too many. -/
theorem collectFrom_of_token (hsound : lexer.Sound) (hnext : lexer.next.outcome = .ok token)
    (hend : token.kind ≠ .delimiter .endOfScript)
    (hindex : Indexes lexer.source lexer.params seen index) (bound : Nat) (notes : List Note)
    (hmax : (namesIn seen).card ≤ max) :
    ((namesIn (seen ++ [token])).card ≤ max ∧ ∃ index' notes',
      Indexes lexer.source lexer.params (seen ++ [token]) index' ∧
        collectFrom max (bound + 1) index lexer notes =
          collectFrom max bound index' (lexer.past token) notes') ∨
    (max < (namesIn (seen ++ [token])).card ∧
      (collectFrom max (bound + 1) index lexer notes).outcome =
        .error (.flow (.tooManyLabels max))) := by
  by_cases hlabel : token.kind = .label
  · have hrem : token.kind ≠ .command .rem := by simp [hlabel]
    rw [past_of_ne_rem hrem]
    rcases collectFrom_of_label hnext hlabel with
      ⟨hknown, _, hrun⟩ | ⟨hfresh, hfull, _, hrun⟩ | ⟨hfresh, hroom, _, hrun⟩
    · have hadded := hindex.known hlabel hknown
      refine .inl ⟨?_, index, _, hadded, hrun⟩
      rwa [← hadded.size_eq, hindex.size_eq]
    · have hcard := hindex.card_of_fresh hlabel hfresh
      exact .inr ⟨by omega, by rw [hrun]⟩
    · have hcard := hindex.card_of_fresh hlabel hfresh
      have hadded := hindex.fresh hlabel hfresh
      rw [ofToken_of_next hsound hnext] at hadded
      exact .inl ⟨by omega, _, _, hadded, hrun⟩
  · have hadded := hindex.other hlabel
    have hcard : (namesIn (seen ++ [token])).card ≤ max := by
      rwa [← hadded.size_eq, hindex.size_eq]
    refine .inl ⟨hcard, index, notes ++ lexer.next.notes, hadded, ?_⟩
    by_cases hrem : token.kind = .command .rem
    · rw [past_of_rem hrem, collectFrom_of_rem hnext hrem]
    · rw [past_of_ne_rem hrem, collectFrom_of_other hnext hend hrem hlabel]

/-- All tokens of a way are entered into the index, or their labels are too many. -/
theorem collectFrom_of_meets (h : Meets lexer tokens last) (hsound : lexer.Sound)
    (hindex : Indexes lexer.source lexer.params seen index) (bound : Nat) (notes : List Note)
    (hmax : (namesIn seen).card ≤ max) :
    ((namesIn (seen ++ tokens)).card ≤ max ∧ ∃ index' notes',
      Indexes lexer.source lexer.params (seen ++ tokens) index' ∧
        collectFrom max (tokens.length + bound) index lexer notes =
          collectFrom max bound index' last notes') ∨
    (max < (namesIn (seen ++ tokens)).card ∧
      (collectFrom max (tokens.length + bound) index lexer notes).outcome =
        .error (.flow (.tooManyLabels max))) := by
  induction h generalizing seen index notes with
  | refl lexer =>
      rw [List.append_nil, List.length_nil, Nat.zero_add]
      exact .inl ⟨hmax, index, notes, hindex, rfl⟩
  | @meet lexer last token tokens hnext hend _ ih =>
      have hsplit : seen ++ token :: tokens = seen ++ [token] ++ tokens := by simp
      rw [hsplit, List.length_cons, Nat.add_right_comm]
      rcases collectFrom_of_token hsound hnext hend hindex (tokens.length + bound) notes hmax with
        ⟨hroom, index₁, notes₁, hindex₁, hrun⟩ | ⟨hfull, hrun⟩
      · have hrest := @ih (seen ++ [token]) index₁ (hsound.past token)
          (by rwa [source_past, params_past]) notes₁ hroom
        rwa [source_past, params_past, ← hrun] at hrest
      · have hmono : namesIn (seen ++ [token]) ⊆ namesIn (seen ++ [token] ++ tokens) := by
          intro name hname
          rw [namesIn_append]
          exact Finset.mem_union_left _ hname
        exact .inr ⟨hfull.trans_le (Finset.card_le_card hmono), hrun⟩

theorem collect_of_error {e : Error}
    (h : (collectFrom max lexer.tokenBound {} lexer.reset []).outcome = .error e) :
    (collect max lexer).outcome = .error e := by
  unfold collect
  simp only [h]

theorem collect_of_ok
    (h : (collectFrom max lexer.tokenBound {} lexer.reset []).outcome = .ok index) :
    (collect max lexer).outcome = .ok index ∧
      (collect max lexer).lexer =
        (collectFrom max lexer.tokenBound {} lexer.reset []).lexer.reset := by
  unfold collect
  simp only [h, and_self]

/-- A way from the start of the script is collected as a whole, or its labels are too many. -/
theorem collect_of_meets (max : Nat) (h : Meets lexer.reset tokens last) :
    ((namesIn tokens).card ≤ max ∧ ∃ bound index notes,
      Indexes lexer.source lexer.params tokens index ∧
        collectFrom max lexer.tokenBound {} lexer.reset [] =
          collectFrom max (bound + 1) index last notes) ∨
    (max < (namesIn tokens).card ∧
      (collect max lexer).outcome = .error (.flow (.tooManyLabels max))) := by
  have hsound := sound_reset lexer
  obtain ⟨bound, hbound⟩ := h.tokenBound_eq hsound
  rcases collectFrom_of_meets h hsound (indexes_nil _ _) (bound + 1) [] (Nat.zero_le max)
    with ⟨hroom, index, notes, hindex, hrun⟩ | ⟨hfull, hrun⟩
  · rw [← hbound] at hrun
    exact .inl ⟨hroom, bound, index, notes, hindex, hrun⟩
  · rw [← hbound] at hrun
    exact .inr ⟨hfull, collect_of_error hrun⟩

theorem collect_of_ended (max : Nat) (h : Surveys lexer.reset tokens none) :
    ((namesIn tokens).card ≤ max ∧ ∃ index, (collect max lexer).outcome = .ok index ∧
      (collect max lexer).lexer = lexer.reset ∧
        Indexes lexer.source lexer.params tokens index) ∨
    (max < (namesIn tokens).card ∧
      (collect max lexer).outcome = .error (.flow (.tooManyLabels max))) := by
  cases h with
  | @ended last token hmeets hnext hend =>
      refine (collect_of_meets max hmeets).imp_left ?_
      rintro ⟨hroom, bound, index, notes, hindex, hrun⟩
      rw [collectFrom_of_end hnext hend] at hrun
      obtain ⟨houtcome, hlexer⟩ := collect_of_ok (congrArg Collected.outcome hrun)
      refine ⟨hroom, index, houtcome, ?_, hindex⟩
      rw [hlexer, hrun]
      apply reset_congr
      · rw [source_next, hmeets.source_eq]
        rfl
      · rw [params_next, hmeets.passes.params_eq]
        rfl

theorem collect_of_faulted (max : Nat) {e : ParseError} (h : Surveys lexer.reset tokens (some e)) :
    ((namesIn tokens).card ≤ max ∧ (collect max lexer).outcome = .error (.parse e)) ∨
    (max < (namesIn tokens).card ∧
      (collect max lexer).outcome = .error (.flow (.tooManyLabels max))) := by
  cases h with
  | @faulted last _ hmeets hnext =>
      refine (collect_of_meets max hmeets).imp_left ?_
      rintro ⟨hroom, bound, index, notes, hindex, hrun⟩
      rw [collectFrom_of_error hnext] at hrun
      exact ⟨hroom, collect_of_error (congrArg Collected.outcome hrun)⟩

/-- An index that has been collected is that of a survey without a fault. -/
theorem exists_survey_of_collectFrom
    (h : (collectFrom max lexer.tokenBound {} lexer.reset []).outcome = .ok index) :
    ∃ tokens, Surveys lexer.reset tokens none ∧
      Indexes lexer.source lexer.params tokens index := by
  have hcollect := (collect_of_ok h).1
  obtain ⟨tokens, fault, hsurveys⟩ := exists_surveys (sound_reset lexer)
  cases fault with
  | none =>
      refine ⟨tokens, hsurveys, ?_⟩
      rcases collect_of_ended max hsurveys with ⟨_, found, hfound, _, hindexes⟩ | ⟨_, hfull⟩
      · rw [hfound] at hcollect
        cases hcollect
        exact hindexes
      · rw [hfull] at hcollect
        cases hcollect
  | some e =>
      rcases collect_of_faulted max hsurveys with ⟨_, hfault⟩ | ⟨_, hfull⟩
      · rw [hfault] at hcollect
        cases hcollect
      · rw [hfull] at hcollect
        cases hcollect

end Collecting

/-! ## The whole script -/

/-- The labels of a script are those that its survey meets.  Their names may be too many, or a
parameter mark without its digit may come first.  If neither is so, the index has every name,
and with it the place where the first label of that name ends. -/
theorem collect_indexes (max : Nat) (lexer : Lexer) :
    (∃ tokens fault, Surveys lexer.reset tokens fault) ∧
    ∀ tokens fault, Surveys lexer.reset tokens fault →
      (∀ token ∈ tokens,
        (scanAt lexer.source lexer.params token.start).outcome = .ok token) ∧
      (∀ e, fault = some e → ∃ before rest, lexer.source = before ++ '%' :: rest ∧
        (∀ c ∈ rest.head?, c.isDigit = false) ∧
          e = .invalidParameter (String.ofList (rest.takeWhile fun c => !Text.isBlank c))) ∧
      ((collect max lexer).outcome = .error (.flow (.tooManyLabels max)) ↔
        max < (namesIn tokens).card) ∧
      (∀ found, (collect max lexer).outcome = .error (.parse (.invalidParameter found)) ↔
        (namesIn tokens).card ≤ max ∧ fault = some (.invalidParameter found)) ∧
      ((namesIn tokens).card ≤ max → fault = none →
        ∃ index, (collect max lexer).outcome = .ok index ∧
          (collect max lexer).lexer = lexer.reset ∧ index.size = (namesIn tokens).card ∧
            ∀ name, (index.find? name).map (·.target) = (firstIn? tokens name).map fun token =>
              (scanAt lexer.source lexer.params token.start).cursor) := by
  have hsound := sound_reset lexer
  refine ⟨exists_surveys hsound, fun tokens fault h => ?_⟩
  obtain ⟨last, hmeets, _⟩ := h.exists_last
  refine ⟨hmeets.scanAt_eq hsound, ?_, ?_⟩
  · rintro e rfl
    exact h.fault_eq hsound
  cases fault with
  | none =>
      rcases collect_of_ended max h with ⟨hroom, index, hok, hlexer, hindex⟩ | ⟨hfull, htoo⟩
      · refine ⟨by simp [hok, hroom], by simp [hok], fun _ _ =>
          ⟨index, hok, hlexer, hindex.size_eq, fun name => ?_⟩⟩
        rw [hindex.find?_eq, Option.map_map]
        rfl
      · exact ⟨by simp [htoo, hfull], by simp [htoo], fun hroom => absurd hfull (by omega)⟩
  | some e =>
      rcases collect_of_faulted max h with ⟨hroom, hfault⟩ | ⟨hfull, htoo⟩
      · exact ⟨by simp [hfault, hroom], by simp [hfault, hroom], nofun⟩
      · exact ⟨by simp [htoo, hfull], by simp [htoo, hfull], nofun⟩

/-- A script with three labels, two of them of one name, and one more in a remark. -/
def twiceLabelled : Lexer where
  source := ":a\nrem :x\n:B :A".toList
  params := []

theorem collect_indexes_twiceLabelled :
    (collect 1 twiceLabelled).outcome = .error (.flow (.tooManyLabels 1)) ∧
      ∃ index, (collect 2 twiceLabelled).outcome = .ok index ∧ index.size = 2 ∧
        (index.find? "A").map (·.target) = some ⟨2, 1⟩ ∧
          (index.find? "x").map (·.target) = none := by
  have hsurveys : Surveys twiceLabelled.reset [⟨.label, "a", ⟨0, 1⟩⟩,
      ⟨.delimiter .endOfLine, "\n", ⟨2, 1⟩⟩, ⟨.command .rem, "rem", ⟨3, 2⟩⟩,
      ⟨.delimiter .endOfLine, "\n", ⟨9, 2⟩⟩, ⟨.label, "B", ⟨10, 3⟩⟩,
      ⟨.label, "A", ⟨13, 3⟩⟩] none := by
    refine @Surveys.ended _ _ _ ⟨.delimiter .endOfScript, "", ⟨15, 3⟩⟩
      (.meet ?_ ?_ <| .meet ?_ ?_ <| .meet ?_ ?_ <| .meet ?_ ?_ <| .meet ?_ ?_ <|
        .meet ?_ ?_ <| .refl _) ?_ rfl <;> decide
  obtain ⟨_, _, htoo, _⟩ := (collect_indexes 1 twiceLabelled).2 _ _ hsurveys
  obtain ⟨_, _, _, _, hok⟩ := (collect_indexes 2 twiceLabelled).2 _ _ hsurveys
  obtain ⟨index, houtcome, _, hsize, hfind⟩ := hok (by decide) rfl
  refine ⟨htoo.mpr (by decide), index, houtcome, hsize, ?_, ?_⟩
  · rw [hfind]; decide
  · rw [hfind]; decide

end LabelIndex

end MatrixScript
