import MatrixScript.Proofs.Lexing.LabelTable
import MatrixScript.Proofs.Run.Progress

/-!
# Where a jump goes

The labels of a run are those that a survey of the script meets before the first step, wherever
they stand in their statements, and no step changes them (`exists_survey_of_run`).  `goto` looks
its operand up among them and goes on behind the first label of that name
(`Flow.exists_label_of_goto`).  An operand that is written like a label is met by the survey too,
so no jump from it can go forward: later labels of the name are not the first one
(`Meets.offset_lt`).
-/

namespace MatrixScript

open Lexer Cursor

/-! ## Labels on the way -/

namespace Lexer

variable {lexer last : Lexer} {token : Token} {tokens more : List Token}

theorem Meets.of_append (h : Meets lexer (tokens ++ more) last) :
    ∃ middle, Meets lexer tokens middle ∧ Meets middle more last := by
  induction tokens generalizing lexer with
  | nil => exact ⟨lexer, .refl lexer, h⟩
  | cons token tokens ih =>
      cases h with
      | meet hnext hend hrest =>
          obtain ⟨middle, hfirst, hmore⟩ := ih hrest
          exact ⟨middle, .meet hnext hend hfirst, hmore⟩

theorem ahead_next (lexer : Lexer) :
    lexer.next.lexer.ahead = charsFrom lexer.source lexer.next.lexer.cursor := by
  rw [ahead, position, peeked_next, source_next]

/-- A token that is met ends at a place with fewer characters ahead. -/
theorem Meets.charsFrom_lt (h : Meets lexer tokens last) (hsound : lexer.Sound) :
    ∀ token ∈ tokens,
      let stop := (scanAt lexer.source lexer.params token.start).cursor
      IsPlace lexer.source stop ∧ charsFrom lexer.source stop < lexer.ahead := by
  induction h with
  | refl => simp
  | @meet lexer _ token _ hnext hend _ ih =>
      intro other hmem
      rcases List.mem_cons.mp hmem with rfl | hmem
      · have hplace := hsound.next.cursor
        have hlt := hsound.ahead_next_lt hnext hend
        rw [source_next] at hplace
        rw [ahead_next] at hlt
        rw [Lexer.scanAt_eq, (hsound.next_token hnext).2.2]
        exact ⟨hplace, hlt⟩
      · have hother := ih (hsound.past token) other hmem
        rw [source_past, params_past] at hother
        exact ⟨hother.1, hother.2.trans (hsound.ahead_past_lt hnext hend)⟩

/-- What is met after a token ends further on. -/
theorem Meets.offset_lt (h : Meets lexer (tokens ++ token :: more) last) (hsound : lexer.Sound)
    (hrem : token.kind ≠ .command .rem) :
    ∀ other ∈ more, (scanAt lexer.source lexer.params token.start).cursor.offset <
      (scanAt lexer.source lexer.params other.start).cursor.offset := by
  obtain ⟨middle, hfirst, hmore⟩ := h.of_append
  have hmiddle := hfirst.sound hsound
  rw [← hfirst.source_eq, ← hfirst.passes.params_eq]
  intro other hmem
  cases hmore with
  | meet hnext hend hrest =>
      rw [past_of_ne_rem hrem] at hrest
      have hplace := hmiddle.next.cursor
      obtain ⟨hplace', hlt⟩ := hrest.charsFrom_lt hmiddle.next other hmem
      rw [ahead_next, source_next, params_next] at hlt
      rw [source_next] at hplace hplace'
      rw [params_next] at hplace'
      rw [Lexer.scanAt_eq middle token.start, (hmiddle.next_token hnext).2.2]
      exact offset_lt_of_charsFrom_lt hplace hplace' hlt

/-- A label ends on the line where it starts. -/
theorem scan_line_of_label (h : lexer.scan.outcome = .ok token) (hlabel : token.kind = .label) :
    lexer.scan.cursor.line = token.start.line := by
  unfold scan at h ⊢
  simp only at h ⊢
  cases hcut : cut? ((dropBytes lexer.cursor.offset lexer.source).dropWhile isGap) with
  | none =>
      rw [hcut] at h
      cases h
      cases hlabel
  | some piece =>
      simp only [hcut] at h ⊢
      cases hcontent : piece.content lexer.params with
      | error e => rw [hcontent] at h; cases h
      | ok found =>
          rw [hcontent] at h
          cases h
          have hnewline : piece.kind ≠ .newline := by
            intro hkind
            rw [Piece.content, hkind] at hcontent
            cases hcontent
            cases hlabel
          exact if_neg hnewline

/-- A token leaves the lexer behind it, wherever the lexer came from. -/
theorem Sound.next_lexer_eq (hsound : lexer.Sound) (hnext : lexer.next.outcome = .ok token) :
    lexer.next.lexer = (lexer.seek token.start).next.lexer := by
  obtain ⟨_, hscan, hcursor⟩ := hsound.next_token hnext
  rw [next_of_scan_ok rfl hscan, hcursor]
  obtain ⟨_, _, hcase⟩ | ⟨_, hnone, _, hcase⟩ | ⟨_, _, _, hcase⟩ := next_cases lexer <;>
    rw [hcase] at hnext ⊢ <;> cases hnext
  · rfl
  · simp only [seek, hnone]

theorem seek_congr {lexer' : Lexer} (hsource : lexer'.source = lexer.source)
    (hparams : lexer'.params = lexer.params) (cursor : Cursor) :
    lexer'.seek cursor = lexer.seek cursor := by
  rw [seek, seek, hsource, hparams]

theorem cursor_next_seek (lexer : Lexer) (cursor : Cursor) :
    (lexer.seek cursor).next.lexer.cursor =
      (scanAt lexer.source lexer.params cursor).cursor := by
  rw [scanAt_eq]
  obtain ⟨_, hsome, _⟩ | ⟨_, _, _, hcase⟩ | ⟨_, _, _, hcase⟩ := next_cases (lexer.seek cursor)
  · cases hsome
  · rw [hcase]
  · rw [hcase]

/-- To go to the end of a label is to take it. -/
theorem seek_of_label (hscan : (scanAt lexer.source lexer.params token.start).outcome = .ok token)
    (hlabel : token.kind = .label) :
    (lexer.seek token.start).next.outcome = .ok token ∧
      lexer.seek (scanAt lexer.source lexer.params token.start).cursor =
        (lexer.seek token.start).next.lexer := by
  rw [scanAt_eq] at hscan ⊢
  rw [next_of_scan_ok rfl hscan]
  refine ⟨rfl, ?_⟩
  rw [seek, scan_line_of_label hscan hlabel]
  rfl

end Lexer

namespace LabelIndex

variable {tokens : List Token} {label : Token} {name : String}

/-- The tokens before the first label of a name have no label of that name among them. -/
theorem exists_of_firstIn? (h : firstIn? tokens name = some label) :
    ∃ before rest, tokens = before ++ label :: rest ∧ label.kind = .label ∧
      foldCase label.lexeme = foldCase name ∧
        ∀ other ∈ before, other.kind = .label → foldCase other.lexeme ≠ foldCase name := by
  rw [firstIn?, labelsIn, List.find?_filter, List.find?_eq_some_iff_append] at h
  obtain ⟨hlabel, before, rest, htokens, hbefore⟩ := h
  simp only [decide_eq_true_eq, beq_iff_eq] at hlabel
  refine ⟨before, rest, htokens, hlabel.1, hlabel.2, fun other hmem hkind hname => ?_⟩
  have hother := hbefore other hmem
  simp [hkind, hname] at hother

end LabelIndex

/-! ## The labels of a run -/

namespace Machine

open LabelIndex

variable {m now : Machine} {index : LabelIndex}

theorem Effect.labels_eq {α : Type} {token : Token} {result : EStateM.Result Error Machine α}
    (h : Effect token m result) : (finalState result).labels = m.labels := by
  cases h with
  | quiet hquiet => rw [hquiet.2]
  | wrote hwrote | refused hwrote =>
      obtain ⟨_, _, _, _, _, rfl⟩ := hwrote
      rfl
  | opened _ _ _ hfinal => rw [hfinal]
  | assigned | loaded | drained | jumped | returned => rfl

theorem labels_step (m : Machine) : (finalState (step m)).labels = m.labels := by
  rcases step_effect m with ⟨e, herror⟩ | ⟨token, _, heffect⟩
  · rw [herror]
    rfl
  · exact heffect.labels_eq

/-- Whatever a machine was before, its cursors stand right once the labels are collected. -/
theorem located_of_collected (h : m.collected.outcome = .ok index) (journal : Journal) :
    Located m.reader.lexer.source m.reader.lexer.params
      { m with
        reader := ⟨m.collected.lexer.reset, journal⟩
        labels := index
        loops := { capacity := m.limits.maxLoopDepth } } := by
  obtain ⟨hmoves, hfound⟩ := LabelIndex.collectFrom_located m.limits.maxLabels
    m.reader.lexer.tokenBound {} [] (sound_reset m.reader.lexer)
    (fun _ hm => absurd hm List.not_mem_nil)
  exact
    { source_eq := hmoves.source_eq
      params_eq := hmoves.params_eq
      sound := sound_reset _
      labels := hfound index h
      markers := fun _ hm => absurd hm List.not_mem_nil
      depth := Nat.zero_le _
      capacity := rfl }

/-- As long as a run goes on, its labels are those that a survey of the script meets. -/
theorem exists_survey_of_run {count : Nat} (h : run count m = (none, now)) :
    ∃ tokens, Surveys m.reader.lexer.reset tokens none ∧
      Indexes m.reader.lexer.source m.reader.lexer.params tokens now.labels ∧
        Located m.reader.lexer.source m.reader.lexer.params now := by
  cases hcollected : m.collected.outcome with
  | error e =>
      obtain ⟨journal, hprepare⟩ := prepare_of_error hcollected
      rw [run, hprepare] at h
      cases h
  | ok index =>
      obtain ⟨journal, hprepare⟩ := prepare_of_ok hcollected
      rw [run_of_prepare (congrArg Prod.fst hprepare)] at h
      obtain ⟨tokens, hsurveys, hindexes⟩ := exists_survey_of_collectFrom hcollected
      obtain ⟨hlabels, hlocated⟩ : now.labels = index ∧
          Located m.reader.lexer.source m.reader.lexer.params now := by
        rw [show now = (runFrom count _).2 from (congrArg Prod.snd h).symm]
        exact runFrom_invariant (P := fun m' => m'.labels = index ∧
            Located m.reader.lexer.source m.reader.lexer.params m')
          (fun m' hm' => ⟨(labels_step m').trans hm'.1, hm'.2.step⟩)
          (fun _ _ _ hm' => ⟨hm'.1, { hm'.2 with }⟩)
          ⟨rfl, located_of_collected hcollected journal⟩ count
      rw [hlabels]
      exact ⟨tokens, hsurveys, hindexes, hlocated⟩

end Machine

/-! ## Jumps -/

/-- A jump that succeeds reads its operand, finds the label of that name and goes to its target. -/
theorem Flow.exists_label_of_goto {m m' : Machine} (h : goto m = .ok () m') :
    ∃ operand label journal, m.reader.lexer.next.outcome = .ok operand ∧
      operand.endsStatement = false ∧ m.labels.find? operand.lexeme = some label ∧
        m' = { m with reader := ⟨m.reader.lexer.next.lexer.seek label.target, journal⟩ } := by
  change (ExecM.read Reader.next >>= _) m = _ at h
  cases hnext : m.reader.lexer.next.outcome with
  | error e => rw [bind_of_eq_error (Machine.read_next_of_error hnext)] at h; cases h
  | ok operand =>
      rw [bind_of_eq_ok (Machine.read_next_of_ok hnext)] at h
      split at h
      · cases h
      · rename_i hends
        rw [get_bind_apply] at h
        cases hlabel : m.taken.labels.find? operand.lexeme with
        | none => rw [hlabel] at h; cases h
        | some label =>
            rw [hlabel] at h
            cases h
            exact ⟨operand, label, _, rfl, Bool.eq_false_iff.mpr hends, hlabel, rfl⟩

namespace Machine

open LabelIndex

/-- A step that does a `goto` takes its operand and goes on as if it had just taken a label: the
first one of that name, in any case, among the tokens that a survey of the script meets.  Nothing
else changes.  If the operand is one of these tokens and a label itself, then it is that label and
the run goes on right behind it, or the jump goes back. -/
theorem goto_first_label (m : Machine) (count : Nat) {now next : Machine} {word : Token}
    (hrun : run count m = (none, now)) (hnext : now.reader.lexer.next.outcome = .ok word)
    (hgoto : word.kind = .command .goto) (hstep : step now = .ok none next) :
    ∃ operand before label rest journal,
      let behind := now.reader.lexer.next.lexer.next
      behind.outcome = .ok operand ∧ operand.endsStatement = false ∧
      Surveys m.reader.lexer.reset (before ++ label :: rest) none ∧
      label.kind = .label ∧ foldCase label.lexeme = foldCase operand.lexeme ∧
      (∀ other ∈ before, other.kind = .label →
        foldCase other.lexeme ≠ foldCase operand.lexeme) ∧
      (m.reader.lexer.seek label.start).next.outcome = .ok label ∧
      next = { now with reader := ⟨(m.reader.lexer.seek label.start).next.lexer, journal⟩ } ∧
      (operand ∈ before ++ label :: rest → operand.kind = .label →
        operand = label ∧ next.reader.lexer = behind.lexer ∨
          next.reader.lexer.cursor.offset < behind.lexer.cursor.offset) := by
  obtain ⟨tokens, hsurveys, hindexes, hlocated⟩ := exists_survey_of_run hrun
  rw [step_of_next hnext, statement, hgoto] at hstep
  obtain ⟨⟨⟩, _, hjump, hpure⟩ := bind_eq_ok.mp hstep
  cases hpure
  obtain ⟨operand, target, journal, hoperand, hends, hfind, rfl⟩ :=
    Flow.exists_label_of_goto hjump
  change now.reader.lexer.next.lexer.next.outcome = .ok operand at hoperand
  obtain ⟨label, hfirst, rfl⟩ := Option.map_eq_some_iff.mp ((hindexes.find?_eq _).symm.trans hfind)
  obtain ⟨before, rest, rfl, hlabel, hname, hbefore⟩ := exists_of_firstIn? hfirst
  obtain ⟨last, hmeets, _⟩ := hsurveys.exists_last
  have hsource : now.reader.lexer.next.lexer.source = m.reader.lexer.source := by
    rw [source_next, hlocated.source_eq]
  have hparams : now.reader.lexer.next.lexer.params = m.reader.lexer.params := by
    rw [params_next, hlocated.params_eq]
  obtain ⟨htaken, htarget⟩ :=
    seek_of_label (hmeets.scanAt_eq (sound_reset _) label (by simp)) hlabel
  have hlexer : now.reader.lexer.next.lexer.next.lexer.seek
      (ofToken m.reader.lexer.source m.reader.lexer.params label).target =
        (m.reader.lexer.seek label.start).next.lexer := by
    rw [seek_congr ((source_next _).trans hsource) ((params_next _).trans hparams)]
    exact htarget
  refine ⟨operand, before, label, rest, journal, hoperand, hends, hsurveys, hlabel, hname, hbefore,
    htaken, congrArg (fun lexer => { now with reader := ⟨lexer, journal⟩ }) hlexer, ?_⟩
  intro hmem hkind
  have hbehind : now.reader.lexer.next.lexer.next.lexer =
      (m.reader.lexer.seek operand.start).next.lexer := by
    rw [hlocated.sound.next.next_lexer_eq hoperand, seek_congr hsource hparams]
  change _ ∧ now.reader.lexer.next.lexer.next.lexer.seek _ = _ ∨
    (now.reader.lexer.next.lexer.next.lexer.seek _).cursor.offset < _
  rw [hlexer, hbehind]
  -- A label of the operand's name is not among the tokens before the first one.
  rcases List.mem_append.mp hmem with hmem | hmem
  · exact absurd rfl (hbefore operand hmem hkind)
  rcases List.mem_cons.mp hmem with rfl | hmem
  · exact .inl ⟨rfl, rfl⟩
  · right
    rw [cursor_next_seek, cursor_next_seek]
    exact hmeets.offset_lt (sound_reset _) (by simp [hlabel]) operand hmem

/-- A jump back, with the name in another case. -/
theorem goto_first_label_back :
    let m := Machine.new ":a goto A" [] {} {}
    ∃ now next before label rest, run 1 m = (none, now) ∧ step now = .ok none next ∧
      Surveys m.reader.lexer.reset (before ++ label :: rest) none ∧ label.kind = .label ∧
      foldCase label.lexeme = "a" ∧
      (∀ other ∈ before, other.kind = .label → foldCase other.lexeme ≠ "a") ∧
      next.reader.lexer = (m.reader.lexer.seek label.start).next.lexer := by
  intro m
  have hone : (run 1 m).1 = none := Option.isNone_iff_eq_none.mp (by decide +kernel)
  have htwo : (run 2 m).1 = none := Option.isNone_iff_eq_none.mp (by decide +kernel)
  have hrun : run 1 m = (none, (run 1 m).2) := by rw [← hone]
  have hstep := step_of_run hone htwo
  have hword : (run 1 m).2.reader.lexer.next.outcome =
      .ok ⟨.command .goto, "goto", ⟨3, 1⟩⟩ := by decide +kernel
  have hname : (run 1 m).2.reader.lexer.next.lexer.next.outcome =
      .ok ⟨.word, "A", ⟨8, 1⟩⟩ := by decide +kernel
  obtain ⟨operand, before, label, rest, journal, hoperand, _, hsurveys, hlabel, hfold, hbefore, _,
    hnext, _⟩ := goto_first_label m 1 hrun hword rfl hstep
  rw [hname] at hoperand
  cases hoperand
  have hcase : foldCase "A" = "a" := by decide
  rw [hcase] at hfold hbefore
  exact ⟨_, _, before, label, rest, hrun, hstep, hsurveys, hlabel, hfold, hbefore, by rw [hnext]⟩

/-- A jump from the first line goes nowhere: its operand is the first label of that name, and the
one at the start of the third line is the second. -/
theorem not_goto_definition :
    let m := Machine.new "goto :skip\nX = matint(1, 1)\n:skip\n" [] {} {}
    ∃ now next, run 0 m = (none, now) ∧ step now = .ok none next ∧
      now.reader.lexer.next.outcome = .ok ⟨.command .goto, "goto", ⟨0, 1⟩⟩ ∧
      now.reader.lexer.next.lexer.next.outcome = .ok ⟨.label, "skip", ⟨5, 1⟩⟩ ∧
      next.reader.lexer.cursor = ⟨10, 1⟩ ∧
      (next.reader.lexer.seek ⟨28, 3⟩).next.outcome = .ok ⟨.label, "skip", ⟨28, 3⟩⟩ := by
  intro m
  have hzero : (run 0 m).1 = none := Option.isNone_iff_eq_none.mp (by decide +kernel)
  have hone : (run 1 m).1 = none := Option.isNone_iff_eq_none.mp (by decide +kernel)
  exact ⟨(run 0 m).2, (run 1 m).2, by rw [← hzero], step_of_run hzero hone, by decide +kernel,
    by decide +kernel, by decide +kernel, by decide +kernel⟩

end Machine

end MatrixScript
