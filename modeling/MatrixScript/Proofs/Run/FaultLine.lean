import MatrixScript.Proofs.Lexing.LabelTable
import MatrixScript.Proofs.Run.Diagnostics
import MatrixScript.Proofs.Run.Faults

/-!
# On which line a fault is reported

A run can fail for a parameter mark without its digit while the labels are collected or in a step.
In a step the mark never is the first thing on its line, since the labels have been collected, and
then the line of the mark is reported.  While the labels are collected it may be the first thing,
and then the line before it is reported (`run_fault_line`).
-/

namespace MatrixScript

open Lexer Cursor

/-! ## While labels are collected -/

namespace LabelIndex

variable {max : Nat} {lexer : Lexer}

/-- The collection of the labels stops at a fault. -/
theorem exists_fault_of_collectFrom {cause : ParseError}
    (h : (collectFrom max lexer.tokenBound {} lexer.reset []).outcome = .error (.parse cause)) :
    ∃ tokens last, Meets lexer.reset tokens last ∧ last.next.outcome = .error cause ∧
      (collectFrom max lexer.tokenBound {} lexer.reset []).lexer = last.next.lexer := by
  have hcollect := collect_of_error h
  obtain ⟨tokens, fault, hsurveys⟩ := exists_surveys (sound_reset lexer)
  cases hsurveys with
  | ended hmeets hnext hend =>
      rcases collect_of_meets max hmeets with ⟨-, bound, index, notes, -, hrun⟩ | ⟨-, hfull⟩
      · rw [hrun, collectFrom_of_end hnext hend] at h
        cases h
      · rw [hcollect] at hfull
        cases hfull
  | @faulted last e hmeets hnext =>
      rcases collect_of_meets max hmeets with ⟨-, bound, index, notes, -, hrun⟩ | ⟨-, hfull⟩
      · rw [hrun, collectFrom_of_error hnext] at h ⊢
        cases h
        exact ⟨tokens, last, hmeets, hnext, rfl⟩
      · rw [hcollect] at hfull
        cases hfull

/-- If all labels can be collected, every line starts with a token. -/
theorem lineStarts_of_collectFrom {index : LabelIndex}
    (h : (collectFrom max lexer.tokenBound {} lexer.reset []).outcome = .ok index) :
    LineStarts lexer.source lexer.params := by
  obtain ⟨tokens, hsurveys, -⟩ := exists_survey_of_collectFrom h
  exact hsurveys.lineStarts

end LabelIndex

/-! ## Reports -/

/-- The error shows the line of a place: its number and its text without the blanks around it. -/
def ScriptError.Shows (err : ScriptError) (source : List Char) (place : Cursor) : Prop :=
  err.line = place.line ∧
    ∃ text, LineAround source place text ∧ err.excerpt = String.ofList (Text.trim text)

namespace Machine

variable {m : Machine} {source : List Char} {params : List String}

theorem shows_diagnose {place : Cursor} (hplace : IsPlace m.lexer.source place)
    (hline : m.lexer.line = place.line) (e : Error) :
    (m.diagnose e).Shows m.lexer.source place := by
  obtain ⟨text, htext⟩ := exists_lineAround hplace
  refine ⟨hline, text, htext, ?_⟩
  rw [← lineText_of_lineAround htext, ← hline]
  rfl

/-- A fault is shown with its line, unless it is the first thing on it.  Then the line before is
shown. -/
theorem shows_of_stranded {before rest : List Char} {cause : ParseError}
    (h : m.lexer.Stranded before rest cause) (e : Error) :
    ((m.diagnose e).Shows m.lexer.source (after before) ↔ ¬ OpensLine before) ∧
      ∀ start gap, before = start ++ '\n' :: gap → (∀ c ∈ gap, isGap c = true) →
        (m.diagnose e).Shows m.lexer.source (after start) := by
  refine ⟨⟨fun hshows hopens => ?_, fun hopens => ?_⟩, ?_⟩
  · have hline : m.lexer.line = (after before).line := hshows.1
    have hbefore := h.line_before hopens
    omega
  · exact shows_diagnose (h.source_eq ▸ isPlace_after before _) (h.line_eq hopens) e
  · rintro start gap rfl hgap
    have hline := h.line_before ⟨start, gap, rfl, hgap⟩
    refine shows_diagnose ?_ ?_ e
    · rw [h.source_eq, List.append_assoc]
      exact isPlace_after start _
    · rw [line_after, List.count_append, List.count_cons_self,
        List.count_eq_zero.mpr (not_mem_of_gap hgap)] at hline
      rw [line_after]
      omega

/-! ## Runs -/

/-- All steps of a run whose labels have been collected have the right line for a fault. -/
theorem attentive_runFrom (hm : Located source params m) (hlexer : m.lexer.Attentive)
    (hstarts : LineStarts source params) (fuel : Nat) :
    Located source params (runFrom fuel m).2 ∧ (runFrom fuel m).2.lexer.Attentive := by
  refine runFrom_invariant
    (P := fun now => Located source params now ∧ now.lexer.Attentive) ?_ ?_ ⟨hm, hlexer⟩ fuel
  · rintro now ⟨hnow, hattentive⟩
    refine ⟨hnow.step, ?_⟩
    rw [← hnow.source_eq, ← hnow.params_eq] at hstarts
    have hmoves := step_moves now
    cases hs : step now with
    | ok outcome next =>
        rw [hs] at hmoves
        refine Attentive.moves hmoves (fun c hc => ?_) hstarts hattentive
        rw [hnow.source_eq]
        exact hnow.isPlace_of_isTarget hc
    | error e next =>
        rw [hs] at hmoves
        exact Attentive.moves hmoves (fun _ h => h.elim) hstarts hattentive
  · rintro now _ _ ⟨hnow, hattentive⟩
    exact ⟨{ hnow with }, hattentive⟩

/-- A run that fails with a fault stops right behind it. -/
theorem exists_stranded_of_run {fuel : Nat} {err : ScriptError} {last : Machine} {found : String}
    (hm : Located source params m) (hrun : run fuel m = (some (.error err), last))
    (herror : err.error = .parse (.invalidParameter found)) :
    (∃ before rest, last.lexer.Stranded before rest (.invalidParameter found)) ∧
      last.lexer.source = source ∧ err = last.diagnose err.error := by
  have hsource : last.lexer.source = source := by
    have hlast := (hm.run fuel).source_eq
    rwa [hrun] at hlast
  cases hcollected : m.collected.outcome with
  | error e =>
      obtain ⟨journal, hprepare⟩ := prepare_of_error hcollected
      unfold run at hrun
      rw [hprepare] at hrun
      cases hrun
      cases show e = _ from herror
      obtain ⟨tokens, stop, hmeets, hnext, hlexer⟩ :=
        LabelIndex.exists_fault_of_collectFrom hcollected
      refine ⟨?_, hsource, rfl⟩
      rw [show (Machine.lexer _) = stop.next.lexer from hlexer]
      exact (hmeets.trails (trails_reset m.lexer)).stranded hnext
  | ok index =>
      obtain ⟨journal, hprepare⟩ := prepare_of_ok hcollected
      have hready := congrArg Prod.fst hprepare
      have hstarts : LineStarts source params := by
        rw [← hm.source_eq, ← hm.params_eq]
        exact LabelIndex.lineStarts_of_collectFrom hcollected
      rw [run_of_prepare hready] at hrun
      obtain ⟨count, -, now, hnow, hfails, hdiagnose⟩ := exists_failsAt_of_runFrom_error hrun
      have hstep := hfails.step_eq (by simp [herror, Error.kind])
      refine ⟨?_, hsource, hdiagnose⟩
      obtain ⟨hlocated, hattentive⟩ := attentive_runFrom (hm.prepare.2 _ hready)
        (attentive_seek (isPlace_start _)) hstarts count
      rw [hnow] at hlocated hattentive
      rw [herror] at hstep
      obtain ⟨stop, hmoves, hnext, hlexer⟩ := exists_fault_of_step hstep
      rw [← hlocated.source_eq, ← hlocated.params_eq] at hstarts
      have hstop := Attentive.moves hmoves (fun _ h => h.elim) hstarts hattentive
      rw [← hmoves.source_eq, ← hmoves.params_eq] at hstarts
      rw [hlexer]
      exact hstop.stranded hstarts hnext

/-- If a run fails for a parameter mark without its digit, then it stops right behind that mark.
It shows the line of the mark exactly if the mark is not the first thing on a line after the first
one.  If it is, the line before is shown. -/
theorem run_fault_line (source : String) (params : List String) (limits : Limits) (world : World)
    (store : Store) (fuel : Nat) {err : ScriptError} {last : Machine} {found : String}
    (hrun : run fuel { Machine.new source params limits world with store := store } =
      (some (.error err), last))
    (herror : err.error = .parse (.invalidParameter found)) :
    ∃ before rest, source.toList = before ++ '%' :: rest ∧
      (∀ c ∈ rest.head?, c.isDigit = false) ∧
      found = String.ofList (rest.takeWhile fun c => !Text.isBlank c) ∧
      last.lexer.cursor = after (before ++ ['%']) ∧
      (err.Shows source.toList (after before) ↔ ¬ OpensLine before) ∧
      ∀ start gap, before = start ++ '\n' :: gap → (∀ c ∈ gap, isGap c = true) →
        err.Shows source.toList (after start) := by
  obtain ⟨⟨before, rest, hstranded⟩, hsource, hdiagnose⟩ :=
    exists_stranded_of_run (located_new source params limits world store) hrun herror
  have hshows := shows_of_stranded hstranded err.error
  rw [← hdiagnose, hsource] at hshows
  refine ⟨before, rest, ?_, hstranded.lone, ?_, hstranded.cursor_eq, hshows⟩
  · rw [← hsource, hstranded.source_eq]
  · exact ParseError.invalidParameter.inj hstranded.cause_eq

/-- A run that fails with a fault, by what can be computed of its error. -/
theorem exists_run_of_fault {fuel line : Nat} {excerpt found : String}
    (h : (run fuel m).1.map (Except.mapError fun err : ScriptError =>
      (err.line, err.excerpt, err.error.fault?)) = some (.error (line, excerpt, some found))) :
    ∃ err last, run fuel m = (some (.error err), last) ∧
      err.error = .parse (.invalidParameter found) ∧ err.line = line ∧ err.excerpt = excerpt := by
  obtain ⟨result, hresult, hmap⟩ := Option.map_eq_some_iff.mp h
  cases result with
  | ok outcome => cases hmap
  | error err =>
      obtain ⟨hline, hexcerpt, hfault⟩ : err.line = line ∧ err.excerpt = excerpt ∧
          err.error.fault? = some found := by
        simpa [Except.mapError] using hmap
      exact ⟨err, (run fuel m).2, by rw [← hresult], Error.eq_of_fault? hfault, hline, hexcerpt⟩

/-- A mark in the middle of the second line is shown with its line. -/
theorem run_fault_line_within :
    let source := "X = matint(1, 1)\nX = %x\n"
    ∃ err last, run 9 (Machine.new source [] {} {}) = (some (.error err), last) ∧
      err.error = .parse (.invalidParameter "x") ∧
      err.Shows source.toList (after "X = matint(1, 1)\nX = ".toList) := by
  intro source
  have hfails : (run 9 (Machine.new source [] {} {})).1.map
      (Except.mapError fun err : ScriptError => (err.line, err.excerpt, err.error.fault?)) =
        some (.error (2, "X = %x", some "x")) := by decide +kernel
  obtain ⟨err, last, hrun, herror, -⟩ := exists_run_of_fault hfails
  obtain ⟨before, rest, hsource, -, -, -, hshows, -⟩ :=
    run_fault_line source [] {} {} Store.empty 9 hrun herror
  have hmark : source.toList = "X = matint(1, 1)\nX = ".toList ++ '%' :: "x\n".toList := by decide
  rw [hmark, List.append_cons_inj_of_notMem (by decide) (by decide)] at hsource
  rw [← hsource.1] at hshows
  refine ⟨err, last, hrun, herror, hshows.mpr ?_⟩
  have hline : "X = matint(1, 1)\nX = ".toList = "X = matint(1, 1)\n".toList ++ "X = ".toList := by
    decide
  rw [hline]
  exact not_opensLine_append (c := 'X') (by decide) (by decide) (by decide)

/-- A mark at the start of the second line, the only one of the script, is shown with the first
line. -/
theorem not_run_fault_line :
    let source := "X = matint(1, 1)\n% = X\n"
    source.toList = "X = matint(1, 1)\n".toList ++ '%' :: " = X\n".toList ∧
    source.toList.count '%' = 1 ∧ (after "X = matint(1, 1)\n".toList).line = 2 ∧
    ∃ err last, run 9 (Machine.new source [] {} {}) = (some (.error err), last) ∧
      err.error = .parse (.invalidParameter "") ∧ err.line = 1 ∧
      err.excerpt = "X = matint(1, 1)" := by
  intro source
  have hfails : (run 9 (Machine.new source [] {} {})).1.map
      (Except.mapError fun err : ScriptError => (err.line, err.excerpt, err.error.fault?)) =
        some (.error (1, "X = matint(1, 1)", some "")) := by decide +kernel
  obtain ⟨err, last, hrun⟩ := exists_run_of_fault hfails
  exact ⟨by decide, by decide, by decide, err, last, hrun⟩

end Machine

end MatrixScript
