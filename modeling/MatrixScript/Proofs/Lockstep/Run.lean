import MatrixScript.Proofs.Lockstep.Flow
import MatrixScript.Proofs.Run.Cursors

/-!
# Runs in step

Aligned scripts run in step: from the same variables, limits and world every step of one
run has its counterpart in the other, with the same effects, and the runs come to the same
end (`Alignment.report_run`).  If case is disregarded, this takes that no step reads the
name of a file in which case matters.
-/

namespace MatrixScript

open Lexer Machine

/-- What a run comes to, as far as it does not depend on the text of the script: its
outcome or its error with the line, if it has come to its end, the variables, and the world
with the output and the files. -/
structure Machine.Report where
  result : Option (Except (Nat × Error) Outcome)
  store : Store
  world : World

def Machine.report (ran : Option (Except ScriptError Outcome) × Machine) : Report where
  result := ran.1.map (Except.mapError fun e => (e.line, e.error))
  store := ran.2.store
  world := ran.2.world

/-- The report with the texts that its error quotes replaced. -/
def Machine.Report.respell (f : String → String) (report : Report) : Report :=
  { report with result := report.result.map (Except.mapError fun e => (e.1, e.2.respell f)) }

theorem Machine.Report.respell_exact (report : Report) :
    report.respell Spelling.exact.fold = report := by
  obtain ⟨result, store, world⟩ := report
  cases result with
  | none => rfl
  | some result =>
      cases result with
      | ok outcome => rfl
      | error e => simp [respell, Except.mapError, Error.respell_exact]

/-- The next statement names no file by a word whose case matters. -/
def Machine.CaseFree (m : Machine) : Prop :=
  ∀ token command, m.reader.lexer.next.outcome = .ok token → token.kind = .command command →
    m.reader.lexer.next.lexer.CaseFree command.operandRoles

/-- Whether the next statement names a file by a word whose case matters. -/
def Machine.caseFree (m : Machine) : Bool :=
  match m.reader.lexer.next.outcome with
  | .ok ⟨.command command, _, _⟩ => m.reader.lexer.next.lexer.caseFree command.operandRoles
  | _ => true

theorem Machine.caseFree_iff {m : Machine} : m.caseFree = true ↔ m.CaseFree := by
  unfold caseFree CaseFree
  cases m.reader.lexer.next.outcome with
  | error e => exact iff_of_true rfl nofun
  | ok token =>
      obtain ⟨kind, lexeme, start⟩ := token
      cases kind with
      | command command =>
          rw [Lexer.caseFree_iff]
          refine ⟨?_, fun h => h _ command rfl rfl⟩
          rintro h _ _ ⟨⟩ ⟨⟩
          exact h
      | _ =>
          refine iff_of_true rfl ?_
          rintro _ _ ⟨⟩ hkind
          cases hkind

instance (m : Machine) : Decidable m.CaseFree :=
  decidable_of_iff _ Machine.caseFree_iff

/-- For a script that comes to its end, a look at each of its steps is enough. -/
theorem Machine.caseFree_of_run {m : Machine} {fuel : Nat} (hend : (run fuel m).1.isSome = true)
    (hall : ∀ count < fuel, (run count m).2.CaseFree) (count : Nat) (now : Machine)
    (hrun : run count m = (none, now)) : now.CaseFree := by
  by_cases hcount : count < fuel
  · have hnow := hall count hcount
    rwa [hrun] at hnow
  · obtain ⟨result, hresult⟩ := Option.isSome_iff_exists.mp hend
    have hmore := run_mono (Prod.ext hresult rfl) (Nat.le_of_not_lt hcount)
    rw [hrun] at hmore
    cases hmore

namespace Alignment

variable {A : Alignment} {m m' : Machine}

/-! ## Remarks -/

theorem steps_remark :
    A.Steps (fun a b => Statement.quotation b.skipLine.1 = Statement.quotation a.skipLine.1 ∧
        A.Aligned .start a.skipLine.2 b.skipLine.2) Eq Statement.remark Statement.remark := by
  rw [Statement.remark_eq]
  intro m m' h
  have hleft : ExecM.read Reader.skipLine m = .ok m.reader.lexer.skipLine.1
      { m with reader := { m.reader with lexer := m.reader.lexer.skipLine.2 } } := rfl
  have hright : ExecM.read Reader.skipLine m' = .ok m'.reader.lexer.skipLine.1
      { m' with reader := { m'.reader with lexer := m'.reader.lexer.skipLine.2 } } := rfl
  rw [bind_of_eq_ok hleft, bind_of_eq_ok hright, h.lexer.1]
  have hjoined : Joined A.SameControl (A.Aligned .start)
      { m with reader := { m.reader with lexer := m.reader.lexer.skipLine.2 } }
      { m' with reader := { m'.reader with lexer := m'.reader.lexer.skipLine.2 } } :=
    { h with lexer := h.lexer.2 }
  cases Statement.quotation m.reader.lexer.skipLine.1 with
  | none => exact .ok ⟨rfl, hjoined⟩
  | some quoted => exact execPaired_emit (.refl _) _ (fun _ _ h => h.line_eq) _ _ hjoined

/-! ## Steps -/

/-- Both steps end the run, or both leave machines that can go on, with the same effects. -/
structure Stepped (A : Alignment) (outcome outcome' : Option Outcome) (m m' : Machine) : Prop where
  outcome_eq : outcome' = outcome
  store_eq : m'.store = m.store
  world_eq : m'.world = m.world
  line_eq : m'.reader.lexer.line = m.reader.lexer.line
  joined : outcome = none → Joined A.SameControl (A.Aligned .start) m m'

/-- The two steps of aligned machines come to the same. -/
abbrev Same (A : Alignment) (result result' : EStateM.Result Error Machine (Option Outcome)) :
    Prop :=
  Fits (Error.Accords A.spelling) (Parted SameLine) A.Stepped result result'

theorem Stepped.of_joined {outcome : Option Outcome}
    (h : Joined A.SameControl (A.Aligned .start) m m') : A.Stepped outcome outcome m m' :=
  ⟨rfl, h.store_eq, h.world_eq, h.lexer.line_eq, fun _ => h⟩

/-- A statement that runs in step and is followed by the next one. -/
theorem same_of_steps {P : Lexer → Lexer → Prop} {x y : ExecM Unit} (h : A.Steps P Eq x y)
    (hjoined : Joined A.SameControl P m m') :
    A.Same ((x >>= fun _ => pure none) m) ((y >>= fun _ => pure none) m') := by
  refine (h m m' hjoined).bind fun _ _ s s' hok => ?_
  exact .ok (.of_joined hok.2)

theorem steps_of_runs {n : Nat} {P : Lexer → Lexer → Prop} {x y : ExecM Unit}
    (h : A.pacing.Runs A.SameControl P n x y) : A.Steps P Eq x y :=
  h.imp (fun _ _ h => h) (fun _ _ h => h) fun _ _ h => h.imp start_of_near

variable {token token' : Token}

/-- Commands other than `rem` run in step from where their word has been taken. -/
theorem same_command {command : Command} (hrem : command ≠ .rem)
    (hplace : A.SamePlace token.start token'.start)
    (h : Joined A.SameControl (A.Aligned .within) m m')
    (hsuits : m.reader.lexer.Suits A.spelling command.operandRoles) :
    A.Same (Machine.command command token m) (Machine.command command token' m') := by
  have hnear : Joined A.SameControl (A.Near _) m m' := { h with lexer := h.lexer.near }
  have hbefore : Joined A.SameControl (A.pacing.Before command.operandRoles _) m m' :=
    { h with lexer := ⟨h.lexer.near, hsuits⟩ }
  have hstart := h.imp fun _ _ => Aligned.start
  cases command with
  | load => exact same_of_steps (steps_of_runs A.pacing.exec_load) hbefore
  | save => exact same_of_steps (steps_of_runs A.pacing.exec_save) hbefore
  | print => exact same_of_steps (steps_of_runs A.pacing.exec_print) hbefore
  | tridiag => exact same_of_steps (steps_of_runs A.pacing.exec_tridiag) hbefore
  | compocor => exact same_of_steps (steps_of_runs A.pacing.exec_compocor) hbefore
  | composupp | compocsupp =>
      exact same_of_steps (steps_of_runs (A.pacing.exec_supplementary _ _)) hbefore
  | goto => exact same_of_steps steps_goto h
  | rem => exact absurd rfl hrem
  | ifBlock => exact same_of_steps steps_ifStatement hnear
  | endIf => exact .ok (.of_joined hstart)
  | whileBlock => exact same_of_steps (steps_whileStatement hplace) hnear
  | endWhile => exact same_of_steps steps_endWhile hstart
  | quit =>
      have hline : Outcome.ended token'.start.line = .ended token.start.line :=
        congrArg Outcome.ended hplace.line_eq
      exact .ok ⟨congrArg some hline, h.store_eq, h.world_eq, h.lexer.line_eq, fun _ => hstart⟩

/-- One step of aligned machines. -/
theorem same_step (h : Joined A.SameControl (A.Aligned .start) m m')
    (hcase : A.spelling = .anyCase → m.CaseFree) : A.Same (step m) (step m') := by
  cases h.lexer.next with
  | fault left right accord =>
      rw [step_of_next_error left, step_of_next_error right]
      refine .error (Error.accords_parse accord) { h with lexer := ?_ }
      exact (line_next_of_error right).trans (h.lexer.line_eq.trans (line_next_of_error left).symm)
  | finish left right accord line_eq kind_eq =>
      rw [step_of_kind left kind_eq, step_of_kind right (accord.kind_eq.trans kind_eq)]
      exact .ok ⟨rfl, h.store_eq, h.world_eq, Aligned.sameLine_next left right line_eq,
        fun hnone => (nomatch hnone)⟩
  | @token token token' left right accord kind_ne place start within remark =>
      have hwithin (hkind : token.kind ≠ .command .rem) (hgo : token.endsStatement = false) :
          Joined A.SameControl (A.Aligned .within) m.taken m'.taken :=
        { h with lexer := within hgo fun _ => hkind }
      have hrefuse : A.Same
          (.error (.parse (.unexpectedToken token.describe)) m.taken)
          (.error (.parse (.unexpectedToken token'.describe)) m'.taken) :=
        .error (Error.accords_parse (congrArg ParseError.unexpectedToken accord.describe_fold_eq))
          { h with lexer := Aligned.sameLine_next left right place.line_eq }
      have hpass (hkind : token.kind ≠ .command .rem) :
          A.Same (.ok none m.taken) (.ok none m'.taken) :=
        .ok (.of_joined { h with lexer := (start hkind).1 })
      rw [step_of_next left, step_of_next right]
      unfold statement
      rw [accord.kind_eq]
      cases hkind : token.kind with
      | word =>
          have hgo : token.endsStatement = false := by
            simp [Token.endsStatement_eq_false_iff, hkind]
          have htaken := hwithin (by simp [hkind]) hgo
          exact same_of_steps (steps_of_runs (A.pacing.exec_assignment accord.fold_eq))
            { htaken with lexer := htaken.lexer.near }
      | command command =>
          by_cases hrem : command = .rem
          · subst hrem
            exact same_of_steps steps_remark { h with lexer := remark hkind }
          · have hgo : token.endsStatement = false := by
              simp [Token.endsStatement_eq_false_iff, hkind]
            exact same_command hrem place (hwithin (by simpa [hkind] using hrem) hgo)
              fun hspelling => hcase hspelling token command left hkind
      | delimiter mark =>
          cases mark with
          | endOfScript => exact absurd hkind kind_ne
          | endOfLine => exact hpass (by simp [hkind])
          | _ => exact hrefuse
      | label => exact hpass (by simp [hkind])
      | number | function _ | string | quote => exact hrefuse

/-! ## Runs -/

theorem report_error {e e' : Error} (herror : e.Accords A.spelling e')
    (h : Parted SameLine m m') :
    (report (some (.error (m'.diagnose e')), m')).respell A.spelling.fold =
      (report (some (.error (m.diagnose e)), m)).respell A.spelling.fold := by
  have herror' : e'.respell A.spelling.fold = e.respell A.spelling.fold := herror
  have hline : m'.reader.lexer.line = m.reader.lexer.line := h.lexer
  simp [report, Report.respell, diagnose, Except.mapError, herror', hline, h.store_eq, h.world_eq]

/-- Flushing the output comes to the same, and is reported on the same line if it fails. -/
theorem report_finish (hstore : m'.store = m.store) (hworld : m'.world = m.world)
    (hline : m'.reader.lexer.line = m.reader.lexer.line) (outcome : Outcome) :
    (report (some (m'.finish outcome).1, (m'.finish outcome).2)).respell A.spelling.fold =
      (report (some (m.finish outcome).1, (m.finish outcome).2)).respell A.spelling.fold := by
  unfold finish
  rw [hworld]
  rcases m.world.flush with ⟨e | _, world⟩
  · exact report_error (.refl _) ⟨hline, hstore, rfl⟩
  · simp [report, withNote, hstore]

/-- The runs of aligned machines come to the same, whatever the number of their steps. -/
theorem report_runFrom (h : Joined A.SameControl (A.Aligned .start) m m') (fuel : Nat)
    (hcase : A.spelling = .anyCase →
      ∀ count now, runFrom count m = (none, now) → now.CaseFree) :
    (report (runFrom fuel m')).respell A.spelling.fold =
      (report (runFrom fuel m)).respell A.spelling.fold := by
  induction fuel generalizing m m' with
  | zero => simp [runFrom, report, h.store_eq, h.world_eq]
  | succ fuel ih =>
      have hstep := same_step h fun hspelling => hcase hspelling 0 m rfl
      unfold runFrom
      generalize hleft : step m = result, step m' = result' at hstep
      cases hstep with
      | error accord hparted => exact report_error accord hparted
      | @ok outcome outcome' s s' hok =>
          obtain ⟨rfl, hstore, hworld, hline, hjoined⟩ := hok
          cases outcome' with
          | some outcome => exact report_finish hstore hworld hline outcome
          | none =>
              refine ih (hjoined rfl) fun hspelling count now hnow => ?_
              refine hcase hspelling (count + 1) now ?_
              rw [runFrom, hleft]
              exact hnow

theorem aligned_reset {a b : Lexer} (hleft : a.source = A.left) (hright : b.source = A.right)
    (hparams : a.params = A.params) (hparams' : b.params = A.params) :
    A.Aligned .start a.reset b.reset :=
  ⟨hleft, hright, hparams, hparams', rfl, [], A.left, [], A.right, faces_reset hleft,
    faces_reset hright, rfl, A.start⟩

/-- The labels of both scripts are the same, or collecting them fails alike. -/
theorem sameLabels_collected
    (h : A.Aligned .start m.reader.lexer.reset m'.reader.lexer.reset)
    (hlimits : m'.limits = m.limits) : A.SameLabels m.collected m'.collected := by
  have hbound := h.sound_left.ahead_lt_tokenBound
  have hbound' := h.sound_right.ahead_lt_tokenBound
  unfold collected
  rw [hlimits]
  exact sameLabels_collectFrom _ ((Nat.min_le_left _ _).trans_lt hbound)
    ((Nat.min_le_right _ _).trans_lt hbound') .nil h le_rfl [] []

/-- The runs of two scripts that correspond come to the same, from the same variables,
limits and world. -/
theorem report_run (hleft : m.reader.lexer.source = A.left)
    (hright : m'.reader.lexer.source = A.right) (hparams : m.reader.lexer.params = A.params)
    (hparams' : m'.reader.lexer.params = A.params) (hstore : m'.store = m.store)
    (hlimits : m'.limits = m.limits) (hworld : m'.world = m.world) (fuel : Nat)
    (hcase : A.spelling = .anyCase → ∀ count now, run count m = (none, now) → now.CaseFree) :
    (report (run fuel m')).respell A.spelling.fold =
      (report (run fuel m)).respell A.spelling.fold := by
  have haligned := aligned_reset hleft hright hparams hparams'
  cases sameLabels_collected haligned hlimits with
  | error left right accord line =>
      obtain ⟨_, hrun⟩ := prepare_of_error left
      obtain ⟨_, hrun'⟩ := prepare_of_error right
      unfold run
      rw [hrun, hrun']
      exact report_error accord ⟨line, hstore, hworld⟩
  | ok left right hindex =>
      obtain ⟨_, hrun⟩ := prepare_of_ok left
      obtain ⟨_, hrun'⟩ := prepare_of_ok right
      have hready := run_of_prepare (congrArg Prod.fst hrun)
      rw [hready, run_of_prepare (congrArg Prod.fst hrun')]
      have hmoves := m.moves_collecting m.reader.lexer.tokenBound
      have hmoves' := m'.moves_collecting m'.reader.lexer.tokenBound
      refine report_runFrom ?_ fuel fun hspelling count now hnow =>
        hcase hspelling count now ((hready count).trans hnow)
      exact
        { lexer := aligned_reset (hmoves.source_eq.trans hleft) (hmoves'.source_eq.trans hright)
            (hmoves.params_eq.trans hparams) (hmoves'.params_eq.trans hparams')
          store_eq := hstore
          limits_eq := hlimits
          world_eq := hworld
          control := ⟨hindex, .nil, congrArg Limits.maxLoopDepth hlimits⟩ }

/-- If all letters count, the runs come to the same altogether. -/
theorem report_run_of_exact (hspelling : A.spelling = .exact)
    (hleft : m.reader.lexer.source = A.left) (hright : m'.reader.lexer.source = A.right)
    (hparams : m.reader.lexer.params = A.params) (hparams' : m'.reader.lexer.params = A.params)
    (hstore : m'.store = m.store) (hlimits : m'.limits = m.limits) (hworld : m'.world = m.world)
    (fuel : Nat) : report (run fuel m') = report (run fuel m) := by
  have hreport := report_run hleft hright hparams hparams' hstore hlimits hworld fuel
    fun hcase => by rw [hspelling] at hcase; cases hcase
  rwa [hspelling, Report.respell_exact, Report.respell_exact] at hreport

end Alignment

end MatrixScript
