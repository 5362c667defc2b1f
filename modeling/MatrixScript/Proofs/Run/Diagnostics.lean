import MatrixScript.Proofs.Lexing.Excerpt
import MatrixScript.Proofs.Run.Cursors
import MatrixScript.Proofs.Run.InLine

/-!
# Errors name the statement that failed

An error carries the line of the last token taken, and the text of that line.  A
statement takes no token after the end of its line, unless it jumps or passes over a
block (`step_confined`), so the line is that of its first token, whatever jumps came
before (`run_error_names_statement`).
-/

namespace MatrixScript

open Lexer Cursor

/-! ## Passing over a block -/

/-- The only error that reading a token can give. -/
theorem Lexer.next_error {lexer : Lexer} {e : ParseError} (h : lexer.next.outcome = .error e) :
    ∃ text, e = .invalidParameter text := by
  obtain ⟨_, _, hnext⟩ | ⟨_, _, _, hnext⟩ | ⟨_, _, hscan, hnext⟩ := next_cases lexer <;>
    rw [hnext] at h <;> cases h
  unfold Lexer.scan at hscan
  simp only at hscan
  split at hscan
  · cases hscan
  · rename_i piece _
    cases hcontent : piece.content lexer.params with
    | ok found => rw [hcontent] at hscan; cases hscan
    | error e' =>
        rw [hcontent] at hscan
        cases hscan
        exact ⟨_, (text_of_content_error hcontent).2⟩

namespace Flow

/-- The errors of passing over a block. -/
def Block.Fails (block : Block) (e : Error) : Prop :=
  e = .flow block.unclosed ∨ ∃ text, e = .parse (.invalidParameter text)

theorem throws_next (block : Block) : Throws block.Fails Reader.next := by
  intro r e r' h
  cases hnext : r.lexer.next.outcome with
  | ok token => rw [Reader.next_of_ok hnext] at h; cases h
  | error e' =>
      rw [Reader.next_of_error hnext] at h
      cases h
      obtain ⟨text, rfl⟩ := next_error hnext
      exact .inr ⟨text, rfl⟩

theorem throws_skipFrom (block : Block) (bound depth : Nat) :
    Throws block.Fails (skipFrom block bound depth) := by
  induction bound generalizing depth with
  | zero => exact throws_throw (.inl rfl)
  | succ bound ih =>
      refine (throws_next block).bind fun token => ?_
      split
      · exact throws_throw (.inl rfl)
      · split
        · exact fun r e r' h => ih depth _ e r' h
        · split
          · exact ih (depth + 1)
          · split
            · split
              · exact throws_pure ()
              · exact ih _
            · exact ih depth
      · exact ih depth

theorem throws_skip (block : Block) : Throws block.Fails (skip block) :=
  fun r e r' h => throws_skipFrom block r.lexer.tokenBound 0 r e r' h

end Flow

/-! ## Statements that leave their line -/

namespace Machine

variable {α : Type} {token : Token} {m : Machine}

/-- The condition of an `if` or a `while`, which is read up to the reader given, does not
hold. -/
structure Falsified (token : Token) (m : Machine) (block : Flow.Block) (reader : Reader) :
    Prop where
  block_eq : block = .ifBlock ∨ block = .whileBlock
  kind_eq : token.kind = .command block.opening
  condition : ∃ r, r.lexer = m.lexer ∧
    Expression.condition ⟨m.store, m.limits.maxElements⟩ r = .ok false reader
  stays : Stays m.lexer reader.lexer

/-- The ways in which a statement reads on after the end of its line.  Up to the jump or
the block, it has not taken that end. -/
inductive Leaves (token : Token) (m : Machine) : EStateM.Result Error Machine α → Prop where
  | jumped {a : α} {m' : Machine} {lexer : Lexer} {target : Cursor}
      (hkind : token.kind = .command .goto ∨ token.kind = .command .endWhile)
      (hstays : Stays m.lexer lexer) (hseek : m'.lexer = lexer.seek target) :
      Leaves token m (.ok a m')
  | skipped {a : α} {m' : Machine} {block : Flow.Block} {reader : Reader}
      (hfalse : Falsified token m block reader)
      (hskip : Flow.skip block reader = .ok () m'.reader) : Leaves token m (.ok a m')
  | unclosed {e : Error} {m' : Machine} {block : Flow.Block} {reader : Reader}
      (hfalse : Falsified token m block reader)
      (hskip : Flow.skip block reader = .error e m'.reader) : Leaves token m (.error e m')

/-- A statement stays on its line, or it leaves it in one of these ways. -/
def Confined (token : Token) (m : Machine) (result : EStateM.Result Error Machine α) : Prop :=
  KeepsLine Machine.lexer m.lexer result ∨ Leaves token m result

theorem Confined.bind_pure {x : ExecM α} {β : Type} {b : β} (h : Confined token m (x m)) :
    Confined token m ((x >>= fun _ => pure b) m) := by
  rcases h with hkeeps | hleaves
  · exact .inl (hkeeps.bind fun _ _ _ => inLine_pure b)
  · right
    cases hx : x m with
    | ok a m' =>
        rw [bind_of_eq_ok hx]
        rw [hx] at hleaves
        cases hleaves with
        | jumped hkind hstays hseek => exact .jumped hkind hstays hseek
        | skipped hfalse hskip => exact .skipped hfalse hskip
    | error e m' =>
        rw [bind_of_eq_error hx]
        rw [hx] at hleaves
        cases hleaves with
        | unclosed hfalse hskip => exact .unclosed hfalse hskip

theorem confined_of_inLine {x : ExecM α} (h : InLine Machine.lexer x) :
    Confined token m (x m) :=
  .inl (h m)

/-- A statement that has stayed on its line so far goes on reading there. -/
theorem confined_bind {x : ExecM α} {β : Type} {f : α → ExecM β} {m₁ : Machine}
    (hstays : Stays m.lexer m₁.lexer) (hx : InLine Machine.lexer x)
    (hf : ∀ a m₂, x m₁ = .ok a m₂ → Stays m.lexer m₂.lexer → Confined token m (f a m₂)) :
    Confined token m ((x >>= f) m₁) := by
  have hfirst := (hx m₁).after hstays
  cases hxs : x m₁ with
  | ok a m₂ =>
      rw [hxs] at hfirst
      rw [bind_of_eq_ok hxs]
      cases hfirst with
      | ok h => exact hf a m₂ hxs h
  | error e m₂ =>
      rw [hxs] at hfirst
      rw [bind_of_eq_error hxs]
      cases hfirst with
      | error h => exact .inl (.error h)

end Machine

namespace Flow

open Machine

variable {token : Token} {m : Machine}

theorem confined_goto (hkind : token.kind = .command .goto) : Confined token m (goto m) := by
  change Confined token m ((ExecM.read Reader.next >>= _) m)
  cases hnext : m.lexer.next.outcome with
  | error e =>
      rw [bind_of_eq_error (ExecM.read_eq_error.mpr ⟨_, Reader.next_of_error hnext, rfl⟩)]
      exact .inl (.error (.within (Pace.fault hnext).stays))
  | ok target =>
      have hread : ExecM.read Reader.next m = .ok target m.taken :=
        ExecM.read_eq_ok.mpr ⟨_, Reader.next_of_ok hnext, rfl⟩
      rw [bind_of_eq_ok hread]
      split
      · rename_i hends
        exact .inl (.error (.upToEnd .refl hnext hends))
      · rename_i hgo
        have hstays := (Pace.token hnext (Bool.eq_false_iff.mpr hgo)).stays
        rw [get_bind_apply]
        cases m.taken.labels.find? target.lexeme with
        | none => exact .inl (.error (.within hstays))
        | some label => exact .inr (.jumped (.inl hkind) hstays rfl)

/-- What follows the condition of a block. -/
theorem confined_skip {block : Block} {reader : Reader} {m' : Machine}
    (hfalse : Falsified token m block reader) (hreader : m'.reader = reader) :
    Confined token m (ExecM.read (skip block) m') := by
  subst hreader
  right
  unfold ExecM.read
  cases hskip : skip block m'.reader with
  | ok a r => exact .skipped hfalse hskip
  | error e r => exact .unclosed hfalse hskip

theorem inLine_env : InLine Machine.lexer Statement.env :=
  inLine_get_bind fun _ => inLine_pure _

theorem confined_ifStatement (hkind : token.kind = .command .ifBlock) :
    Confined token m (ifStatement m) := by
  refine confined_bind .refl inLine_env fun _ _ henv _ => ?_
  cases henv
  refine confined_bind .refl (ExecM.inLine_read Expression.inLine_condition)
    fun holds m' hrun hstays => ?_
  obtain ⟨r, hread, rfl⟩ := ExecM.read_eq_ok.mp hrun
  cases holds with
  | true => exact .inl (.ok hstays)
  | false => exact confined_skip ⟨.inl rfl, hkind, ⟨m.reader, rfl, hread⟩, hstays⟩ rfl

theorem confined_whileStatement (hkind : token.kind = .command .whileBlock) :
    Confined token m (whileStatement token.start m) := by
  rw [whileStatement]
  cases hpush : m.loops.push token.start with
  | error e =>
      rw [bind_of_eq_error (pushLoop_of_error hpush)]
      exact .inl (.error (.within .refl))
  | ok loops =>
      rw [bind_of_eq_ok (pushLoop_of_ok hpush), get_bind_apply]
      refine confined_bind .refl (ExecM.inLine_read (Reader.inLine_note _ _)) fun _ _ hnote _ => ?_
      cases hnote
      refine confined_bind .refl inLine_env fun _ _ henv _ => ?_
      cases henv
      refine confined_bind .refl (ExecM.inLine_read Expression.inLine_condition)
        fun holds m' hrun hstays => ?_
      obtain ⟨r, hread, rfl⟩ := ExecM.read_eq_ok.mp hrun
      cases holds with
      | true => exact .inl (.ok hstays)
      | false =>
          -- The loop that has just been opened is closed again.
          have hpop : loops.pop = .ok (token.start, m.loops) := by
            rw [(LoopStack.push_eq_ok.mp hpush).2]
            rfl
          rw [if_neg Bool.false_ne_true, bind_of_eq_ok (popLoop_of_ok hpop)]
          exact confined_skip ⟨.inr rfl, hkind, ⟨_, by rfl, hread⟩, hstays⟩ rfl

theorem confined_endWhile (hkind : token.kind = .command .endWhile) :
    Confined token m (endWhile m) := by
  rw [endWhile]
  cases hpop : m.loops.pop with
  | error e =>
      rw [bind_of_eq_error (popLoop_of_error hpop)]
      exact .inl (.error (.within .refl))
  | ok popped =>
      obtain ⟨marker, loops⟩ := popped
      rw [bind_of_eq_ok (popLoop_of_ok hpop)]
      exact .inr (.jumped (.inr hkind) .refl rfl)

end Flow

namespace Machine

variable {token : Token} {m m' : Machine}

theorem confined_command {word : Command} (hkind : token.kind = .command word) :
    Confined token m (command word token m) := by
  cases word with
  | load => exact .bind_pure (confined_of_inLine Statement.inLine_load)
  | save => exact .bind_pure (confined_of_inLine Statement.inLine_save)
  | print => exact .bind_pure (confined_of_inLine Statement.inLine_print)
  | rem => exact .bind_pure (confined_of_inLine Statement.inLine_remark)
  | tridiag => exact .bind_pure (confined_of_inLine Statement.inLine_tridiag)
  | compocor => exact .bind_pure (confined_of_inLine Statement.inLine_compocor)
  | composupp => exact .bind_pure (confined_of_inLine (Statement.inLine_supplementary _ _))
  | compocsupp => exact .bind_pure (confined_of_inLine (Statement.inLine_supplementary _ _))
  | goto => exact .bind_pure (Flow.confined_goto hkind)
  | ifBlock => exact .bind_pure (Flow.confined_ifStatement hkind)
  | whileBlock => exact .bind_pure (Flow.confined_whileStatement hkind)
  | endWhile => exact .bind_pure (Flow.confined_endWhile hkind)
  | endIf => exact .inl (.ok .refl)
  | quit => exact .inl (.ok .refl)

theorem confined_statement (token : Token) (m : Machine) :
    Confined token m (statement token m) := by
  unfold statement
  cases hkind : token.kind with
  | word => exact .bind_pure (confined_of_inLine (Statement.inLine_assignment _))
  | command word => exact confined_command hkind
  | delimiter mark =>
      cases mark with
      | endOfLine | endOfScript => exact .inl (.ok .refl)
      | less | greater | equals | plus | minus | star | backtick | tilde | ampersand | caret
      | pipe | leftParen | rightParen | comma => exact .inl (.error (.within .refl))
  | label => exact .inl (.ok .refl)
  | number | function _ | string | quote => exact .inl (.error (.within .refl))

theorem statement_of_endsStatement (h : token.endsStatement = true) (m : Machine) :
    ∃ outcome, statement token m = .ok outcome m := by
  unfold statement
  rcases Token.endsStatement_iff.mp h with hkind | hkind <;> rw [hkind] <;> exact ⟨_, rfl⟩

/-- A step takes no token after the end of its line, unless it jumps or passes over a
block. -/
theorem step_confined (m : Machine) :
    Consumes m.lexer (finalState (step m)).lexer ∨
      ∃ token, m.lexer.next.outcome = .ok token ∧ Leaves token m.taken (step m) := by
  cases hnext : m.lexer.next.outcome with
  | error e =>
      rw [step_of_next_error hnext]
      exact .inl (.within (Pace.fault hnext).stays)
  | ok token =>
      rw [step_of_next hnext]
      cases hends : token.endsStatement with
      | true =>
          obtain ⟨outcome, hrun⟩ := statement_of_endsStatement hends m.taken
          rw [hrun]
          exact .inl (.upToEnd .refl hnext hends)
      | false =>
          have hfirst := (Pace.token hnext hends).stays
          rcases confined_statement token m.taken with hkeeps | hleaves
          · exact .inl (hfirst.consumes hkeeps.consumes)
          · exact .inr ⟨token, rfl, hleaves⟩

/-! ## Errors of runs -/

/-- The errors that passing over a block can end with, which may come up on another line
than that of the statement. -/
def FailsOnWay (e : Error) : Prop :=
  (∃ text, e = .parse (.invalidParameter text)) ∨ e = .flow .ifWithoutEndif ∨
    e = .flow .whileWithoutEndwhile

theorem Leaves.failsOnWay {α : Type} {e : Error}
    (h : Leaves token m (.error e m' : EStateM.Result Error Machine α)) : FailsOnWay e := by
  cases h with
  | unclosed hfalse hskip =>
      rcases Flow.throws_skip _ _ e _ hskip with hunclosed | htext
      · rcases hfalse.block_eq with rfl | rfl
        · exact .inr (.inl hunclosed)
        · exact .inr (.inr hunclosed)
      · exact .inl htext

/-- A step that fails with any other error has taken a first token, and reports the error
on its line. -/
theorem line_of_step_error {e : Error} (hsound : m.lexer.Sound) (h : step m = .error e m')
    (he : ¬ FailsOnWay e) :
    ∃ token, m.lexer.next.outcome = .ok token ∧ m'.lexer.line = token.start.line := by
  cases hnext : m.lexer.next.outcome with
  | error cause =>
      rw [step_of_next_error hnext] at h
      cases h
      obtain ⟨text, rfl⟩ := next_error hnext
      exact absurd (.inl ⟨text, rfl⟩) he
  | ok token =>
      rw [step_of_next hnext] at h
      refine ⟨token, rfl, ?_⟩
      have hgo : token.endsStatement = false := by
        refine Bool.eq_false_iff.mpr fun hends => ?_
        obtain ⟨outcome, hrun⟩ := statement_of_endsStatement hends m.taken
        rw [h] at hrun
        cases hrun
      have hconfined := confined_statement token m.taken
      rw [h] at hconfined
      rcases hconfined with hkeeps | hleaves
      · exact hkeeps.consumes.line_eq (hsound.onRow_next hnext hgo)
      · exact absurd hleaves.failsOnWay he

/-- The step that ends a run has taken one token, and has done nothing else. -/
theorem taken_of_step_some {outcome : Outcome} (h : step m = .ok (some outcome) m') :
    ∃ token, m.lexer.next.outcome = .ok token ∧ m' = m.taken := by
  cases hnext : m.lexer.next.outcome with
  | error cause =>
      rw [step_of_next_error hnext] at h
      cases h
  | ok token =>
      rw [step_of_next hnext] at h
      refine ⟨token, rfl, ?_⟩
      unfold statement at h
      cases hkind : token.kind with
      | word =>
          rw [hkind] at h
          obtain ⟨_, _, _, hnone⟩ := bind_eq_ok.mp h
          cases hnone
      | command word =>
          rw [hkind] at h
          cases word with
          | quit => cases h; rfl
          | endIf => cases h
          | _ =>
              obtain ⟨_, _, _, hnone⟩ := bind_eq_ok.mp h
              cases hnone
      | delimiter mark => rw [hkind] at h; cases mark <;> cases h; rfl
      | label | number | function _ | string | quote => rw [hkind] at h; cases h

/-- If the output cannot be flushed, that is the error, and only the world has changed. -/
theorem finish_eq_error {outcome : Outcome} {err : ScriptError} {last : Machine}
    (h : m.finish outcome = (.error err, last)) :
    ∃ reason, err = last.diagnose (.file (.access "output" (.refused reason))) ∧
      last.reader = m.reader := by
  unfold finish World.flush at h
  cases hcall : m.world.call with
  | mk answer world =>
      rw [hcall] at h
      cases answer with
      | none => cases h
      | some refusal => cases h; exact ⟨refusal.reason, rfl, rfl⟩

/-- A run fails where it has come to: in the next step, or because that is the last one and
the output cannot be flushed after it. -/
def FailsAt (m : Machine) (err : ScriptError) (last : Machine) : Prop :=
  step m = .error err.error last ∨
    ∃ outcome stopped, step m = .ok (some outcome) stopped ∧
      stopped.finish outcome = (.error err, last)

theorem exists_failsAt_of_runFrom_error {fuel : Nat} {err : ScriptError} {last : Machine}
    (h : runFrom fuel m = (some (.error err), last)) :
    ∃ count < fuel, ∃ now, runFrom count m = (none, now) ∧ now.FailsAt err last ∧
      err = last.diagnose err.error := by
  induction fuel generalizing m with
  | zero => cases h
  | succ fuel ih =>
      rw [runFrom] at h
      cases hstep : step m with
      | error e stopped =>
          rw [hstep] at h
          cases h
          exact ⟨0, Nat.succ_pos fuel, m, rfl, .inl hstep, rfl⟩
      | ok outcome m₁ =>
          rw [hstep] at h
          cases outcome with
          | some outcome =>
              have hflush : m₁.finish outcome = (.error err, last) := by
                obtain ⟨hresult, hlast⟩ := Prod.mk.inj h
                exact Prod.ext (Option.some.inj hresult) hlast
              obtain ⟨reason, rfl, _⟩ := finish_eq_error hflush
              exact ⟨0, Nat.succ_pos fuel, m, rfl, .inr ⟨outcome, m₁, hstep, hflush⟩, rfl⟩
          | none =>
              obtain ⟨count, hcount, now, hrun, hfails⟩ := ih h
              refine ⟨count + 1, by omega, now, ?_, hfails⟩
              rw [runFrom, hstep]
              exact hrun

/-- Wherever a run fails with any other error, it reports the line of the first token of
its last step. -/
theorem FailsAt.line_eq {err : ScriptError} {last : Machine} (h : m.FailsAt err last)
    (hsound : m.lexer.Sound) (hway : ¬ FailsOnWay err.error) :
    ∃ token, m.lexer.next.outcome = .ok token ∧ last.lexer.line = token.start.line := by
  rcases h with hstep | ⟨outcome, stopped, hstep, hflush⟩
  · exact line_of_step_error hsound hstep hway
  · obtain ⟨token, hnext, rfl⟩ := taken_of_step_some hstep
    obtain ⟨_, _, hreader⟩ := finish_eq_error hflush
    refine ⟨token, hnext, ?_⟩
    calc last.lexer.line = m.taken.lexer.line := congrArg (·.lexer.line) hreader
      _ = token.start.line := Lexer.line_next hnext

/-- An error that is none of input and output comes from a step. -/
theorem FailsAt.step_eq {err : ScriptError} {last : Machine} (h : m.FailsAt err last)
    (hkind : err.error.kind ≠ .io) : step m = .error err.error last := by
  rcases h with hstep | ⟨outcome, stopped, _, hflush⟩
  · exact hstep
  · obtain ⟨_, rfl, _⟩ := finish_eq_error hflush
    exact absurd rfl hkind

/-- Errors name the statement that failed.  If a run fails with any error but those that
come up on the way to another line, then it does so in a step whose first token is on the
line that is reported, and the excerpt is the text between the line feeds around that
token.  The same line is reported if the step is the last one and the output cannot be
flushed after it.  No step of a run takes a token after the end of its line, unless it
jumps or passes over a block whose condition does not hold. -/
theorem run_error_names_statement (source : String) (params : List String) (limits : Limits)
    (world : World) (store : Store) (fuel : Nat) :
    let m := { Machine.new source params limits world with store := store }
    (∀ ready err last, (prepare m).1 = .ok ready → run fuel m = (some (.error err), last) →
      ¬ FailsOnWay err.error →
      ∃ count < fuel, ∃ now token text, run count m = (none, now) ∧
        now.lexer.next.outcome = .ok token ∧ now.FailsAt err last ∧
        err.line = token.start.line ∧ LineAround source.toList token.start text ∧
        err.excerpt = String.ofList (Text.trim text)) ∧
    let now := (run fuel m).2
    Consumes now.lexer (finalState (step now)).lexer ∨
      ∃ token, now.lexer.next.outcome = .ok token ∧ Leaves token now.taken (step now) := by
  intro m
  have hm : Located source.toList params m := located_new source params limits world store
  refine ⟨?_, step_confined _⟩
  intro ready err last hready hrun hway
  have hready' := run_of_prepare hready
  rw [hready'] at hrun
  obtain ⟨count, hcount, now, hnow, hfails, hdiagnose⟩ := exists_failsAt_of_runFrom_error hrun
  rw [← hready'] at hnow
  have hlocated : Located source.toList params now := by
    have hall := hm.run count
    rwa [hnow] at hall
  obtain ⟨token, hnext, hline⟩ := hfails.line_eq hlocated.sound hway
  obtain ⟨text, htext⟩ := exists_lineAround (hlocated.taken_token hnext).1
  have hsource : last.lexer.source = source.toList := by
    have hall := hm.run fuel
    rw [hready', hrun] at hall
    exact hall.source_eq
  refine ⟨count, hcount, now, token, text, hnow, hnext, hfails, ?_, htext, ?_⟩
  · rw [hdiagnose]
    exact hline
  · rw [← hsource] at htext
    rw [hdiagnose, ← lineText_of_lineAround htext, ← hline]
    rfl

/-- After a jump, the line of the statement that fails is reported, and not the one before
or after it. -/
theorem run_error_names_statement_after_jump :
    let source := "goto fin\nprint B\n:fin\n  print A \r\nprint C\n"
    let m := Machine.new source [] {} {}
    ∃ err last count now token text, run 9 m = (some (.error err), last) ∧
      run count m = (none, now) ∧ now.lexer.next.outcome = .ok token ∧
      step now = .error err.error last ∧ err.line = 4 ∧ token.start.line = 4 ∧
      LineAround source.toList token.start text ∧ String.ofList (Text.trim text) = "print A" := by
  intro source m
  have hprepared : (prepare m).1.toOption.isSome = true := by decide +kernel
  have hfails : (run 9 m).1.map (Except.mapError fun err : ScriptError =>
      (err.line, err.excerpt, err.error.kind)) =
        some (.error (4, "print A", .unboundVariable)) := by decide +kernel
  obtain ⟨ready, hready⟩ : ∃ ready, (prepare m).1 = .ok ready := by
    cases hprepare : (prepare m).1 with
    | ok ready => exact ⟨ready, rfl⟩
    | error e => rw [hprepare] at hprepared; cases hprepared
  obtain ⟨result, hresult, hmap⟩ := Option.map_eq_some_iff.mp hfails
  cases result with
  | ok outcome => cases hmap
  | error err =>
      obtain ⟨hline, hexcerpt, hkind⟩ : err.line = 4 ∧ err.excerpt = "print A" ∧
          err.error.kind = .unboundVariable := by
        simpa [Except.mapError] using hmap
      have hway : ¬ FailsOnWay err.error := by
        rintro (⟨text, he⟩ | he | he) <;> rw [he] at hkind <;> cases hkind
      have hrun : run 9 m = (some (.error err), (run 9 m).2) := by rw [← hresult]
      obtain ⟨count, _, now, token, text, hnow, hnext, hstops, hfirst, htext, hshown⟩ :=
        (run_error_names_statement source [] {} {} Store.empty 9).1 ready err _ hready hrun hway
      have hstep := hstops.step_eq (by simp [hkind])
      exact ⟨err, _, count, now, token, text, hrun, hnow, hnext, hstep, hline,
        hfirst.symm.trans hline, htext, hshown.symm.trans hexcerpt⟩

/-- The sink takes the text of the remark, and then it cannot be flushed. -/
example :
    let world : World := { sink := [none, some { reason := "gone" }] }
    let m := Machine.new "rem \"hello\"\nend\nprint A\n" [] {} world
    (run 9 m).1.map (Except.mapError fun err => (err.line, err.excerpt, err.error.message)) =
        some (.error (2, "end", "I/O error on 'output': gone")) ∧
      (run 9 m).2.world.output = "hello\n" := by
  decide +kernel

end Machine

end MatrixScript
