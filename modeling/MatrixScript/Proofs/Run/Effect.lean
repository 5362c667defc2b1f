import MatrixScript.Proofs.Run.Quiet

/-!
# What a step can do

`Effect` lists all that a step can change: it takes tokens, and then it assigns one
variable, writes texts, jumps, opens a loop or goes back to the start of one.
`step_effect` says that there is nothing else, for every machine and for steps that
fail as well as for those that succeed.  What all effects keep holds in every state of
a run (`run_invariant`).
-/

namespace MatrixScript

/-! ## Texts that go out -/

namespace World

/-- Writes a text to the console or to a file. -/
def emit (world : World) (path text : String) : Except FileError Unit × World :=
  if isConsole path then world.say text
  else
    match world.write path text with
    | .error e => (.error e, world)
    | .ok world => (.ok (), world)

/-- Writes texts one after another, each to its own path, up to one that cannot be
written. -/
def emitAll (world : World) : List (String × String) → Except FileError Unit × World
  | [] => (.ok (), world)
  | (path, text) :: rest =>
    match world.emit path text with
    | (.error e, world) => (.error e, world)
    | (.ok (), world) => world.emitAll rest

variable {world world' : World}

theorem emitAll_append {texts more : List (String × String)}
    (h : world.emitAll texts = (.ok (), world')) :
    world.emitAll (texts ++ more) = world'.emitAll more := by
  induction texts generalizing world with
  | nil => cases h; rfl
  | cons first rest ih =>
      obtain ⟨path, text⟩ := first
      rw [emitAll] at h
      rw [List.cons_append, emitAll]
      cases hemit : world.emit path text with
      | mk result next =>
          rw [hemit] at h
          cases result with
          | error e => cases h
          | ok _ => exact ih h

theorem emitAll_singleton (path text : String) :
    world.emitAll [(path, text)] = world.emit path text := by
  rw [emitAll]
  rcases world.emit path text with ⟨_ | _, next⟩ <;> rfl

/-- If not all texts can be written, then one of them is refused after those before it. -/
theorem exists_emit_of_emitAll_error {texts : List (String × String)} {fault : FileError}
    (h : world.emitAll texts = (.error fault, world')) :
    ∃ before path text now, world.emitAll before = (.ok (), now) ∧
      now.emit path text = (.error fault, world') := by
  induction texts generalizing world with
  | nil => cases h
  | cons first rest ih =>
      obtain ⟨path, text⟩ := first
      rw [emitAll] at h
      cases hemit : world.emit path text with
      | mk result next =>
          rw [hemit] at h
          cases result with
          | error e =>
              cases h
              exact ⟨[], path, text, world, rfl, hemit⟩
          | ok _ =>
              obtain ⟨before, path', text', now, hbefore, hfault⟩ := ih h
              refine ⟨(path, text) :: before, path', text', now, ?_, hfault⟩
              rw [emitAll, hemit]
              exact hbefore

theorem output_say (world : World) (text : String) :
    ∃ more, (world.say text).2.output = world.output ++ more := by
  unfold say call
  cases world.sink.head?.join with
  | none => exact ⟨text, rfl⟩
  | some refusal => exact ⟨_, rfl⟩

theorem output_emit (world : World) (path text : String) :
    ∃ more, (world.emit path text).2.output = world.output ++ more := by
  unfold emit
  split
  · exact output_say world text
  · refine ⟨"", ?_⟩
    unfold write
    cases world.disk.write? path text with
    | error fault => exact String.append_empty.symm
    | ok disk => exact String.append_empty.symm

/-- What has been written to the console stays there. -/
theorem output_emitAll (world : World) (texts : List (String × String)) :
    ∃ more, (world.emitAll texts).2.output = world.output ++ more := by
  induction texts generalizing world with
  | nil => exact ⟨"", String.append_empty.symm⟩
  | cons first rest ih =>
      obtain ⟨path, text⟩ := first
      obtain ⟨said, hsaid⟩ := output_emit world path text
      rw [emitAll]
      cases hemit : world.emit path text with
      | mk result next =>
          rw [hemit] at hsaid
          cases result with
          | error e => exact ⟨said, hsaid⟩
          | ok _ =>
              obtain ⟨more, hmore⟩ := ih next
              exact ⟨said ++ more, by rw [hmore, hsaid, String.append_assoc]⟩

end World

open Machine

/-! ## Programs that write -/

section Writing

variable {α β : Type} {m m' : Machine}

/-- Texts have been written, all of them or up to one that could not be, and nothing has
changed besides. -/
def Machine.Wrote (m : Machine) (result : Except FileError Unit) (m' : Machine) : Prop :=
  ∃ reader texts world, Reader.Moves m.reader reader ∧
    m.world.emitAll texts = (result, world) ∧ m' = { m with reader := reader, world := world }

/-- A program writes texts one after another, and fails only where one of them cannot
be written. -/
def Writes (x : ExecM α) : Prop :=
  ∀ m, match x m with
    | .ok _ m' => Wrote m (.ok ()) m'
    | .error e m' => ∃ fault, Wrote m (.error fault) m' ∧ e = .file fault

/-- Either nothing has been written and the reading has failed, or texts have been
written, up to one that could not be. -/
def Machine.Reported (m : Machine) : EStateM.Result Error Machine α → Prop
  | .ok _ m' => Wrote m (.ok ()) m'
  | .error e m' => Quiet m m' ∨ ∃ fault, Wrote m (.error fault) m' ∧ e = .file fault

/-- A program reads first, and then it writes. -/
def Reports (x : ExecM α) : Prop := ∀ m, Reported m (x m)

theorem Machine.Quiet.wrote (h : Quiet m m') : Wrote m (.ok ()) m' :=
  ⟨m'.reader, [], m.world, h.1, rfl, h.2⟩

theorem Machine.Wrote.trans {m'' : Machine} {result : Except FileError Unit}
    (h : Wrote m (.ok ()) m') (h' : Wrote m' result m'') : Wrote m result m'' := by
  obtain ⟨reader, texts, world, hmoves, hemit, rfl⟩ := h
  obtain ⟨reader', texts', world', hmoves', hemit', rfl⟩ := h'
  refine ⟨reader', texts ++ texts', world', hmoves.trans hmoves', ?_, rfl⟩
  rw [World.emitAll_append hemit]
  exact hemit'

theorem Writes.bind {x : ExecM α} {f : α → ExecM β} (hx : Writes x)
    (hf : ∀ a, Writes (f a)) : Writes (x >>= f) := by
  intro m
  have hfirst := hx m
  cases hxs : x m with
  | error e m₁ =>
      rw [hxs] at hfirst
      rw [bind_of_eq_error hxs]
      exact hfirst
  | ok a m₁ =>
      rw [hxs] at hfirst
      rw [bind_of_eq_ok hxs]
      have hsecond := hf a m₁
      cases hfa : f a m₁ with
      | ok b m₂ => rw [hfa] at hsecond; exact hfirst.trans hsecond
      | error e m₂ =>
          rw [hfa] at hsecond
          exact hsecond.imp fun _ => And.imp_left hfirst.trans

theorem Writes.reports {x : ExecM α} (hx : Writes x) : Reports x := by
  intro m
  have hall := hx m
  cases hxs : x m with
  | ok a m' => rw [hxs] at hall; exact hall
  | error e m' => rw [hxs] at hall; exact .inr hall

theorem Reports.of_quiet_bind {x : ExecM α} {f : α → ExecM β} (hx : Evolves Quiet x)
    (hf : ∀ a, Reports (f a)) : Reports (x >>= f) := by
  intro m
  refine quiet_bind quiet_refl hx (fun e m₁ hfirst => .inl hfirst) fun a m₁ _ hfirst => ?_
  have hsecond := hf a m₁
  cases hfa : f a m₁ with
  | ok b m₂ => rw [hfa] at hsecond; exact hfirst.wrote.trans hsecond
  | error e m₂ =>
      rw [hfa] at hsecond
      exact hsecond.imp (IsTrans.trans _ _ _ hfirst) (Exists.imp fun _ =>
        And.imp_left hfirst.wrote.trans)

theorem writes_note (level : Level) (text : String) :
    Writes (ExecM.read (Reader.note level text)) :=
  fun _ => Quiet.wrote ⟨Lexer.Moves.refl, rfl⟩

theorem writes_emit (path text : String) : Writes (ExecM.emit path text) := by
  intro m
  have hone := @World.emitAll_singleton m.world path text
  by_cases hconsole : isConsole path
  · rw [World.emit, if_pos hconsole] at hone
    rw [ExecM.emit, if_pos hconsole, ExecM.say_apply]
    cases hsay : m.world.say text with
    | mk result world =>
        rw [hsay] at hone
        cases result with
        | ok _ => exact ⟨m.reader, _, world, Lexer.Moves.refl, hone, rfl⟩
        | error fault => exact ⟨fault, ⟨m.reader, _, world, Lexer.Moves.refl, hone, rfl⟩, rfl⟩
  · rw [World.emit, if_neg hconsole] at hone
    rw [ExecM.emit, if_neg hconsole, ExecM.writeFile, get_bind_apply]
    cases hwrite : m.world.write path text with
    | error fault =>
        rw [hwrite] at hone
        exact ⟨fault, ⟨m.reader, _, m.world, Lexer.Moves.refl, hone, rfl⟩, rfl⟩
    | ok world =>
        rw [hwrite] at hone
        refine ⟨_, _, world, ?_, hone, rfl⟩
        exact Lexer.Moves.refl

end Writing

namespace Statement

open ExecM (evolves_read evolves_bound)

theorem reports_save : Reports save :=
  .of_quiet_bind (evolves_read (evolves_variableOperand _)) fun _ =>
  .of_quiet_bind (evolves_read (evolves_fileOperand _)) fun _ =>
  .of_quiet_bind (evolves_bound _) fun _ => (writes_emit _ _).reports

theorem reports_print : Reports print :=
  .of_quiet_bind (evolves_read (evolves_variableOperand _)) fun _ =>
  .of_quiet_bind (evolves_bound _) fun _ => (writes_emit _ _).reports

theorem reports_remark : Reports remark := by
  refine .of_quiet_bind (evolves_read Reader.evolves_skipLine) fun text => ?_
  split
  · exact (writes_emit _ _).reports
  · exact fun m => Quiet.wrote ⟨Lexer.Moves.refl, rfl⟩

theorem reports_tridiag : Reports tridiag :=
  .of_quiet_bind (evolves_read (evolves_variableOperand _)) fun _ =>
  .of_quiet_bind (evolves_read (evolves_fileOperand _)) fun _ =>
  .of_quiet_bind (evolves_read (evolves_fileOperand _)) fun _ =>
  .of_quiet_bind (evolves_bound _) fun _ =>
  .of_quiet_bind (evolves_diagonalize _) fun _ =>
  ((writes_note _ _).bind fun _ => (writes_emit _ _).bind fun _ => writes_emit _ _).reports

theorem reports_compocor : Reports compocor :=
  .of_quiet_bind (evolves_read (evolves_variableOperand _)) fun _ =>
  .of_quiet_bind (evolves_read (evolves_variableOperand _)) fun _ =>
  .of_quiet_bind (evolves_read (evolves_variableOperand _)) fun _ =>
  .of_quiet_bind (evolves_read (evolves_fileOperand _)) fun _ =>
  .of_quiet_bind (evolves_read (evolves_fileOperand _)) fun _ =>
  .of_quiet_bind (evolves_read (evolves_fileOperand _)) fun _ =>
  .of_quiet_bind (evolves_read evolves_labelFiles) fun _ =>
  .of_quiet_bind (evolves_bound _) fun _ =>
  .of_quiet_bind (evolves_bound _) fun _ =>
  .of_quiet_bind (evolves_read (ReadM.evolves_ofMatrix _)) fun _ =>
  .of_quiet_bind (evolves_bound _) fun _ =>
  .of_quiet_bind (evolves_read (ReadM.evolves_ofMatrix _)) fun _ =>
  .of_quiet_bind (evolves_pointLabels _ _) fun _ =>
  ((writes_emit _ _).bind fun _ => (writes_note _ _).bind fun _ =>
    (writes_emit _ _).bind fun _ => (writes_note _ _).bind fun _ =>
    (writes_emit _ _).bind fun _ => (writes_note _ _).bind fun _ => writes_emit _ _).reports

theorem reports_supplementary (command : Command) (kind : PointKind) :
    Reports (supplementary command kind) :=
  .of_quiet_bind (evolves_read (evolves_variableOperand _)) fun _ =>
  .of_quiet_bind (evolves_read (evolves_variableOperand _)) fun _ =>
  .of_quiet_bind (evolves_read (evolves_variableOperand _)) fun _ =>
  .of_quiet_bind (evolves_read (evolves_fileOperand _)) fun _ =>
  .of_quiet_bind (evolves_bound _) fun _ =>
  .of_quiet_bind (evolves_bound _) fun _ =>
  .of_quiet_bind (evolves_bound _) fun _ =>
  .of_quiet_bind (evolves_read (ReadM.evolves_ofMatrix _)) fun _ =>
  ((writes_note _ _).bind fun _ => writes_emit _ _).reports

end Statement

/-! ## Effects -/

namespace Machine

/-- The machine after the next token has been taken. -/
def taken (m : Machine) : Machine :=
  { m with reader := ⟨m.reader.lexer.next.lexer, m.reader.journal ++ m.reader.lexer.next.notes⟩ }

/-- The rest of a step whose first token is given. -/
def statement (token : Token) : ExecM (Option Outcome) :=
  match token.kind with
  | .word => do
    Statement.assignment token.lexeme
    pure none
  | .command word => command word token
  | .delimiter .endOfScript => pure (some .finished)
  | .delimiter .endOfLine | .label => pure none
  | _ => (Reader.refuse (.unexpectedToken token.describe) : ReadM (Option Outcome))

variable {m : Machine} {token : Token} {α : Type}

theorem read_next_of_ok (h : m.reader.lexer.next.outcome = .ok token) :
    ExecM.read Reader.next m = .ok token m.taken :=
  ExecM.read_eq_ok.mpr ⟨_, Reader.next_of_ok h, rfl⟩

theorem read_next_of_error {e : ParseError} (h : m.reader.lexer.next.outcome = .error e) :
    ExecM.read Reader.next m = .error (.parse e) m.taken :=
  ExecM.read_eq_error.mpr ⟨_, Reader.next_of_error h, rfl⟩

theorem step_of_next (h : m.reader.lexer.next.outcome = .ok token) :
    step m = statement token m.taken :=
  bind_of_eq_ok (read_next_of_ok h)

theorem step_of_kind {kind : TokenKind} (h : m.reader.lexer.next.outcome = .ok token)
    (hkind : token.kind = kind) :
    step m = statement ⟨kind, token.lexeme, token.start⟩ m.taken := by
  subst hkind
  exact step_of_next h

theorem step_of_next_error {e : ParseError} (h : m.reader.lexer.next.outcome = .error e) :
    step m = .error (.parse e) m.taken :=
  bind_of_eq_error (read_next_of_error h)

theorem quiet_taken (m : Machine) : Quiet m m.taken :=
  ⟨(Lexer.Move.next _).moves, rfl⟩

/-- All that a statement can do to the machine on which its first token has been
taken. -/
inductive Effect (token : Token) (m : Machine) : EStateM.Result Error Machine α → Prop where
  | quiet {result : EStateM.Result Error Machine α} (h : Quiet m (finalState result)) :
      Effect token m result
  | wrote {a : α} {m' : Machine} (h : Wrote m (.ok ()) m') : Effect token m (.ok a m')
  | refused {fault : FileError} {m' : Machine} (h : Wrote m (.error fault) m') :
      Effect token m (.error (.file fault) m')
  | assigned {a : α} {reader : Reader} {name : VariableName} {value : DenseMatrix Float}
      (hword : token.kind = .word) (hname : VariableName.ofText? token.lexeme = some name)
      (hmoves : Reader.Moves m.reader reader) :
      Effect token m (.ok a { m with reader := reader, store := m.store.insert name value })
  | loaded {a : α} {reader : Reader} {input : List Disk.Line} {operand : Token}
      {name : VariableName} {value : DenseMatrix Float}
      (hload : token.kind = .command .load)
      (hoperand : m.reader.lexer.next.lexer.next.outcome = .ok operand)
      (hname : VariableName.ofText? operand.lexeme = some name)
      (hmoves : Reader.Moves m.reader reader) :
      Effect token m (.ok a
        { m with
          reader := reader
          world := { m.world with input := input }
          store := m.store.insert name value })
  | drained {e : Error} {reader : Reader} {input : List Disk.Line}
      (hmoves : Reader.Moves m.reader reader) :
      Effect token m (.error e
        { m with reader := reader, world := { m.world with input := input } })
  | jumped {a : α} {reader : Reader} {label : Label} (hgoto : token.kind = .command .goto)
      (hlabel : label ∈ m.labels.labels) (hmoves : Reader.Moves m.reader reader) :
      Effect token m (.ok a
        { m with reader := { reader with lexer := reader.lexer.seek label.target } })
  | opened {result : EStateM.Result Error Machine α} {reader : Reader} {loops : LoopStack}
      (hwhile : token.kind = .command .whileBlock)
      (hpush : m.loops.push token.start = .ok loops)
      (hmoves : Reader.Moves m.reader reader)
      (h : finalState result = { m with reader := reader, loops := loops }) :
      Effect token m result
  | returned {a : α} {reader : Reader} {marker : Cursor} {loops : LoopStack}
      (hend : token.kind = .command .endWhile) (hpop : m.loops.pop = .ok (marker, loops))
      (hmoves : Reader.Moves m.reader reader) :
      Effect token m (.ok a
        { m with reader := { reader with lexer := reader.lexer.seek marker }, loops := loops })

theorem Effect.bind_pure {x : ExecM α} {β : Type} {b : β} (h : Effect token m (x m)) :
    Effect token m ((x >>= fun _ => pure b) m) := by
  cases hx : x m with
  | ok a m' =>
      rw [bind_of_eq_ok hx]
      rw [hx] at h
      cases h with
      | quiet hquiet => exact .quiet hquiet
      | wrote hwrote => exact .wrote hwrote
      | assigned hword hname hmoves => exact .assigned hword hname hmoves
      | loaded hload hoperand hname hmoves => exact .loaded hload hoperand hname hmoves
      | jumped hgoto hlabel hmoves => exact .jumped hgoto hlabel hmoves
      | opened hwhile hpush hmoves hfinal => exact .opened hwhile hpush hmoves hfinal
      | returned hend hpop hmoves => exact .returned hend hpop hmoves
  | error e m' =>
      rw [bind_of_eq_error hx]
      rw [hx] at h
      cases h with
      | quiet hquiet => exact .quiet hquiet
      | refused hwrote => exact .refused hwrote
      | drained hmoves => exact .drained hmoves
      | opened hwhile hpush hmoves hfinal => exact .opened hwhile hpush hmoves hfinal

theorem Effect.of_reports {x : ExecM α} (hx : Reports x) (m : Machine) :
    Effect token m (x m) := by
  have hall := hx m
  cases hxs : x m with
  | ok a m' => rw [hxs] at hall; exact .wrote hall
  | error e m' =>
      rw [hxs] at hall
      rcases hall with hquiet | ⟨fault, hwrote, rfl⟩
      · exact .quiet hquiet
      · exact .refused hwrote

section Sequence

variable {β : Type} {m₁ : Machine} {x : ExecM α} {f : α → ExecM β}

theorem Effect.of_quiet (hquiet : Quiet m m₁) (hx : Evolves Quiet x) :
    Effect token m (x m₁) :=
  .quiet (IsTrans.trans _ _ _ hquiet (hx m₁))

theorem Effect.of_quiet_bind (hquiet : Quiet m m₁) (hx : Evolves Quiet x)
    (hf : ∀ a m₂, x m₁ = .ok a m₂ → Quiet m m₂ → Effect token m (f a m₂)) :
    Effect token m ((x >>= f) m₁) :=
  quiet_bind hquiet hx (fun _ _ h => .quiet h) hf

end Sequence

end Machine

namespace Statement

open ExecM (evolves_read)

variable {m : Machine} {token : Token}

theorem effect_assignment (hword : token.kind = .word) :
    Effect token m (assignment token.lexeme m) := by
  refine .of_quiet_bind quiet_refl (evolves_read (Reader.evolves_ofParse _))
    fun name _ hname h => ?_
  have hname : VariableName.ofText? token.lexeme = some name := by
    unfold Literal.variableName at hname
    cases hof : VariableName.ofText? token.lexeme with
    | none => rw [hof] at hname; cases hname
    | some found => rw [hof] at hname; cases hname; rfl
  refine .of_quiet_bind h (evolves_read (Reader.evolves_expect _ _)) fun _ _ _ h => ?_
  refine .of_quiet_bind h evolves_env fun _ _ _ h => ?_
  refine .of_quiet_bind h (evolves_read Expression.evolves_evaluate) fun value _ _ h => ?_
  refine .of_quiet_bind h (evolves_read Reader.evolves_expectEnd) fun _ m' _ h => ?_
  obtain ⟨hmoves, heq⟩ := h
  rw [heq]
  exact .assigned hword hname hmoves

/-- Reading a matrix uses up lines of the standard input, and nothing else. -/
theorem world_load (world : World) (path : String) (rows cols : Nat) :
    ∃ input, (world.load path rows cols).2 = { world with input := input } := by
  unfold World.load
  split
  · exact ⟨_, rfl⟩
  · split
    · exact ⟨_, rfl⟩
    · exact ⟨_, rfl⟩

theorem loadMatrix_cases (path : String) (rows cols : Nat) (m : Machine) :
    ∃ input, (∃ e, loadMatrix path rows cols m =
        .error e { m with world := { m.world with input := input } }) ∨
      ∃ value reader, Reader.Moves m.reader reader ∧ loadMatrix path rows cols m =
        .ok value { m with reader := reader, world := { m.world with input := input } } := by
  obtain ⟨input, hworld⟩ := world_load m.world path rows cols
  refine ⟨input, ?_⟩
  rw [loadMatrix, get_bind_apply]
  cases hload : m.world.load path rows cols with
  | mk result world =>
      rw [hload] at hworld
      subst hworld
      cases result with
      | error e => exact .inl ⟨_, rfl⟩
      | ok value =>
          refine .inr ⟨value, _, ?_, rfl⟩
          exact Lexer.Moves.refl

theorem effect_load (hload : token.kind = .command .load) : Effect token m (load m) := by
  refine .of_quiet_bind quiet_refl (evolves_read (evolves_fileOperand _)) fun _ m₁ hpath h => ?_
  refine .of_quiet_bind h (evolves_read (evolves_variableOperand _)) fun name m₂ htarget h => ?_
  -- The variable is named by the second token after the command.
  obtain ⟨operand, hoperand, hname⟩ : ∃ operand,
      m.reader.lexer.next.lexer.next.outcome = .ok operand ∧
        VariableName.ofText? operand.lexeme = some name := by
    obtain ⟨r₁, hread, rfl⟩ := ExecM.read_eq_ok.mp hpath
    obtain ⟨r₂, hread', rfl⟩ := ExecM.read_eq_ok.mp htarget
    obtain ⟨_, _, hlexer, _⟩ := taken_of_fileOperand hread
    obtain ⟨operand, hnext, _, _, hname⟩ := taken_of_variableOperand hread'
    rw [hlexer] at hnext
    exact ⟨operand, hnext, hname⟩
  refine .of_quiet_bind h (evolves_read (evolves_dimensionOperand _)) fun rows _ _ h => ?_
  refine .of_quiet_bind h (evolves_read (evolves_dimensionOperand _)) fun cols _ _ h => ?_
  refine .of_quiet_bind h evolves_get fun _ _ _ h => ?_
  refine .of_quiet_bind h (ExecM.evolves_ofExcept _) fun _ m' _ h => ?_
  obtain ⟨input, ⟨e, hrun⟩ | ⟨value, reader, hmoves, hrun⟩⟩ := loadMatrix_cases _ rows cols m'
  · rw [bind_of_eq_error hrun, h.2]
    exact .drained h.1
  · rw [bind_of_eq_ok hrun, h.2]
    exact .loaded hload hoperand hname (h.1.trans hmoves)

end Statement

namespace LoopStack

variable {loops opened closed : LoopStack} {marker : Cursor}

theorem push_eq_ok : loops.push marker = .ok opened ↔
    loops.depth < loops.capacity ∧
      opened = { loops with markers := marker :: loops.markers } := by
  unfold push
  split
  · rename_i hfull
    simp only [reduceCtorEq, false_iff, not_and]
    omega
  · rename_i hfree
    rw [Except.ok.injEq]
    constructor
    · intro h
      exact ⟨by omega, h.symm⟩
    · intro h
      exact h.2.symm

theorem pop_eq_ok : loops.pop = .ok (marker, closed) ↔
    loops.markers = marker :: closed.markers ∧ closed.capacity = loops.capacity := by
  obtain ⟨markers, capacity⟩ := loops
  obtain ⟨rest, capacity'⟩ := closed
  cases markers with
  | nil => simp [pop]
  | cons first others => simp [pop, and_assoc, eq_comm]

end LoopStack

namespace Flow

open ExecM (evolves_read)

variable {m : Machine} {token : Token}

theorem effect_goto (hgoto : token.kind = .command .goto) : Effect token m (goto m) := by
  refine .of_quiet_bind quiet_refl (evolves_read Reader.evolves_next) fun target m₁ _ h => ?_
  split
  · exact .of_quiet h (evolves_read (Reader.evolves_refuse _))
  · rw [get_bind_apply]
    cases hfind : m₁.labels.find? target.lexeme with
    | none => exact .of_quiet h (evolves_throw _)
    | some label =>
        refine .of_quiet_bind h (evolves_read (Reader.evolves_note _ _)) fun _ m₂ _ h' => ?_
        have hlabel : label ∈ m.labels.labels := by
          have hmem : label ∈ m₁.labels.labels := List.mem_of_find?_eq_some hfind
          rwa [h.2] at hmem
        rw [h'.2]
        exact .jumped hgoto hlabel h'.1

theorem effect_ifStatement : Effect token m (ifStatement m) := by
  refine .of_quiet_bind quiet_refl Statement.evolves_env fun _ _ _ h => ?_
  refine .of_quiet_bind h (evolves_read Expression.evolves_condition) fun _ _ _ h => ?_
  split
  · exact .of_quiet h (evolves_pure _)
  · exact .of_quiet h (evolves_read (evolves_skip _))

theorem pushLoop_of_ok {start : Cursor} {loops : LoopStack}
    (h : m.loops.push start = .ok loops) :
    pushLoop start m = .ok () { m with loops := loops } := by
  rw [pushLoop, get_bind_apply, h]
  rfl

theorem popLoop_of_ok {marker : Cursor} {loops : LoopStack}
    (h : m.loops.pop = .ok (marker, loops)) :
    popLoop m = .ok marker { m with loops := loops } := by
  rw [popLoop, get_bind_apply, h]
  rfl

theorem pushLoop_of_error {start : Cursor} {e : FlowError}
    (h : m.loops.push start = .error e) : pushLoop start m = .error (.flow e) m := by
  rw [pushLoop, get_bind_apply, h]
  rfl

theorem popLoop_of_error {e : FlowError} (h : m.loops.pop = .error e) :
    popLoop m = .error (.flow e) m := by
  rw [popLoop, get_bind_apply, h]
  rfl

theorem effect_whileStatement (hwhile : token.kind = .command .whileBlock) :
    Effect token m (whileStatement token.start m) := by
  rw [whileStatement]
  cases hpush : m.loops.push token.start with
  | error e =>
      rw [bind_of_eq_error (pushLoop_of_error hpush)]
      exact .quiet quiet_refl
  | ok loops =>
      rw [bind_of_eq_ok (pushLoop_of_ok hpush), get_bind_apply]
      -- From here on all is relative to the machine with the open loop.
      have hstop : ∀ {α : Type} (result : EStateM.Result Error Machine α),
          Quiet { m with loops := loops } (finalState result) → Effect token m result :=
        fun _ h => .opened hwhile hpush h.1 h.2
      refine quiet_bind quiet_refl (evolves_read (Reader.evolves_note _ _))
        (fun _ _ h => hstop _ h) fun _ _ _ h => ?_
      refine quiet_bind h Statement.evolves_env (fun _ _ h => hstop _ h) fun _ _ _ h => ?_
      refine quiet_bind h (evolves_read Expression.evolves_condition)
        (fun _ _ h => hstop _ h) fun holds m' _ h => ?_
      cases holds with
      | true => exact hstop _ h
      | false =>
          have hpop : m'.loops.pop = .ok (token.start, m.loops) := by
            rw [h.2, (LoopStack.push_eq_ok.mp hpush).2]
            rfl
          have hclosed : Quiet m { m' with loops := m.loops } :=
            ⟨h.1, by rw [h.2]⟩
          rw [if_neg Bool.false_ne_true, bind_of_eq_ok (popLoop_of_ok hpop)]
          exact .of_quiet hclosed (evolves_read (evolves_skip _))

theorem effect_endWhile (hend : token.kind = .command .endWhile) :
    Effect token m (endWhile m) := by
  rw [endWhile]
  cases hpop : m.loops.pop with
  | error e =>
      rw [bind_of_eq_error (popLoop_of_error hpop)]
      exact .quiet quiet_refl
  | ok popped =>
      obtain ⟨marker, loops⟩ := popped
      rw [bind_of_eq_ok (popLoop_of_ok hpop)]
      refine .returned hend hpop ?_
      exact Lexer.Moves.refl

end Flow

namespace Machine

variable {m : Machine} {token : Token}

theorem command_effect {word : Command} (hkind : token.kind = .command word) :
    Effect token m (command word token m) := by
  cases word with
  | load => exact .bind_pure (Statement.effect_load hkind)
  | save => exact .bind_pure (.of_reports Statement.reports_save m)
  | print => exact .bind_pure (.of_reports Statement.reports_print m)
  | rem => exact .bind_pure (.of_reports Statement.reports_remark m)
  | tridiag => exact .bind_pure (.of_reports Statement.reports_tridiag m)
  | compocor => exact .bind_pure (.of_reports Statement.reports_compocor m)
  | composupp => exact .bind_pure (.of_reports (Statement.reports_supplementary _ _) m)
  | compocsupp => exact .bind_pure (.of_reports (Statement.reports_supplementary _ _) m)
  | goto => exact .bind_pure (Flow.effect_goto hkind)
  | ifBlock => exact .bind_pure Flow.effect_ifStatement
  | whileBlock => exact .bind_pure (Flow.effect_whileStatement hkind)
  | endWhile => exact .bind_pure (Flow.effect_endWhile hkind)
  | endIf => exact .quiet quiet_refl
  | quit => exact .quiet quiet_refl

theorem statement_effect (token : Token) (m : Machine) :
    Effect token m (statement token m) := by
  unfold statement
  cases hkind : token.kind with
  | word => exact .bind_pure (Statement.effect_assignment hkind)
  | command word => exact command_effect hkind
  | delimiter mark => cases mark <;> exact .quiet quiet_refl
  | label | number | function _ | string | quote => exact .quiet quiet_refl

/-- A step fails to find a token, or it takes one and has one of the effects of a
statement. -/
theorem step_effect (m : Machine) :
    (∃ e, step m = .error (.parse e) m.taken) ∨
      ∃ token, m.reader.lexer.next.outcome = .ok token ∧ Effect token m.taken (step m) := by
  cases hnext : m.reader.lexer.next.outcome with
  | error e => exact .inl ⟨e, step_of_next_error hnext⟩
  | ok token =>
      refine .inr ⟨token, rfl, ?_⟩
      rw [step_of_next hnext]
      exact statement_effect token m.taken

/-! ## Invariants of runs -/

/-- When the last step is done, the output is flushed and nothing else changes but the
journal. -/
theorem exists_finish (m : Machine) (outcome : Outcome) :
    ∃ journal, (m.finish outcome).2 =
      { m with reader := { m.reader with journal := journal }, world := m.world.flush.2 } := by
  unfold finish
  rcases m.world.flush with ⟨_ | _, world⟩
  · exact ⟨m.reader.journal, rfl⟩
  · exact ⟨_, rfl⟩

/-- What every step keeps, and what does not depend on the journal and on the world,
holds after any number of steps. -/
theorem runFrom_invariant {P : Machine → Prop} (hstep : ∀ m, P m → P (finalState (step m)))
    (hfinish : ∀ m journal world, P m →
      P { m with reader := { m.reader with journal := journal }, world := world })
    (hm : P m) (fuel : Nat) :
    P (runFrom fuel m).2 := by
  induction fuel generalizing m with
  | zero => exact hm
  | succ fuel ih =>
      have hnext := hstep m hm
      unfold runFrom
      cases hs : step m with
      | error e m' => rw [hs] at hnext; exact hnext
      | ok outcome m' =>
          rw [hs] at hnext
          cases outcome with
          | none => exact ih hnext
          | some outcome =>
              obtain ⟨journal, hlast⟩ := exists_finish m' outcome
              exact hlast ▸ hfinish m' journal _ hnext

/-- What holds once the labels are collected and what every step keeps holds in all
states of a run. -/
theorem run_invariant {P : Machine → Prop}
    (hprepare : P (prepare m).2 ∧ ∀ ready, (prepare m).1 = .ok ready → P ready)
    (hstep : ∀ m, P m → P (finalState (step m)))
    (hfinish : ∀ m journal world, P m →
      P { m with reader := { m.reader with journal := journal }, world := world })
    (fuel : Nat) : P (run fuel m).2 := by
  obtain ⟨hstopped, hready⟩ := hprepare
  unfold run
  rcases hfound : prepare m with ⟨result, m'⟩
  rw [hfound] at hstopped hready
  cases result with
  | error e => exact hstopped
  | ok ready => exact runFrom_invariant hstep hfinish (hready ready rfl) fuel

end Machine

end MatrixScript
