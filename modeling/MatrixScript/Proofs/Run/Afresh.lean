import MatrixScript.Proofs.Monad.Framing
import MatrixScript.Proofs.Run.Cursors
import MatrixScript.Proofs.Run.WellFormed

/-!
# Every run starts afresh

No statement looks at the journal or at the output (`frames_step`), and getting ready for
a run overwrites the place in the script, the lookahead, the line, the labels and the open
loops before anything reads them.  So a machine on which scripts have run before runs like
a new one with the same variables, files, input and sink, and what it writes is added to
what had been written (`run_afresh`).
-/

namespace MatrixScript

/-! ## Expressions -/

namespace Expression

open Reader

variable {journal : Journal} {env : Env} {operand total : ReadM Value}

theorem frames_chain {level : Delimiter → Option BinaryOperator}
    (hoperand : Frames (preceded journal) operand) (bound : Nat) (left : Value) :
    Frames (preceded journal) (chain level operand bound left) := by
  induction bound generalizing left with
  | zero => exact frames_pure left
  | succ bound ih =>
      apply frames_peek.bind
      intro token
      split
      · exact frames_pure left
      · refine frames_next.bind fun _ => hoperand.bind fun right => ?_
        exact (ReadM.frames_ofMatrix _).bind fun value => ih value

theorem frames_product (hoperand : Frames (preceded journal) operand) (bound : Nat) :
    Frames (preceded journal) (product operand bound) :=
  hoperand.bind fun first => frames_chain hoperand bound first

theorem frames_sum (hoperand : Frames (preceded journal) operand) (bound : Nat) :
    Frames (preceded journal) (sum operand bound) :=
  (frames_product hoperand bound).bind fun first =>
    frames_chain (frames_product hoperand bound) bound first

theorem frames_count : Frames (preceded journal) count := by
  apply frames_next.bind
  intro token
  split
  · exact frames_ofParse _
  · exact frames_refuse _

theorem frames_constant (keyword : String) (build : Nat → Nat → Value) :
    Frames (preceded journal) (constant env keyword build) := by
  have hshape : Frames (preceded journal) shape :=
    (frames_expect _ _).bind fun _ => frames_count.bind fun rows =>
      (frames_expect _ _).bind fun _ => frames_count.bind fun cols =>
        (frames_expect _ _).bind fun _ => frames_pure _
  refine hshape.bind fun size => (ReadM.frames_ofExcept _).bind fun _ => ?_
  exact (frames_note _ _).bind fun _ => frames_pure _

theorem frames_primitive (htotal : Frames (preceded journal) total) :
    Frames (preceded journal) (primitive env total) := by
  apply frames_next.bind
  intro token
  split
  · exact (frames_ofParse _).bind fun name => ReadM.frames_ofExcept _
  · exact (frames_ofParse _).bind fun factor => htotal.bind fun _ => frames_pure _
  · split
    · exact frames_refuse _
    · exact frames_refuse _

theorem frames_atom (htotal : Frames (preceded journal) total) :
    Frames (preceded journal) (atom env total) := by
  apply frames_peek.bind
  intro token
  split
  · refine frames_next.bind fun _ => htotal.bind fun value => frames_next.bind fun close => ?_
    split
    · exact frames_pure value
    · exact frames_refuse _
  · exact frames_primitive htotal

theorem frames_call (htotal : Frames (preceded journal) total) (builtin : Builtin) :
    Frames (preceded journal) (call env total builtin) := by
  cases builtin with
  | identity => exact frames_constant _ _
  | zeros => exact frames_constant _ _
  | chiSquare => exact (frames_atom htotal).map _
  | doubleCenter => exact (frames_atom htotal).map _
  | standardize => exact (frames_atom htotal).map _
  | columnProfiles => exact (frames_atom htotal).map _
  | symmetricInverse => exact (frames_atom htotal).bind fun _ => ReadM.frames_ofMatrix _

theorem frames_unary (bound : Nat) : Frames (preceded journal) (unary env bound) := by
  induction bound with
  | zero => exact frames_refuse _
  | succ bound ih =>
      have htotal := frames_sum ih bound
      apply frames_peek.bind
      intro token
      split
      · split
        · exact frames_next.bind fun _ => ih.bind fun _ => frames_pure _
        · exact frames_atom htotal
      · exact frames_next.bind fun _ => frames_call htotal _
      · exact frames_atom htotal

theorem frames_evaluate : Frames (preceded journal) (evaluate env) := by
  apply frames_peek.bind
  intro token
  split
  · exact frames_refuse _
  · exact frames_get_bind (fun _ => rfl) fun reader => frames_sum (frames_unary _) _

theorem frames_condition : Frames (preceded journal) (condition env) := by
  refine frames_evaluate.bind fun left => frames_next.bind fun token => ?_
  split
  · exact frames_refuse _
  · refine frames_evaluate.bind fun right => (ReadM.frames_ofMatrix _).bind fun holds => ?_
    refine frames_get_bind (fun _ => rfl) fun _ => ?_
    exact (frames_note _ _).bind fun _ => frames_pure holds

end Expression

/-! ## Machines with a past -/

/-- The world with an output that came before. -/
def World.preceded (output : String) (world : World) : World :=
  { world with output := output ++ world.output }

namespace Machine

/-- The machine with a journal and an output that came before. -/
def preceded (journal : Journal) (output : String) (m : Machine) : Machine :=
  { m with reader := m.reader.preceded journal, world := m.world.preceded output }

end Machine

open Machine

namespace World

variable {output : String} (world : World)

@[simp] theorem disk_preceded : (world.preceded output).disk = world.disk := rfl

theorem load_preceded (path : String) (rows cols : Nat) :
    (world.preceded output).load path rows cols =
      ((world.load path rows cols).1, (world.load path rows cols).2.preceded output) := by
  unfold load
  by_cases hconsole : isConsole path = true
  · rw [if_pos hconsole, if_pos hconsole]
    rfl
  · rw [if_neg hconsole, if_neg hconsole, disk_preceded]
    cases world.disk.open? path with
    | error fault => rfl
    | ok lines => rfl

theorem write_preceded (path text : String) :
    (world.preceded output).write path text = (world.write path text).map (preceded output) := by
  unfold write
  rw [disk_preceded]
  cases world.disk.write? path text with
  | error fault => rfl
  | ok disk => rfl

theorem say_preceded (text : String) :
    (world.preceded output).say text =
      ((world.say text).1, (world.say text).2.preceded output) := by
  simp only [say, call, preceded]
  cases world.sink.head?.join with
  | none => simp only [String.append_assoc]
  | some refusal => simp only [String.append_assoc]

theorem flush_preceded :
    (world.preceded output).flush = (world.flush.1, world.flush.2.preceded output) := by
  simp only [flush, call, preceded]
  cases world.sink.head?.join with
  | none => rfl
  | some refusal => rfl

end World

/-! ## Statements -/

variable {α : Type} {journal : Journal} {output : String}

namespace ExecM

theorem frames_read {x : ReadM α} (h : Frames (Reader.preceded journal) x) :
    Frames (preceded journal output) (read x) := by
  intro m
  have hx := h m.reader
  unfold read
  rw [show (m.preceded journal output).reader = m.reader.preceded journal from rfl, hx]
  cases x m.reader with
  | ok value reader => rfl
  | error e reader => rfl

theorem frames_note (level : Level) (text : String) :
    Frames (preceded journal output) (read (Reader.note level text)) :=
  frames_read (Reader.frames_note level text)

theorem frames_ofExcept (result : Except Error α) :
    Frames (preceded journal output) (ofExcept result) := by
  cases result with
  | ok value => exact frames_pure value
  | error e => exact frames_throw e

theorem frames_bound (name : VariableName) : Frames (preceded journal output) (bound name) :=
  frames_get_bind (fun _ => rfl) fun _ => frames_ofExcept _

theorem frames_assign (name : VariableName) (value : DenseMatrix Float) :
    Frames (preceded journal output) (assign name value) :=
  (frames_note _ _).bind fun _ => frames_modify fun _ => rfl

/-- A world that has been reached from one with an output before it still has that
output before it. -/
theorem frames_say (text : String) : Frames (preceded journal output) (say text) := by
  intro m
  rw [say_apply, say_apply,
    show (m.preceded journal output).world = m.world.preceded output from rfl,
    World.say_preceded]
  rcases m.world.say text with ⟨_ | _, world⟩ <;> rfl

theorem frames_emit (path text : String) : Frames (preceded journal output) (emit path text) := by
  unfold emit
  by_cases hconsole : isConsole path = true
  · rw [if_pos hconsole]
    exact frames_say text
  · rw [if_neg hconsole]
    intro m
    unfold writeFile
    rw [get_bind_apply, get_bind_apply,
      show (m.preceded journal output).world = m.world.preceded output from rfl,
      World.write_preceded]
    cases m.world.write path text with
    | error e => rfl
    | ok world =>
        exact frames_note .info _ { m with world := world }

end ExecM

namespace Statement

open Reader

theorem frames_variableOperand (command : Command) :
    Frames (Reader.preceded journal) (variableOperand command) := by
  apply frames_next.bind
  intro token
  split
  · exact frames_refuse _
  · exact frames_ofParse _

theorem frames_fileOperand (command : Command) :
    Frames (Reader.preceded journal) (fileOperand command) := by
  apply frames_next.bind
  intro token
  split
  · exact frames_refuse _
  · exact frames_refuse _
  · split
    · exact frames_refuse _
    · exact frames_pure _

theorem frames_dimensionOperand (command : Command) :
    Frames (Reader.preceded journal) (dimensionOperand command) := by
  apply frames_next.bind
  intro token
  split
  · exact frames_ofParse _
  · split
    · exact frames_refuse _
    · exact frames_refuse _

theorem frames_labelFiles : Frames (Reader.preceded journal) labelFiles := by
  have hfirst : Frames (Reader.preceded journal) (optionalFile .compocor) := by
    apply frames_peek.bind
    intro token
    split
    · exact frames_pure _
    · exact (frames_fileOperand _).map _
  apply hfirst.bind
  intro columns
  split
  · exact frames_pure _
  · exact (frames_fileOperand _).bind fun rows => frames_pure _

/-- The name of a variable as an operand of a statement. -/
theorem frames_variable (command : Command) :
    Frames (Machine.preceded journal output) (ExecM.read (variableOperand command)) :=
  ExecM.frames_read (frames_variableOperand command)

theorem frames_file (command : Command) :
    Frames (Machine.preceded journal output) (ExecM.read (fileOperand command)) :=
  ExecM.frames_read (frames_fileOperand command)

theorem frames_dimension (command : Command) :
    Frames (Machine.preceded journal output) (ExecM.read (dimensionOperand command)) :=
  ExecM.frames_read (frames_dimensionOperand command)

theorem frames_env : Frames (Machine.preceded journal output) env :=
  frames_get_bind (fun _ => rfl) fun _ => frames_pure _

theorem frames_assignment (name : String) :
    Frames (Machine.preceded journal output) (assignment name) := by
  refine (ExecM.frames_read (frames_ofParse _)).bind fun target => ?_
  refine (ExecM.frames_read (frames_expect _ _)).bind fun _ => frames_env.bind fun env => ?_
  refine (ExecM.frames_read Expression.frames_evaluate).bind fun value => ?_
  exact (ExecM.frames_read frames_expectEnd).bind fun _ => ExecM.frames_assign target value

theorem frames_loadMatrix (path : String) (rows cols : Nat) :
    Frames (Machine.preceded journal output) (loadMatrix path rows cols) := by
  intro m
  unfold loadMatrix
  rw [get_bind_apply, get_bind_apply,
    show (m.preceded journal output).world = m.world.preceded output from rfl, World.load_preceded]
  cases m.world.load path rows cols with
  | mk result world =>
      cases result with
      | error e => rfl
      | ok value =>
          exact (ExecM.frames_note _ _).bind (fun _ => frames_pure value) { m with world := world }

theorem frames_load : Frames (Machine.preceded journal output) load := by
  refine (frames_file _).bind fun path => (frames_variable _).bind fun target => ?_
  refine (frames_dimension _).bind fun rows => (frames_dimension _).bind fun cols => ?_
  refine frames_get_bind (fun _ => rfl) fun m => (ExecM.frames_ofExcept _).bind fun _ => ?_
  exact (frames_loadMatrix _ _ _).bind fun value => ExecM.frames_assign target value

theorem frames_save : Frames (Machine.preceded journal output) save := by
  refine (frames_variable _).bind fun _ => (frames_file _).bind fun _ => ?_
  exact (ExecM.frames_bound _).bind fun _ => ExecM.frames_emit _ _

theorem frames_print : Frames (Machine.preceded journal output) print :=
  (frames_variable _).bind fun _ =>
    (ExecM.frames_bound _).bind fun _ => ExecM.frames_emit _ _

theorem frames_remark : Frames (Machine.preceded journal output) remark := by
  apply (ExecM.frames_read frames_skipLine).bind
  intro text
  split
  · exact ExecM.frames_emit _ _
  · exact frames_pure ()

theorem frames_forM_note {items : List α} {note : α → ReadM Unit}
    (hnote : ∀ a, Frames (Reader.preceded journal) (note a)) :
    Frames (Machine.preceded journal output) (items.forM fun a => (note a : ExecM Unit)) := by
  induction items with
  | nil => exact frames_pure _
  | cons first rest ih => exact (ExecM.frames_read (hnote first)).bind fun _ => ih

theorem frames_diagonalize (m : DenseMatrix Float) :
    Frames (Machine.preceded journal output) (diagonalize m) := by
  refine frames_get_bind (fun _ => rfl) fun machine => ?_
  refine (frames_forM_note fun _ => Reader.frames_note _ _).bind fun _ => ?_
  split
  · exact frames_throw _
  · exact frames_pure _

theorem frames_tridiag : Frames (Machine.preceded journal output) tridiag := by
  refine (frames_variable _).bind fun source => (frames_file _).bind fun valuesPath => ?_
  refine (frames_file _).bind fun vectorsPath => (ExecM.frames_bound _).bind fun m => ?_
  refine (frames_diagonalize m).bind fun eigen => (ExecM.frames_note _ _).bind fun _ => ?_
  exact (ExecM.frames_emit _ _).bind fun _ => ExecM.frames_emit _ _

theorem frames_pointLabels (table : DenseMatrix Float) (paths : Option (String × String)) :
    Frames (Machine.preceded journal output) (pointLabels table paths) := by
  cases paths with
  | none => exact frames_pure _
  | some paths =>
      refine frames_get_bind (fun _ => rfl) fun m => ?_
      refine (ExecM.frames_ofExcept _).bind fun columns => ?_
      exact (ExecM.frames_ofExcept _).bind fun rows => frames_pure _

theorem frames_compocor : Frames (Machine.preceded journal output) compocor := by
  refine (frames_variable _).bind fun tableName => (frames_variable _).bind fun vectorsName => ?_
  refine (frames_variable _).bind fun valuesName => (frames_file _).bind fun coordinates => ?_
  refine (frames_file _).bind fun absolute => (frames_file _).bind fun relative => ?_
  refine (ExecM.frames_read frames_labelFiles).bind fun labelPaths => ?_
  refine (ExecM.frames_bound _).bind fun table => (ExecM.frames_bound _).bind fun values => ?_
  refine (ExecM.frames_read (ReadM.frames_ofMatrix _)).bind fun inertia => ?_
  refine (ExecM.frames_bound _).bind fun vectors => ?_
  refine (ExecM.frames_read (ReadM.frames_ofMatrix _)).bind fun analysis => ?_
  refine (frames_pointLabels table labelPaths).bind fun labels => ?_
  refine (ExecM.frames_emit _ _).bind fun _ => (ExecM.frames_note _ _).bind fun _ => ?_
  refine (ExecM.frames_emit _ _).bind fun _ => (ExecM.frames_note _ _).bind fun _ => ?_
  refine (ExecM.frames_emit _ _).bind fun _ => (ExecM.frames_note _ _).bind fun _ => ?_
  exact ExecM.frames_emit _ _

theorem frames_supplementary (command : Command) (kind : PointKind) :
    Frames (Machine.preceded journal output) (supplementary command kind) := by
  refine (frames_variable _).bind fun pointsName => (frames_variable _).bind fun _ => ?_
  refine (frames_variable _).bind fun valuesName => (frames_file _).bind fun path => ?_
  refine (ExecM.frames_bound _).bind fun points => (ExecM.frames_bound _).bind fun _ => ?_
  refine (ExecM.frames_bound _).bind fun values => ?_
  refine (ExecM.frames_read (ReadM.frames_ofMatrix _)).bind fun projected => ?_
  exact (ExecM.frames_note _ _).bind fun _ => ExecM.frames_emit _ _

end Statement

/-! ## Control flow -/

namespace Flow

open Reader

theorem frames_skipFrom (block : Block) (bound depth : Nat) :
    Frames (Reader.preceded journal) (skipFrom block bound depth) := by
  induction bound generalizing depth with
  | zero => exact frames_throw _
  | succ bound ih =>
      apply frames_next.bind
      intro token
      split
      · exact frames_throw _
      · split
        · exact frames_skipLine.bind fun _ => ih depth
        · split
          · exact ih (depth + 1)
          · split
            · split
              · exact frames_pure ()
              · exact ih _
            · exact ih depth
      · exact ih depth

theorem frames_skip (block : Block) : Frames (Reader.preceded journal) (skip block) :=
  frames_get_bind (fun _ => rfl) fun _ => frames_skipFrom block _ 0

theorem frames_goto : Frames (Machine.preceded journal output) goto := by
  apply (ExecM.frames_read frames_next).bind
  intro token
  split
  · exact ExecM.frames_read (frames_refuse _)
  · refine frames_get_bind (fun _ => rfl) fun m => ?_
    split
    · exact frames_throw _
    · exact (ExecM.frames_note _ _).bind fun _ => ExecM.frames_read (frames_seek _)

theorem frames_ifStatement : Frames (Machine.preceded journal output) ifStatement := by
  refine Statement.frames_env.bind fun env => ?_
  apply (ExecM.frames_read Expression.frames_condition).bind
  intro holds
  split
  · exact frames_pure ()
  · exact ExecM.frames_read (frames_skip _)

theorem frames_pushLoop (start : Cursor) :
    Frames (Machine.preceded journal output) (pushLoop start) := by
  intro m
  unfold pushLoop
  rw [get_bind_apply, get_bind_apply,
    show (m.preceded journal output).loops = m.loops from rfl]
  cases m.loops.push start with
  | error e => rfl
  | ok loops => rfl

theorem frames_popLoop : Frames (Machine.preceded journal output) popLoop := by
  intro m
  unfold popLoop
  rw [get_bind_apply, get_bind_apply,
    show (m.preceded journal output).loops = m.loops from rfl]
  cases m.loops.pop with
  | error e => rfl
  | ok found => rfl

theorem frames_whileStatement (start : Cursor) :
    Frames (Machine.preceded journal output) (whileStatement start) := by
  refine (frames_pushLoop start).bind fun _ => frames_get_bind (fun _ => rfl) fun m => ?_
  refine (ExecM.frames_note _ _).bind fun _ => Statement.frames_env.bind fun env => ?_
  apply (ExecM.frames_read Expression.frames_condition).bind
  intro holds
  split
  · exact frames_pure ()
  · exact frames_popLoop.bind fun _ => ExecM.frames_read (frames_skip _)

theorem frames_endWhile : Frames (Machine.preceded journal output) endWhile := by
  refine frames_popLoop.bind fun marker => frames_get_bind (fun _ => rfl) fun m => ?_
  exact (ExecM.frames_note _ _).bind fun _ => ExecM.frames_read (frames_seek _)

end Flow

/-! ## Runs -/

namespace Machine

theorem frames_command (word : Command) (token : Token) :
    Frames (preceded journal output) (command word token) := by
  cases word with
  | load => exact Statement.frames_load.bind fun _ => frames_pure _
  | save => exact Statement.frames_save.bind fun _ => frames_pure _
  | print => exact Statement.frames_print.bind fun _ => frames_pure _
  | rem => exact Statement.frames_remark.bind fun _ => frames_pure _
  | tridiag => exact Statement.frames_tridiag.bind fun _ => frames_pure _
  | compocor => exact Statement.frames_compocor.bind fun _ => frames_pure _
  | composupp => exact (Statement.frames_supplementary _ _).bind fun _ => frames_pure _
  | compocsupp => exact (Statement.frames_supplementary _ _).bind fun _ => frames_pure _
  | goto => exact Flow.frames_goto.bind fun _ => frames_pure _
  | ifBlock => exact Flow.frames_ifStatement.bind fun _ => frames_pure _
  | endIf => exact frames_pure _
  | whileBlock => exact (Flow.frames_whileStatement _).bind fun _ => frames_pure _
  | endWhile => exact Flow.frames_endWhile.bind fun _ => frames_pure _
  | quit => exact frames_pure _

theorem frames_step : Frames (preceded journal output) step := by
  apply (ExecM.frames_read Reader.frames_next).bind
  intro token
  split
  · exact (Statement.frames_assignment _).bind fun _ => frames_pure _
  · exact frames_command _ _
  · exact frames_pure _
  · exact frames_pure _
  · exact frames_pure _
  · exact ExecM.frames_read (Reader.frames_refuse _)

theorem finish_preceded (m : Machine) (outcome : Outcome) :
    (m.preceded journal output).finish outcome =
      ((m.finish outcome).1, (m.finish outcome).2.preceded journal output) := by
  unfold finish
  rw [show (m.preceded journal output).world = m.world.preceded output from rfl,
    World.flush_preceded]
  rcases m.world.flush with ⟨_ | _, world⟩
  · rfl
  · simp [withNote, preceded, Reader.preceded]

/-- A run takes no notice of what was noted and written before it. -/
theorem runFrom_preceded (m : Machine) (fuel : Nat) :
    runFrom fuel (m.preceded journal output) =
      ((runFrom fuel m).1, (runFrom fuel m).2.preceded journal output) := by
  induction fuel generalizing m with
  | zero => rfl
  | succ fuel ih =>
      have hstep : step (m.preceded journal output) = mapState (preceded journal output) (step m) :=
        frames_step m
      unfold runFrom
      rw [hstep]
      cases step m with
      | error e stopped => rfl
      | ok outcome stopped =>
          cases outcome with
          | some outcome => simp only [mapState, finish_preceded]
          | none => exact ih stopped

/-! ## Getting ready -/

/-- The labels that are collected depend on the script alone, wherever the lexer stands. -/
theorem collect_eq_of_source_eq {lexer lexer' : Lexer} (hsource : lexer.source = lexer'.source)
    (hparams : lexer.params = lexer'.params) (max : Nat) :
    LabelIndex.collect max lexer = LabelIndex.collect max lexer' := by
  have hreset := Lexer.reset_congr hsource hparams
  have hbound : lexer.tokenBound = lexer'.tokenBound := by
    rw [Lexer.tokenBound, Lexer.tokenBound, hsource]
  unfold LabelIndex.collect
  rw [hreset, hbound, hsource]

/-- The machine `m` goes on from where the other one starts: script, limits, variables,
files, input and sink are the same, and `m` has a journal and an output already. -/
structure GoesOn (journal : Journal) (output : String) (m fresh : Machine) : Prop where
  source_eq : m.reader.lexer.source = fresh.reader.lexer.source
  params_eq : m.reader.lexer.params = fresh.reader.lexer.params
  limits_eq : m.limits = fresh.limits
  store_eq : m.store = fresh.store
  world_eq : m.world = fresh.world.preceded output
  journal_eq : m.reader.journal = journal ++ fresh.reader.journal

variable {m fresh : Machine}

theorem goesOn_preceded (m : Machine) : GoesOn journal output (m.preceded journal output) m :=
  ⟨rfl, rfl, rfl, rfl, rfl, rfl⟩

/-- Runs start alike, whatever earlier runs have left in the lexer, the labels and the
loops: the labels cannot be collected, or the machines are the same up to what has been
noted and written. -/
theorem GoesOn.prepare (h : GoesOn journal output m fresh) :
    (∃ e stopped stopped', prepare m = (.error e, stopped) ∧
      prepare fresh = (.error e, stopped') ∧ GoesOn journal output stopped stopped') ∨
    ∃ ready, prepare m = (.ok (ready.preceded journal output), ready.preceded journal output) ∧
      prepare fresh = (.ok ready, ready) := by
  have hcollect := collect_eq_of_source_eq h.source_eq h.params_eq m.limits.maxLabels
  have hnotes : ∀ notes : List Note, m.reader.journal ++ notes =
      journal ++ (fresh.reader.journal ++ notes) := by
    intro notes
    rw [h.journal_eq]
    apply Array.ext'
    simp
  unfold Machine.prepare
  rw [hcollect, h.limits_eq]
  cases hfound : (LabelIndex.collect fresh.limits.maxLabels fresh.reader.lexer).outcome with
  | error e =>
      left
      simp only [hfound]
      exact ⟨_, _, _, rfl, rfl, rfl, rfl, rfl, h.store_eq, h.world_eq, hnotes _⟩
  | ok labels =>
      right
      simp only [hfound]
      refine ⟨_, ?_, rfl⟩
      simp only [preceded, Reader.preceded, h.store_eq, h.world_eq, hnotes]

theorem GoesOn.run (h : GoesOn journal output m fresh) (fuel : Nat) :
    (run fuel m).1 = (run fuel fresh).1 ∧
      GoesOn journal output (run fuel m).2 (run fuel fresh).2 := by
  rcases h.prepare with ⟨e, stopped, stopped', hm, hfresh, hstopped⟩ | ⟨ready, hm, hfresh⟩
  · unfold Machine.run
    rw [hm, hfresh]
    exact ⟨rfl, hstopped⟩
  · rw [run_of_prepare (congrArg Prod.fst hm), run_of_prepare (congrArg Prod.fst hfresh),
      runFrom_preceded]
    exact ⟨rfl, goesOn_preceded _⟩

/-- Runs keep the script and the limits. -/
theorem kept_by_runs {source : List Char} {params : List String} {limits : Limits}
    (hlocated : Located source params m) (htame : Tame limits m) (history : List Nat) :
    let now := history.foldl (fun m steps => (Machine.run steps m).2) m
    Located source params now ∧ Tame limits now := by
  induction history generalizing m with
  | nil => exact ⟨hlocated, htame⟩
  | cons steps history ih => exact ih (hlocated.run steps) (htame.run steps)

/-- However often and however far the script has run, the next run comes to what the run
of a new machine with the same variables, files, input and sink comes to, and adds what
that one writes to what has been written. -/
theorem run_afresh (source : String) (params : List String) (limits : Limits) (world : World)
    (history : List Nat) (fuel : Nat) :
    let now := history.foldl (fun m steps => (run steps m).2)
      (Machine.new source params limits world)
    let fresh := { Machine.new source params limits { now.world with output := "" } with
      store := now.store }
    (run fuel now).1 = (run fuel fresh).1 ∧
    (run fuel now).2.store = (run fuel fresh).2.store ∧
    (run fuel now).2.world = { (run fuel fresh).2.world with
      output := now.world.output ++ (run fuel fresh).2.world.output } ∧
    (run fuel now).2.reader.journal =
      now.reader.journal ++ (run fuel fresh).2.reader.journal := by
  intro now fresh
  obtain ⟨hlocated, htame⟩ : Located source.toList params now ∧ Tame limits now :=
    kept_by_runs (located_new source params limits world Store.empty)
      ⟨rfl, Store.wellFormed_empty⟩ history
  have hworld : now.world = fresh.world.preceded now.world.output := by
    show now.world = { now.world with output := now.world.output ++ "" }
    rw [String.append_empty]
  have hgoesOn : GoesOn now.reader.journal now.world.output now fresh :=
    { source_eq := hlocated.source_eq
      params_eq := hlocated.params_eq
      limits_eq := htame.limits_eq
      store_eq := rfl
      world_eq := hworld
      journal_eq := (Array.append_empty).symm }
  obtain ⟨hresult, hran⟩ := hgoesOn.run fuel
  exact ⟨hresult, hran.store_eq, hran.world_eq, hran.journal_eq⟩

end Machine

end MatrixScript
