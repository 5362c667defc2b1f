import MatrixScript.Proofs.Lexing.LineStart
import MatrixScript.Proofs.Run.Effect
import MatrixScript.Proofs.Run.InLine

/-!
# Where a fault stops a statement

A parameter mark without its digit is an error wherever a token is taken or looked at, and no
program does anything after it.  So when a statement fails with that error, the lexer has come to
the mark without a jump and stands right behind it (`Traces`).  There is one lemma for each program
of the language, up to the step of the machine (`Machine.exists_fault_of_step`).
-/

namespace MatrixScript

open Lexer

/-- What follows the parameter mark without its digit that the error is about. -/
def Error.fault? : Error → Option String
  | .parse (.invalidParameter found) => some found
  | _ => none

theorem Error.eq_of_fault? {e : Error} {found : String} (h : e.fault? = some found) :
    e = .parse (.invalidParameter found) := by
  unfold fault? at h
  split at h
  · cases h
    rfl
  · cases h

variable {σ α β : Type} {view : σ → Lexer}

/-- How a program comes out that started with the lexer. -/
inductive Traced (view : σ → Lexer) (lexer : Lexer) : EStateM.Result Error σ α → Prop where
  | ok {a : α} {s : σ} (h : Moves (fun _ => False) lexer (view s)) : Traced view lexer (.ok a s)
  | fault {e : ParseError} {s : σ} {last : Lexer} (h : Moves (fun _ => False) lexer last)
      (hnext : last.next.outcome = .error e) (hstop : view s = last.next.lexer) :
      Traced view lexer (.error (.parse e) s)
  | error {e : Error} {s : σ} (h : e.fault? = none) : Traced view lexer (.error e s)

/-- The program moves on without a jump, and a fault stops it. -/
def Traces (view : σ → Lexer) (x : EStateM Error σ α) : Prop :=
  ∀ s, Traced view (view s) (x s)

/-! ## Rules -/

section Rules

theorem Traced.after {lexer lexer' : Lexer} {result : EStateM.Result Error σ α}
    (hmoves : Moves (fun _ => False) lexer lexer') (h : Traced view lexer' result) :
    Traced view lexer result := by
  cases h with
  | ok hok => exact .ok (hmoves.trans hok)
  | fault hway hnext hstop => exact .fault (hmoves.trans hway) hnext hstop
  | error herror => exact .error herror

theorem Traced.cast {lexer : Lexer} {e : Error} {s : σ}
    (h : Traced view lexer (.error e s : EStateM.Result Error σ α)) :
    Traced view lexer (.error e s : EStateM.Result Error σ β) := by
  cases h with
  | fault hway hnext hstop => exact .fault hway hnext hstop
  | error herror => exact .error herror

theorem traces_pure (a : α) : Traces view (pure a : EStateM Error σ α) :=
  fun _ => .ok .refl

theorem traces_throw {e : Error} (h : e.fault? = none) :
    Traces view (throw e : EStateM Error σ α) :=
  fun _ => .error h

theorem traces_get_bind {f : σ → EStateM Error σ α} (h : ∀ s, Traces view (f s)) :
    Traces view (get >>= f) :=
  fun s => h s s

theorem Traces.bind {x : EStateM Error σ α} {f : α → EStateM Error σ β} (hx : Traces view x)
    (hf : ∀ a, Traces view (f a)) : Traces view (x >>= f) := by
  intro s
  have hfirst := hx s
  cases hxs : x s with
  | ok a s' =>
      rw [hxs] at hfirst
      rw [bind_of_eq_ok hxs]
      cases hfirst with
      | ok hok => exact (hf a s').after hok
  | error e s' =>
      rw [hxs] at hfirst
      rw [bind_of_eq_error hxs]
      exact hfirst.cast

theorem Traces.map {x : EStateM Error σ α} (f : α → β) (hx : Traces view x) :
    Traces view (f <$> x) := by
  rw [map_eq_bind]
  exact hx.bind fun a => traces_pure (f a)

theorem eq_error_of_bind_pure {x : EStateM Error σ α} {b : β} {s s' : σ} {e : Error}
    (h : (x >>= fun _ => pure b) s = .error e s') : x s = .error e s' := by
  cases hx : x s with
  | ok a t =>
      rw [bind_of_eq_ok hx] at h
      cases h
  | error e' t =>
      rw [bind_of_eq_error hx] at h
      cases h
      rfl

theorem Traces.traced_of_bind_pure {x : EStateM Error σ α} {b : β} {s s' : σ} {e : Error}
    (hx : Traces view x) (h : (x >>= fun _ => pure b) s = .error e s') :
    Traced view (view s) (.error e s' : EStateM.Result Error σ β) := by
  have htraced := hx s
  rw [eq_error_of_bind_pure h] at htraced
  exact htraced.cast

end Rules

/-! ## Reading -/

namespace Reader

theorem traces_next : Traces Reader.lexer next := by
  intro r
  cases hnext : r.lexer.next.outcome with
  | ok token =>
      rw [next_of_ok hnext]
      exact .ok (Move.next _).moves
  | error e =>
      rw [next_of_error hnext]
      exact .fault .refl hnext rfl

theorem traces_peek : Traces Reader.lexer peek := by
  intro r
  cases hpeek : r.lexer.peek.outcome with
  | ok token =>
      rw [peek_of_ok hpeek]
      exact .ok (Move.peek _).moves
  | error e =>
      have hnext := hpeek
      rw [peek_outcome] at hnext
      rw [peek_of_error hpeek]
      exact .fault .refl hnext (peek_lexer_of_error hnext)

theorem traces_note (level : Level) (text : String) : Traces Reader.lexer (note level text) :=
  fun _ => .ok .refl

theorem traces_skipLine : Traces Reader.lexer skipLine :=
  fun _ => .ok (Move.skipLine _).moves

theorem traces_refuse {cause : ParseError} (h : (Error.parse cause).fault? = none) :
    Traces Reader.lexer (refuse cause : ReadM α) :=
  traces_throw h

theorem traces_ofParse {result : Except ParseError α}
    (h : ∀ e, result = .error e → (Error.parse e).fault? = none) :
    Traces Reader.lexer (ofParse result) := by
  cases result with
  | ok value => exact traces_pure value
  | error e => exact traces_refuse (h e rfl)

theorem traces_expect (mark : Delimiter) (symbol : Char) :
    Traces Reader.lexer (expect mark symbol) := by
  refine traces_next.bind fun token => ?_
  split
  · exact traces_pure ()
  · exact traces_refuse rfl

theorem traces_expectEnd : Traces Reader.lexer expectEnd := by
  refine traces_peek.bind fun token => ?_
  split
  · exact traces_pure ()
  · exact traces_refuse rfl

theorem traces_variableName (text : String) :
    Traces Reader.lexer (ofParse (Literal.variableName text)) := by
  refine traces_ofParse fun e h => ?_
  unfold Literal.variableName at h
  split at h <;> cases h
  rfl

theorem traces_scalar (text : String) : Traces Reader.lexer (ofParse (Literal.scalar text)) := by
  refine traces_ofParse fun e h => ?_
  unfold Literal.scalar at h
  split at h <;> cases h
  rfl

theorem traces_dimension (text : String) :
    Traces Reader.lexer (ofParse (Literal.dimension text)) := by
  refine traces_ofParse fun e h => ?_
  unfold Literal.dimension at h
  split at h <;> cases h
  rfl

end Reader

theorem fault?_of_bound {store : Store} {name : VariableName} {e : Error}
    (h : store.bound name = .error e) : e.fault? = none := by
  unfold Store.bound at h
  split at h <;> cases h
  rfl

theorem fault?_of_checkedElements {rows cols max : Nat} {e : Error}
    (h : checkedElements rows cols max = .error e) : e.fault? = none := by
  unfold checkedElements at h
  split at h <;> cases h
  rfl

namespace ReadM

theorem traces_ofExcept {result : Except Error α}
    (h : ∀ e, result = .error e → e.fault? = none) :
    Traces Reader.lexer (ReadM.ofExcept result) := by
  cases result with
  | ok value => exact traces_pure value
  | error e => exact traces_throw (h e rfl)

theorem traces_ofMatrix (result : Except (MatrixError Float) α) :
    Traces Reader.lexer (ReadM.ofMatrix result) := by
  cases result with
  | ok value => exact traces_pure value
  | error e => exact traces_throw rfl

end ReadM

/-! ## Expressions -/

namespace Expression

open Reader

variable {env : Env} {operand total : ReadM Value}

theorem traces_chain {level : Delimiter → Option BinaryOperator}
    (hoperand : Traces Reader.lexer operand) (bound : Nat) (left : Value) :
    Traces Reader.lexer (chain level operand bound left) := by
  induction bound generalizing left with
  | zero => exact traces_pure left
  | succ bound ih =>
      refine traces_peek.bind fun token => ?_
      split
      · exact traces_pure left
      · refine traces_next.bind fun _ => hoperand.bind fun right => ?_
        exact (ReadM.traces_ofMatrix _).bind fun value => ih value

theorem traces_product (hoperand : Traces Reader.lexer operand) (bound : Nat) :
    Traces Reader.lexer (product operand bound) :=
  hoperand.bind fun first => traces_chain hoperand bound first

theorem traces_sum (hoperand : Traces Reader.lexer operand) (bound : Nat) :
    Traces Reader.lexer (sum operand bound) :=
  (traces_product hoperand bound).bind fun first =>
    traces_chain (traces_product hoperand bound) bound first

theorem traces_count : Traces Reader.lexer count := by
  refine traces_next.bind fun token => ?_
  split
  · exact traces_dimension _
  · exact traces_refuse rfl

theorem traces_constant (keyword : String) (build : Nat → Nat → Value) :
    Traces Reader.lexer (constant env keyword build) := by
  have hshape : Traces Reader.lexer shape :=
    (traces_expect _ _).bind fun _ => traces_count.bind fun rows =>
      (traces_expect _ _).bind fun _ => traces_count.bind fun cols =>
        (traces_expect _ _).bind fun _ => traces_pure _
  refine hshape.bind fun size =>
    (ReadM.traces_ofExcept fun _ => fault?_of_checkedElements).bind fun _ => ?_
  exact (traces_note _ _).bind fun _ => traces_pure _

theorem traces_primitive (htotal : Traces Reader.lexer total) :
    Traces Reader.lexer (primitive env total) := by
  refine traces_next.bind fun token => ?_
  split
  · exact (traces_variableName _).bind fun name =>
      ReadM.traces_ofExcept fun _ => fault?_of_bound
  · exact (traces_scalar _).bind fun factor => htotal.bind fun _ => traces_pure _
  · split
    · exact traces_refuse rfl
    · exact traces_refuse rfl

theorem traces_atom (htotal : Traces Reader.lexer total) :
    Traces Reader.lexer (atom env total) := by
  refine traces_peek.bind fun token => ?_
  split
  · refine traces_next.bind fun _ => htotal.bind fun value => traces_next.bind fun close => ?_
    split
    · exact traces_pure value
    · exact traces_refuse rfl
  · exact traces_primitive htotal

theorem traces_call (htotal : Traces Reader.lexer total) (builtin : Builtin) :
    Traces Reader.lexer (call env total builtin) := by
  cases builtin with
  | identity => exact traces_constant _ _
  | zeros => exact traces_constant _ _
  | chiSquare => exact (traces_atom htotal).map _
  | doubleCenter => exact (traces_atom htotal).map _
  | standardize => exact (traces_atom htotal).map _
  | columnProfiles => exact (traces_atom htotal).map _
  | symmetricInverse => exact (traces_atom htotal).bind fun _ => ReadM.traces_ofMatrix _

theorem traces_unary (bound : Nat) : Traces Reader.lexer (unary env bound) := by
  induction bound with
  | zero => exact traces_refuse rfl
  | succ bound ih =>
      have htotal := traces_sum ih bound
      refine traces_peek.bind fun token => ?_
      split
      · split
        · exact traces_next.bind fun _ => ih.bind fun _ => traces_pure _
        · exact traces_atom htotal
      · exact traces_next.bind fun _ => traces_call htotal _
      · exact traces_atom htotal

theorem traces_evaluate : Traces Reader.lexer (evaluate env) := by
  refine traces_peek.bind fun token => ?_
  split
  · exact traces_refuse rfl
  · exact traces_get_bind fun reader => traces_sum (traces_unary _) _

theorem traces_condition : Traces Reader.lexer (condition env) := by
  refine traces_evaluate.bind fun left => traces_next.bind fun token => ?_
  split
  · exact traces_refuse rfl
  · refine traces_evaluate.bind fun right => (ReadM.traces_ofMatrix _).bind fun holds => ?_
    exact traces_get_bind fun _ => (traces_note _ _).bind fun _ => traces_pure holds

end Expression

/-! ## Statements -/

namespace ExecM

theorem traces_read {x : ReadM α} (h : Traces Reader.lexer x) :
    Traces Machine.lexer (ExecM.read x) := by
  intro m
  have hread := h m.reader
  unfold ExecM.read
  cases hx : x m.reader with
  | ok a r =>
      rw [hx] at hread
      cases hread with
      | ok hok => exact .ok hok
  | error e r =>
      rw [hx] at hread
      cases hread with
      | fault hway hnext hstop => exact .fault hway hnext hstop
      | error herror => exact .error herror

theorem traces_ofExcept {result : Except Error α}
    (h : ∀ e, result = .error e → e.fault? = none) :
    Traces Machine.lexer (ExecM.ofExcept result) := by
  cases result with
  | ok value => exact traces_pure value
  | error e => exact traces_throw (h e rfl)

theorem traces_bound (name : VariableName) : Traces Machine.lexer (ExecM.bound name) :=
  traces_get_bind fun _ => traces_ofExcept fun _ => fault?_of_bound

theorem traces_note (level : Level) (text : String) :
    Traces Machine.lexer (ExecM.read (Reader.note level text)) :=
  traces_read (Reader.traces_note level text)

theorem traces_assign (name : VariableName) (value : DenseMatrix Float) :
    Traces Machine.lexer (ExecM.assign name value) :=
  fun _ => .ok .refl

theorem traces_say (text : String) : Traces Machine.lexer (ExecM.say text) := by
  intro m
  rw [ExecM.say_apply]
  split
  · exact .ok .refl
  · exact .error rfl

theorem traces_emit (path text : String) : Traces Machine.lexer (ExecM.emit path text) := by
  unfold ExecM.emit
  split
  · exact traces_say text
  · refine traces_get_bind fun m => ?_
    split
    · exact traces_throw rfl
    · exact fun _ => .ok .refl

end ExecM

namespace Statement

open Reader ExecM

theorem traces_variableOperand (command : Command) :
    Traces Reader.lexer (variableOperand command) := by
  refine traces_next.bind fun token => ?_
  split
  · exact traces_refuse rfl
  · exact traces_variableName _

theorem traces_fileOperand (command : Command) : Traces Reader.lexer (fileOperand command) := by
  refine traces_next.bind fun token => ?_
  split
  · exact traces_refuse rfl
  · exact traces_refuse rfl
  · split
    · exact traces_refuse rfl
    · exact traces_pure _

theorem traces_dimensionOperand (command : Command) :
    Traces Reader.lexer (dimensionOperand command) := by
  refine traces_next.bind fun token => ?_
  split
  · exact traces_dimension _
  · split
    · exact traces_refuse rfl
    · exact traces_refuse rfl

theorem traces_labelFiles : Traces Reader.lexer labelFiles := by
  have hoptional : Traces Reader.lexer (optionalFile .compocor) := by
    refine traces_peek.bind fun token => ?_
    split
    · exact traces_pure none
    · exact (traces_fileOperand _).map some
  refine hoptional.bind fun columns => ?_
  split
  · exact traces_pure none
  · exact (traces_fileOperand _).bind fun rows => traces_pure _

theorem traces_env : Traces Machine.lexer env :=
  traces_get_bind fun _ => traces_pure _

theorem traces_assignment (name : String) : Traces Machine.lexer (assignment name) :=
  (traces_read (traces_variableName _)).bind fun _ =>
  (traces_read (traces_expect _ _)).bind fun _ => traces_env.bind fun _ =>
  (traces_read Expression.traces_evaluate).bind fun _ =>
  (traces_read traces_expectEnd).bind fun _ => traces_assign _ _

theorem traces_loadMatrix (path : String) (rows cols : Nat) :
    Traces Machine.lexer (loadMatrix path rows cols) := by
  refine traces_get_bind fun m => ?_
  obtain ⟨result, world⟩ := m.world.load path rows cols
  cases result with
  | error e => exact fun _ => .error rfl
  | ok value => exact fun _ => .ok .refl

theorem traces_load : Traces Machine.lexer load :=
  (traces_read (traces_fileOperand _)).bind fun _ =>
  (traces_read (traces_variableOperand _)).bind fun _ =>
  (traces_read (traces_dimensionOperand _)).bind fun _ =>
  (traces_read (traces_dimensionOperand _)).bind fun _ => traces_get_bind fun _ =>
  (traces_ofExcept fun _ => fault?_of_checkedElements).bind fun _ =>
  (traces_loadMatrix _ _ _).bind fun _ => traces_assign _ _

theorem traces_save : Traces Machine.lexer save :=
  (traces_read (traces_variableOperand _)).bind fun _ =>
  (traces_read (traces_fileOperand _)).bind fun _ =>
  (traces_bound _).bind fun _ => traces_emit _ _

theorem traces_print : Traces Machine.lexer print :=
  (traces_read (traces_variableOperand _)).bind fun _ =>
  (traces_bound _).bind fun _ => traces_emit _ _

theorem traces_remark : Traces Machine.lexer remark := by
  refine (traces_read traces_skipLine).bind fun text => ?_
  split
  · exact traces_emit _ _
  · exact traces_pure ()

theorem traces_forM_note (items : List α) (level : α → Level) (text : α → String) :
    Traces Machine.lexer
      (items.forM fun a => ExecM.read (Reader.note (level a) (text a))) := by
  induction items with
  | nil => exact traces_pure _
  | cons first rest ih => exact (ExecM.traces_note _ _).bind fun _ => ih

theorem traces_diagonalize (m : DenseMatrix Float) : Traces Machine.lexer (diagonalize m) := by
  refine traces_get_bind fun machine => (traces_forM_note _ _ _).bind fun _ => ?_
  split
  · exact traces_throw rfl
  · exact traces_pure _

theorem traces_tridiag : Traces Machine.lexer tridiag :=
  (traces_read (traces_variableOperand _)).bind fun _ =>
  (traces_read (traces_fileOperand _)).bind fun _ =>
  (traces_read (traces_fileOperand _)).bind fun _ =>
  (traces_bound _).bind fun _ => (traces_diagonalize _).bind fun _ =>
  (ExecM.traces_note _ _).bind fun _ => (traces_emit _ _).bind fun _ => traces_emit _ _

theorem fault?_of_labels {disk : Disk} {path : String} {count : Nat} {e : Error}
    (h : (LabelFile.load disk path count).mapError .file = .error e) : e.fault? = none := by
  cases hload : LabelFile.load disk path count <;> rw [hload] at h <;> cases h
  rfl

theorem traces_pointLabels (table : DenseMatrix Float) (paths : Option (String × String)) :
    Traces Machine.lexer (pointLabels table paths) := by
  cases paths with
  | none => exact traces_pure _
  | some paths =>
      exact traces_get_bind fun m => (traces_ofExcept fun _ => fault?_of_labels).bind fun _ =>
        (traces_ofExcept fun _ => fault?_of_labels).bind fun _ => traces_pure _

theorem traces_compocor : Traces Machine.lexer compocor :=
  (traces_read (traces_variableOperand _)).bind fun _ =>
  (traces_read (traces_variableOperand _)).bind fun _ =>
  (traces_read (traces_variableOperand _)).bind fun _ =>
  (traces_read (traces_fileOperand _)).bind fun _ =>
  (traces_read (traces_fileOperand _)).bind fun _ =>
  (traces_read (traces_fileOperand _)).bind fun _ =>
  (traces_read traces_labelFiles).bind fun _ =>
  (traces_bound _).bind fun _ => (traces_bound _).bind fun _ =>
  (traces_read (ReadM.traces_ofMatrix _)).bind fun _ => (traces_bound _).bind fun _ =>
  (traces_read (ReadM.traces_ofMatrix _)).bind fun _ => (traces_pointLabels _ _).bind fun _ =>
  (traces_emit _ _).bind fun _ => (ExecM.traces_note _ _).bind fun _ =>
  (traces_emit _ _).bind fun _ => (ExecM.traces_note _ _).bind fun _ =>
  (traces_emit _ _).bind fun _ => (ExecM.traces_note _ _).bind fun _ => traces_emit _ _

theorem traces_supplementary (command : Command) (kind : PointKind) :
    Traces Machine.lexer (supplementary command kind) :=
  (traces_read (traces_variableOperand _)).bind fun _ =>
  (traces_read (traces_variableOperand _)).bind fun _ =>
  (traces_read (traces_variableOperand _)).bind fun _ =>
  (traces_read (traces_fileOperand _)).bind fun _ =>
  (traces_bound _).bind fun _ => (traces_bound _).bind fun _ => (traces_bound _).bind fun _ =>
  (traces_read (ReadM.traces_ofMatrix _)).bind fun _ =>
  (ExecM.traces_note _ _).bind fun _ => traces_emit _ _

end Statement

/-! ## Control flow -/

namespace Flow

open Reader ExecM

theorem traces_skipFrom (block : Block) (bound depth : Nat) :
    Traces Reader.lexer (skipFrom block bound depth) := by
  induction bound generalizing depth with
  | zero => exact traces_throw rfl
  | succ bound ih =>
      refine traces_next.bind fun token => ?_
      split
      · exact traces_throw rfl
      · split
        · exact traces_skipLine.bind fun _ => ih depth
        · split
          · exact ih (depth + 1)
          · split
            · split
              · exact traces_pure ()
              · exact ih _
            · exact ih depth
      · exact ih depth

theorem traces_skip (block : Block) : Traces Machine.lexer (ExecM.read (skip block)) :=
  traces_read (traces_get_bind fun _ => traces_skipFrom block _ 0)

theorem traces_ifStatement : Traces Machine.lexer ifStatement := by
  refine Statement.traces_env.bind fun _ =>
    (traces_read Expression.traces_condition).bind fun holds => ?_
  split
  · exact traces_pure ()
  · exact traces_skip _

theorem traces_pushLoop (start : Cursor) : Traces Machine.lexer (pushLoop start) := by
  intro m
  cases hpush : m.loops.push start with
  | error e =>
      rw [pushLoop_of_error hpush]
      exact .error rfl
  | ok loops =>
      rw [pushLoop_of_ok hpush]
      exact .ok .refl

theorem traces_popLoop : Traces Machine.lexer popLoop := by
  intro m
  cases hpop : m.loops.pop with
  | error e =>
      rw [popLoop_of_error hpop]
      exact .error rfl
  | ok popped =>
      rw [popLoop_of_ok hpop]
      exact .ok .refl

theorem traces_whileStatement (start : Cursor) :
    Traces Machine.lexer (whileStatement start) := by
  refine (traces_pushLoop start).bind fun _ => traces_get_bind fun _ =>
    (ExecM.traces_note _ _).bind fun _ => Statement.traces_env.bind fun _ =>
    (traces_read Expression.traces_condition).bind fun holds => ?_
  split
  · exact traces_pure ()
  · exact traces_popLoop.bind fun _ => traces_skip _

/-- A jump is the last thing that `goto` does, so it has not jumped if it fails. -/
theorem traced_goto {m m' : Machine} {e : Error} (h : goto m = .error e m') :
    Traced Machine.lexer m.lexer (.error e m' : EStateM.Result Error Machine Unit) := by
  have hread := traces_read Reader.traces_next m
  change (ExecM.read Reader.next >>= _) m = _ at h
  cases hnext : ExecM.read Reader.next m with
  | error e' m₁ =>
      rw [bind_of_eq_error hnext] at h
      rw [hnext] at hread
      cases h
      exact hread.cast
  | ok token m₁ =>
      rw [bind_of_eq_ok hnext] at h
      split at h
      · cases h
        exact .error rfl
      · rw [get_bind_apply] at h
        cases hlabel : m₁.labels.find? token.lexeme with
        | none =>
            rw [hlabel] at h
            cases h
            exact .error rfl
        | some label =>
            rw [hlabel] at h
            cases h

theorem traced_endWhile {m m' : Machine} {e : Error} (h : endWhile m = .error e m') :
    Traced Machine.lexer m.lexer (.error e m' : EStateM.Result Error Machine Unit) := by
  rw [endWhile] at h
  cases hpop : m.loops.pop with
  | error cause =>
      rw [bind_of_eq_error (popLoop_of_error hpop)] at h
      cases h
      exact .error rfl
  | ok popped =>
      rw [bind_of_eq_ok (popLoop_of_ok hpop)] at h
      cases h

end Flow

/-! ## Steps -/

namespace Machine

variable {m m' : Machine} {token : Token} {e : Error}

theorem traced_command {word : Command} (h : command word token m = .error e m') :
    Traced Machine.lexer m.lexer
      (.error e m' : EStateM.Result Error Machine (Option Outcome)) := by
  cases word with
  | load => exact Statement.traces_load.traced_of_bind_pure h
  | save => exact Statement.traces_save.traced_of_bind_pure h
  | print => exact Statement.traces_print.traced_of_bind_pure h
  | rem => exact Statement.traces_remark.traced_of_bind_pure h
  | tridiag => exact Statement.traces_tridiag.traced_of_bind_pure h
  | compocor => exact Statement.traces_compocor.traced_of_bind_pure h
  | composupp => exact (Statement.traces_supplementary _ _).traced_of_bind_pure h
  | compocsupp => exact (Statement.traces_supplementary _ _).traced_of_bind_pure h
  | goto => exact (Flow.traced_goto (eq_error_of_bind_pure h)).cast
  | ifBlock => exact Flow.traces_ifStatement.traced_of_bind_pure h
  | whileBlock => exact (Flow.traces_whileStatement _).traced_of_bind_pure h
  | endWhile => exact (Flow.traced_endWhile (eq_error_of_bind_pure h)).cast
  | endIf => cases h
  | quit => cases h

theorem traced_statement (h : statement token m = .error e m') :
    Traced Machine.lexer m.lexer
      (.error e m' : EStateM.Result Error Machine (Option Outcome)) := by
  unfold statement at h
  cases hkind : token.kind with
  | word =>
      rw [hkind] at h
      exact (Statement.traces_assignment _).traced_of_bind_pure h
  | command word =>
      rw [hkind] at h
      exact traced_command h
  | delimiter mark => cases mark <;> rw [hkind] at h <;> cases h <;> exact .error rfl
  | label => rw [hkind] at h; cases h
  | number | function _ | string | quote =>
      rw [hkind] at h
      cases h
      exact .error rfl

/-- A step that fails with a fault has come to it without a jump, and stops there. -/
theorem exists_fault_of_step {found : String}
    (h : step m = .error (.parse (.invalidParameter found)) m') :
    ∃ last, Moves (fun _ => False) m.lexer last ∧
      last.next.outcome = .error (.invalidParameter found) ∧ m'.lexer = last.next.lexer := by
  cases hnext : m.lexer.next.outcome with
  | error cause =>
      rw [step_of_next_error hnext] at h
      cases h
      exact ⟨m.lexer, .refl, hnext, rfl⟩
  | ok token =>
      rw [step_of_next hnext] at h
      cases traced_statement h with
      | fault hway hfault hstop => exact ⟨_, (Move.next _).moves.trans hway, hfault, hstop⟩
      | error hother => cases hother

end Machine

end MatrixScript
