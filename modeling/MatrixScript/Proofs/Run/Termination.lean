import MatrixScript.Proofs.Lexing.Labels
import MatrixScript.Proofs.Run.Effect

/-!
# Every step ends

Expressions nest, operators make chains, and blocks are passed over and labels are collected token
by token.  The machine bounds these recursions by the number of tokens that a script can have.
Here the bounds are shown never to be reached: the programs below are those of the machine, but
for a `Fallback` that says what is done at a bound, and it makes no difference which one is taken
(`Machine.stepWith_eq`, `LabelIndex.collectWith_eq`).  The measure is the number of characters
ahead, which is less than the bound wherever a recursion goes on (`AlikeBelow`).
-/

namespace MatrixScript

open Lexer

/-- What is done at the bound of a recursion: for a nested operand, for a chain of operators, for
a block that is passed over and for the labels that are collected. -/
structure Fallback where
  operand : ReadM Value
  chain : Value → ReadM Value
  block : Flow.Block → ReadM Unit
  labels : LabelIndex → Lexer → List Note → LabelIndex.Collected

/-- What the machine itself does at its bounds. -/
def Fallback.standard : Fallback where
  operand := Reader.refuse .missingExpression
  chain := pure
  block := fun block => throw (.flow block.unclosed)
  labels := fun index lexer notes => ⟨.ok index, lexer, notes⟩

/-! ## Programs with a fallback -/

namespace Expression

section Programs

variable (fallback : Fallback)

def chainWith (level : Delimiter → Option BinaryOperator) (operand : ReadM Value) :
    (bound : Nat) → (left : Value) → ReadM Value
  | 0, left => fallback.chain left
  | bound + 1, left => do
    let token ← Reader.peek
    match token.delimiter?.bind level with
    | none => pure left
    | some operator =>
      let _ ← Reader.next
      let right ← operand
      let value ← ReadM.ofMatrix (operator.apply left right)
      chainWith level operand bound value

def productWith (unary : ReadM Value) (bound : Nat) : ReadM Value := do
  let first ← unary
  chainWith fallback Delimiter.productOperator? unary bound first

def sumWith (unary : ReadM Value) (bound : Nat) : ReadM Value := do
  let first ← productWith fallback unary bound
  chainWith fallback Delimiter.sumOperator? (productWith fallback unary bound) bound first

def unaryWith (env : Env) : (bound : Nat) → ReadM Value
  | 0 => fallback.operand
  | bound + 1 => do
    let token ← Reader.peek
    match token.kind with
    | .delimiter mark =>
      match mark.unaryOperator? with
      | some operator =>
        let _ ← Reader.next
        let operand ← unaryWith env bound
        pure (operator.apply operand)
      | none => atom env (sumWith fallback (unaryWith env bound) bound)
    | .function builtin =>
      let _ ← Reader.next
      call env (sumWith fallback (unaryWith env bound) bound) builtin
    | _ => atom env (sumWith fallback (unaryWith env bound) bound)

def evaluateWith (env : Env) : ReadM Value := do
  let token ← Reader.peek
  if token.endsStatement then Reader.refuse .missingExpression
  else
    let bound := (← get).lexer.tokenBound
    sumWith fallback (unaryWith fallback env bound) bound

def conditionWith (env : Env) : ReadM Bool := do
  let left ← evaluateWith fallback env
  let token ← Reader.next
  match token.delimiter?.bind comparison? with
  | none => Reader.refuse (.invalidComparison token.describe)
  | some question =>
    let right ← evaluateWith fallback env
    let holds ← ReadM.ofMatrix (DenseMatrix.compare question left right)
    let line := (← get).lexer.line
    Reader.note .debug s!"line {line}: condition {question.name} is {holds}"
    pure holds

end Programs

end Expression

namespace Flow

section Programs

variable (fallback : Fallback)

def skipFromWith (block : Block) : (bound depth : Nat) → ReadM Unit
  | 0, _ => fallback.block block
  | bound + 1, depth => do
    let token ← Reader.next
    match token.kind with
    | .delimiter .endOfScript => throw (.flow block.unclosed)
    | .command command =>
      if command = .rem then
        let _ ← Reader.skipLine
        skipFromWith block bound depth
      else if command = block.opening then skipFromWith block bound (depth + 1)
      else if command = block.closing then
        match depth with
        | 0 => pure ()
        | depth + 1 => skipFromWith block bound depth
      else skipFromWith block bound depth
    | _ => skipFromWith block bound depth

def skipWith (block : Block) : ReadM Unit := do
  skipFromWith fallback block (← get).lexer.tokenBound 0

def ifStatementWith : ExecM Unit := do
  let holds ← Expression.conditionWith fallback (← Statement.env)
  if holds then pure () else skipWith fallback .ifBlock

def whileStatementWith (start : Cursor) : ExecM Unit := do
  pushLoop start
  let depth := (← get).loops.depth
  Reader.note .trace s!"line {start.line}: while, {depth} open loop(s)"
  let holds ← Expression.conditionWith fallback (← Statement.env)
  if holds then pure ()
  else
    let _ ← popLoop
    skipWith fallback .whileBlock

end Programs

end Flow

def Statement.assignmentWith (fallback : Fallback) (name : String) : ExecM Unit := do
  let target ← Reader.ofParse (Literal.variableName name)
  Reader.expect .equals '='
  let value ← Expression.evaluateWith fallback (← env)
  Reader.expectEnd
  ExecM.assign target value

/-- A step of the machine, with the fallback at all bounds that the statement can come to. -/
def Machine.stepWith (fallback : Fallback) : ExecM (Option Outcome) := do
  let token ← (Reader.next : ReadM Token)
  match token.kind with
  | .word =>
    Statement.assignmentWith fallback token.lexeme
    pure none
  | .command .ifBlock =>
    Flow.ifStatementWith fallback
    pure none
  | .command .whileBlock =>
    Flow.whileStatementWith fallback token.start
    pure none
  | _ => statement token

namespace LabelIndex

section Programs

variable (fallback : Fallback)

def collectFromWith (max : Nat) :
    (bound : Nat) → LabelIndex → Lexer → List Note → Collected
  | 0, index, lexer, notes => fallback.labels index lexer notes
  | bound + 1, index, lexer, notes =>
    let reading := lexer.next
    let lexer := reading.lexer
    let notes := notes ++ reading.notes
    match reading.outcome with
    | .error e => ⟨.error (.parse e), lexer, notes⟩
    | .ok token =>
      match token.kind with
      | .delimiter .endOfScript => ⟨.ok index, lexer, notes⟩
      | .command .rem => collectFromWith max bound index lexer.skipLine.2 notes
      | .label =>
        if (index.find? token.lexeme).isSome then
          let text := s!"line {token.start.line}: label '{token.lexeme}' is defined more than once"
          collectFromWith max bound index lexer (notes ++ [⟨.warn, text⟩])
        else if max ≤ index.size then ⟨.error (.flow (.tooManyLabels max)), lexer, notes⟩
        else
          collectFromWith max bound ⟨index.labels ++ [⟨token.lexeme, lexer.position⟩]⟩ lexer notes
      | _ => collectFromWith max bound index lexer notes

def collectWith (max : Nat) (lexer : Lexer) : Collected :=
  let found := collectFromWith fallback max lexer.tokenBound {} lexer.reset []
  match found.outcome with
  | .error _ => found
  | .ok index =>
    { outcome := .ok index
      lexer := found.lexer.reset
      notes := found.notes ++ listing lexer.source ++
        [⟨.debug, s!"{index.size} label(s) indexed"⟩] }

end Programs

end LabelIndex

/-! ## The standard fallback -/

section Standard

open Expression MatrixScript.Flow

variable {bound : Nat}

@[simp] theorem chainWith_standard (level : Delimiter → Option BinaryOperator)
    (operand : ReadM Value) (left : Value) :
    chainWith .standard level operand bound left = chain level operand bound left := by
  induction bound generalizing left with
  | zero => rfl
  | succ bound ih =>
      simp only [chainWith, ih]
      rfl

@[simp] theorem sumWith_standard (operand : ReadM Value) :
    sumWith .standard operand bound = sum operand bound := by
  simp only [sumWith, productWith, chainWith_standard]
  rfl

@[simp] theorem unaryWith_standard (env : Env) :
    unaryWith .standard env bound = unary env bound := by
  induction bound with
  | zero => rfl
  | succ bound ih =>
      simp only [unaryWith, ih, sumWith_standard]
      rfl

@[simp] theorem evaluateWith_standard (env : Env) : evaluateWith .standard env = evaluate env := by
  simp only [evaluateWith, unaryWith_standard, sumWith_standard]
  rfl

@[simp] theorem conditionWith_standard (env : Env) :
    conditionWith .standard env = condition env := by
  simp only [conditionWith, evaluateWith_standard]
  rfl

@[simp] theorem skipFromWith_standard (block : Block) (depth : Nat) :
    skipFromWith .standard block bound depth = skipFrom block bound depth := by
  induction bound generalizing depth with
  | zero => rfl
  | succ bound ih =>
      simp only [skipFromWith, ih]
      rfl

@[simp] theorem skipWith_standard (block : Block) : skipWith .standard block = skip block := by
  simp only [skipWith, skipFromWith_standard]
  rfl

/-- The machine takes the standard fallback. -/
theorem stepWith_standard : Machine.stepWith .standard = Machine.step := by
  have hstep : Machine.step = ExecM.read Reader.next >>= Machine.statement := rfl
  rw [hstep]
  apply congrArg (ExecM.read Reader.next >>= ·)
  funext token
  cases hkind : token.kind with
  | word =>
      simp only [Machine.statement, hkind, Statement.assignmentWith, evaluateWith_standard]
      rfl
  | command word =>
      cases word with
      | ifBlock =>
          simp only [Machine.statement, hkind, ifStatementWith, conditionWith_standard,
            skipWith_standard]
          rfl
      | whileBlock =>
          simp only [Machine.statement, hkind, whileStatementWith, conditionWith_standard,
            skipWith_standard]
          rfl
      | _ => rfl
  | _ => rfl

end Standard

/-! ## Programs that are alike -/

/-- Two programs do the same wherever fewer than `bound` characters are ahead. -/
def AlikeBelow {α : Type} (bound : Nat) (x y : ReadM α) : Prop :=
  ∀ r : Reader, r.lexer.Sound → r.lexer.ahead < bound → x r = y r

section AlikeBelow

variable {α β : Type} {bound : Nat} {x y : ReadM α} {f g : α → ReadM β} {r : Reader}

theorem AlikeBelow.refl (x : ReadM α) : AlikeBelow bound x x :=
  fun _ _ _ => rfl

theorem AlikeBelow.mono {bound' : Nat} (h : AlikeBelow bound x y) (hle : bound' ≤ bound) :
    AlikeBelow bound' x y :=
  fun r hsound hahead => h r hsound (by omega)

theorem AlikeBelow.bind (hx : AlikeBelow bound x y) (hy : Evolves Reader.Moves y)
    (hf : ∀ a, AlikeBelow bound (f a) (g a)) : AlikeBelow bound (x >>= f) (y >>= g) := by
  intro r hsound hahead
  have hmoves := hy r
  have hxy := hx r hsound hahead
  cases hyr : y r with
  | error e r' => rw [bind_of_eq_error hyr, bind_of_eq_error (hxy.trans hyr)]
  | ok a r' =>
      rw [bind_of_eq_ok hyr, bind_of_eq_ok (hxy.trans hyr)]
      rw [hyr] at hmoves
      have hle : r'.lexer.ahead ≤ r.lexer.ahead := hmoves.ahead_le hsound
      exact hf a r' (hmoves.sound (fun _ hfalse => hfalse.elim) hsound) (by omega)

theorem AlikeBelow.map (hx : AlikeBelow bound x y) (hy : Evolves Reader.Moves y) (h : α → β) :
    AlikeBelow bound (h <$> x) (h <$> y) := by
  rw [map_eq_bind, map_eq_bind]
  exact hx.bind hy fun a => .refl _

/-- A token that is looked at is the next one. -/
theorem alikeBelow_peek {f g : Token → ReadM β}
    (h : ∀ token (r : Reader), r.lexer.Sound → r.lexer.ahead < bound →
      r.lexer.next.outcome = .ok token → f token r = g token r) :
    AlikeBelow bound (Reader.peek >>= f) (Reader.peek >>= g) := by
  intro r hsound hahead
  cases hpeek : r.lexer.peek.outcome with
  | error e =>
      have hrun := Reader.peek_of_error hpeek
      rw [bind_of_eq_error hrun, bind_of_eq_error hrun]
  | ok token =>
      have hrun := Reader.peek_of_ok hpeek
      have hle := hsound.ahead_peek_le
      rw [bind_of_eq_ok hrun, bind_of_eq_ok hrun]
      exact h token _ hsound.peek (Nat.lt_of_le_of_lt hle hahead) (next_peek hpeek).2.1

/-- After a token there is a character less ahead. -/
theorem next_bind_eq {f g : Token → ReadM β} {token : Token} (hsound : r.lexer.Sound)
    (hahead : r.lexer.ahead < bound + 1) (hnext : r.lexer.next.outcome = .ok token)
    (hend : token.kind ≠ .delimiter .endOfScript) (h : AlikeBelow bound (f token) (g token)) :
    (Reader.next >>= f) r = (Reader.next >>= g) r := by
  have hlt := hsound.ahead_next_lt hnext hend
  have hrun := Reader.next_of_ok hnext
  rw [bind_of_eq_ok hrun, bind_of_eq_ok hrun]
  exact h _ hsound.next (show r.lexer.next.lexer.ahead < bound by omega)

theorem alikeBelow_next {f g : Token → ReadM β}
    (hend : ∀ token, token.kind = .delimiter .endOfScript → f token = g token)
    (h : ∀ token, token.kind ≠ .delimiter .endOfScript → AlikeBelow bound (f token) (g token)) :
    AlikeBelow (bound + 1) (Reader.next >>= f) (Reader.next >>= g) := by
  intro r hsound hahead
  cases hnext : r.lexer.next.outcome with
  | error e =>
      have hrun := Reader.next_of_error hnext
      rw [bind_of_eq_error hrun, bind_of_eq_error hrun]
  | ok token =>
      by_cases hkind : token.kind = .delimiter .endOfScript
      · have hrun := Reader.next_of_ok hnext
        rw [bind_of_eq_ok hrun, bind_of_eq_ok hrun, hend token hkind]
      · exact next_bind_eq hsound hahead hnext hkind (h token hkind)

end AlikeBelow

/-! ## Expressions -/

namespace Expression

variable {fallback : Fallback} {env : Env} {bound : Nat}
  {operand operand' total total' : ReadM Value}

theorem alikeBelow_chain {level : Delimiter → Option BinaryOperator} {limit : Nat}
    (hlevel : level .endOfScript = none) (hoperand : AlikeBelow limit operand operand')
    (hmoves : Evolves Reader.Moves operand') (hle : bound ≤ limit) (left : Value) :
    AlikeBelow bound (chainWith fallback level operand bound left)
      (chain level operand' bound left) := by
  induction bound generalizing left with
  | zero => exact fun _ _ hahead => absurd hahead (Nat.not_lt_zero _)
  | succ bound ih =>
      refine alikeBelow_peek fun token r hsound hahead hnext => ?_
      cases hoperator : token.delimiter?.bind level with
      | none => rfl
      | some operator =>
          have hend : token.kind ≠ .delimiter .endOfScript := by
            intro hkind
            simp [Token.delimiter?, hkind, hlevel] at hoperator
          refine next_bind_eq hsound hahead hnext hend ?_
          refine (hoperand.mono (by omega)).bind hmoves fun right => ?_
          exact (AlikeBelow.refl _).bind (ReadM.evolves_ofMatrix _) fun value =>
            ih (by omega) value

theorem alikeBelow_product (hoperand : AlikeBelow bound operand operand')
    (hmoves : Evolves Reader.Moves operand') :
    AlikeBelow bound (productWith fallback operand bound) (product operand' bound) :=
  hoperand.bind hmoves fun first => alikeBelow_chain rfl hoperand hmoves (Nat.le_refl _) first

theorem alikeBelow_sum (hoperand : AlikeBelow bound operand operand')
    (hmoves : Evolves Reader.Moves operand') :
    AlikeBelow bound (sumWith fallback operand bound) (sum operand' bound) :=
  (alikeBelow_product hoperand hmoves).bind (evolves_product hmoves bound) fun first =>
    alikeBelow_chain rfl (alikeBelow_product hoperand hmoves) (evolves_product hmoves bound)
      (Nat.le_refl _) first

theorem alikeBelow_primitive (htotal : AlikeBelow bound total total')
    (hmoves : Evolves Reader.Moves total') :
    AlikeBelow (bound + 1) (primitive env total) (primitive env total') := by
  refine alikeBelow_next (fun token hkind => ?_) fun token _ => ?_
  · simp only [hkind]
  · cases token.kind with
    | number =>
        refine (AlikeBelow.refl _).bind (Reader.evolves_ofParse _) fun factor => ?_
        exact htotal.bind hmoves fun _ => .refl _
    | word | delimiter _ | command _ | function _ | label | string | quote => exact .refl _

theorem alikeBelow_atom (env : Env) (htotal : AlikeBelow bound total total')
    (hmoves : Evolves Reader.Moves total') :
    AlikeBelow (bound + 1) (atom env total) (atom env total') := by
  refine alikeBelow_peek fun token r hsound hahead hnext => ?_
  cases hparen : token.is .leftParen with
  | false => exact alikeBelow_primitive htotal hmoves r hsound hahead
  | true =>
      have hend : token.kind ≠ .delimiter .endOfScript := by
        simp [Token.is_iff.mp hparen]
      exact next_bind_eq hsound hahead hnext hend (htotal.bind hmoves fun _ => .refl _)

theorem alikeBelow_call (htotal : AlikeBelow bound total total')
    (hmoves : Evolves Reader.Moves total') (builtin : Builtin) :
    AlikeBelow (bound + 1) (call env total builtin) (call env total' builtin) := by
  have hatom := alikeBelow_atom env htotal hmoves
  have hatomMoves : Evolves Reader.Moves (atom env total') := evolves_atom hmoves
  cases builtin with
  | identity | zeros => exact .refl _
  | chiSquare | doubleCenter | standardize | columnProfiles => exact hatom.map hatomMoves _
  | symmetricInverse => exact hatom.bind hatomMoves fun _ => .refl _

theorem alikeBelow_unary (bound : Nat) :
    AlikeBelow bound (unaryWith fallback env bound) (unary env bound) := by
  induction bound with
  | zero => exact fun _ _ hahead => absurd hahead (Nat.not_lt_zero _)
  | succ bound ih =>
      have htotal : AlikeBelow bound (sumWith fallback (unaryWith fallback env bound) bound)
          (sum (unary env bound) bound) := alikeBelow_sum ih (evolves_unary bound)
      have hmoves : Evolves Reader.Moves (sum (unary env bound) bound) :=
        evolves_sum (evolves_unary bound) bound
      refine alikeBelow_peek fun token r hsound hahead hnext => ?_
      have hatom := alikeBelow_atom env htotal hmoves r hsound hahead
      cases hkind : token.kind with
      | delimiter mark =>
          cases hoperator : mark.unaryOperator? with
          | none =>
              simp only [hoperator]
              exact hatom
          | some operator =>
              simp only [hoperator]
              have hend : token.kind ≠ .delimiter .endOfScript := by
                rw [hkind]
                rintro ⟨⟩
                cases hoperator
              apply next_bind_eq hsound hahead hnext hend
              exact ih.bind (evolves_unary bound) fun _ => .refl _
      | function builtin =>
          have hend : token.kind ≠ .delimiter .endOfScript := by simp [hkind]
          exact next_bind_eq hsound hahead hnext hend
            ((alikeBelow_call htotal hmoves builtin).mono (by omega))
      | word | number | command _ | label | string | quote => exact hatom

/-- The bound of an expression is enough, for it is the number of all tokens. -/
theorem alikeBelow_evaluate : AlikeBelow bound (evaluateWith fallback env) (evaluate env) := by
  refine alikeBelow_peek fun token r hsound _ _ => ?_
  cases token.endsStatement with
  | true => rfl
  | false =>
      exact alikeBelow_sum (alikeBelow_unary _) (evolves_unary _) r hsound
        hsound.ahead_lt_tokenBound

theorem alikeBelow_condition : AlikeBelow bound (conditionWith fallback env) (condition env) := by
  refine alikeBelow_evaluate.bind evolves_evaluate fun left => ?_
  refine (AlikeBelow.refl _).bind Reader.evolves_next fun token => ?_
  cases token.delimiter?.bind comparison? with
  | none => exact .refl _
  | some question => exact alikeBelow_evaluate.bind evolves_evaluate fun _ => .refl _

end Expression

/-! ## Blocks -/

namespace Flow

variable {fallback : Fallback} {block : Block}

theorem alikeBelow_skipFrom (bound depth : Nat) :
    AlikeBelow bound (skipFromWith fallback block bound depth) (skipFrom block bound depth) := by
  induction bound generalizing depth with
  | zero => exact fun _ _ hahead => absurd hahead (Nat.not_lt_zero _)
  | succ bound ih =>
      refine alikeBelow_next (fun token hkind => by simp only [hkind]) fun token hend => ?_
      cases hkind : token.kind with
      | delimiter mark =>
          cases mark with
          | endOfScript => exact absurd hkind hend
          | _ => exact ih depth
      | command word =>
          by_cases hrem : word = .rem
          · simp only [if_pos hrem]
            exact (AlikeBelow.refl _).bind Reader.evolves_skipLine fun _ => ih depth
          by_cases hopening : word = block.opening
          · simp only [if_neg hrem, if_pos hopening]
            exact ih (depth + 1)
          by_cases hclosing : word = block.closing
          · simp only [if_neg hrem, if_neg hopening, if_pos hclosing]
            cases depth with
            | zero => exact .refl _
            | succ depth => exact ih depth
          · simp only [if_neg hrem, if_neg hopening, if_neg hclosing]
            exact ih depth
      | word | number | function _ | label | string | quote => exact ih depth

theorem alikeBelow_skip {bound : Nat} :
    AlikeBelow bound (skipWith fallback block) (skip block) :=
  fun r hsound _ => alikeBelow_skipFrom _ 0 r hsound hsound.ahead_lt_tokenBound

end Flow

/-! ## Labels -/

namespace LabelIndex

theorem collectFromWith_eq {bound : Nat} {lexer : Lexer} (fallback : Fallback) (max : Nat)
    (index : LabelIndex) (notes : List Note) (hsound : lexer.Sound)
    (hahead : lexer.ahead < bound) :
    collectFromWith fallback max bound index lexer notes =
      collectFrom max bound index lexer notes := by
  induction bound generalizing index lexer notes with
  | zero => omega
  | succ bound ih =>
      cases hnext : lexer.next.outcome with
      | error e =>
          rw [collectFrom_of_error hnext]
          simp only [collectFromWith, hnext]
      | ok token =>
          by_cases hend : token.kind = .delimiter .endOfScript
          · rw [collectFrom_of_end hnext hend]
            simp only [collectFromWith, hnext, hend]
          have hlt := hsound.ahead_next_lt hnext hend
          have hle := hsound.next.ahead_skipLine_le
          have hgo (index : LabelIndex) (notes : List Note) :=
            @ih lexer.next.lexer index notes hsound.next (by omega)
          have hskip (notes : List Note) :=
            @ih lexer.next.lexer.skipLine.2 index notes hsound.next.skipLine (by omega)
          simp only [collectFromWith, hgo, hskip]
          rfl

/-- The labels of a script are collected up to its end. -/
theorem collectWith_eq (fallback : Fallback) : collectWith fallback = collect := by
  funext max lexer
  have hsound := sound_reset lexer
  have hfound := collectFromWith_eq fallback max {} [] hsound hsound.ahead_lt_tokenBound
  simp only [collectWith, show lexer.tokenBound = lexer.reset.tokenBound from rfl, hfound]
  rfl

end LabelIndex

/-! ## Statements -/

/-- Two statements do the same on every machine with a sound lexer. -/
def SoundlyAlike {α : Type} (x y : ExecM α) : Prop :=
  ∀ m : Machine, m.reader.lexer.Sound → x m = y m

/-- The lexer is left sound. -/
def KeepsSound {α : Type} (x : ExecM α) : Prop :=
  ∀ m : Machine, m.reader.lexer.Sound → (finalState (x m)).reader.lexer.Sound

section SoundlyAlike

open Machine

variable {α β : Type} {x y : ExecM α} {f g : α → ExecM β}

theorem SoundlyAlike.refl (x : ExecM α) : SoundlyAlike x x :=
  fun _ _ => rfl

theorem SoundlyAlike.bind (hx : SoundlyAlike x y) (hy : KeepsSound y)
    (hf : ∀ a, SoundlyAlike (f a) (g a)) : SoundlyAlike (x >>= f) (y >>= g) := by
  intro m hsound
  have hxy := hx m hsound
  have hkept := hy m hsound
  cases hym : y m with
  | error e m' => rw [bind_of_eq_error hym, bind_of_eq_error (hxy.trans hym)]
  | ok a m' =>
      rw [bind_of_eq_ok hym, bind_of_eq_ok (hxy.trans hym)]
      rw [hym] at hkept
      exact hf a m' hkept

theorem SoundlyAlike.bind_same (hx : SoundlyAlike x y) : SoundlyAlike (x >>= f) (y >>= f) :=
  fun m hsound => bind_apply_congr (hx m hsound)

theorem soundlyAlike_read {x y : ReadM α} (h : ∀ bound, AlikeBelow bound x y) :
    SoundlyAlike (ExecM.read x) (ExecM.read y) := by
  intro m hsound
  have hxy := h (m.reader.lexer.ahead + 1) m.reader hsound (Nat.lt_succ_self _)
  simp only [ExecM.read, hxy]

theorem keepsSound_of_quiet (h : Evolves Quiet x) : KeepsSound x :=
  fun m hsound => (h m).1.sound (fun _ hfalse => hfalse.elim) hsound

theorem keepsSound_read {x : ReadM α} (h : Evolves Reader.Moves x) : KeepsSound (ExecM.read x) :=
  keepsSound_of_quiet (ExecM.evolves_read h)

end SoundlyAlike

theorem Statement.soundlyAlike_assignment (fallback : Fallback) (name : String) :
    SoundlyAlike (assignmentWith fallback name) (assignment name) := by
  refine (SoundlyAlike.refl _).bind (keepsSound_read (Reader.evolves_ofParse _)) fun target => ?_
  refine (SoundlyAlike.refl _).bind (keepsSound_read (Reader.evolves_expect _ _)) fun _ => ?_
  refine (SoundlyAlike.refl _).bind (keepsSound_of_quiet evolves_env) fun env => ?_
  exact (soundlyAlike_read fun _ => Expression.alikeBelow_evaluate).bind_same

namespace Flow

open Machine Statement

theorem soundlyAlike_ifStatement (fallback : Fallback) :
    SoundlyAlike (ifStatementWith fallback) ifStatement := by
  refine (SoundlyAlike.refl _).bind (keepsSound_of_quiet evolves_env) fun env => ?_
  refine (soundlyAlike_read fun _ => Expression.alikeBelow_condition).bind
    (keepsSound_read Expression.evolves_condition) fun holds => ?_
  cases holds with
  | true => exact .refl _
  | false => exact soundlyAlike_read fun _ => alikeBelow_skip

theorem keepsSound_pushLoop (start : Cursor) : KeepsSound (pushLoop start) := by
  intro m hsound
  cases hpush : m.loops.push start with
  | error e => rwa [pushLoop_of_error hpush]
  | ok loops => rwa [pushLoop_of_ok hpush]

theorem keepsSound_popLoop : KeepsSound popLoop := by
  intro m hsound
  cases hpop : m.loops.pop with
  | error e => rwa [popLoop_of_error hpop]
  | ok popped => rwa [popLoop_of_ok hpop]

theorem soundlyAlike_whileStatement (fallback : Fallback) (start : Cursor) :
    SoundlyAlike (whileStatementWith fallback start) (whileStatement start) := by
  refine (SoundlyAlike.refl _).bind (keepsSound_pushLoop start) fun _ => ?_
  refine (SoundlyAlike.refl _).bind (keepsSound_of_quiet evolves_get) fun _ => ?_
  refine (SoundlyAlike.refl _).bind (keepsSound_read (Reader.evolves_note _ _)) fun _ => ?_
  refine (SoundlyAlike.refl _).bind (keepsSound_of_quiet evolves_env) fun env => ?_
  refine (soundlyAlike_read fun _ => Expression.alikeBelow_condition).bind
    (keepsSound_read Expression.evolves_condition) fun holds => ?_
  cases holds with
  | true => exact .refl _
  | false =>
      refine (SoundlyAlike.refl _).bind keepsSound_popLoop fun _ => ?_
      exact soundlyAlike_read fun _ => alikeBelow_skip

end Flow

namespace Machine

/-- Whatever is done at the bounds of its recursions, a step does the same: it never comes to
them. -/
theorem stepWith_eq (fallback : Fallback) : SoundlyAlike (stepWith fallback) step := by
  refine (SoundlyAlike.refl _).bind (keepsSound_read Reader.evolves_next) fun token => ?_
  cases hkind : token.kind with
  | word => exact (Statement.soundlyAlike_assignment fallback _).bind_same
  | command word =>
      cases word with
      | ifBlock => exact (Flow.soundlyAlike_ifStatement fallback).bind_same
      | whileBlock => exact (Flow.soundlyAlike_whileStatement fallback _).bind_same
      | _ =>
          rw [statement, hkind]
          exact .refl _
  | _ =>
      rw [statement, hkind]
      exact .refl _

end Machine

end MatrixScript
