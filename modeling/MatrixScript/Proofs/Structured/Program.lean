import MatrixScript.Proofs.Lexing.Line
import MatrixScript.Script.Run

/-!
# Nested programs

A script of lines with properly nested blocks is a `Program`.  `Program.Runs` is its
meaning, step by step through the nested blocks and without any place in a text: a
simple line does what it does as a script of its own, the body of an `if` runs or not,
and the body of a `while` runs as long as the condition holds.  `Program.Concludes` adds
what comes after the last line: the output is flushed.
-/

namespace MatrixScript

/-- The lines of a text, each with its line feed if it has one. -/
def Text.linesWithEnds : List Char → List (List Char)
  | [] => []
  | c :: rest =>
    if c = '\n' then ['\n'] :: linesWithEnds rest
    else
      match linesWithEnds rest with
      | [] => [[c]]
      | line :: lines => (c :: line) :: lines

/-- Lines that are done one after another; blocks have a line in front of their body and
one behind it. -/
inductive Program where
  | done
  | line (text : List Char) (next : Program)
  | ifBlock (head : List Char) (body : Program) (foot : List Char) (next : Program)
  | whileBlock (head : List Char) (body : Program) (foot : List Char) (next : Program)

namespace Program

/-- All lines, from the first to the last. -/
def lines : Program → List (List Char)
  | done => []
  | line text next => text :: next.lines
  | ifBlock head body foot next => head :: (body.lines ++ foot :: next.lines)
  | whileBlock head body foot next => head :: (body.lines ++ foot :: next.lines)

/-- How many `while` blocks are nested in one another. -/
def depth : Program → Nat
  | done => 0
  | line _ next => next.depth
  | ifBlock _ body _ next => max body.depth next.depth
  | whileBlock _ body _ next => max (body.depth + 1) next.depth

end Program

/-! ## Lines that hold one statement -/

/-- The tokens before the end of the statement, if all of them can be read. -/
def Lexer.operands? (lexer : Lexer) : (bound : Nat) → Option (List Token)
  | 0 => none
  | bound + 1 =>
    match lexer.next.outcome with
    | .error _ => none
    | .ok token =>
      if token.endsStatement then some []
      else (lexer.next.lexer.operands? bound).map (token :: ·)

/-- The lexer of a script that is a single line. -/
def Lexer.ofLine (params : List String) (line : List Char) : Lexer where
  source := line
  params := params

/-- The tokens of a line. -/
def lineTokens? (params : List String) (line : List Char) : Option (List Token) :=
  (Lexer.ofLine params line).operands? (line.length + 1)

/-- The first token of a line. -/
def lineStart? (params : List String) (line : List Char) : Option Token :=
  (Lexer.ofLine params line).next.outcome.toOption

/-- The number of operands of the commands that compute, read and write. -/
def Command.operandCount? : Command → Option Nat
  | .load => some 4
  | .save => some 2
  | .print => some 1
  | .tridiag => some 3
  | .compocor => some 8
  | .composupp | .compocsupp => some 4
  | .goto | .rem | .quit | .ifBlock | .endIf | .whileBlock | .endWhile => none

/-- A token that is neither a command nor a label. -/
def Token.isOperand (token : Token) : Bool :=
  match token.kind with
  | .command _ | .label => false
  | _ => true

/-- The tokens of an empty line, of a command with no more operands than it takes, or of
a statement that starts with something else, as an assignment does. -/
def isStatement : List Token → Bool
  | [] => true
  | first :: operands =>
    operands.all Token.isOperand &&
      match first.kind with
      | .command command =>
        match command.operandCount? with
        | some count => operands.length ≤ count
        | none => false
      | .label => false
      | _ => true

/-- A line that holds one statement which is no part of a block, or a remark. -/
def IsSimple (params : List String) (line : List Char) : Prop :=
  (∃ token ∈ lineStart? params line, token.kind = .command .rem) ∨
    ∃ tokens ∈ lineTokens? params line, isStatement tokens = true

instance (params : List String) (line : List Char) : Decidable (IsSimple params line) :=
  inferInstanceAs (Decidable (_ ∨ _))

/-- A line that holds the command that opens a block and a condition.  Whatever the
variables are, nothing is left of the line when the condition has been read. -/
structure IsHead (params : List String) (command : Command) (line : List Char) : Prop where
  tokens : ∃ first operands, lineTokens? params line = some (first :: operands) ∧
    first.kind = .command command ∧ operands.all Token.isOperand = true
  whole : ∀ env reader holds reader',
    reader.lexer = (Lexer.ofLine params line).next.lexer →
    Expression.condition env reader = .ok holds reader' →
    ∃ last, reader'.lexer.next.outcome = .ok last ∧ last.endsStatement = true

/-- A line that holds the command that closes a block, and nothing else. -/
def IsFoot (params : List String) (command : Command) (line : List Char) : Prop :=
  ∃ tokens ∈ lineTokens? params line, tokens.map (·.kind) = [.command command]

instance (params : List String) (command : Command) (line : List Char) :
    Decidable (IsFoot params command line) :=
  inferInstanceAs (Decidable (∃ tokens ∈ lineTokens? params line, _))

/-- Every line of a program holds what its place asks for. -/
def Program.WellFormed (params : List String) : Program → Prop
  | done => True
  | line text next => IsSimple params text ∧ next.WellFormed params
  | ifBlock head body foot next =>
    IsHead params .ifBlock head ∧ body.WellFormed params ∧ IsFoot params .endIf foot ∧
      next.WellFormed params
  | whileBlock head body foot next =>
    IsHead params .whileBlock head ∧ body.WellFormed params ∧ IsFoot params .endWhile foot ∧
      next.WellFormed params

/-! ## The meaning of programs -/

/-- What a program works on. -/
structure Config where
  store : Store
  world : World

/-- A machine at the start of a script that is a single line. -/
def Machine.onLine (params : List String) (limits : Limits) (config : Config)
    (line : List Char) : Machine where
  reader := { lexer := Lexer.ofLine params line }
  store := config.store
  labels := {}
  loops := { capacity := limits.maxLoopDepth }
  limits := limits
  world := config.world

/-- The condition after the first token of a line. -/
def headCondition (env : Expression.Env) : ReadM Bool := do
  let _ ← Reader.next
  Expression.condition env

section Meaning

variable (params : List String) (limits : Limits)

/-- What a simple line does. -/
def perform (config : Config) (line : List Char) : EStateM.Result Error Config Unit :=
  match Machine.step (Machine.onLine params limits config line) with
  | .ok _ m => .ok () ⟨m.store, m.world⟩
  | .error e m => .error e ⟨m.store, m.world⟩

/-- Whether the condition of a line holds. -/
def test (config : Config) (line : List Char) : Except Error Bool :=
  match headCondition ⟨config.store, limits.maxElements⟩ { lexer := .ofLine params line } with
  | .ok holds _ => .ok holds
  | .error e _ => .error e

/-- How a program comes to its end, or fails. -/
inductive Program.Runs : Program → Config → EStateM.Result Error Config Unit → Prop where
  | done {c : Config} : Runs .done c (.ok () c)
  | line {text : List Char} {next : Program} {c c' : Config}
      {result : EStateM.Result Error Config Unit}
      (hline : perform params limits c text = .ok () c') (hnext : Runs next c' result) :
      Runs (.line text next) c result
  | lineFails {text : List Char} {next : Program} {c c' : Config} {e : Error}
      (hline : perform params limits c text = .error e c') :
      Runs (.line text next) c (.error e c')
  | ifTrue {head foot : List Char} {body next : Program} {c c' : Config}
      {result : EStateM.Result Error Config Unit} (htest : test params limits c head = .ok true)
      (hbody : Runs body c (.ok () c')) (hnext : Runs next c' result) :
      Runs (.ifBlock head body foot next) c result
  | ifBodyFails {head foot : List Char} {body next : Program} {c c' : Config} {e : Error}
      (htest : test params limits c head = .ok true) (hbody : Runs body c (.error e c')) :
      Runs (.ifBlock head body foot next) c (.error e c')
  | ifFalse {head foot : List Char} {body next : Program} {c : Config}
      {result : EStateM.Result Error Config Unit} (htest : test params limits c head = .ok false)
      (hnext : Runs next c result) : Runs (.ifBlock head body foot next) c result
  | ifFails {head foot : List Char} {body next : Program} {c : Config} {e : Error}
      (htest : test params limits c head = .error e) :
      Runs (.ifBlock head body foot next) c (.error e c)
  | whileTrue {head foot : List Char} {body next : Program} {c c' : Config}
      {result : EStateM.Result Error Config Unit} (htest : test params limits c head = .ok true)
      (hbody : Runs body c (.ok () c'))
      (hagain : Runs (.whileBlock head body foot next) c' result) :
      Runs (.whileBlock head body foot next) c result
  | whileBodyFails {head foot : List Char} {body next : Program} {c c' : Config} {e : Error}
      (htest : test params limits c head = .ok true) (hbody : Runs body c (.error e c')) :
      Runs (.whileBlock head body foot next) c (.error e c')
  | whileFalse {head foot : List Char} {body next : Program} {c : Config}
      {result : EStateM.Result Error Config Unit} (htest : test params limits c head = .ok false)
      (hnext : Runs next c result) : Runs (.whileBlock head body foot next) c result
  | whileFails {head foot : List Char} {body next : Program} {c : Config} {e : Error}
      (htest : test params limits c head = .error e) :
      Runs (.whileBlock head body foot next) c (.error e c)

/-- The output is flushed after the last line, unless a line has failed. -/
def flushed : EStateM.Result Error Config Unit → EStateM.Result Error Config Unit
  | .error e c => .error e c
  | .ok _ c =>
    match c.world.flush with
    | (.error e, world) => .error (.file e) { c with world := world }
    | (.ok _, world) => .ok () { c with world := world }

/-- How a script whose lines make up a program comes to its end, or fails. -/
def Program.Concludes (program : Program) (c : Config) (result : EStateM.Result Error Config Unit) :
    Prop :=
  ∃ reached, program.Runs params limits c reached ∧ flushed reached = result

end Meaning

end MatrixScript
