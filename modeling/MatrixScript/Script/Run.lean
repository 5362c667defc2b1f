import MatrixScript.Script.Flow

/-!
# Running scripts

A run collects the labels and then takes one step after another: a step reads the first token of a
statement and does what the statement says. After the last step the output is flushed. A script can
run for ever, so `Machine.run` takes the number of steps that it may make.
-/

namespace MatrixScript

namespace Machine

/-- Does what a command says, whose word is `token`. -/
def command (command : Command) (token : Token) : ExecM (Option Outcome) := do
  match command with
  | .load => Statement.load
  | .save => Statement.save
  | .print => Statement.print
  | .rem => Statement.remark
  | .tridiag => Statement.tridiag
  | .compocor => Statement.compocor
  | .composupp => Statement.supplementary .composupp .rows
  | .compocsupp => Statement.supplementary .compocsupp .columns
  | .goto => Flow.goto
  | .ifBlock => Flow.ifStatement
  | .endIf => pure ()
  | .whileBlock => Flow.whileStatement token.start
  | .endWhile => Flow.endWhile
  | .quit => return some (.ended token.start.line)
  pure none

/-- One step: a statement, or an empty one. -/
def step : ExecM (Option Outcome) := do
  let token ← (Reader.next : ReadM Token)
  match token.kind with
  | .word =>
    Statement.assignment token.lexeme
    pure none
  | .command word => command word token
  | .delimiter .endOfScript => pure (some .finished)
  | .delimiter .endOfLine | .label => pure none
  | _ => (Reader.refuse (.unexpectedToken token.describe) : ReadM (Option Outcome))

/-- The error with the line of the last token taken. -/
def diagnose (machine : Machine) (error : Error) : ScriptError :=
  let lexer := machine.reader.lexer
  ⟨lexer.line, lexer.lineText lexer.line, error⟩

def endNote : Outcome → String
  | .finished => "end of script"
  | .ended line => s!"end of script at line {line}"

def withNote (machine : Machine) (note : Note) : Machine :=
  { machine with reader.journal := machine.reader.journal.push note }

/-- What comes after the last step: the output is flushed, and the end is noted if that succeeds. -/
def finish (machine : Machine) (outcome : Outcome) : Except ScriptError Outcome × Machine :=
  let (flushed, world) := machine.world.flush
  let machine := { machine with world := world }
  match flushed with
  | .error e => (.error (machine.diagnose (.file e)), machine)
  | .ok () => (.ok outcome, machine.withNote ⟨.info, endNote outcome⟩)

/-- Goes on with a run for at most `fuel` steps. There is no result if it has not come to its end by
then. -/
def runFrom : (fuel : Nat) → Machine → Option (Except ScriptError Outcome) × Machine
  | 0, machine => (none, machine)
  | fuel + 1, machine =>
    match step machine with
    | .error e machine => (some (.error (machine.diagnose e)), machine)
    | .ok (some outcome) machine =>
      let (result, machine) := machine.finish outcome
      (some result, machine)
    | .ok none machine => runFrom fuel machine

/-- Gets ready for a run: back to the start, with the labels collected and no loop open. The variables
and the world stay as they are. -/
def prepare (machine : Machine) : Except ScriptError Machine × Machine :=
  let found := LabelIndex.collect machine.limits.maxLabels machine.reader.lexer
  let machine :=
    { machine with
      reader := { lexer := found.lexer, journal := machine.reader.journal ++ found.notes } }
  match found.outcome with
  | .error e => (.error (machine.diagnose e), machine)
  | .ok labels =>
    let ready :=
      { machine with labels := labels, loops := { capacity := machine.limits.maxLoopDepth } }
    (.ok ready, ready)

/-- Runs the script from its start for at most `fuel` steps. -/
def run (fuel : Nat) (machine : Machine) : Option (Except ScriptError Outcome) × Machine :=
  match machine.prepare with
  | (.error e, machine) => (some (.error e), machine)
  | (.ok machine, _) => runFrom fuel machine

end Machine

end MatrixScript
