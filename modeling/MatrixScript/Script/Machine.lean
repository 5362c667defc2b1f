import MatrixScript.Limits
import MatrixScript.Script.LabelIndex
import MatrixScript.Script.Reader

/-!
# The machine that runs scripts

The state of a run: the reader with its place in the script, the variables, the labels, the open
loops, and the world around the script, which is its files, its standard input and its output. The
output goes to a sink, which may refuse a text or fail to pass on what it has taken.
-/

namespace MatrixScript

/-- The places of the `while` commands whose loops are open, the innermost first, and how many there
can be. -/
structure LoopStack where
  markers : List Cursor := []
  capacity : Nat
  deriving DecidableEq, Repr

namespace LoopStack

def depth (loops : LoopStack) : Nat := loops.markers.length

def push (loops : LoopStack) (marker : Cursor) : Except FlowError LoopStack :=
  if loops.capacity ≤ loops.depth then .error (.loopsTooDeep loops.capacity)
  else .ok { loops with markers := marker :: loops.markers }

def pop (loops : LoopStack) : Except FlowError (Cursor × LoopStack) :=
  match loops.markers with
  | [] => .error .endwhileWithoutWhile
  | marker :: rest => .ok (marker, { loops with markers := rest })

end LoopStack

/-- A call that the sink of the output does not do: the reason, and how many characters of a text it has
taken by then. -/
structure Refusal where
  reason : String
  taken : Nat := 0
  deriving DecidableEq, Repr

/-- The files, what is left of the standard input, what has been written to the console, and how the
sink of the output answers the calls to come. It does all those for which no refusal is given. -/
structure World where
  disk : Disk := Disk.ofFiles []
  input : List Disk.Line := []
  output : String := ""
  sink : List (Option Refusal) := []

namespace World

def write (world : World) (path text : String) : Except FileError World :=
  match world.disk.write? path text with
  | .error fault => .error (.access path fault)
  | .ok disk => .ok { world with disk := disk }

/-- Calls the sink. -/
def call (world : World) : Option Refusal × World :=
  (world.sink.head?.join, { world with sink := world.sink.tail })

/-- Writes a text to the console. A text that is refused breaks off where the sink stopped. -/
def say (world : World) (text : String) : Except FileError Unit × World :=
  match world.call with
  | (none, world) => (.ok (), { world with output := world.output ++ text })
  | (some refusal, world) =>
    let part := String.ofList (text.toList.take refusal.taken)
    (.error (.access "con:" (.refused refusal.reason)), { world with output := world.output ++ part })

/-- Has the sink pass on all that it has taken. -/
def flush (world : World) : Except FileError Unit × World :=
  match world.call with
  | (none, world) => (.ok (), world)
  | (some refusal, world) => (.error (.access "output" (.refused refusal.reason)), world)

/-- Reads a matrix from the console, whose lines are used up, or from a file. -/
def load (world : World) (path : String) (rows cols : Nat) :
    Except FileError (DenseMatrix Float) × World :=
  if isConsole path then
    let (result, rest) := MatrixFile.read path rows cols world.input
    (result, { world with input := rest })
  else
    match world.disk.open? path with
    | .error fault => (.error (.access path fault), world)
    | .ok lines => ((MatrixFile.read path rows cols lines).1, world)

end World

structure Machine where
  reader : Reader
  store : Store
  labels : LabelIndex
  loops : LoopStack
  limits : Limits
  world : World

/-- How a script comes to its end: there is no more text, or it says so. -/
inductive Outcome where
  | finished
  | ended (line : Nat)
  deriving DecidableEq, Repr

/-- Running statements, which may fail. The state at the point of failure is kept. -/
abbrev ExecM := EStateM Error Machine

namespace Machine

/-- A machine for a script, before its first run. -/
def new (source : String) (params : List String) (limits : Limits) (world : World) : Machine where
  reader := { lexer := { source := source.toList, params := params } }
  store := Store.empty
  labels := {}
  loops := { capacity := limits.maxLoopDepth }
  limits := limits
  world := world

end Machine

namespace ExecM

/-- Reads, and leaves all else as it is. -/
def read {α : Type} (action : ReadM α) : ExecM α := fun machine =>
  match action machine.reader with
  | .ok value reader => .ok value { machine with reader := reader }
  | .error e reader => .error e { machine with reader := reader }

instance : MonadLift ReadM ExecM := ⟨read⟩

/-- A result with the run stopped if there is none. -/
def ofExcept {α : Type} : Except Error α → ExecM α
  | .ok value => pure value
  | .error e => throw e

def bound (name : VariableName) : ExecM (DenseMatrix Float) := do
  ofExcept ((← get).store.bound name)

def assign (name : VariableName) (value : DenseMatrix Float) : ExecM Unit := do
  Reader.note .debug s!"{name.letter} <- {value.shape.text} matrix"
  modify fun machine => { machine with store := machine.store.insert name value }

/-- Writes a text to a file, in place of what was there. -/
def writeFile (path text : String) : ExecM Unit := do
  match (← get).world.write path text with
  | .error e => throw (.file e)
  | .ok world =>
    modify fun machine => { machine with world := world }
    Reader.note .info s!"wrote {path}"

/-- Writes a text to the console. What the sink has taken stays there if it then refuses the rest. -/
def say (text : String) : ExecM Unit := do
  let (result, world) := (← get).world.say text
  modify fun machine => { machine with world := world }
  ofExcept (result.mapError .file)

def emit (path text : String) : ExecM Unit :=
  if isConsole path then say text else writeFile path text

end ExecM

end MatrixScript
