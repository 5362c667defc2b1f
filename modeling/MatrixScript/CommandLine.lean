import MatrixScript.Script.Run

/-!
# The command line

The program takes the name of a script, the values of its parameters, and options for the limits of the
run. Options may stand anywhere before two dashes on their own; a value stands after its option, or in
the same argument after an equals sign, where it may start with a dash.
-/

namespace MatrixScript

namespace CommandLine

inductive Setting where
  | maxElements
  | maxLabels
  | maxLoopDepth
  | maxIterations
  | tolerance
  deriving DecidableEq, Repr

def Setting.ofName? : String → Option Setting
  | "max-elements" => some maxElements
  | "max-labels" => some maxLabels
  | "max-loop-depth" => some maxLoopDepth
  | "max-iterations" => some maxIterations
  | "tolerance" => some tolerance
  | _ => none

/-- What has been read of the arguments. -/
structure Draft where
  positional : List String := []
  given : List Setting := []
  limits : Limits := {}
  verbosity : Nat := 0

def change (limits : Limits) (setting : Setting) (value : String) : Option Limits :=
  match setting with
  | .maxElements => (Decimal.count? value).map fun n => { limits with maxElements := n }
  | .maxLabels => (Decimal.count? value).map fun n => { limits with maxLabels := n }
  | .maxLoopDepth => (Decimal.count? value).map fun n => { limits with maxLoopDepth := n }
  | .maxIterations => (Decimal.count? value).map fun n => { limits with maxIterations := n }
  | .tolerance => (Decimal.float? value).map fun x => { limits with tolerance := x }

/-- Takes a value for a setting, which must not have one already. -/
def Draft.assign (draft : Draft) (setting : Setting) (value : String) : Option Draft :=
  if setting ∈ draft.given then none
  else
    (change draft.limits setting value).map fun limits =>
      { draft with limits := limits, given := setting :: draft.given }

/-- Takes an argument that is no option. -/
def Draft.add (draft : Draft) (argument : String) : Draft :=
  { draft with positional := draft.positional ++ [argument] }

def Draft.louder (draft : Draft) (count : Nat) : Draft :=
  { draft with verbosity := draft.verbosity + count }

inductive Argument where
  | plain
  | verbose (count : Nat)
  | setting (setting : Setting) (value : Option String)
  | unknown
  deriving DecidableEq, Repr

/-- A long option, without its dashes. -/
def longOption (text : List Char) : Argument :=
  let name := String.ofList (text.takeWhile (· != '='))
  match text.dropWhile (· != '=') with
  | [] =>
    if name = "verbose" then .verbose 1
    else
      match Setting.ofName? name with
      | some setting => .setting setting none
      | none => .unknown
  | _ :: value =>
    match Setting.ofName? name with
    | some setting => .setting setting (some (String.ofList value))
    | none => .unknown

/-- Tells the arguments apart. A dash on its own is no option. -/
def classify (argument : String) : Argument :=
  match argument.toList with
  | '-' :: '-' :: text => longOption text
  | '-' :: c :: flags => if (c :: flags).all (· = 'v') then .verbose (flags.length + 1) else .unknown
  | _ => .plain

/-- Reads the arguments. There is no result if they are not as the program expects them. -/
def read? : List String → Draft → Option Draft
  | [], draft => some draft
  | argument :: rest, draft =>
    if argument = "--" then some { draft with positional := draft.positional ++ rest }
    else
      match classify argument with
      | .plain => read? rest (draft.add argument)
      | .verbose count => read? rest (draft.louder count)
      | .unknown => none
      | .setting setting (some value) =>
        match draft.assign setting value with
        | some draft => read? rest draft
        | none => none
      | .setting setting none =>
        match rest with
        | [] => none
        | value :: rest =>
          if classify value = .plain then
            match draft.assign setting value with
            | some draft => read? rest draft
            | none => none
          else none

structure Request where
  script : String
  params : List String
  limits : Limits
  verbosity : Nat

/-- The request of the arguments, whose first one that is no option names the script. -/
def request? (arguments : List String) : Option Request :=
  match read? arguments {} with
  | none => none
  | some draft =>
    match draft.positional with
    | [] => none
    | script :: params =>
      if script.isEmpty then none else some ⟨script, params, draft.limits, draft.verbosity⟩

/-- The machine for a request, given the text of its script. Parameter zero is the name of the script. -/
def Request.machine (request : Request) (source : String) (world : World) : Machine :=
  Machine.new source (request.script :: request.params) request.limits world

/-- The complaint about a script that cannot be read. -/
def Request.unreadable (request : Request) : String :=
  s!"Failed to read the script '{request.script}'. Perhaps this file does not exist?\n"

/-- How the program ended: its exit status, what it wrote to the standard error, and the world
afterwards. -/
structure Report where
  status : Nat
  complaint : String
  world : World

/-- The status after a run, and the complaint if it failed. -/
def conclude : Except ScriptError Outcome → Nat × String
  | .ok _ => (0, "")
  | .error e => (1, e.report ++ "\n")

/-- Runs the program in a world. There is no report if the script has not come to its end after `fuel`
steps. -/
def run (fuel : Nat) (arguments : List String) (world : World) : Option Report :=
  match request? arguments with
  | none => some ⟨2, "", world⟩
  | some request =>
    match world.disk.text? request.script with
    | .error _ => some ⟨3, request.unreadable, world⟩
    | .ok source =>
      match (request.machine source world).run fuel with
      | (none, _) => none
      | (some result, machine) =>
        let (status, complaint) := conclude result
        some ⟨status, complaint, machine.world⟩

end CommandLine

end MatrixScript
