import MatrixScript.CommandLine

/-!
# The program

Runs the script that the command line names. The machine only knows the files that it has been told
of, so a step that comes upon a new file name, or upon the console, is not taken yet: what is there is
read first, and then the step is made again. What a step has written is passed on after it; if the
standard output refuses that, the step is made again with a sink that does the same.
-/

namespace MatrixScript

namespace Program

/-- What has been asked for already: file names, and the standard input. -/
structure Asked where
  names : List String := []
  input : Bool := false

inductive Found where
  | directory
  | file (content : ByteArray)
  | nothing

/-- Looks up a path in a directory that is there. -/
def look (path : FilePath) : IO Found := do
  match ← (IO.FS.readBinFile path.name).toBaseIO with
  | .ok content => return .file content
  | .error (.inappropriateType ..) => return .directory
  | .error _ => return .nothing

/-- The disk with all that is found on the way along the pieces of a name. -/
def explore (disk : Disk) : FilePath → List String → IO Disk
  | _, [] => return disk
  | path, piece :: rest => do
    if piece = "" ∨ piece = "." then explore disk path rest
    else if piece = ".." then explore disk path.parent rest
    else if disk.isDirectory (path ++ [piece]) then explore disk (path ++ [piece]) rest
    else
      match ← look (path ++ [piece]) with
      | .directory =>
        let known := { disk with directories := (path ++ [piece]) :: disk.directories }
        explore known (path ++ [piece]) rest
      | .file content => return disk.put (path ++ [piece]) content
      | .nothing => return disk

/-- The disk with what a name stands for. -/
def learn (disk : Disk) (name : String) : IO Disk :=
  explore disk (if name.startsWith "/" then ["/"] else []) (FilePath.components name)

def written (before after : Disk) : List (FilePath × ByteArray) :=
  if before.revision = after.revision then []
  else
    after.files.filter fun (path, content) =>
      (before.content? path).map (·.data) != some content.data

/-- The file names that a step has come upon: the one that it failed to find, and those it has written. -/
def names (result : Option (Except ScriptError Outcome)) (before after : Disk) : List String :=
  let writes := (written before after).map fun (path, _) => path.name
  match result with
  | some (.error ⟨_, _, .file (.access name .missing)⟩) => name :: writes
  | _ => writes

/-- Whether a step has failed because there was too little to read from the console. -/
def starves : Option (Except ScriptError Outcome) → Bool
  | some (.error ⟨_, _, .file (.tooShort name _ _)⟩) => isConsole name
  | _ => false

partial def drain (stream : IO.FS.Stream) (read : ByteArray) : IO ByteArray := do
  let more ← stream.read 65536
  if more.isEmpty then return read else drain stream (read ++ more)

/-- Passes on what a step has written to the console, if the standard output takes it. -/
def speak (before after : Machine) : IO (Option Refusal) := do
  let text := (after.world.output.drop before.world.output.length).toString
  if text.isEmpty then return none
  let out ← IO.getStdout
  match ← (do out.putStr text; out.flush).toBaseIO with
  | .ok () => return none
  | .error e => return some { reason := e.toString }

/-- Passes on what a step has written to the journal and to files. -/
def deliver (level : Level) (before after : Machine) : IO Unit := do
  let fresh : Journal := after.reader.journal.extract before.reader.journal.size
  for line in fresh.upTo level do
    IO.eprintln line
  for (path, content) in written before.world.disk after.world.disk do
    IO.FS.writeBinFile path.name content

partial def proceed (level : Level) (asked : Asked) (machine : Machine) :
    IO (Except ScriptError Outcome) := do
  let (result, after) := machine.runFrom 1
  match (names result machine.world.disk after.world.disk).find? (!asked.names.contains ·) with
  | some name =>
    let disk ← learn machine.world.disk name
    proceed level { asked with names := name :: asked.names } { machine with world.disk := disk }
  | none =>
    if starves result && !asked.input then
      let bytes ← drain (← IO.getStdin) .empty
      proceed level { asked with input := true } { machine with world.input := Disk.linesOf bytes }
    else
      match ← speak machine after with
      | some refusal => proceed level asked { machine with world.sink := [some refusal] }
      | none =>
        deliver level machine after
        match result with
        | some result => return result
        | none => proceed level asked after

/-- The most detailed notes that are shown. -/
def level (verbosity : Nat) : Level :=
  match verbosity with
  | 0 => .warn
  | 1 => .info
  | _ => .debug

end Program

end MatrixScript

open MatrixScript in
def main (arguments : List String) : IO UInt32 := do
  let some request := CommandLine.request? arguments | return 2
  let disk ← Program.learn (Disk.ofFiles []) request.script
  match disk.text? request.script with
  | .error _ =>
    IO.eprint request.unreadable
    return 3
  | .ok source =>
    let machine := request.machine source { disk := disk }
    let (ready, state) := machine.prepare
    let level := Program.level request.verbosity
    Program.deliver level machine state
    let result ← match ready with
      | .error e => pure (.error e)
      | .ok _ => Program.proceed level {} state
    let (status, complaint) := CommandLine.conclude result
    IO.eprint complaint
    return status.toUInt32
