import MatrixScript.Script.Lexer

/-!
# Labels

Before a script runs, its labels are collected with the places right after them. Names are compared
without regard to the case of their ASCII letters, and the first definition of a name counts.
-/

namespace MatrixScript

/-- A label and the place where a jump to it goes on. -/
structure Label where
  name : String
  target : Cursor
  deriving DecidableEq, Repr

/-- The labels of a script, in the order of their definitions. -/
structure LabelIndex where
  labels : List Label := []
  deriving DecidableEq, Repr

namespace LabelIndex

/-- The label with a name, in any case. -/
def find? (index : LabelIndex) (name : String) : Option Label :=
  index.labels.find? fun label => foldCase label.name == foldCase name

def size (index : LabelIndex) : Nat := index.labels.length

/-- The result of collecting labels: the labels or an error, the lexer afterwards, and the notes that
were made. -/
structure Collected where
  outcome : Except Error LabelIndex
  lexer : Lexer
  notes : List Note

/-- Goes on collecting labels, reading at most `bound` tokens. The rest of a line after a remark is passed
over. -/
def collectFrom (max : Nat) : (bound : Nat) → LabelIndex → Lexer → List Note → Collected
  | 0, index, lexer, notes => ⟨.ok index, lexer, notes⟩
  | bound + 1, index, lexer, notes =>
    let reading := lexer.next
    let lexer := reading.lexer
    let notes := notes ++ reading.notes
    match reading.outcome with
    | .error e => ⟨.error (.parse e), lexer, notes⟩
    | .ok token =>
      match token.kind with
      | .delimiter .endOfScript => ⟨.ok index, lexer, notes⟩
      | .command .rem => collectFrom max bound index lexer.skipLine.2 notes
      | .label =>
        if (index.find? token.lexeme).isSome then
          let text := s!"line {token.start.line}: label '{token.lexeme}' is defined more than once"
          collectFrom max bound index lexer (notes ++ [⟨.warn, text⟩])
        else if max ≤ index.size then ⟨.error (.flow (.tooManyLabels max)), lexer, notes⟩
        else
          collectFrom max bound ⟨index.labels ++ [⟨token.lexeme, lexer.position⟩]⟩ lexer notes
      | _ => collectFrom max bound index lexer notes

/-- The lines of a script with their numbers, as notes. -/
def listing (source : List Char) : List Note :=
  (Text.lines source).zipIdx.map fun (line, i) => ⟨.trace, s!"{i + 1} : {String.ofList line}"⟩

/-- Collects at most `max` labels from the start of the script, and goes back to the start. -/
def collect (max : Nat) (lexer : Lexer) : Collected :=
  let found := collectFrom max lexer.tokenBound {} lexer.reset []
  match found.outcome with
  | .error _ => found
  | .ok index =>
    { outcome := .ok index
      lexer := found.lexer.reset
      notes := found.notes ++ listing lexer.source ++ [⟨.debug, s!"{index.size} label(s) indexed"⟩] }

end LabelIndex

end MatrixScript
