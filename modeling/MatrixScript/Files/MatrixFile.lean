import MatrixScript.Decimal.Numeral
import MatrixScript.DenseMatrix.Error
import MatrixScript.Files.Disk
import MatrixScript.Scalar.Float
import MatrixScript.Text.Blank

/-!
# Matrices and labels in text files

A matrix is written one row to a line, each number followed by two blanks and, after the last one, an
optional label. It is read back from the first fields of the lines that are not blank, so neither the
labels nor blank lines matter.
-/

namespace MatrixScript

/-- What is wrong with a line of numbers. -/
inductive LineFault where
  | fewValues (expected found : Nat)
  | notNumber (field : String)
  deriving DecidableEq, Repr

def LineFault.message : LineFault → String
  | .fewValues expected found => s!"expected {expected} values, found {found}"
  | .notNumber field => s!"'{field}' is not a number"

/-- Why a file gives no matrix or no labels, or takes no text. -/
inductive FileError where
  | access (path : String) (fault : FileFault)
  | tooShort (path : String) (expected found : Nat)
  | malformed (path : String) (line : Nat) (fault : LineFault)
  | invalidShape (cause : DenseMatrix.InvalidShape)
  deriving DecidableEq, Repr

def FileError.message : FileError → String
  | .access path fault => s!"I/O error on '{path}': {fault.message}"
  | .tooShort path expected found =>
    s!"File '{path}' is too short: expected {expected} lines, found {found}."
  | .malformed path line fault => s!"Read error in '{path}' at line {line}: {fault.message}."
  | .invalidShape cause => cause.message

namespace MatrixFile

open Disk (Line)

def readField (field : List Char) : Except LineFault Float :=
  match Decimal.float? (String.ofList field) with
  | some x => .ok x
  | none => .error (.notNumber (String.ofList field))

/-- The numbers of a line of which the first fields are given. -/
def readFields (cols : Nat) (fields : List (List Char)) : Except LineFault (List Float) :=
  if fields.length < cols then .error (.fewValues cols fields.length)
  else fields.mapM readField

/-- Reads rows until none is wanted any more, with the lines that are left. The line after the last row
is taken too. `number` lines came before, and `found` are the rows they held, the last one first. -/
def readRows (path : String) (rows cols : Nat) :
    (wanted number : Nat) → (found : List (List Float)) → List Line →
      Except FileError (List (List Float)) × List Line
  | 0, _, found, [] => (.ok found.reverse, [])
  | wanted + 1, _, _, [] => (.error (.tooShort path rows (rows - (wanted + 1))), [])
  | 0, _, found, _ :: rest => (.ok found.reverse, rest)
  | _ + 1, _, _, .error fault :: rest => (.error (.access path fault), rest)
  | wanted + 1, number, found, .ok text :: rest =>
    match (Text.fields text).take cols with
    | [] => readRows path rows cols (wanted + 1) (number + 1) found rest
    | fields =>
      match readFields cols fields with
      | .error fault => (.error (.malformed path (number + 1) fault), rest)
      | .ok row => readRows path rows cols wanted (number + 1) (row :: found) rest

/-- Reads a matrix of a given size, with the lines that are left. -/
def read (path : String) (rows cols : Nat) (lines : List Line) :
    Except FileError (DenseMatrix Float) × List Line :=
  match readRows path rows cols rows 0 [] lines with
  | (.error e, rest) => (.error e, rest)
  | (.ok data, rest) =>
    match DenseMatrix.ofList? rows cols data.flatten with
    | .error cause => (.error (.invalidShape cause), rest)
    | .ok m => (.ok m, rest)

def formatRow (places : Nat) (row : List Float) (label : String) : String :=
  row.foldl (fun text x => text ++ Decimal.fixed places x ++ "  ") "" ++ label ++ "\n"

/-- The rows of a matrix, with as many labels as there are. -/
def format (places : Nat) (labels : List String) (m : DenseMatrix Float) : String :=
  m.toRows.zipIdx.foldl
    (fun text (row, i) => text ++ formatRow places row (labels[i]?.getD "")) ""

/-- A matrix as it is saved, with six places. -/
def saved (m : DenseMatrix Float) : String :=
  format 6 [] m

end MatrixFile

namespace LabelFile

open Disk (Line)

/-- A label is a line without the carriage returns at its end. -/
def label (text : List Char) : String :=
  String.ofList (text.reverse.dropWhile (· = '\r')).reverse

/-- The labels on the first `count` lines of a file. -/
def read (path : String) (count : Nat) (lines : List Line) : Except FileError (List String) :=
  match (lines.take count).mapM fun line => line.map label with
  | .error fault => .error (.access path fault)
  | .ok labels =>
    if labels.length < count then .error (.tooShort path count labels.length) else .ok labels

def load (disk : Disk) (path : String) (count : Nat) : Except FileError (List String) :=
  match disk.open? path with
  | .error fault => .error (.access path fault)
  | .ok lines => read path count lines

end LabelFile

end MatrixScript
