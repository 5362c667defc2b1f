import MatrixScript.Script.Lexer

/-!
# Reading with a journal

The part of a run that only reads: a lexer and the journal. What is written in `ReadM` can take tokens,
make notes and fail, and nothing else.
-/

namespace MatrixScript

structure Reader where
  lexer : Lexer
  journal : Journal := #[]

/-- Reading that may fail. The state at the point of failure is kept. -/
abbrev ReadM := EStateM Error Reader

namespace Reader

/-- Performs one reading. -/
def perform {α : Type} (read : Lexer → Lexer.Reading α) : ReadM α := fun reader =>
  let reading := read reader.lexer
  let reader := { lexer := reading.lexer, journal := reader.journal ++ reading.notes }
  match reading.outcome with
  | .ok value => .ok value reader
  | .error e => .error (.parse e) reader

def next : ReadM Token :=
  perform Lexer.next

def peek : ReadM Token :=
  perform Lexer.peek

def note (level : Level) (text : String) : ReadM Unit :=
  modify fun reader => { reader with journal := reader.journal.push ⟨level, text⟩ }

def refuse {α : Type} (cause : ParseError) : ReadM α :=
  throw (.parse cause)

/-- Passes over the rest of the line, with the text that was passed over. -/
def skipLine : ReadM (List Char) :=
  modifyGet fun reader =>
    let (text, lexer) := reader.lexer.skipLine
    (text, { reader with lexer := lexer })

def seek (cursor : Cursor) : ReadM Unit :=
  modify fun reader => { reader with lexer := reader.lexer.seek cursor }

/-- Takes a given mark, written `symbol`. -/
def expect (mark : Delimiter) (symbol : Char) : ReadM Unit := do
  let token ← next
  if token.is mark then pure ()
  else refuse (.expectedDelimiter symbol token.describe)

/-- Requires that the statement ends here, without taking its end. -/
def expectEnd : ReadM Unit := do
  let token ← peek
  if token.endsStatement then pure ()
  else refuse (.trailingTokens token.describe)

/-- A result with the reading stopped if there is none. -/
def ofParse {α : Type} : Except ParseError α → ReadM α
  | .ok value => pure value
  | .error e => refuse e

end Reader

namespace Literal

def variableName (text : String) : Except ParseError VariableName :=
  match VariableName.ofText? text with
  | some name => .ok name
  | none => .error (.badVariableName text)

def scalar (text : String) : Except ParseError Float :=
  match Decimal.finite? text with
  | some x => .ok x
  | none => .error (.malformedNumber text)

/-- The positive count that a text writes. -/
def dimension (text : String) : Except ParseError Nat :=
  match (Decimal.count? text).filter (0 < ·) with
  | some n => .ok n
  | none => .error (.invalidDimension text)

end Literal

/-- The number of elements of a matrix that is to be built, if there may be so many. -/
def checkedElements (rows cols max : Nat) : Except Error Nat :=
  if rows * cols ≤ max then .ok (rows * cols) else .error (.tooManyElements ⟨rows, cols⟩ max)

/-- A result with the reading stopped if there is none. -/
def ReadM.ofExcept {α : Type} : Except Error α → ReadM α
  | .ok value => pure value
  | .error e => throw e

def ReadM.ofMatrix {α : Type} : Except (MatrixError Float) α → ReadM α
  | .ok value => pure value
  | .error e => throw (.matrix e)

def Store.bound (store : Store) (name : VariableName) : Except Error (DenseMatrix Float) :=
  match store.get? name with
  | some m => .ok m
  | none => .error (.unbound name)

end MatrixScript
