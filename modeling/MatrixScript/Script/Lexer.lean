import MatrixScript.Script.Error
import MatrixScript.Script.Journal
import MatrixScript.Script.Token
import MatrixScript.Text.Alphabetic

/-!
# Reading tokens

A `Lexer` reads tokens from a script, one at a time and from any place, with one token of lookahead.
Spaces, tabs and carriage returns separate tokens; a word, a number or a label runs to the next
character that can end one. A parameter `%d` gives one token, whatever its value contains.
-/

namespace MatrixScript

/-- A script with the values of its parameters, the place where the next token is looked for, the
token that has been looked at but not taken, and the line of the last token taken. -/
structure Lexer where
  source : List Char
  params : List String
  cursor : Cursor := .start
  peeked : Option Token := none
  line : Nat := 1

namespace Lexer

def byteLength (text : List Char) : Nat :=
  text.foldl (fun total c => total + c.utf8Size) 0

/-- The text without its first characters that make up `count` bytes. -/
def dropBytes : (count : Nat) → List Char → List Char
  | _, [] => []
  | 0, text => text
  | count + 1, c :: rest => dropBytes (count + 1 - c.utf8Size) rest

/-- The blanks that separate tokens. -/
def isGap (c : Char) : Bool :=
  c = ' ' || c = '\t' || c = '\r'

/-- The characters that a word, a number or a label cannot contain. -/
def endsWord (c : Char) : Bool :=
  isGap c || c = '\n' || c = '"' || c = '%' || (Delimiter.ofChar? c).isSome

/-- The characters that start a word. -/
def startsWord (c : Char) : Bool :=
  c.isAlpha || c = '.'

/-- What a piece of text is by its first character. -/
inductive PieceKind where
  | newline
  | label
  | mark (delimiter : Delimiter)
  | quote (closed : Bool)
  | parameter (index : Nat)
  | number
  | word
  /-- A character that starts nothing else. -/
  | stray
  deriving DecidableEq, Repr

/-- A piece of text and what follows it. -/
structure Piece where
  kind : PieceKind
  text : List Char
  rest : List Char

/-- The piece that starts with `c` and goes on to the end of a word. -/
def cutRun (kind : PieceKind) (c : Char) (rest : List Char) : Piece where
  kind := kind
  text := c :: rest.takeWhile fun d => !endsWord d
  rest := rest.dropWhile fun d => !endsWord d

/-- The characters that a quotation can contain. -/
def isQuotable (c : Char) : Bool :=
  c != '"' && c != '\n'

/-- The quotation after its opening mark, which ends at the next mark or with the line. -/
def cutQuote (rest : List Char) : Piece :=
  let inner := rest.takeWhile isQuotable
  match rest.dropWhile isQuotable with
  | '"' :: after => ⟨.quote true, '"' :: inner ++ ['"'], after⟩
  | after => ⟨.quote false, '"' :: inner, after⟩

/-- The reference to a parameter after its mark, which is one digit. -/
def cutParameter : List Char → Piece
  | d :: rest =>
    if d.isDigit then ⟨.parameter (d.toNat - '0'.toNat), ['%', d], rest⟩
    else ⟨.stray, ['%'], d :: rest⟩
  | [] => ⟨.stray, ['%'], []⟩

/-- The first piece of a text that does not start with a gap. -/
def cut? : List Char → Option Piece
  | [] => none
  | '\n' :: rest => some ⟨.newline, ['\n'], rest⟩
  | ':' :: rest => some (cutRun .label ':' rest)
  | '"' :: rest => some (cutQuote rest)
  | '%' :: rest => some (cutParameter rest)
  | c :: rest =>
    match Delimiter.ofChar? c with
    | some mark => some ⟨.mark mark, [c], rest⟩
    | none =>
      if c.isDigit then some (cutRun .number c rest)
      else if startsWord c then some (cutRun .word c rest)
      else some ⟨.stray, [c], rest⟩

/-- A word is a command, a function or a name. -/
def classifyWord (word : String) : TokenKind × String :=
  let folded := foldCase word
  match Command.ofWord? folded with
  | some command => (.command command, folded)
  | none =>
    match Builtin.ofWord? folded with
    | some builtin => (.function builtin, folded)
    | none => (.word, word)

/-- A parameter is a string if its value starts with a letter or is missing, and else a number. -/
def substitute (value : String) : TokenKind × String :=
  match value.toList with
  | [] => (.string, "")
  | c :: _ => (if Text.isAlphabetic c then .string else .number, value)

/-- The quotation without its marks. -/
def unquote (closed : Bool) (text : List Char) : List Char :=
  if closed then (text.drop 1).dropLast else text.drop 1

/-- The kind and the lexeme of the token that a piece is. The only piece that is none is a parameter mark
without a digit. -/
def Piece.content (params : List String) (piece : Piece) :
    Except ParseError (TokenKind × String) :=
  let text := String.ofList piece.text
  match piece.kind with
  | .newline => .ok (.delimiter .endOfLine, text)
  | .label => .ok (.label, String.ofList (piece.text.drop 1))
  | .mark delimiter => .ok (.delimiter delimiter, text)
  | .quote closed => .ok (.quote, String.ofList (unquote closed piece.text))
  | .parameter index => .ok (substitute (params[index]?.getD ""))
  | .number => .ok (.number, text)
  | .word => .ok (classifyWord text)
  | .stray =>
    if piece.text = ['%'] then
      .error (.invalidParameter (String.ofList (piece.rest.takeWhile fun c => !Text.isBlank c)))
    else .ok (.string, text)

/-- The notes on a piece that starts on the given line. -/
def Piece.notes (line : Nat) (piece : Piece) : List Note :=
  if piece.kind = .quote false then [⟨.warn, s!"line {line}: unterminated quote"⟩] else []

/-- The result of looking for a token: the token, the place after it, and the notes on it. -/
structure Scan where
  outcome : Except ParseError Token
  cursor : Cursor
  notes : List Note

def scan (lexer : Lexer) : Scan :=
  let text := dropBytes lexer.cursor.offset lexer.source
  let line := lexer.cursor.line
  match cut? (text.dropWhile isGap) with
  | none =>
    let last : Cursor := ⟨byteLength lexer.source, line⟩
    ⟨.ok ⟨.delimiter .endOfScript, "", last⟩, last, []⟩
  | some piece =>
    let start : Cursor := ⟨lexer.cursor.offset + byteLength (text.takeWhile isGap), line⟩
    let after : Cursor :=
      ⟨start.offset + byteLength piece.text, if piece.kind = .newline then line + 1 else line⟩
    ⟨(piece.content lexer.params).map fun (kind, lexeme) => ⟨kind, lexeme, start⟩, after,
      piece.notes line⟩

/-- The result of reading: a value or an error, the lexer afterwards, and the notes that were made. -/
structure Reading (α : Type) where
  outcome : Except ParseError α
  lexer : Lexer
  notes : List Note

/-- Looks at the next token without taking it. -/
def peek (lexer : Lexer) : Reading Token :=
  match lexer.peeked with
  | some token => ⟨.ok token, lexer, []⟩
  | none =>
    let found := lexer.scan
    match found.outcome with
    | .ok token => ⟨.ok token, { lexer with cursor := found.cursor, peeked := some token }, found.notes⟩
    | .error e => ⟨.error e, { lexer with cursor := found.cursor }, found.notes⟩

def next (lexer : Lexer) : Reading Token :=
  match lexer.peeked with
  | some token => ⟨.ok token, { lexer with peeked := none, line := token.start.line }, []⟩
  | none =>
    let found := lexer.scan
    match found.outcome with
    | .ok token =>
      ⟨.ok token, { lexer with cursor := found.cursor, line := token.start.line }, found.notes⟩
    | .error e => ⟨.error e, { lexer with cursor := found.cursor }, found.notes⟩

/-- The place of the next token to be taken, or the place where it will be looked for. -/
def position (lexer : Lexer) : Cursor :=
  match lexer.peeked with
  | some token => token.start
  | none => lexer.cursor

def seek (lexer : Lexer) (cursor : Cursor) : Lexer :=
  { lexer with cursor := cursor, peeked := none, line := cursor.line }

def reset (lexer : Lexer) : Lexer :=
  lexer.seek .start

/-- Passes over the rest of the line, with the text that was passed over. A token that has been looked
at is passed over too, unless it ends the statement. -/
def skipLine (lexer : Lexer) : List Char × Lexer :=
  let passed :=
    let lexer := { lexer with peeked := none }
    let text := (dropBytes lexer.cursor.offset lexer.source).takeWhile (· != '\n')
    (text, { lexer with cursor.offset := lexer.cursor.offset + byteLength text })
  match lexer.peeked with
  | some token => if token.endsStatement then ([], lexer) else passed
  | none => passed

/-- A line of the source without the blanks around it. -/
def lineText (lexer : Lexer) (number : Nat) : String :=
  match number with
  | 0 => ""
  | index + 1 =>
    match (Text.lines lexer.source)[index]? with
    | some line => String.ofList (Text.trim line)
    | none => ""

/-- More tokens than a source has. -/
def tokenBound (lexer : Lexer) : Nat :=
  lexer.source.length + 1

/-- Takes at most `bound` tokens, up to the end of the script, and goes on after errors. -/
def takeAll (lexer : Lexer) : (bound : Nat) → List (Except ParseError Token) × Lexer × List Note
  | 0 => ([], lexer, [])
  | bound + 1 =>
    let reading := lexer.next
    let done := match reading.outcome with
      | .ok token => token.is .endOfScript
      | .error _ => false
    if done then ([reading.outcome], reading.lexer, reading.notes)
    else
      let (tokens, last, notes) := takeAll reading.lexer bound
      (reading.outcome :: tokens, last, reading.notes ++ notes)

end Lexer

end MatrixScript
