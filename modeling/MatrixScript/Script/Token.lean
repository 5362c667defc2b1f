import MatrixScript.Script.Keyword

/-!
# Tokens

The pieces of a script's text, each with the place where it starts.
-/

namespace MatrixScript

/-- A place in a text: the number of bytes before it and the number of its line, from one. -/
structure Cursor where
  offset : Nat
  line : Nat
  deriving DecidableEq, Repr

def Cursor.start : Cursor := ⟨0, 1⟩

inductive TokenKind where
  | delimiter (mark : Delimiter)
  | word
  | number
  | command (command : Command)
  | function (builtin : Builtin)
  | string
  | quote
  | label
  deriving DecidableEq, Repr

/-- A token. Its lexeme is the text without the marks of a label or a quotation, a keyword is in lower
case, and a parameter is replaced by its value. -/
structure Token where
  kind : TokenKind
  lexeme : String
  start : Cursor
  deriving DecidableEq, Repr

namespace Token

def delimiter? (token : Token) : Option Delimiter :=
  match token.kind with
  | .delimiter mark => some mark
  | _ => none

def is (token : Token) (mark : Delimiter) : Bool :=
  token.delimiter? == some mark

def endsStatement (token : Token) : Bool :=
  token.is .endOfLine || token.is .endOfScript

/-- A token as messages show it. -/
def describe (token : Token) : String :=
  match token.kind with
  | .delimiter .endOfLine => "end of line"
  | .delimiter .endOfScript => "end of script"
  | _ => token.lexeme

end Token

end MatrixScript
