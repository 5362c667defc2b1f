/-!
# Keywords

The words of the language, without regard to the case of their ASCII letters, and the marks that stand
for operators.
-/

namespace MatrixScript

/-- The commands that start a statement. -/
inductive Command where
  | load
  | save
  | print
  | tridiag
  | compocor
  | composupp
  | compocsupp
  | goto
  | rem
  | quit
  | ifBlock
  | endIf
  | whileBlock
  | endWhile
  deriving DecidableEq, Repr

namespace Command

def keyword : Command → String
  | load => "load"
  | save => "save"
  | print => "print"
  | tridiag => "tridiag"
  | compocor => "compocor"
  | composupp => "composupp"
  | compocsupp => "compocsupp"
  | goto => "goto"
  | rem => "rem"
  | quit => "end"
  | ifBlock => "if"
  | endIf => "endif"
  | whileBlock => "while"
  | endWhile => "endwhile"

def all : List Command :=
  [load, save, print, tridiag, compocor, composupp, compocsupp, goto, rem, quit, ifBlock, endIf,
    whileBlock, endWhile]

/-- The command that a word in lower case writes. -/
def ofWord? (word : String) : Option Command :=
  all.find? fun command => command.keyword == word

end Command

/-- The functions of expressions. -/
inductive Builtin where
  | chiSquare
  | doubleCenter
  | symmetricInverse
  | standardize
  | identity
  | zeros
  | columnProfiles
  deriving DecidableEq, Repr

namespace Builtin

def keyword : Builtin → String
  | chiSquare => "chi_deux"
  | doubleCenter => "dist_fact"
  | symmetricInverse => "inv_sym"
  | standardize => "cent_red"
  | identity => "matint"
  | zeros => "matzero"
  | columnProfiles => "cprofil"

def all : List Builtin :=
  [chiSquare, doubleCenter, symmetricInverse, standardize, identity, zeros, columnProfiles]

/-- The function that a word in lower case writes. -/
def ofWord? (word : String) : Option Builtin :=
  all.find? fun builtin => builtin.keyword == word

end Builtin

/-- A text with its ASCII letters in lower case. -/
def foldCase (text : String) : String :=
  String.ofList (text.toList.map Char.toLower)

/-- Whether a file name means the console instead of a file. -/
def isConsole (name : String) : Bool :=
  foldCase name == "con:"

inductive BinaryOperator where
  | add
  | sub
  | union
  | intersection
  | product
  | maxMinProduct
  deriving DecidableEq, Repr

inductive UnaryOperator where
  | transpose
  | complement
  deriving DecidableEq, Repr

/-- Marks, and the two ends of a statement. -/
inductive Delimiter where
  | less
  | greater
  | equals
  | plus
  | minus
  | star
  | backtick
  | tilde
  | ampersand
  | caret
  | pipe
  | leftParen
  | rightParen
  | comma
  | endOfLine
  | endOfScript
  deriving DecidableEq, Repr

namespace Delimiter

def ofChar? : Char → Option Delimiter
  | '<' => some less
  | '>' => some greater
  | '=' => some equals
  | '+' => some plus
  | '-' => some minus
  | '*' => some star
  | '\x60' => some backtick
  | '~' => some tilde
  | '&' => some ampersand
  | '^' => some caret
  | '|' => some pipe
  | '(' => some leftParen
  | ')' => some rightParen
  | ',' => some comma
  | _ => none

/-- The operator that binds least tightly. -/
def sumOperator? : Delimiter → Option BinaryOperator
  | plus => some .add
  | minus => some .sub
  | pipe => some .union
  | ampersand => some .intersection
  | _ => none

/-- The operator that binds more tightly than those of a sum. -/
def productOperator? : Delimiter → Option BinaryOperator
  | star => some .product
  | caret => some .maxMinProduct
  | _ => none

def unaryOperator? : Delimiter → Option UnaryOperator
  | backtick => some .transpose
  | tilde => some .complement
  | _ => none

end Delimiter

end MatrixScript
