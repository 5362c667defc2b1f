import MatrixScript.DenseMatrix.Error
import MatrixScript.Files.MatrixFile
import MatrixScript.Script.Keyword
import MatrixScript.Script.Variables

/-!
# What can go wrong with a script

The causes for which a statement fails, their classes and their wording.
-/

namespace MatrixScript

/-- What a command needs next. -/
inductive Operand where
  | name
  | fileName
  | dimension
  | label
  deriving DecidableEq, Repr

def Operand.word : Operand → String
  | .name => "variable"
  | .fileName => "file name"
  | .dimension => "dimension"
  | .label => "label"

/-- Why a text is no statement. -/
inductive ParseError where
  | unexpectedToken (token : String)
  | missingExpression
  | missingOperand (command : Command) (expected : Operand)
  | badVariableName (name : String)
  | invalidParameter (found : String)
  | expectedClosingParen (found : String)
  | expectedDelimiter (expected : Char) (found : String)
  | invalidComparison (found : String)
  | malformedNumber (literal : String)
  | invalidDimension (literal : String)
  | trailingTokens (token : String)
  deriving DecidableEq, Repr

def ParseError.message : ParseError → String
  | .unexpectedToken token => s!"Unexpected token: '{token}'."
  | .missingExpression => "No expression found."
  | .missingOperand command expected => s!"Missing {expected.word} after '{command.keyword}'."
  | .badVariableName name => s!"Invalid variable name '{name}'."
  | .invalidParameter found => s!"Invalid parameter reference '%{found}'."
  | .expectedClosingParen found => s!"Expected closing parenthesis ')' but found '{found}'."
  | .expectedDelimiter expected found => s!"Expected '{expected}' but found '{found}'."
  | .invalidComparison found =>
    s!"Invalid comparison operator '{found}', expected '=', '<' or '>'."
  | .malformedNumber literal => s!"Malformed number '{literal}'."
  | .invalidDimension literal => s!"Invalid dimension '{literal}', expected a positive integer."
  | .trailingTokens token => s!"Extra tokens after statement: '{token}'."

/-- Why a jump or a block has no place to go on. -/
inductive FlowError where
  | unknownLabel (name : String)
  | tooManyLabels (max : Nat)
  | ifWithoutEndif
  | whileWithoutEndwhile
  | endwhileWithoutWhile
  | loopsTooDeep (max : Nat)
  deriving DecidableEq, Repr

def FlowError.message : FlowError → String
  | .unknownLabel name => s!"Unknown label '{name}'."
  | .tooManyLabels max => s!"Too many labels, the maximum is {max}."
  | .ifWithoutEndif => "IF without ENDIF."
  | .whileWithoutEndwhile => "WHILE without ENDWHILE."
  | .endwhileWithoutWhile => "ENDWHILE without WHILE."
  | .loopsTooDeep max => s!"WHILE nesting too deep, the maximum is {max}."

inductive Error where
  | parse (cause : ParseError)
  | matrix (cause : MatrixError Float)
  | unbound (name : VariableName)
  | tooManyElements (shape : Shape) (max : Nat)
  | file (cause : FileError)
  | flow (cause : FlowError)

def Error.message : Error → String
  | .parse cause => cause.message
  | .matrix cause => cause.message
  | .unbound name => s!"Variable '{name.letter}' is not initialised."
  | .tooManyElements shape max =>
    s!"Too many elements: {shape.text} exceeds the maximum of {max}."
  | .file cause => cause.message
  | .flow cause => cause.message

inductive ErrorKind where
  | wording
  | dimension
  | unboundVariable
  | resource
  | io
  | convergence
  | controlFlow
  deriving DecidableEq, Repr

def Error.kind : Error → ErrorKind
  | .parse _ => .wording
  | .matrix (.notPositiveDefinite _ _) | .matrix (.noConvergence _ _) => .convergence
  | .matrix _ => .dimension
  | .unbound _ => .unboundVariable
  | .tooManyElements _ _ => .resource
  | .file (.invalidShape _) => .dimension
  | .file _ => .io
  | .flow _ => .controlFlow

/-- An error with the line of the script on which it came up. -/
structure ScriptError where
  line : Nat
  excerpt : String
  error : Error

def ScriptError.report (e : ScriptError) : String :=
  s!"Error on line {e.line}: {e.error.message}\n  -------->>> {e.line} : {e.excerpt}"

end MatrixScript
