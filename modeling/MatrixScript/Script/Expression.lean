import MatrixScript.DenseMatrix.Arith
import MatrixScript.DenseMatrix.Inverse
import MatrixScript.DenseMatrix.Order
import MatrixScript.DenseMatrix.Profile
import MatrixScript.Script.Reader

/-!
# Expressions

Expressions are evaluated while they are read.

    sum       = product { ( "+" | "-" | "|" | "&" ) product }
    product   = unary { ( "*" | "^" ) unary }
    unary     = ( "`" | "~" ) unary | function atom | constant | atom
    constant  = ( "matint" | "matzero" ) "(" count "," count ")"
    atom      = "(" sum ")" | variable | number sum

Operators of one level are applied from left to right, and a number multiplies the whole sum after it.

Every operand starts with a token, so nesting is no deeper than the source has tokens, and no chain of
operators is longer. That number bounds the recursion; at the bound the source is at its end.
-/

namespace MatrixScript

abbrev Value := DenseMatrix Float

def BinaryOperator.apply : BinaryOperator → Value → Value → Except (MatrixError Float) Value
  | .add => DenseMatrix.add
  | .sub => DenseMatrix.sub
  | .union => DenseMatrix.union
  | .intersection => DenseMatrix.intersection
  | .product => DenseMatrix.mul
  | .maxMinProduct => DenseMatrix.maxMin

def UnaryOperator.apply : UnaryOperator → Value → Value
  | .transpose => DenseMatrix.transpose
  | .complement => DenseMatrix.complement

namespace Expression

/-- What expressions are evaluated in: the variables, and the largest number of elements of a matrix
that is built from its size. -/
structure Env where
  store : Store
  maxElements : Nat

/-- Applies the operators of one level to `left` and the operands that follow, at most `bound` of
them. -/
def chain (level : Delimiter → Option BinaryOperator) (operand : ReadM Value) :
    (bound : Nat) → (left : Value) → ReadM Value
  | 0, left => pure left
  | bound + 1, left => do
    let token ← Reader.peek
    match token.delimiter?.bind level with
    | none => pure left
    | some operator =>
      let _ ← Reader.next
      let right ← operand
      let value ← ReadM.ofMatrix (operator.apply left right)
      chain level operand bound value

/-- A product of operands read by `unary`. -/
def product (unary : ReadM Value) (bound : Nat) : ReadM Value := do
  let first ← unary
  chain Delimiter.productOperator? unary bound first

/-- A sum of products of operands read by `unary`. -/
def sum (unary : ReadM Value) (bound : Nat) : ReadM Value := do
  let first ← product unary bound
  chain Delimiter.sumOperator? (product unary bound) bound first

/-- The count in the size of a constant. -/
def count : ReadM Nat := do
  let token ← Reader.next
  if token.kind = .number then Reader.ofParse (Literal.dimension token.lexeme)
  else Reader.refuse (.invalidDimension token.describe)

def shape : ReadM Shape := do
  Reader.expect .leftParen '('
  let rows ← count
  Reader.expect .comma ','
  let cols ← count
  Reader.expect .rightParen ')'
  pure ⟨rows, cols⟩

/-- A constant: its size, and how it is built from that. -/
def constant (env : Env) (keyword : String) (build : Nat → Nat → Value) : ReadM Value := do
  let ⟨rows, cols⟩ ← shape
  let _ ← ReadM.ofExcept (checkedElements rows cols env.maxElements)
  Reader.note .debug s!"{keyword}({rows}, {cols})"
  pure (build rows cols)

/-- A variable, or a number with the sum that it multiplies. -/
def primitive (env : Env) (sum : ReadM Value) : ReadM Value := do
  let token ← Reader.next
  match token.kind with
  | .word =>
    let name ← Reader.ofParse (Literal.variableName token.lexeme)
    ReadM.ofExcept (env.store.bound name)
  | .number =>
    let factor ← Reader.ofParse (Literal.scalar token.lexeme)
    let operand ← sum
    pure (operand.scale factor)
  | _ =>
    if token.endsStatement then Reader.refuse .missingExpression
    else Reader.refuse (.unexpectedToken token.describe)

/-- A sum in parentheses, or a primitive expression. -/
def atom (env : Env) (sum : ReadM Value) : ReadM Value := do
  let token ← Reader.peek
  if token.is .leftParen then
    let _ ← Reader.next
    let value ← sum
    let close ← Reader.next
    if close.is .rightParen then pure value
    else Reader.refuse (.expectedClosingParen close.describe)
  else
    primitive env sum

/-- A function with what follows its name. -/
def call (env : Env) (sum : ReadM Value) (builtin : Builtin) : ReadM Value :=
  match builtin with
  | .identity => constant env builtin.keyword DenseMatrix.identity
  | .zeros => constant env builtin.keyword DenseMatrix.zeros
  | .chiSquare => DenseMatrix.chiSquare <$> atom env sum
  | .doubleCenter => DenseMatrix.doubleCenter <$> atom env sum
  | .standardize => DenseMatrix.standardize <$> atom env sum
  | .columnProfiles => DenseMatrix.columnProfiles <$> atom env sum
  | .symmetricInverse => do
    let operand ← atom env sum
    ReadM.ofMatrix operand.symmetricInverse

/-- An operand, nested at most `bound` deep. -/
def unary (env : Env) : (bound : Nat) → ReadM Value
  | 0 => Reader.refuse .missingExpression
  | bound + 1 => do
    let token ← Reader.peek
    match token.kind with
    | .delimiter mark =>
      match mark.unaryOperator? with
      | some operator =>
        let _ ← Reader.next
        let operand ← unary env bound
        pure (operator.apply operand)
      | none => atom env (sum (unary env bound) bound)
    | .function builtin =>
      let _ ← Reader.next
      call env (sum (unary env bound) bound) builtin
    | _ => atom env (sum (unary env bound) bound)

def evaluate (env : Env) : ReadM Value := do
  let token ← Reader.peek
  if token.endsStatement then Reader.refuse .missingExpression
  else
    let bound := (← get).lexer.tokenBound
    sum (unary env bound) bound

def comparison? : Delimiter → Option Comparison
  | .equals => some .equal
  | .greater => some .greater
  | .less => some .less
  | _ => none

def condition (env : Env) : ReadM Bool := do
  let left ← evaluate env
  let token ← Reader.next
  match token.delimiter?.bind comparison? with
  | none => Reader.refuse (.invalidComparison token.describe)
  | some question =>
    let right ← evaluate env
    let holds ← ReadM.ofMatrix (DenseMatrix.compare question left right)
    let line := (← get).lexer.line
    Reader.note .debug s!"line {line}: condition {question.name} is {holds}"
    pure holds

end Expression

end MatrixScript
