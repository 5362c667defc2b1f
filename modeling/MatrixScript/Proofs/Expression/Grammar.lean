import MatrixScript.Proofs.Lexing.Stream
import MatrixScript.Script.Expression

/-!
# Expressions as trees

The evaluator never builds a tree: it computes while it reads.  This module gives
what it is measured against, the trees of the language with their values
(`Tree.denote`) and the ways to write a tree as tokens (`Renders`).

A number multiplies the whole sum after it, so a term that starts with a number
reaches up to the next closing parenthesis or to the end of the expression.  The
flag of `Renders` says whether a term stands at such an end; a term that starts
with a number can only stand there, everywhere else it takes parentheses.
-/

namespace MatrixScript

namespace Expression

/-- What the operators between two operands mean. -/
def combine : BinaryOperator → Value → Value → Except (MatrixError Float) Value
  | .add, left, right => left.add right
  | .sub, left, right => left.sub right
  | .union, left, right => left.union right
  | .intersection, left, right => left.intersection right
  | .product, left, right => left.mul right
  | .maxMinProduct, left, right => left.maxMin right

/-- What the operators in front of an operand mean. -/
def transform : UnaryOperator → Value → Value
  | .transpose, operand => operand.transpose
  | .complement, operand => operand.complement

/-- The functions of one operand. -/
inductive Function where
  | chiSquare
  | doubleCenter
  | symmetricInverse
  | standardize
  | columnProfiles
  deriving DecidableEq, Repr

/-- The word that calls a function. -/
def Function.builtin : Function → Builtin
  | chiSquare => .chiSquare
  | doubleCenter => .doubleCenter
  | symmetricInverse => .symmetricInverse
  | standardize => .standardize
  | columnProfiles => .columnProfiles

/-- The value of a function. -/
def Function.apply : Function → Value → Except (MatrixError Float) Value
  | chiSquare, operand => .ok operand.chiSquare
  | doubleCenter, operand => .ok operand.doubleCenter
  | symmetricInverse, operand => operand.symmetricInverse
  | standardize, operand => .ok operand.standardize
  | columnProfiles, operand => .ok operand.columnProfiles

/-- The matrices that are built from their size. -/
inductive Constant where
  | identity
  | zeros
  deriving DecidableEq, Repr

/-- The word for a constant. -/
def Constant.builtin : Constant → Builtin
  | identity => .identity
  | zeros => .zeros

/-- The matrix of a given size. -/
def Constant.build : Constant → Nat → Nat → Value
  | identity => DenseMatrix.identity
  | zeros => DenseMatrix.zeros

/-- Expressions. -/
inductive Tree where
  | named (name : VariableName)
  | binary (operator : BinaryOperator) (left right : Tree)
  | unary (operator : UnaryOperator) (operand : Tree)
  | call (function : Function) (operand : Tree)
  | constant (kind : Constant) (rows cols : Nat)
  | scale (factor : Float) (operand : Tree)

/-- The value of an expression, or the first error from left to right. -/
def Tree.denote (env : Env) : Tree → Except Error Value
  | named name => env.store.bound name
  | binary operator left right => do
    let a ← left.denote env
    let b ← right.denote env
    (combine operator a b).mapError .matrix
  | unary operator operand => do
    let a ← operand.denote env
    pure (transform operator a)
  | call function operand => do
    let a ← operand.denote env
    (function.apply a).mapError .matrix
  | constant kind rows cols => do
    let _ ← checkedElements rows cols env.maxElements
    pure (kind.build rows cols)
  | scale factor operand => do
    let a ← operand.denote env
    pure (a.scale factor)

/-- The levels of the grammar, from the loosest to the tightest. -/
inductive Level where
  | sum
  | product
  | operand
  | atom
  deriving DecidableEq, Repr

/-- The operator of a sum that a token writes. -/
def sumOperator? (token : Token) : Option BinaryOperator :=
  token.delimiter?.bind Delimiter.sumOperator?

/-- The operator of a product that a token writes. -/
def productOperator? (token : Token) : Option BinaryOperator :=
  token.delimiter?.bind Delimiter.productOperator?

/-- The operator in front of an operand that a token writes. -/
def unaryOperator? (token : Token) : Option UnaryOperator :=
  token.delimiter?.bind Delimiter.unaryOperator?

/-- A token that writes no operator between operands. -/
def EndsSum (token : Token) : Prop :=
  sumOperator? token = none ∧ productOperator? token = none

/-- The ways to write a tree at a level.  The flag says that nothing comes after
the term before the next closing parenthesis or the end of the expression. -/
inductive Renders : Level → Bool → Tree → List Token → Prop where
  | named {last : Bool} {name : VariableName} {token : Token}
      (hkind : token.kind = .word) (hname : VariableName.ofText? token.lexeme = some name) :
      Renders .atom last (.named name) [token]
  | parens {last : Bool} {tree : Tree} {tokens : List Token} {left right : Token}
      (hleft : left.kind = .delimiter .leftParen)
      (hright : right.kind = .delimiter .rightParen) (h : Renders .sum true tree tokens) :
      Renders .atom last tree (left :: (tokens ++ [right]))
  | scale {tree : Tree} {tokens : List Token} {token : Token} {factor : Float}
      (hkind : token.kind = .number) (hfactor : Literal.scalar token.lexeme = .ok factor)
      (h : Renders .sum true tree tokens) :
      Renders .atom true (.scale factor tree) (token :: tokens)
  | ofAtom {last : Bool} {tree : Tree} {tokens : List Token}
      (h : Renders .atom last tree tokens) : Renders .operand last tree tokens
  | unary {last : Bool} {tree : Tree} {tokens : List Token} {token : Token}
      {operator : UnaryOperator} (hoperator : unaryOperator? token = some operator)
      (h : Renders .operand last tree tokens) :
      Renders .operand last (.unary operator tree) (token :: tokens)
  | call {last : Bool} {tree : Tree} {tokens : List Token} {token : Token}
      {function : Function} (hkind : token.kind = .function function.builtin)
      (h : Renders .atom last tree tokens) :
      Renders .operand last (.call function tree) (token :: tokens)
  | constant {last : Bool} {kind : Constant} {rows cols : Nat}
      {token left first comma second right : Token}
      (hkind : token.kind = .function kind.builtin)
      (hleft : left.kind = .delimiter .leftParen)
      (hfirst : first.kind = .number) (hrows : Literal.dimension first.lexeme = .ok rows)
      (hcomma : comma.kind = .delimiter .comma)
      (hsecond : second.kind = .number) (hcols : Literal.dimension second.lexeme = .ok cols)
      (hright : right.kind = .delimiter .rightParen) :
      Renders .operand last (.constant kind rows cols)
        [token, left, first, comma, second, right]
  | ofOperand {last : Bool} {tree : Tree} {tokens : List Token}
      (h : Renders .operand last tree tokens) : Renders .product last tree tokens
  | product {last : Bool} {left right : Tree} {before after : List Token} {token : Token}
      {operator : BinaryOperator} (hoperator : productOperator? token = some operator)
      (hleft : Renders .product false left before)
      (hright : Renders .operand last right after) :
      Renders .product last (.binary operator left right) (before ++ token :: after)
  | ofProduct {last : Bool} {tree : Tree} {tokens : List Token}
      (h : Renders .product last tree tokens) : Renders .sum last tree tokens
  | sum {last : Bool} {left right : Tree} {before after : List Token} {token : Token}
      {operator : BinaryOperator} (hoperator : sumOperator? token = some operator)
      (hleft : Renders .sum false left before)
      (hright : Renders .product last right after) :
      Renders .sum last (.binary operator left right) (before ++ token :: after)

namespace Renders

variable {level : Level} {last : Bool} {tree : Tree} {tokens : List Token}

theorem ne_nil (h : Renders level last tree tokens) : tokens ≠ [] := by
  induction h <;> simp_all

private theorem endsStatement_of_operator {token : Token} {α : Type}
    {table : Delimiter → Option α} {a : α} (h : token.delimiter?.bind table = some a)
    (htable : table .endOfLine = none ∧ table .endOfScript = none) :
    token.endsStatement = false := by
  unfold Token.endsStatement Token.is
  cases hmark : token.delimiter? with
  | none => rfl
  | some mark =>
      rw [hmark, Option.bind_some] at h
      cases mark <;> simp_all

/-- No token of an expression ends a statement. -/
theorem endsStatement_eq (h : Renders level last tree tokens) :
    ∀ token ∈ tokens, token.endsStatement = false := by
  induction h with
  | named hkind => simp [Token.endsStatement_eq_false_iff, hkind]
  | parens hleft hright _ ih =>
      intro token hmem
      simp only [List.mem_cons, List.mem_append, List.not_mem_nil, or_false] at hmem
      rcases hmem with rfl | hmem | rfl
      · simp [Token.endsStatement_eq_false_iff, hleft]
      · exact ih token hmem
      · simp [Token.endsStatement_eq_false_iff, hright]
  | scale hkind _ _ ih => simpa [Token.endsStatement_eq_false_iff, hkind] using ih
  | ofAtom _ ih => exact ih
  | unary hoperator _ ih =>
      simpa [endsStatement_of_operator hoperator ⟨rfl, rfl⟩] using ih
  | call hkind _ ih => simpa [Token.endsStatement_eq_false_iff, hkind] using ih
  | constant hkind hleft hfirst _ hcomma hsecond _ hright =>
      simp [Token.endsStatement_eq_false_iff, hkind, hleft, hfirst, hcomma, hsecond, hright]
  | ofOperand _ ih => exact ih
  | product hoperator _ _ ihleft ihright =>
      intro token hmem
      simp only [List.mem_append, List.mem_cons] at hmem
      rcases hmem with hmem | rfl | hmem
      · exact ihleft token hmem
      · exact endsStatement_of_operator hoperator ⟨rfl, rfl⟩
      · exact ihright token hmem
  | ofProduct _ ih => exact ih
  | sum hoperator _ _ ihleft ihright =>
      intro token hmem
      simp only [List.mem_append, List.mem_cons] at hmem
      rcases hmem with hmem | rfl | hmem
      · exact ihleft token hmem
      · exact endsStatement_of_operator hoperator ⟨rfl, rfl⟩
      · exact ihright token hmem

end Renders

end Expression

end MatrixScript
