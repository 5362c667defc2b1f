import MatrixScript.Proofs.Expression.Grammar
import MatrixScript.Proofs.Monad.Reading

/-!
# The evaluator computes denotations

`evaluate` reads a written tree up to its end, takes exactly its tokens, and gives
the value of the tree or its error.  The induction runs over the derivation of the
written form.  At the two levels of operators the statement leaves the rest of the
chain open (`Leads`): a left operand is read before it is known that it is one.
-/

namespace MatrixScript

namespace Expression

open Lexer

variable {env : Env} {reader : Reader} {tree : Tree} {tokens : List Token}

/-- From this reader the program gives the value of the tree and takes exactly the
tokens, or it fails with the error of the tree. -/
def Yields (env : Env) (tree : Tree) (tokens : List Token) (program : ReadM Value)
    (reader : Reader) : Prop :=
  match tree.denote env with
  | .ok value => ∃ reader', program reader = .ok value reader' ∧
      Reads reader.lexer tokens reader'.lexer
  | .error e => ∃ reader', program reader = .error e reader'

/-- As `Yields`, but with the rest of a chain of operators still to be read. -/
def Leads (env : Env) (tree : Tree) (tokens : List Token) (program : ReadM Value)
    (level : Delimiter → Option BinaryOperator) (operand : ReadM Value) (bound : Nat)
    (reader : Reader) : Prop :=
  match tree.denote env with
  | .ok value => ∃ reader' left, program reader = chain level operand left value reader' ∧
      Reads reader.lexer tokens reader'.lexer ∧ bound ≤ left + tokens.length
  | .error e => ∃ reader', program reader = .error e reader'

/-! ## Operators -/

theorem apply_eq_combine (operator : BinaryOperator) (left right : Value) :
    operator.apply left right = combine operator left right := by
  cases operator <;> rfl

theorem apply_eq_transform (operator : UnaryOperator) (operand : Value) :
    operator.apply operand = transform operator operand := by
  cases operator <;> rfl

/-! ## Chains -/

theorem chain_stop {level : Delimiter → Option BinaryOperator} {operand : ReadM Value}
    {left : Nat} {value : Value} {next : Token} (hup : reader.lexer.Upcoming [next])
    (hnext : next.delimiter?.bind level = none) :
    ∃ reader', chain level operand left value reader = .ok value reader' ∧
      Reads reader.lexer [] reader'.lexer := by
  cases left with
  | zero => exact ⟨reader, rfl, .refl _⟩
  | succ left =>
      obtain ⟨r₁, hpeek, hreads, _⟩ := Reader.peek_of_upcoming hup
      refine ⟨r₁, ?_, hreads⟩
      rw [chain, bind_of_eq_ok hpeek]
      simp only [hnext]
      rfl

theorem chain_step {level : Delimiter → Option BinaryOperator} {operand : ReadM Value}
    {left : Nat} {value : Value} {token : Token} {operator : BinaryOperator}
    (hup : reader.lexer.Upcoming (token :: tokens))
    (htoken : token.delimiter?.bind level = some operator) :
    ∃ reader', Reads reader.lexer [token] reader'.lexer ∧
      reader'.lexer.Upcoming tokens ∧
      chain level operand (left + 1) value reader = (do
        let right ← operand
        let value ← ReadM.ofMatrix (operator.apply value right)
        chain level operand left value) reader' := by
  obtain ⟨r₁, hpeek, hlook, hup₁⟩ := Reader.peek_of_upcoming hup
  obtain ⟨r₂, hnext, htake, hup₂⟩ := Reader.next_of_upcoming hup₁
  refine ⟨r₂, hlook.trans htake, hup₂, ?_⟩
  rw [chain, bind_of_eq_ok hpeek]
  simp only [htoken]
  rw [bind_of_eq_ok hnext]

/-- A chain that has been read up to its end. -/
theorem Leads.yields {program operand : ReadM Value}
    {level : Delimiter → Option BinaryOperator} {bound : Nat} {next : Token}
    (h : Leads env tree tokens program level operand bound reader)
    (hup : reader.lexer.Upcoming (tokens ++ [next]))
    (hnext : next.delimiter?.bind level = none) :
    Yields env tree tokens program reader := by
  unfold Leads at h
  unfold Yields
  cases hvalue : tree.denote env with
  | error e => rwa [hvalue] at h
  | ok value =>
      rw [hvalue] at h
      obtain ⟨r₁, left, hrun, hreads, _⟩ := h
      obtain ⟨r₂, hchain, hlook⟩ := chain_stop (hreads.upcoming_iff.mp hup) hnext
      refine ⟨r₂, hrun.trans hchain, ?_⟩
      simpa using hreads.trans hlook

/-- The first operand of a chain. -/
theorem Yields.leads {operand first : ReadM Value}
    {level : Delimiter → Option BinaryOperator} {bound : Nat}
    (h : Yields env tree tokens first reader) :
    Leads env tree tokens (first >>= chain level operand bound) level operand bound
      reader := by
  unfold Yields at h
  unfold Leads
  cases hvalue : tree.denote env with
  | error e =>
      rw [hvalue] at h
      obtain ⟨r₁, hrun⟩ := h
      exact ⟨r₁, bind_of_eq_error hrun⟩
  | ok value =>
      rw [hvalue] at h
      obtain ⟨r₁, hrun, hreads⟩ := h
      exact ⟨r₁, bound, bind_of_eq_ok hrun, hreads, Nat.le_add_right _ _⟩

/-- One more operator and operand of a chain. -/
theorem Leads.step {program operand : ReadM Value}
    {level : Delimiter → Option BinaryOperator} {bound : Nat} {token : Token}
    {operator : BinaryOperator} {right : Tree} {after more : List Token}
    (hleft : Leads env tree tokens program level operand bound reader)
    (hup : reader.lexer.Upcoming (tokens ++ token :: (after ++ more)))
    (htoken : token.delimiter?.bind level = some operator)
    (hbound : (tokens ++ token :: after).length ≤ bound)
    (hright : ∀ reader' : Reader, reader'.lexer.Upcoming (after ++ more) →
      Yields env right after operand reader') :
    Leads env (.binary operator tree right) (tokens ++ token :: after) program level operand
      bound reader := by
  simp only [List.length_append, List.length_cons] at hbound
  unfold Leads at hleft ⊢
  cases hvalue : tree.denote env with
  | error e =>
      rw [hvalue] at hleft
      rw [Tree.denote, hvalue]
      exact hleft
  | ok value =>
      rw [hvalue] at hleft
      obtain ⟨r₁, left, hrun, hreads, hleft⟩ := hleft
      obtain ⟨left, rfl⟩ : ∃ k, left = k + 1 := ⟨left - 1, by omega⟩
      obtain ⟨r₂, htake, hup₂, hstep⟩ := chain_step (hreads.upcoming_iff.mp hup) htoken
      have hoperand := hright r₂ hup₂
      rw [hrun, hstep]
      unfold Yields at hoperand
      cases hsecond : right.denote env with
      | error e =>
          rw [hsecond] at hoperand
          obtain ⟨r₃, hfail⟩ := hoperand
          rw [Tree.denote, hvalue, hsecond]
          exact ⟨r₃, bind_of_eq_error hfail⟩
      | ok second =>
          rw [hsecond] at hoperand
          obtain ⟨r₃, hvalue₃, hreads₃⟩ := hoperand
          rw [bind_of_eq_ok hvalue₃]
          have hall : Reads reader.lexer (tokens ++ token :: after) r₃.lexer := by
            simpa using hreads.trans (htake.trans hreads₃)
          have hdenote : (Tree.binary operator tree right).denote env =
              (operator.apply value second).mapError .matrix := by
            rw [Tree.denote, hvalue, hsecond, apply_eq_combine]
            rfl
          rw [hdenote]
          cases operator.apply value second with
          | error e => exact ⟨r₃, rfl⟩
          | ok result =>
              refine ⟨r₃, left, rfl, hall, ?_⟩
              simp only [List.length_append, List.length_cons]
              omega

/-! ## Atoms -/

section Atoms

variable {program : ReadM Value} {token next : Token} {more : List Token}

theorem yields_named {name : VariableName} (hup : reader.lexer.Upcoming (token :: more))
    (hkind : token.kind = .word) (hname : VariableName.ofText? token.lexeme = some name) :
    Yields env (.named name) [token] (atom env program) reader := by
  obtain ⟨r₁, hpeek, hlook, hup₁⟩ := Reader.peek_of_upcoming hup
  obtain ⟨r₂, hnext, htake, _⟩ := Reader.next_of_upcoming hup₁
  have hparen : token.is .leftParen = false := Token.is_eq_false_iff.mpr (by simp [hkind])
  have hrun : atom env program reader = ReadM.ofExcept (env.store.bound name) r₂ := by
    rw [atom, bind_of_eq_ok hpeek, hparen, if_neg (by simp), primitive, bind_of_eq_ok hnext]
    simp only [hkind, Literal.variableName, hname]
    rfl
  unfold Yields
  rw [hrun, Tree.denote]
  cases env.store.bound name with
  | error e => exact ⟨r₂, rfl⟩
  | ok value => exact ⟨r₂, rfl, hlook.trans htake⟩

theorem yields_parens {left right : Token}
    (hup : reader.lexer.Upcoming (left :: (tokens ++ [right])))
    (hleft : left.kind = .delimiter .leftParen)
    (hright : right.kind = .delimiter .rightParen)
    (hprogram : ∀ reader' : Reader, reader'.lexer.Upcoming (tokens ++ [right]) →
      Yields env tree tokens program reader') :
    Yields env tree (left :: (tokens ++ [right])) (atom env program) reader := by
  obtain ⟨r₁, hpeek, hlook, hup₁⟩ := Reader.peek_of_upcoming hup
  obtain ⟨r₂, hnext, htake, hup₂⟩ := Reader.next_of_upcoming hup₁
  have hinner := hprogram r₂ hup₂
  have hrun : atom env program reader = (do
      let value ← program
      let close ← Reader.next
      if close.is .rightParen then pure value
      else Reader.refuse (.expectedClosingParen close.describe)) r₂ := by
    rw [atom, bind_of_eq_ok hpeek, Token.is_iff.mpr hleft, if_pos rfl, bind_of_eq_ok hnext]
  unfold Yields at hinner ⊢
  rw [hrun]
  cases hvalue : tree.denote env with
  | error e =>
      rw [hvalue] at hinner
      obtain ⟨r₃, hfail⟩ := hinner
      exact ⟨r₃, bind_of_eq_error hfail⟩
  | ok value =>
      rw [hvalue] at hinner
      obtain ⟨r₃, hsum, hreads⟩ := hinner
      obtain ⟨r₄, hclose, htake₄, _⟩ :=
        Reader.next_of_upcoming (hreads.upcoming_iff.mp hup₂)
      refine ⟨r₄, ?_, ?_⟩
      · rw [bind_of_eq_ok hsum, bind_of_eq_ok hclose, Token.is_iff.mpr hright, if_pos rfl]
        rfl
      · simpa using (hlook.trans htake).trans (hreads.trans htake₄)

theorem yields_scale {factor : Float} (hup : reader.lexer.Upcoming (token :: (tokens ++ more)))
    (hkind : token.kind = .number) (hfactor : Literal.scalar token.lexeme = .ok factor)
    (hprogram : ∀ reader' : Reader, reader'.lexer.Upcoming (tokens ++ more) →
      Yields env tree tokens program reader') :
    Yields env (.scale factor tree) (token :: tokens) (atom env program) reader := by
  obtain ⟨r₁, hpeek, hlook, hup₁⟩ := Reader.peek_of_upcoming hup
  obtain ⟨r₂, hnext, htake, hup₂⟩ := Reader.next_of_upcoming hup₁
  have hparen : token.is .leftParen = false := Token.is_eq_false_iff.mpr (by simp [hkind])
  have hrun : atom env program reader =
      (program >>= fun operand => pure (operand.scale factor)) r₂ := by
    rw [atom, bind_of_eq_ok hpeek, hparen, if_neg (by simp), primitive, bind_of_eq_ok hnext]
    simp only [hkind, hfactor]
    rfl
  have hoperand := hprogram r₂ hup₂
  unfold Yields at hoperand ⊢
  rw [hrun]
  cases hvalue : tree.denote env with
  | error e =>
      rw [hvalue] at hoperand
      obtain ⟨r₃, hfail⟩ := hoperand
      rw [Tree.denote, hvalue]
      exact ⟨r₃, bind_of_eq_error hfail⟩
  | ok value =>
      rw [hvalue] at hoperand
      obtain ⟨r₃, hsum, hreads⟩ := hoperand
      rw [Tree.denote, hvalue]
      exact ⟨r₃, bind_of_eq_ok hsum, (hlook.trans htake).trans hreads⟩

end Atoms

/-! ## Operands -/

section Operands

variable {bound : Nat} {token next : Token} {more : List Token}

theorem Yields.prepend {program program' : ReadM Value} {reader' : Reader}
    {before : List Token} (hreads : Reads reader.lexer before reader'.lexer)
    (hrun : program reader = program' reader')
    (h : Yields env tree tokens program' reader') :
    Yields env tree (before ++ tokens) program reader := by
  unfold Yields at h ⊢
  rw [hrun]
  cases hvalue : tree.denote env with
  | error e => rwa [hvalue] at h
  | ok value =>
      rw [hvalue] at h
      obtain ⟨r, hprogram, htokens⟩ := h
      exact ⟨r, hprogram, hreads.trans htokens⟩

private theorem kind_of_unaryOperator? {operator : UnaryOperator}
    (h : unaryOperator? token = some operator) :
    ∃ mark, token.kind = .delimiter mark ∧ mark.unaryOperator? = some operator := by
  unfold unaryOperator? Token.delimiter? at h
  split at h
  · rename_i mark hkind
    exact ⟨mark, hkind, h⟩
  · cases h

/-- A written atom starts with a token that leads to the atoms. -/
private theorem unary_eq_atom {last : Bool} {tokens : List Token}
    (h : Renders .atom last tree tokens) (hup : reader.lexer.Upcoming (tokens ++ more)) :
    ∃ reader', Reads reader.lexer [] reader'.lexer ∧
      reader'.lexer.Upcoming (tokens ++ more) ∧
      unary env (bound + 1) reader =
        atom env (sum (unary env bound) bound) reader' := by
  cases h with
  | named hkind hname =>
      obtain ⟨r₁, hpeek, hlook, hup₁⟩ := Reader.peek_of_upcoming hup
      refine ⟨r₁, hlook, hup₁, ?_⟩
      rw [unary, bind_of_eq_ok hpeek]
      simp only [hkind]
  | parens hleft hright _ =>
      obtain ⟨r₁, hpeek, hlook, hup₁⟩ := Reader.peek_of_upcoming hup
      refine ⟨r₁, hlook, hup₁, ?_⟩
      rw [unary, bind_of_eq_ok hpeek]
      simp only [hleft, Delimiter.unaryOperator?]
  | scale hkind _ _ =>
      obtain ⟨r₁, hpeek, hlook, hup₁⟩ := Reader.peek_of_upcoming hup
      refine ⟨r₁, hlook, hup₁, ?_⟩
      rw [unary, bind_of_eq_ok hpeek]
      simp only [hkind]

theorem yields_ofAtom {last : Bool} (h : Renders .atom last tree tokens)
    (hup : reader.lexer.Upcoming (tokens ++ more))
    (hatom : ∀ reader' : Reader, reader'.lexer.Upcoming (tokens ++ more) →
      Yields env tree tokens (atom env (sum (unary env bound) bound)) reader') :
    Yields env tree tokens (unary env (bound + 1)) reader := by
  obtain ⟨r₁, hlook, hup₁, hrun⟩ := unary_eq_atom h hup
  simpa using (hatom r₁ hup₁).prepend hlook hrun

theorem yields_unary {operator : UnaryOperator}
    (hup : reader.lexer.Upcoming (token :: (tokens ++ more)))
    (hoperator : unaryOperator? token = some operator)
    (hoperand : ∀ reader' : Reader, reader'.lexer.Upcoming (tokens ++ more) →
      Yields env tree tokens (unary env bound) reader') :
    Yields env (.unary operator tree) (token :: tokens) (unary env (bound + 1)) reader := by
  obtain ⟨mark, hkind, hmark⟩ := kind_of_unaryOperator? hoperator
  obtain ⟨r₁, hpeek, hlook, hup₁⟩ := Reader.peek_of_upcoming hup
  obtain ⟨r₂, hnext, htake, hup₂⟩ := Reader.next_of_upcoming hup₁
  have hrun : unary env (bound + 1) reader =
      (unary env bound >>= fun operand => pure (operator.apply operand)) r₂ := by
    rw [unary, bind_of_eq_ok hpeek]
    simp only [hkind, hmark]
    rw [bind_of_eq_ok hnext]
  have hinner := hoperand r₂ hup₂
  unfold Yields at hinner ⊢
  rw [hrun, Tree.denote]
  cases hvalue : tree.denote env with
  | error e =>
      rw [hvalue] at hinner
      obtain ⟨r₃, hfail⟩ := hinner
      exact ⟨r₃, bind_of_eq_error hfail⟩
  | ok value =>
      rw [hvalue] at hinner
      obtain ⟨r₃, hvalue₃, hreads⟩ := hinner
      refine ⟨r₃, ?_, (hlook.trans htake).trans hreads⟩
      rw [bind_of_eq_ok hvalue₃, apply_eq_transform]
      rfl

private theorem call_function (function : Function) (program : ReadM Value) :
    call env program function.builtin =
      atom env program >>= fun operand => ReadM.ofMatrix (function.apply operand) := by
  cases function with
  | symmetricInverse => rfl
  | chiSquare | doubleCenter | standardize | columnProfiles => exact map_eq_bind _ _

theorem yields_call {function : Function}
    (hup : reader.lexer.Upcoming (token :: (tokens ++ more)))
    (hkind : token.kind = .function function.builtin)
    (hatom : ∀ reader' : Reader, reader'.lexer.Upcoming (tokens ++ more) →
      Yields env tree tokens (atom env (sum (unary env bound) bound)) reader') :
    Yields env (.call function tree) (token :: tokens) (unary env (bound + 1)) reader := by
  obtain ⟨r₁, hpeek, hlook, hup₁⟩ := Reader.peek_of_upcoming hup
  obtain ⟨r₂, hnext, htake, hup₂⟩ := Reader.next_of_upcoming hup₁
  have hrun : unary env (bound + 1) reader =
      (atom env (sum (unary env bound) bound) >>= fun operand =>
        ReadM.ofMatrix (function.apply operand)) r₂ := by
    rw [unary, bind_of_eq_ok hpeek]
    simp only [hkind]
    rw [bind_of_eq_ok hnext, call_function]
  have hinner := hatom r₂ hup₂
  unfold Yields at hinner ⊢
  rw [hrun]
  cases hvalue : tree.denote env with
  | error e =>
      rw [hvalue] at hinner
      obtain ⟨r₃, hfail⟩ := hinner
      rw [Tree.denote, hvalue]
      exact ⟨r₃, bind_of_eq_error hfail⟩
  | ok value =>
      rw [hvalue] at hinner
      obtain ⟨r₃, hvalue₃, hreads⟩ := hinner
      have hdenote : (Tree.call function tree).denote env =
          (function.apply value).mapError .matrix := by
        rw [Tree.denote, hvalue]
        rfl
      rw [hdenote, bind_of_eq_ok hvalue₃]
      cases function.apply value with
      | error e => exact ⟨r₃, rfl⟩
      | ok result => exact ⟨r₃, rfl, (hlook.trans htake).trans hreads⟩

theorem expect_of_upcoming {mark : Delimiter} {symbol : Char}
    (hup : reader.lexer.Upcoming (token :: more)) (hkind : token.kind = .delimiter mark) :
    ∃ reader', Reader.expect mark symbol reader = .ok () reader' ∧
      Reads reader.lexer [token] reader'.lexer ∧ reader'.lexer.Upcoming more := by
  obtain ⟨r₁, hnext, htake, hup₁⟩ := Reader.next_of_upcoming hup
  refine ⟨r₁, ?_, htake, hup₁⟩
  rw [Reader.expect, bind_of_eq_ok hnext, Token.is_iff.mpr hkind, if_pos rfl]
  rfl

theorem count_of_upcoming {n : Nat} (hup : reader.lexer.Upcoming (token :: more))
    (hkind : token.kind = .number) (hn : Literal.dimension token.lexeme = .ok n) :
    ∃ reader', count reader = .ok n reader' ∧
      Reads reader.lexer [token] reader'.lexer ∧ reader'.lexer.Upcoming more := by
  obtain ⟨r₁, hnext, htake, hup₁⟩ := Reader.next_of_upcoming hup
  refine ⟨r₁, ?_, htake, hup₁⟩
  rw [count, bind_of_eq_ok hnext, if_pos hkind, hn]
  rfl

theorem yields_constant {kind : Constant} {rows cols : Nat}
    {left first comma second right : Token}
    (hup : reader.lexer.Upcoming
      ([token, left, first, comma, second, right] ++ more))
    (hkind : token.kind = .function kind.builtin)
    (hleft : left.kind = .delimiter .leftParen)
    (hfirst : first.kind = .number) (hrows : Literal.dimension first.lexeme = .ok rows)
    (hcomma : comma.kind = .delimiter .comma)
    (hsecond : second.kind = .number) (hcols : Literal.dimension second.lexeme = .ok cols)
    (hright : right.kind = .delimiter .rightParen) :
    Yields env (.constant kind rows cols) [token, left, first, comma, second, right]
      (unary env (bound + 1)) reader := by
  obtain ⟨r₁, hpeek, hlook, hup₁⟩ := Reader.peek_of_upcoming hup
  obtain ⟨r₂, hnext, htake, hup₂⟩ := Reader.next_of_upcoming hup₁
  obtain ⟨r₃, hopen, htake₃, hup₃⟩ := expect_of_upcoming hup₂ hleft
  obtain ⟨r₄, hcount, htake₄, hup₄⟩ := count_of_upcoming hup₃ hfirst hrows
  obtain ⟨r₅, hcomma, htake₅, hup₅⟩ := expect_of_upcoming hup₄ hcomma
  obtain ⟨r₆, hcount', htake₆, hup₆⟩ := count_of_upcoming hup₅ hsecond hcols
  obtain ⟨r₇, hclose, htake₇, _⟩ := expect_of_upcoming hup₆ hright
  have hshape : shape r₂ = .ok ⟨rows, cols⟩ r₇ := by
    rw [shape, bind_of_eq_ok hopen, bind_of_eq_ok hcount, bind_of_eq_ok hcomma,
      bind_of_eq_ok hcount', bind_of_eq_ok hclose]
    rfl
  have hcall : call env (sum (unary env bound) bound) kind.builtin =
      constant env kind.builtin.keyword kind.build := by
    cases kind <;> rfl
  have hrun : unary env (bound + 1) reader = (do
      let _ ← ReadM.ofExcept (checkedElements rows cols env.maxElements)
      Reader.note .debug s!"{kind.builtin.keyword}({rows}, {cols})"
      pure (kind.build rows cols)) r₇ := by
    rw [unary, bind_of_eq_ok hpeek]
    simp only [hkind]
    rw [bind_of_eq_ok hnext, hcall, constant, bind_of_eq_ok hshape]
  unfold Yields
  rw [hrun, Tree.denote]
  cases checkedElements rows cols env.maxElements with
  | error e => exact ⟨r₇, rfl⟩
  | ok elements =>
      refine ⟨_, rfl, ?_⟩
      have hreads := hlook.trans (htake.trans (htake₃.trans (htake₄.trans (htake₅.trans
        (htake₆.trans htake₇)))))
      simpa using hreads

end Operands

/-! ## Written trees -/

/-- What reading a written tree at a level comes to.  The bounds on the nesting
and on the chains are large enough if they are no smaller than the number of
tokens. -/
def Evaluates (env : Env) : Level → Bool → Tree → List Token → Prop
  | .atom, last, tree, tokens => ∀ (bound : Nat) (reader : Reader) (next : Token),
      tokens.length ≤ bound + 1 → reader.lexer.Upcoming (tokens ++ [next]) →
      (last = true → EndsSum next) →
      Yields env tree tokens (atom env (sum (unary env bound) bound)) reader
  | .operand, last, tree, tokens => ∀ (bound : Nat) (reader : Reader) (next : Token),
      tokens.length ≤ bound → reader.lexer.Upcoming (tokens ++ [next]) →
      (last = true → EndsSum next) → Yields env tree tokens (unary env bound) reader
  | .product, last, tree, tokens => ∀ (bound : Nat) (reader : Reader) (next : Token),
      tokens.length ≤ bound → reader.lexer.Upcoming (tokens ++ [next]) →
      (last = true → EndsSum next) →
      Leads env tree tokens (product (unary env bound) bound) Delimiter.productOperator?
        (unary env bound) bound reader
  | .sum, last, tree, tokens => ∀ (bound : Nat) (reader : Reader) (next : Token),
      tokens.length ≤ bound → reader.lexer.Upcoming (tokens ++ [next]) →
      productOperator? next = none → (last = true → EndsSum next) →
      Leads env tree tokens (sum (unary env bound) bound) Delimiter.sumOperator?
        (product (unary env bound) bound) bound reader

/-- A sum that nothing follows has been read when its chain has. -/
theorem Evaluates.yields {bound : Nat} {next : Token}
    (h : Evaluates env .sum true tree tokens) (hbound : tokens.length ≤ bound)
    (hup : reader.lexer.Upcoming (tokens ++ [next])) (hnext : EndsSum next) :
    Yields env tree tokens (sum (unary env bound) bound) reader :=
  (h bound reader next hbound hup hnext.2 fun _ => hnext).yields hup hnext.1

private theorem endsSum_of_rightParen {token : Token}
    (h : token.kind = .delimiter .rightParen) : EndsSum token := by
  simp [EndsSum, sumOperator?, productOperator?, Token.delimiter?, h,
    Delimiter.sumOperator?, Delimiter.productOperator?]

private theorem productOperator?_eq_none {token : Token} {operator : BinaryOperator}
    (h : sumOperator? token = some operator) : productOperator? token = none := by
  unfold sumOperator? at h
  unfold productOperator?
  cases hmark : token.delimiter? with
  | none => rfl
  | some mark =>
      rw [hmark, Option.bind_some] at h
      rw [Option.bind_some]
      cases mark with
      | plus | minus | pipe | ampersand => rfl
      | _ => cases h

theorem evaluates_of_renders {level : Level} {last : Bool}
    (h : Renders level last tree tokens) : Evaluates env level last tree tokens := by
  induction h with
  | named hkind hname =>
      intro bound reader next _ hup _
      exact yields_named hup hkind hname
  | parens hleft hright _ ih =>
      intro bound reader next hbound hup _
      simp only [List.length_cons, List.length_append, List.length_nil] at hbound
      refine yields_parens hup.of_append hleft hright fun r hinner => ?_
      exact ih.yields (by omega) hinner (endsSum_of_rightParen hright)
  | scale hkind hfactor _ ih =>
      intro bound reader next hbound hup hnext
      simp only [List.length_cons] at hbound
      refine yields_scale hup hkind hfactor fun r hinner => ?_
      exact ih.yields (by omega) hinner (hnext rfl)
  | ofAtom hatom ih =>
      intro bound reader next hbound hup hnext
      have hpos := List.length_pos_iff.mpr hatom.ne_nil
      obtain ⟨bound, rfl⟩ : ∃ k, bound = k + 1 := ⟨bound - 1, by omega⟩
      exact yields_ofAtom hatom hup fun r hinner => ih bound r next hbound hinner hnext
  | unary hoperator _ ih =>
      intro bound reader next hbound hup hnext
      simp only [List.length_cons] at hbound
      obtain ⟨bound, rfl⟩ : ∃ k, bound = k + 1 := ⟨bound - 1, by omega⟩
      exact yields_unary hup hoperator fun r hinner =>
        ih bound r next (by omega) hinner hnext
  | call hkind _ ih =>
      intro bound reader next hbound hup hnext
      simp only [List.length_cons] at hbound
      obtain ⟨bound, rfl⟩ : ∃ k, bound = k + 1 := ⟨bound - 1, by omega⟩
      exact yields_call hup hkind fun r hinner => ih bound r next (by omega) hinner hnext
  | constant hkind hleft hfirst hrows hcomma hsecond hcols hright =>
      intro bound reader next hbound hup _
      simp only [List.length_cons] at hbound
      obtain ⟨bound, rfl⟩ : ∃ k, bound = k + 1 := ⟨bound - 1, by omega⟩
      exact yields_constant hup hkind hleft hfirst hrows hcomma hsecond hcols hright
  | ofOperand _ ih =>
      intro bound reader next hbound hup hnext
      exact (ih bound reader next hbound hup hnext).leads
  | product hoperator _ _ ihleft ihright =>
      intro bound reader next hbound hup hnext
      rw [List.append_assoc, List.cons_append] at hup
      have hlength := hbound
      simp only [List.length_append, List.length_cons] at hlength
      -- The left operand only has to know that an operator follows it.
      have hfirst := ihleft bound reader _ (by omega)
        (Upcoming.of_append (by rwa [List.append_assoc])) (fun hlast => by cases hlast)
      exact hfirst.step hup hoperator hbound fun r hinner =>
        ihright bound r next (by omega) hinner hnext
  | ofProduct _ ih =>
      intro bound reader next hbound hup hproduct hnext
      exact ((ih bound reader next hbound hup hnext).yields hup hproduct).leads
  | sum hoperator _ _ ihleft ihright =>
      intro bound reader next hbound hup hproduct hnext
      rw [List.append_assoc, List.cons_append] at hup
      have hlength := hbound
      simp only [List.length_append, List.length_cons] at hlength
      have hfirst := ihleft bound reader _ (by omega)
        (Upcoming.of_append (by rwa [List.append_assoc]))
        (productOperator?_eq_none hoperator) (fun hlast => by cases hlast)
      exact hfirst.step hup hoperator hbound fun r hinner =>
        (ihright bound r next (by omega) hinner hnext).yields hinner hproduct

theorem yields_evaluate {next : Token} (hrenders : Renders .sum true tree tokens)
    (hsound : reader.lexer.Sound) (hup : reader.lexer.Upcoming (tokens ++ [next]))
    (hnext : EndsSum next) : Yields env tree tokens (evaluate env) reader := by
  obtain ⟨first, rest, rfl⟩ := List.exists_cons_of_ne_nil hrenders.ne_nil
  have hends := hrenders.endsStatement_eq
  obtain ⟨r₁, hpeek, hlook, hup₁⟩ := Reader.peek_of_upcoming hup
  have hbound : (first :: rest).length ≤ r₁.lexer.tokenBound := by
    have hlength := hup.of_append.length_le_ahead hsound fun t ht hkind => by
      have := hends t ht
      simp [Token.endsStatement_eq_false_iff, hkind] at this
    have hlt := hsound.ahead_lt_tokenBound
    rw [tokenBound, hlook.source_eq]
    rw [tokenBound] at hlt
    omega
  have hevaluates : Evaluates env .sum true tree (first :: rest) :=
    evaluates_of_renders hrenders
  have hyields := hevaluates.yields hbound hup₁ hnext
  have hrun : evaluate env reader =
      sum (unary env r₁.lexer.tokenBound) r₁.lexer.tokenBound r₁ := by
    rw [evaluate, bind_of_eq_ok hpeek, hends first (by simp), if_neg (by simp)]
    rfl
  exact hyields.prepend hlook hrun

/-- A written expression evaluates to the value of its tree or fails with the error
of its tree, whatever the variables hold.  Exactly its tokens are taken, and the
token after them is next. -/
theorem evaluate_eq_denote {next : Token} (hrenders : Renders .sum true tree tokens)
    (hsound : reader.lexer.Sound) (hup : reader.lexer.Upcoming (tokens ++ [next]))
    (hnext : EndsSum next) :
    match tree.denote env with
    | .ok value => ∃ reader', evaluate env reader = .ok value reader' ∧
        Reads reader.lexer tokens reader'.lexer ∧ reader'.lexer.Upcoming [next]
    | .error e => ∃ reader', evaluate env reader = .error e reader' := by
  have hall : Yields env tree tokens (evaluate env) reader :=
    yields_evaluate hrenders hsound hup hnext
  unfold Yields at hall
  cases hvalue : tree.denote env with
  | error e => rwa [hvalue] at hall
  | ok value =>
      rw [hvalue] at hall
      obtain ⟨r₂, hevaluate, hreads⟩ := hall
      exact ⟨r₂, hevaluate, hreads, hreads.upcoming_iff.mp hup⟩

theorem evaluate_eq_denote_mixed :
    let A : VariableName := ⟨0⟩
    let B : VariableName := ⟨1⟩
    let a : Value := ⟨2, 2, ⟨#v[-1, 2, 3, -4]⟩⟩
    let b : Value := ⟨2, 2, ⟨#v[5, 6, 7, 8]⟩⟩
    let env : Env := ⟨(Store.empty.insert A a).insert B b, 100⟩
    let reader : Reader :=
      { lexer := { source := "~A * (2 B) + 3 B - A\n".toList, params := [] } }
    let tree : Tree :=
      .binary .add
        (.binary .product (.unary .complement (.named A)) (.scale 2 (.named B)))
        (.scale 3 (.binary .sub (.named B) (.named A)))
    let tokens : List Token :=
      [⟨.delimiter .tilde, "~", ⟨0, 1⟩⟩, ⟨.word, "A", ⟨1, 1⟩⟩, ⟨.delimiter .star, "*", ⟨3, 1⟩⟩,
        ⟨.delimiter .leftParen, "(", ⟨5, 1⟩⟩, ⟨.number, "2", ⟨6, 1⟩⟩, ⟨.word, "B", ⟨8, 1⟩⟩,
        ⟨.delimiter .rightParen, ")", ⟨9, 1⟩⟩, ⟨.delimiter .plus, "+", ⟨11, 1⟩⟩,
        ⟨.number, "3", ⟨13, 1⟩⟩, ⟨.word, "B", ⟨15, 1⟩⟩, ⟨.delimiter .minus, "-", ⟨17, 1⟩⟩,
        ⟨.word, "A", ⟨19, 1⟩⟩]
    let next : Token := ⟨.delimiter .endOfLine, "\n", ⟨20, 1⟩⟩
    Renders .sum true tree tokens ∧ reader.lexer.Sound ∧
      reader.lexer.Upcoming (tokens ++ [next]) ∧ EndsSum next ∧
      ∃ value reader', tree.denote env = .ok value ∧ value.toRows = [[28, 24], [26, 52]] ∧
        evaluate env reader = .ok value reader' ∧
        Reads reader.lexer tokens reader'.lexer ∧ reader'.lexer.Upcoming [next] := by
  intro A B a b env reader tree tokens next
  have hrenders : Renders .sum true tree tokens :=
    .sum rfl
      (.ofProduct (.product rfl (.ofOperand (.unary rfl (.ofAtom (.named rfl rfl))))
        (.ofAtom (.parens rfl rfl
          (.ofProduct (.ofOperand (.ofAtom (.scale rfl rfl
            (.ofProduct (.ofOperand (.ofAtom (.named rfl rfl))))))))))))
      (.ofOperand (.ofAtom (.scale rfl rfl
        (.sum rfl (.ofProduct (.ofOperand (.ofAtom (.named rfl rfl))))
          (.ofOperand (.ofAtom (.named rfl rfl)))))))
  have hsound : reader.lexer.Sound := sound_of_start rfl rfl rfl
  have hup : reader.lexer.Upcoming (tokens ++ [next]) := by
    decide +kernel
  have hnext : EndsSum next := ⟨rfl, rfl⟩
  obtain ⟨value, hvalue⟩ : ∃ value, tree.denote env = .ok value := ⟨_, rfl⟩
  have hrows : (tree.denote env).toOption.map DenseMatrix.toRows = some [[28, 24], [26, 52]] := by
    decide +kernel
  rw [hvalue] at hrows
  have hmain := @evaluate_eq_denote env reader tree tokens next hrenders hsound hup hnext
  rw [hvalue] at hmain
  obtain ⟨reader', hevaluate, hreads, hleft⟩ := hmain
  exact ⟨hrenders, hsound, hup, hnext, value, reader', hvalue, Option.some.inj hrows, hevaluate,
    hreads, hleft⟩

end Expression

end MatrixScript
