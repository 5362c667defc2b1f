import MatrixScript.Proofs.Expression.Denotation
import MatrixScript.Proofs.Structured.Passing

/-!
# Written conditions

Two written expressions with a comparison between them are a condition: whatever the
variables hold, it fails or it is read to its end.  So a line with the command of a
block and a written condition can be the first line of a block (`isHead_of_renders`).
-/

namespace MatrixScript

open Lexer

namespace Expression

variable {env : Env} {reader reader' : Reader} {tree : Tree} {tokens : List Token}

theorem isOperand_of_delimiter? {α : Type} {token : Token} {table : Delimiter → Option α} {a : α}
    (h : token.delimiter?.bind table = some a) : token.isOperand = true := by
  obtain ⟨mark, hmark, _⟩ := Option.bind_eq_some_iff.mp h
  unfold Token.delimiter? at hmark
  unfold Token.isOperand
  split at hmark
  · rename_i hkind
    rw [hkind]
  · cases hmark

/-- No token of an expression is a command or a label. -/
theorem Renders.isOperand {level : Level} {last : Bool} (h : Renders level last tree tokens) :
    ∀ token ∈ tokens, token.isOperand = true := by
  induction h with
  | named hkind => simp [Token.isOperand, hkind]
  | parens hleft hright _ ih =>
      intro token hmem
      simp only [List.mem_cons, List.mem_append, List.not_mem_nil, or_false] at hmem
      rcases hmem with rfl | hmem | rfl
      · simp [Token.isOperand, hleft]
      · exact ih token hmem
      · simp [Token.isOperand, hright]
  | scale hkind _ _ ih => simpa [Token.isOperand, hkind] using ih
  | ofAtom _ ih | ofOperand _ ih | ofProduct _ ih => exact ih
  | unary hoperator _ ih => simpa [isOperand_of_delimiter? hoperator] using ih
  | call hkind _ ih => simpa [Token.isOperand, hkind] using ih
  | constant hkind hleft hfirst _ hcomma hsecond _ hright =>
      simp [Token.isOperand, hkind, hleft, hfirst, hcomma, hsecond, hright]
  | product hoperator _ _ ihleft ihright | sum hoperator _ _ ihleft ihright =>
      intro token hmem
      simp only [List.mem_append, List.mem_cons] at hmem
      rcases hmem with hmem | rfl | hmem
      · exact ihleft token hmem
      · exact isOperand_of_delimiter? hoperator
      · exact ihright token hmem

theorem Yields.reads {program : ReadM Value} {value : Value}
    (h : Yields env tree tokens program reader) (hrun : program reader = .ok value reader') :
    Reads reader.lexer tokens reader'.lexer := by
  unfold Yields at h
  cases hvalue : tree.denote env with
  | error e =>
      rw [hvalue] at h
      obtain ⟨r, herror⟩ := h
      rw [hrun] at herror
      cases herror
  | ok found =>
      rw [hvalue] at h
      obtain ⟨r, hok, hreads⟩ := h
      rw [hrun] at hok
      cases hok
      exact hreads

theorem endsSum_of_comparison? {token : Token} {question : Comparison}
    (h : token.delimiter?.bind comparison? = some question) : EndsSum token := by
  obtain ⟨mark, hmark, hquestion⟩ := Option.bind_eq_some_iff.mp h
  unfold EndsSum sumOperator? productOperator?
  rw [hmark]
  unfold comparison? at hquestion
  split at hquestion
  · exact ⟨rfl, rfl⟩
  · exact ⟨rfl, rfl⟩
  · exact ⟨rfl, rfl⟩
  · cases hquestion

theorem endsSum_of_endsStatement {token : Token} (h : token.endsStatement = true) :
    EndsSum token := by
  unfold EndsSum sumOperator? productOperator? Token.delimiter?
  rcases Token.endsStatement_iff.mp h with hkind | hkind
  · rw [hkind]
    exact ⟨rfl, rfl⟩
  · rw [hkind]
    exact ⟨rfl, rfl⟩

/-- A written condition that does not fail is read to its end. -/
theorem upcoming_of_condition {left right : List Token} {leftTree rightTree : Tree}
    {mark last : Token} {question : Comparison} {holds : Bool}
    (hleft : Renders .sum true leftTree left)
    (hmark : mark.delimiter?.bind comparison? = some question)
    (hright : Renders .sum true rightTree right) (hlast : last.endsStatement = true)
    (hsound : reader.lexer.Sound)
    (hup : reader.lexer.Upcoming (left ++ mark :: right ++ [last]))
    (h : condition env reader = .ok holds reader') : reader'.lexer.Upcoming [last] := by
  rw [List.append_assoc, List.cons_append] at hup
  -- The left side ends at the mark of the comparison.
  obtain ⟨a, r₁, hfirst, h⟩ := bind_eq_ok.mp h
  have hupleft : reader.lexer.Upcoming (left ++ [mark] ++ (right ++ [last])) := by
    rwa [List.append_assoc]
  have hyields : Yields env leftTree left (evaluate env) reader :=
    yields_evaluate hleft hsound hupleft.of_append (endsSum_of_comparison? hmark)
  have hreads₁ := hyields.reads hfirst
  have hup₁ := hreads₁.upcoming_iff.mp hup
  obtain ⟨token, r₂, hnext, h⟩ := bind_eq_ok.mp h
  obtain ⟨htoken, hlexer₂⟩ := Reader.reads_of_next hnext
  have hsame := hup₁.1
  rw [htoken] at hsame
  cases hsame
  rw [hmark] at h
  -- The right side ends with the statement.
  obtain ⟨b, r₃, hsecond, h⟩ := bind_eq_ok.mp h
  have hup₂ : r₂.lexer.Upcoming (right ++ [last]) := hlexer₂ ▸ hup₁.2
  have hsound₂ : r₂.lexer.Sound := hlexer₂ ▸ (hreads₁.sound hsound).next
  have hyields₂ : Yields env rightTree right (evaluate env) r₂ :=
    yields_evaluate hright hsound₂ hup₂ (endsSum_of_endsStatement hlast)
  have hup₃ := (hyields₂.reads hsecond).upcoming_iff.mp hup₂
  obtain ⟨answer, r₄, hanswer, h⟩ := bind_eq_ok.mp h
  cases hcompare : DenseMatrix.compare question a b with
  | error e => rw [hcompare] at hanswer; cases hanswer
  | ok found =>
      rw [hcompare] at hanswer
      cases hanswer
      cases h
      exact hup₃

end Expression

open Expression in
theorem isHead_of_renders {params : List String} {command : Command} {line : List Char}
    {first mark : Token} {left right : List Token} {leftTree rightTree : Tree}
    {question : Comparison}
    (htokens : lineTokens? params line = some (first :: (left ++ mark :: right)))
    (hfirst : first.kind = .command command) (hleft : Renders .sum true leftTree left)
    (hmark : mark.delimiter?.bind comparison? = some question)
    (hright : Renders .sum true rightTree right) : IsHead params command line where
  tokens := by
    refine ⟨first, _, htokens, hfirst, List.all_eq_true.mpr ?_⟩
    intro t ht
    rcases List.mem_append.mp ht with hmem | hmem
    · exact hleft.isOperand t hmem
    · rcases List.mem_cons.mp hmem with rfl | hmem
      · exact isOperand_of_delimiter? hmark
      · exact hright.isOperand t hmem
  whole := by
    intro env reader holds reader' hlexer hcondition
    obtain ⟨last, hlast, _, hup⟩ := upcoming_of_operands? htokens
    have hsound : (ofLine params line).Sound := sound_of_start rfl rfl rfl
    have hleft_up := upcoming_of_condition hleft hmark hright hlast
      (hlexer ▸ hsound.next) (hlexer ▸ hup.2) hcondition
    exact ⟨last, hleft_up.1, hlast⟩

end MatrixScript
