import MatrixScript.Proofs.Lockstep.Reading
import MatrixScript.Script.Expression

/-!
# Expressions in step

Two lexers in step read the same expression, which has the same value in the same
environment.  The evaluations are bounded by the lengths of the two sources, which may
differ; each bound is larger than the number of tokens to come.
-/

namespace MatrixScript

namespace Pacing

open Expression

variable {spelling : Spelling} {Near : Nat → Lexer → Lexer → Prop}
  {Stop : Lexer → Lexer → Prop} (pace : Pacing spelling Near Stop) {n : Nat} {env : Env}
  {x y : ReadM Value} {level : Delimiter → Option BinaryOperator}

include pace

theorem alike_chain (hline : level .endOfLine = none) (hscript : level .endOfScript = none)
    {b c : Nat} (hb : n < b) (hc : n < c) (hxy : ∀ k, k < n → pace.Alike k x y) (left : Value) :
    pace.Alike n (chain level x b left) (chain level y c left) := by
  induction b generalizing n c left with
  | zero => omega
  | succ b ih =>
      obtain ⟨c, rfl⟩ : ∃ c', c = c' + 1 := ⟨c - 1, by omega⟩
      refine pace.peek_bind fun token token' agree => ?_
      rw [agree.delimiter?_eq]
      cases hop : token.delimiter?.bind level with
      | none => exact pace.of_near (paired_pure rfl)
      | some operator =>
          have hends : token.endsStatement = false := by
            refine Bool.eq_false_iff.mpr fun hends => ?_
            cases hop.symm.trans (bind_delimiter?_of_endsStatement hends hline hscript)
          refine pace.taken_bind hends fun k hk => (hxy k hk).bind ?_
          rintro right _ rfl
          refine (readPaired_ofMatrix _ pace.stop_of_near).bind ?_
          rintro value _ rfl
          exact ih (by omega) (by omega) (fun j hj => hxy j (by omega)) value

theorem alike_product {b c : Nat} (hb : n < b) (hc : n < c)
    (hxy : ∀ k, k ≤ n → pace.Alike k x y) : pace.Alike n (product x b) (product y c) := by
  refine (hxy n le_rfl).bind ?_
  rintro left _ rfl
  exact pace.alike_chain rfl rfl hb hc (fun k hk => hxy k hk.le) left

theorem alike_sum {b c : Nat} (hb : n < b) (hc : n < c) (hxy : ∀ k, k ≤ n → pace.Alike k x y) :
    pace.Alike n (sum x b) (sum y c) := by
  have hproduct : ∀ k, k ≤ n → pace.Alike k (product x b) (product y c) :=
    fun k hk => pace.alike_product (by omega) (by omega) fun j hj => hxy j (by omega)
  refine (hproduct n le_rfl).bind ?_
  rintro left _ rfl
  exact pace.alike_chain rfl rfl hb hc (fun k hk => hproduct k hk.le) left

theorem alike_count : pace.Alike n count count := by
  refine pace.next_bind (fun token token' agree hends => ?_) fun token token' agree _ k _ => ?_
  · have hkind : token.kind ≠ .number := by
      intro hkind
      simp [Token.endsStatement_iff, hkind] at hends
    rw [agree.kind_eq, if_neg hkind, if_neg hkind]
    exact readPaired_refuse (congrArg ParseError.invalidDimension agree.describe_fold_eq)
      fun _ _ h => h
  · rw [agree.kind_eq]
    by_cases hkind : token.kind = .number
    · rw [if_pos hkind, if_pos hkind, agree.lexeme_eq (by simp [hkind]) (by simp [hkind])]
      exact readPaired_ofParse _ pace.stop_of_near
    · rw [if_neg hkind, if_neg hkind]
      exact readPaired_refuse (congrArg ParseError.invalidDimension agree.describe_fold_eq)
        pace.stop_of_near

theorem alike_shape : pace.Alike n shape shape := by
  refine (pace.alike_expect (by decide) (by decide) _).bind fun _ _ _ => pace.alike_count.bind ?_
  rintro rows _ rfl
  refine (pace.alike_expect (by decide) (by decide) _).bind fun _ _ _ => pace.alike_count.bind ?_
  rintro cols _ rfl
  exact (pace.alike_expect (by decide) (by decide) _).bind fun _ _ _ => paired_pure rfl

theorem alike_constant (keyword : String) (build : Nat → Nat → Value) :
    pace.Alike n (constant env keyword build) (constant env keyword build) := by
  refine pace.alike_shape.bind ?_
  rintro size _ rfl
  refine (readPaired_ofExcept _ pace.stop_of_near).bind fun _ _ _ => ?_
  exact (readPaired_note _ _ _ _).bind fun _ _ _ => paired_pure rfl

theorem alike_primitive (hxy : ∀ k, k < n → pace.Alike k x y) :
    pace.Alike n (primitive env x) (primitive env y) := by
  refine pace.next_bind (fun token token' agree hends => ?_) fun token token' agree hends k hk => ?_
  · rw [agree.kind_eq, agree.endsStatement_eq, hends]
    rcases Token.endsStatement_iff.mp hends with hkind | hkind
    · rw [hkind]
      exact readPaired_refuse rfl fun _ _ h => h
    · rw [hkind]
      exact readPaired_refuse rfl fun _ _ h => h
  · have hother : pace.Alike k (if token.endsStatement = true then
          (Reader.refuse .missingExpression : ReadM Value)
        else Reader.refuse (.unexpectedToken token.describe))
        (if token'.endsStatement = true then Reader.refuse .missingExpression
        else Reader.refuse (.unexpectedToken token'.describe)) := by
      rw [agree.endsStatement_eq, hends]
      exact readPaired_refuse (congrArg ParseError.unexpectedToken agree.describe_fold_eq)
        pace.stop_of_near
    rw [agree.kind_eq]
    cases hkind : token.kind with
    | word =>
        refine (readPaired_variableName agree.fold_eq pace.stop_of_near).bind ?_
        rintro name _ rfl
        exact readPaired_ofExcept _ pace.stop_of_near
    | number =>
        rw [agree.lexeme_eq (by simp [hkind]) (by simp [hkind])]
        refine (readPaired_ofParse _ pace.stop_of_near).bind ?_
        rintro factor _ rfl
        refine (hxy k hk).bind ?_
        rintro value _ rfl
        exact paired_pure rfl
    | delimiter _ | command _ | function _ | string | quote | label => exact hother

theorem alike_atom (hxy : ∀ k, k < n → pace.Alike k x y) :
    pace.Alike n (atom env x) (atom env y) := by
  refine pace.peek_bind fun token token' agree => ?_
  rw [agree.is_eq]
  cases hparen : token.is .leftParen with
  | false => exact pace.of_near (pace.alike_primitive hxy)
  | true =>
      have hends : token.endsStatement = false := by
        refine Bool.eq_false_iff.mpr fun hends => ?_
        cases hparen.symm.trans (is_eq_false_of_endsStatement hends (by decide) (by decide))
      refine pace.taken_bind hends fun k hk => (hxy k hk).bind ?_
      rintro value _ rfl
      refine pace.next_bind (fun close close' agree hends => ?_) fun close close' agree _ j _ => ?_
      · rw [agree.is_eq, is_eq_false_of_endsStatement hends (by decide) (by decide)]
        exact readPaired_refuse (congrArg ParseError.expectedClosingParen agree.describe_fold_eq)
          fun _ _ h => h
      · rw [agree.is_eq]
        cases close.is .rightParen with
        | true => exact paired_pure rfl
        | false =>
            exact readPaired_refuse
              (congrArg ParseError.expectedClosingParen agree.describe_fold_eq) pace.stop_of_near

theorem alike_call (hxy : ∀ k, k < n → pace.Alike k x y) (builtin : Builtin) :
    pace.Alike n (call env x builtin) (call env y builtin) := by
  have hmap (f : Value → Value) : pace.Alike n (f <$> atom env x) (f <$> atom env y) :=
    (pace.alike_atom hxy).map fun _ _ h => congrArg f h
  cases builtin with
  | identity => exact pace.alike_constant _ _
  | zeros => exact pace.alike_constant _ _
  | chiSquare => exact hmap _
  | doubleCenter => exact hmap _
  | standardize => exact hmap _
  | columnProfiles => exact hmap _
  | symmetricInverse =>
      refine (pace.alike_atom hxy).bind ?_
      rintro operand _ rfl
      exact readPaired_ofMatrix _ pace.stop_of_near

theorem alike_unary {b c : Nat} (hb : n < b) (hc : n < c) :
    pace.Alike n (unary env b) (unary env c) := by
  induction b generalizing n c with
  | zero => omega
  | succ b ih =>
      obtain ⟨c, rfl⟩ : ∃ c', c = c' + 1 := ⟨c - 1, by omega⟩
      -- Operands within this one are read after at least one more token.
      have hsum : ∀ k, k < n → pace.Alike k (sum (unary env b) b) (sum (unary env c) c) :=
        fun k hk => pace.alike_sum (by omega) (by omega) fun j hj => ih (by omega) (by omega)
      refine pace.peek_bind fun token token' agree => ?_
      rw [agree.kind_eq]
      cases hkind : token.kind with
      | delimiter mark =>
          dsimp only
          cases hop : mark.unaryOperator? with
          | none => exact pace.of_near (pace.alike_atom hsum)
          | some operator =>
              have hends : token.endsStatement = false := by
                rw [Token.endsStatement_eq_false_iff, hkind]
                refine ⟨?_, ?_⟩ <;> rintro ⟨⟩ <;> cases hop
              refine pace.taken_bind hends fun k hk => (ih (by omega) (by omega)).bind ?_
              rintro value _ rfl
              exact paired_pure rfl
      | function builtin =>
          have hends : token.endsStatement = false := by
            simp [Token.endsStatement_eq_false_iff, hkind]
          exact pace.taken_bind hends fun k hk =>
            pace.alike_call (fun j hj => hsum j (by omega)) builtin
      | word | number | command _ | string | quote | label =>
          exact pace.of_near (pace.alike_atom hsum)

theorem alike_evaluate : pace.Alike n (evaluate env) (evaluate env) := by
  refine pace.peek_bind fun token token' agree => ?_
  rw [agree.endsStatement_eq]
  cases token.endsStatement with
  | true => exact readPaired_refuse rfl pace.stop_of_at
  | false =>
      refine pace.of_near fun r s hnear => ?_
      obtain ⟨k, hk, hb, hc, hnear'⟩ := pace.bound hnear
      exact pace.weaken (pace.alike_sum hb hc fun j hj => pace.alike_unary (by omega) (by omega))
        hk _ _ hnear'

theorem alike_condition : pace.Alike n (condition env) (condition env) := by
  refine pace.alike_evaluate.bind ?_
  rintro left _ rfl
  refine pace.next_bind (fun token token' agree hends => ?_) fun token token' agree _ k _ => ?_
  · rw [agree.delimiter?_eq, bind_delimiter?_of_endsStatement hends rfl rfl]
    exact readPaired_refuse (congrArg ParseError.invalidComparison agree.describe_fold_eq)
      fun _ _ h => h
  · rw [agree.delimiter?_eq]
    cases token.delimiter?.bind comparison? with
    | none =>
        exact readPaired_refuse (congrArg ParseError.invalidComparison agree.describe_fold_eq)
          pace.stop_of_near
    | some question =>
        refine pace.alike_evaluate.bind ?_
        rintro right _ rfl
        refine (readPaired_ofMatrix _ pace.stop_of_near).bind ?_
        rintro holds _ rfl
        refine paired_get_bind fun r s _ => ?_
        exact (readPaired_note _ _ _ _).bind fun _ _ _ => paired_pure rfl

end Pacing

end MatrixScript
