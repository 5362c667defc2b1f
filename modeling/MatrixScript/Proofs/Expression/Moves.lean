import MatrixScript.Proofs.Monad.Reading
import MatrixScript.Script.Expression

/-!
# Expressions move the lexer forward

Evaluating an expression or a condition takes tokens and looks at tokens, and does
nothing else: it never jumps, whether or not there is a value in the end.
-/

namespace MatrixScript

namespace Expression

open Reader

variable {env : Env} {operand total : ReadM Value}

theorem evolves_chain {level : Delimiter → Option BinaryOperator}
    (hoperand : Evolves Moves operand) (bound : Nat) (left : Value) :
    Evolves Moves (chain level operand bound left) := by
  induction bound generalizing left with
  | zero => exact evolves_pure left
  | succ bound ih =>
      refine evolves_peek.bind fun token => ?_
      split
      · exact evolves_pure left
      · refine evolves_next.bind fun _ => hoperand.bind fun right => ?_
        exact (ReadM.evolves_ofMatrix _).bind fun value => ih value

theorem evolves_product (hoperand : Evolves Moves operand) (bound : Nat) :
    Evolves Moves (product operand bound) :=
  hoperand.bind fun first => evolves_chain hoperand bound first

theorem evolves_sum (hoperand : Evolves Moves operand) (bound : Nat) :
    Evolves Moves (sum operand bound) :=
  (evolves_product hoperand bound).bind fun first =>
    evolves_chain (evolves_product hoperand bound) bound first

theorem evolves_count : Evolves Moves count := by
  refine evolves_next.bind fun token => ?_
  split
  · exact evolves_ofParse _
  · exact evolves_refuse _

theorem evolves_constant (keyword : String) (build : Nat → Nat → Value) :
    Evolves Moves (constant env keyword build) := by
  have hshape : Evolves Moves shape :=
    (evolves_expect _ _).bind fun _ => evolves_count.bind fun rows =>
      (evolves_expect _ _).bind fun _ => evolves_count.bind fun cols =>
        (evolves_expect _ _).bind fun _ => evolves_pure _
  refine hshape.bind fun size => (ReadM.evolves_ofExcept _).bind fun _ => ?_
  exact (evolves_note _ _).bind fun _ => evolves_pure _

theorem evolves_primitive (htotal : Evolves Moves total) :
    Evolves Moves (primitive env total) := by
  refine evolves_next.bind fun token => ?_
  split
  · exact (evolves_ofParse _).bind fun name => ReadM.evolves_ofExcept _
  · exact (evolves_ofParse _).bind fun factor => htotal.bind fun _ => evolves_pure _
  · split
    · exact evolves_refuse _
    · exact evolves_refuse _

theorem evolves_atom (htotal : Evolves Moves total) : Evolves Moves (atom env total) := by
  refine evolves_peek.bind fun token => ?_
  split
  · refine evolves_next.bind fun _ => htotal.bind fun value => evolves_next.bind fun close => ?_
    split
    · exact evolves_pure value
    · exact evolves_refuse _
  · exact evolves_primitive htotal

theorem evolves_call (htotal : Evolves Moves total) (builtin : Builtin) :
    Evolves Moves (call env total builtin) := by
  cases builtin with
  | identity => exact evolves_constant _ _
  | zeros => exact evolves_constant _ _
  | chiSquare => exact (evolves_atom htotal).map _
  | doubleCenter => exact (evolves_atom htotal).map _
  | standardize => exact (evolves_atom htotal).map _
  | columnProfiles => exact (evolves_atom htotal).map _
  | symmetricInverse => exact (evolves_atom htotal).bind fun _ => ReadM.evolves_ofMatrix _

theorem evolves_unary (bound : Nat) : Evolves Moves (unary env bound) := by
  induction bound with
  | zero => exact evolves_refuse _
  | succ bound ih =>
      have htotal := evolves_sum ih bound
      refine evolves_peek.bind fun token => ?_
      split
      · split
        · exact evolves_next.bind fun _ => ih.bind fun _ => evolves_pure _
        · exact evolves_atom htotal
      · exact evolves_next.bind fun _ => evolves_call htotal _
      · exact evolves_atom htotal

theorem evolves_evaluate : Evolves Moves (evaluate env) := by
  refine evolves_peek.bind fun token => ?_
  split
  · exact evolves_refuse _
  · exact evolves_get.bind fun reader => evolves_sum (evolves_unary _) _

theorem evolves_condition : Evolves Moves (condition env) := by
  refine evolves_evaluate.bind fun left => evolves_next.bind fun token => ?_
  split
  · exact evolves_refuse _
  · refine evolves_evaluate.bind fun right => (ReadM.evolves_ofMatrix _).bind fun holds => ?_
    exact evolves_get.bind fun _ => (evolves_note _ _).bind fun _ => evolves_pure holds

end Expression

end MatrixScript
