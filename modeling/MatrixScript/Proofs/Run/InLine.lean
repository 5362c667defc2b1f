import MatrixScript.Proofs.Lexing.Within
import MatrixScript.Proofs.Structured.Ending

/-!
# Statements stay on their line

Every operand and every level of the evaluator stops at the end of the line: a program
that succeeds has not taken it, and one that fails has taken at most it (`InLine`).
There is one lemma for each program of the language that reads, up to the statements
that do not jump.
-/

namespace MatrixScript

open Lexer

variable {σ α β : Type} {view : σ → Lexer}

/-- The outcome of a program that started with the lexer. -/
inductive KeepsLine (view : σ → Lexer) (lexer : Lexer) : EStateM.Result Error σ α → Prop where
  | ok {a : α} {s : σ} (h : Stays lexer (view s)) : KeepsLine view lexer (.ok a s)
  | error {e : Error} {s : σ} (h : Consumes lexer (view s)) : KeepsLine view lexer (.error e s)

/-- The program takes no end of a line but as the last token before it fails. -/
def InLine (view : σ → Lexer) (x : EStateM Error σ α) : Prop :=
  ∀ s, KeepsLine view (view s) (x s)

/-- As `InLine`, where the next token is known. -/
def InLineAt (view : σ → Lexer) (token : Token) (x : EStateM Error σ α) : Prop :=
  ∀ s, (view s).next.outcome = .ok token → KeepsLine view (view s) (x s)

/-- The program fails without reading. -/
def Declines (view : σ → Lexer) (x : EStateM Error σ α) : Prop :=
  ∀ s, ∃ e s', x s = .error e s' ∧ view s' = view s

/-! ## Rules -/

section Rules

theorem KeepsLine.after {lexer lexer' : Lexer} {result : EStateM.Result Error σ α}
    (hstays : Stays lexer lexer') (h : KeepsLine view lexer' result) :
    KeepsLine view lexer result := by
  cases h with
  | ok hok => exact .ok (hstays.trans hok)
  | error herror => exact .error (hstays.consumes herror)

theorem KeepsLine.consumes {lexer : Lexer} {result : EStateM.Result Error σ α}
    (h : KeepsLine view lexer result) : Consumes lexer (view (finalState result)) := by
  cases h with
  | ok hok => exact .within hok
  | error herror => exact herror

theorem inLine_of_rests {x : EStateM Error σ α}
    (h : Evolves (fun s s' => view s' = view s) x) : InLine view x := by
  intro s
  have hsame := h s
  cases hx : x s with
  | ok a s' =>
      rw [hx] at hsame
      refine .ok ?_
      rw [show view s' = view s from hsame]
      exact .refl
  | error e s' =>
      rw [hx] at hsame
      refine .error (.within ?_)
      rw [show view s' = view s from hsame]
      exact .refl

theorem inLine_pure (a : α) : InLine view (pure a : EStateM Error σ α) :=
  fun _ => .ok .refl

theorem inLine_throw (e : Error) : InLine view (throw e : EStateM Error σ α) :=
  fun _ => .error (.within .refl)

theorem inLine_get_bind {f : σ → EStateM Error σ α} (h : ∀ s, InLine view (f s)) :
    InLine view (get >>= f) :=
  fun s => h s s

theorem declines_throw (e : Error) : Declines view (throw e : EStateM Error σ α) :=
  fun s => ⟨e, s, rfl, rfl⟩

theorem KeepsLine.bind {x : EStateM Error σ α} {f : α → EStateM Error σ β} {s : σ}
    {lexer : Lexer} (hx : KeepsLine view lexer (x s))
    (hf : ∀ a s', x s = .ok a s' → InLine view (f a)) :
    KeepsLine view lexer ((x >>= f) s) := by
  cases hxs : x s with
  | ok a s' =>
      rw [hxs] at hx
      rw [bind_of_eq_ok hxs]
      cases hx with
      | ok hok => exact (hf a s' hxs s').after hok
  | error e s' =>
      rw [hxs] at hx
      rw [bind_of_eq_error hxs]
      cases hx with
      | error herror => exact .error herror

theorem InLine.bind {x : EStateM Error σ α} {f : α → EStateM Error σ β} (hx : InLine view x)
    (hf : ∀ a, InLine view (f a)) : InLine view (x >>= f) :=
  fun s => (hx s).bind fun a _ _ => hf a

theorem InLine.map {x : EStateM Error σ α} (f : α → β) (hx : InLine view x) :
    InLine view (f <$> x) := by
  rw [map_eq_bind]
  exact hx.bind fun a => inLine_pure (f a)

theorem InLine.at {x : EStateM Error σ α} (h : InLine view x) (token : Token) :
    InLineAt view token x :=
  fun s _ => h s

end Rules

/-! ## Taking and looking at tokens -/

namespace Reader

/-- A program that fails after the end of the line can start by taking a token. -/
theorem inLine_next_bind {f : Token → ReadM α}
    (hend : ∀ token, token.endsStatement = true → Declines Reader.lexer (f token))
    (hgo : ∀ token, token.endsStatement = false → InLine Reader.lexer (f token)) :
    InLine Reader.lexer (next >>= f) := by
  intro r
  cases hnext : r.lexer.next.outcome with
  | error e =>
      rw [bind_of_eq_error (next_of_error hnext)]
      exact .error (.within (Pace.fault hnext).stays)
  | ok token =>
      let r₁ : Reader := ⟨r.lexer.next.lexer, r.journal ++ r.lexer.next.notes⟩
      rw [bind_of_eq_ok (next_of_ok hnext)]
      cases hends : token.endsStatement with
      | true =>
          obtain ⟨e, r', herror, hlexer⟩ := hend token hends r₁
          rw [herror]
          refine .error ?_
          rw [hlexer]
          exact .upToEnd .refl hnext hends
      | false => exact (hgo token hends r₁).after (Pace.token hnext hends).stays

theorem inLineAt_next_bind {token : Token} {f : Token → ReadM α}
    (hends : token.endsStatement = false) (hgo : InLine Reader.lexer (f token)) :
    InLineAt Reader.lexer token (next >>= f) := by
  intro r hnext
  have hrest := hgo ⟨r.lexer.next.lexer, r.journal ++ r.lexer.next.notes⟩
  rw [bind_of_eq_ok (next_of_ok hnext)]
  exact hrest.after (Pace.token hnext hends).stays

theorem inLine_peek_bind {f : Token → ReadM α}
    (hgo : ∀ token, InLineAt Reader.lexer token (f token)) :
    InLine Reader.lexer (peek >>= f) := by
  intro r
  cases hpeek : r.lexer.peek.outcome with
  | error e =>
      rw [bind_of_eq_error (peek_of_error hpeek)]
      exact .error (.within (Pace.peek _).stays)
  | ok token =>
      have hrest := hgo token ⟨r.lexer.peek.lexer, r.journal ++ r.lexer.peek.notes⟩
        (next_peek hpeek).2.1
      rw [bind_of_eq_ok (peek_of_ok hpeek)]
      exact hrest.after (Pace.peek _).stays

theorem inLine_refuse (cause : ParseError) : InLine Reader.lexer (refuse cause : ReadM α) :=
  inLine_throw _

theorem inLine_ofParse (result : Except ParseError α) : InLine Reader.lexer (ofParse result) := by
  cases result with
  | ok value => exact inLine_pure value
  | error e => exact inLine_refuse e

theorem inLine_note (level : Level) (text : String) : InLine Reader.lexer (note level text) :=
  fun _ => .ok .refl

theorem inLine_expect {mark : Delimiter} (hline : mark ≠ .endOfLine)
    (hscript : mark ≠ .endOfScript) (symbol : Char) :
    InLine Reader.lexer (expect mark symbol) := by
  refine inLine_next_bind ?_ ?_
  · intro token hends
    rw [is_eq_false_of_endsStatement hends hline hscript]
    exact declines_throw _
  · intro token _
    split
    · exact inLine_pure ()
    · exact inLine_refuse _

theorem inLine_expectEnd : InLine Reader.lexer expectEnd := by
  refine inLine_peek_bind fun token => InLine.at ?_ token
  split
  · exact inLine_pure ()
  · exact inLine_refuse _

end Reader

theorem ReadM.inLine_ofExcept (result : Except Error α) :
    InLine Reader.lexer (ReadM.ofExcept result) := by
  cases result with
  | ok value => exact inLine_pure value
  | error e => exact inLine_throw e

theorem ReadM.inLine_ofMatrix (result : Except (MatrixError Float) α) :
    InLine Reader.lexer (ReadM.ofMatrix result) := by
  cases result with
  | ok value => exact inLine_pure value
  | error e => exact inLine_throw _

/-! ## Expressions -/

namespace Expression

open Reader

variable {env : Env} {x : ReadM Value} {level : Delimiter → Option BinaryOperator}

theorem inLine_chain (hline : level .endOfLine = none) (hscript : level .endOfScript = none)
    (hx : InLine Reader.lexer x) (bound : Nat) (left : Value) :
    InLine Reader.lexer (chain level x bound left) := by
  induction bound generalizing left with
  | zero => exact inLine_pure left
  | succ bound ih =>
      refine inLine_peek_bind fun token => ?_
      split
      · exact (inLine_pure left).at token
      · rename_i operator hop
        refine inLineAt_next_bind ?_ ?_
        · refine Bool.eq_false_iff.mpr fun hends => ?_
          rw [bind_delimiter?_of_endsStatement hends hline hscript] at hop
          cases hop
        · exact hx.bind fun right => (ReadM.inLine_ofMatrix _).bind fun value => ih value

theorem inLine_product (hx : InLine Reader.lexer x) (bound : Nat) :
    InLine Reader.lexer (product x bound) :=
  hx.bind fun left => inLine_chain rfl rfl hx bound left

theorem inLine_sum (hx : InLine Reader.lexer x) (bound : Nat) :
    InLine Reader.lexer (sum x bound) :=
  (inLine_product hx bound).bind fun left =>
    inLine_chain rfl rfl (inLine_product hx bound) bound left

theorem inLine_count : InLine Reader.lexer count := by
  refine inLine_next_bind ?_ ?_
  · intro token hends
    have hkind : token.kind ≠ .number := by
      rcases Token.endsStatement_iff.mp hends with h | h <;> rw [h] <;> decide
    rw [if_neg hkind]
    exact declines_throw _
  · intro token _
    split
    · exact inLine_ofParse _
    · exact inLine_refuse _

theorem inLine_constant (keyword : String) (build : Nat → Nat → Value) :
    InLine Reader.lexer (constant env keyword build) := by
  have hshape : InLine Reader.lexer shape :=
    (inLine_expect (by decide) (by decide) _).bind fun _ => inLine_count.bind fun rows =>
      (inLine_expect (by decide) (by decide) _).bind fun _ => inLine_count.bind fun cols =>
        (inLine_expect (by decide) (by decide) _).bind fun _ => inLine_pure _
  refine hshape.bind fun size => (ReadM.inLine_ofExcept _).bind fun _ => ?_
  exact (inLine_note _ _).bind fun _ => inLine_pure _

theorem inLine_primitive (hx : InLine Reader.lexer x) : InLine Reader.lexer (primitive env x) := by
  refine inLine_next_bind ?_ ?_
  · intro token hends
    split
    · rename_i hkind
      simp [Token.endsStatement_iff, hkind] at hends
    · rename_i hkind
      simp [Token.endsStatement_iff, hkind] at hends
    · rw [if_pos hends]
      exact declines_throw _
  · intro token hgo
    split
    · exact (inLine_ofParse _).bind fun name => ReadM.inLine_ofExcept _
    · exact (inLine_ofParse _).bind fun factor => hx.bind fun value => inLine_pure _
    · rw [if_neg (Bool.eq_false_iff.mp hgo)]
      exact inLine_refuse _

theorem inLine_atom (hx : InLine Reader.lexer x) : InLine Reader.lexer (atom env x) := by
  refine inLine_peek_bind fun token => ?_
  split
  · rename_i hparen
    refine inLineAt_next_bind ?_ (hx.bind fun value => inLine_next_bind ?_ ?_)
    · refine Bool.eq_false_iff.mpr fun hends => ?_
      rw [is_eq_false_of_endsStatement hends (by decide) (by decide)] at hparen
      cases hparen
    · intro close hends
      rw [is_eq_false_of_endsStatement hends (by decide) (by decide)]
      exact declines_throw _
    · intro close _
      split
      · exact inLine_pure value
      · exact inLine_refuse _
  · exact (inLine_primitive hx).at token

theorem inLine_call (hx : InLine Reader.lexer x) (builtin : Builtin) :
    InLine Reader.lexer (call env x builtin) := by
  cases builtin with
  | identity => exact inLine_constant _ _
  | zeros => exact inLine_constant _ _
  | chiSquare => exact (inLine_atom hx).map _
  | doubleCenter => exact (inLine_atom hx).map _
  | standardize => exact (inLine_atom hx).map _
  | columnProfiles => exact (inLine_atom hx).map _
  | symmetricInverse => exact (inLine_atom hx).bind fun _ => ReadM.inLine_ofMatrix _

theorem inLine_unary (bound : Nat) : InLine Reader.lexer (unary env bound) := by
  induction bound with
  | zero => exact inLine_refuse _
  | succ bound ih =>
      have hsum := inLine_sum ih bound
      refine inLine_peek_bind fun token => ?_
      split
      · rename_i mark hkind
        split
        · rename_i operator hop
          refine inLineAt_next_bind ?_ (ih.bind fun value => inLine_pure _)
          rw [Token.endsStatement_eq_false_iff, hkind]
          constructor
          · rintro ⟨⟩
            cases hop
          · rintro ⟨⟩
            cases hop
        · exact (inLine_atom hsum).at token
      · rename_i builtin hkind
        refine inLineAt_next_bind ?_ (inLine_call hsum builtin)
        rw [Token.endsStatement_eq_false_iff, hkind]
        exact ⟨nofun, nofun⟩
      · exact (inLine_atom hsum).at token

theorem inLine_evaluate : InLine Reader.lexer (evaluate env) := by
  refine inLine_peek_bind fun token => InLine.at ?_ token
  split
  · exact inLine_refuse _
  · exact inLine_get_bind fun r => inLine_sum (inLine_unary _) _

theorem inLine_condition : InLine Reader.lexer (condition env) := by
  refine inLine_evaluate.bind fun left => inLine_next_bind ?_ ?_
  · intro token hends
    rw [bind_delimiter?_of_endsStatement hends rfl rfl]
    exact declines_throw _
  · intro token _
    split
    · exact inLine_refuse _
    · refine inLine_evaluate.bind fun right => (ReadM.inLine_ofMatrix _).bind fun holds => ?_
      exact inLine_get_bind fun r => (inLine_note _ _).bind fun _ => inLine_pure holds

end Expression

/-! ## Statements -/

/-- The lexer of a machine. -/
abbrev Machine.lexer (m : Machine) : Lexer := m.reader.lexer

theorem ExecM.inLine_read {x : ReadM α} (h : InLine Reader.lexer x) :
    InLine Machine.lexer (ExecM.read x) := by
  intro m
  have hread := h m.reader
  unfold ExecM.read
  cases hx : x m.reader with
  | ok a r =>
      rw [hx] at hread
      cases hread with
      | ok hok => exact .ok hok
  | error e r =>
      rw [hx] at hread
      cases hread with
      | error herror => exact .error herror

namespace Statement

open Reader ExecM

theorem inLine_variableOperand (command : Command) :
    InLine Reader.lexer (variableOperand command) := by
  refine inLine_next_bind ?_ ?_
  · intro token hends
    rw [if_pos hends]
    exact declines_throw _
  · intro token _
    split
    · exact inLine_refuse _
    · exact inLine_ofParse _

theorem inLine_fileOperand (command : Command) : InLine Reader.lexer (fileOperand command) := by
  refine inLine_next_bind ?_ ?_
  · intro token hends
    rcases Token.endsStatement_iff.mp hends with hkind | hkind <;> rw [hkind] <;>
      exact declines_throw _
  · intro token _
    split
    · exact inLine_refuse _
    · exact inLine_refuse _
    · split
      · exact inLine_refuse _
      · exact inLine_pure _

theorem inLine_dimensionOperand (command : Command) :
    InLine Reader.lexer (dimensionOperand command) := by
  refine inLine_next_bind ?_ ?_
  · intro token hends
    have hkind : token.kind ≠ .number := by
      rcases Token.endsStatement_iff.mp hends with h | h <;> rw [h] <;> decide
    rw [if_neg hkind, if_pos hends]
    exact declines_throw _
  · intro token _
    split
    · exact inLine_ofParse _
    · split
      · exact inLine_refuse _
      · exact inLine_refuse _

theorem inLine_labelFiles : InLine Reader.lexer labelFiles := by
  have hoptional : InLine Reader.lexer (optionalFile .compocor) := by
    refine inLine_peek_bind fun token => InLine.at ?_ token
    split
    · exact inLine_pure none
    · exact (inLine_fileOperand _).map some
  refine hoptional.bind fun columns => ?_
  split
  · exact inLine_pure none
  · exact (inLine_fileOperand _).bind fun rows => inLine_pure _

theorem inLine_assignment (name : String) : InLine Machine.lexer (assignment name) :=
  (inLine_read (inLine_ofParse _)).bind fun _ =>
  (inLine_read (inLine_expect (by decide) (by decide) _)).bind fun _ =>
  InLine.bind (inLine_get_bind fun _ => inLine_pure _) fun _ =>
  (inLine_read Expression.inLine_evaluate).bind fun _ =>
  (inLine_read inLine_expectEnd).bind fun _ => inLine_of_rests (rests_assign _ _)

theorem inLine_load : InLine Machine.lexer load :=
  (inLine_read (inLine_fileOperand _)).bind fun path =>
  (inLine_read (inLine_variableOperand _)).bind fun _ =>
  (inLine_read (inLine_dimensionOperand _)).bind fun rows =>
  (inLine_read (inLine_dimensionOperand _)).bind fun cols =>
  inLine_of_rests <| evolves_get.bind fun _ => (rests_ofExcept _).bind fun _ =>
    (rests_loadMatrix path rows cols).bind fun _ => rests_assign _ _

theorem inLine_save : InLine Machine.lexer save :=
  (inLine_read (inLine_variableOperand _)).bind fun _ =>
  (inLine_read (inLine_fileOperand _)).bind fun _ =>
  inLine_of_rests <| (rests_bound _).bind fun _ => rests_emit _ _

theorem inLine_print : InLine Machine.lexer print :=
  (inLine_read (inLine_variableOperand _)).bind fun _ =>
  inLine_of_rests <| (rests_bound _).bind fun _ => rests_emit _ _

theorem inLine_remark : InLine Machine.lexer remark := by
  have hskip : InLine Reader.lexer Reader.skipLine := fun _ => .ok (Pace.skipLine _).stays
  refine (inLine_read hskip).bind fun text => ?_
  split
  · exact inLine_of_rests (rests_emit _ _)
  · exact inLine_pure ()

theorem inLine_tridiag : InLine Machine.lexer tridiag :=
  (inLine_read (inLine_variableOperand _)).bind fun _ =>
  (inLine_read (inLine_fileOperand _)).bind fun _ =>
  (inLine_read (inLine_fileOperand _)).bind fun _ =>
  inLine_of_rests <| (rests_bound _).bind fun _ => (rests_diagonalize _).bind fun _ =>
    (rests_note _ _).bind fun _ => (rests_emit _ _).bind fun _ => rests_emit _ _

theorem inLine_compocor : InLine Machine.lexer compocor :=
  (inLine_read (inLine_variableOperand _)).bind fun _ =>
  (inLine_read (inLine_variableOperand _)).bind fun _ =>
  (inLine_read (inLine_variableOperand _)).bind fun _ =>
  (inLine_read (inLine_fileOperand _)).bind fun _ =>
  (inLine_read (inLine_fileOperand _)).bind fun _ =>
  (inLine_read (inLine_fileOperand _)).bind fun _ =>
  (inLine_read inLine_labelFiles).bind fun _ =>
  inLine_of_rests <| (rests_bound _).bind fun _ => (rests_bound _).bind fun _ =>
    (rests_ofMatrix _).bind fun _ => (rests_bound _).bind fun _ =>
    (rests_ofMatrix _).bind fun _ => (rests_pointLabels _ _).bind fun _ =>
    (rests_emit _ _).bind fun _ => (rests_note _ _).bind fun _ =>
    (rests_emit _ _).bind fun _ => (rests_note _ _).bind fun _ =>
    (rests_emit _ _).bind fun _ => (rests_note _ _).bind fun _ => rests_emit _ _

theorem inLine_supplementary (command : Command) (kind : PointKind) :
    InLine Machine.lexer (supplementary command kind) :=
  (inLine_read (inLine_variableOperand _)).bind fun _ =>
  (inLine_read (inLine_variableOperand _)).bind fun _ =>
  (inLine_read (inLine_variableOperand _)).bind fun _ =>
  (inLine_read (inLine_fileOperand _)).bind fun _ =>
  inLine_of_rests <| (rests_bound _).bind fun _ => (rests_bound _).bind fun _ =>
    (rests_bound _).bind fun _ => (rests_ofMatrix _).bind fun _ =>
    (rests_note _ _).bind fun _ => rests_emit _ _

end Statement

end MatrixScript
