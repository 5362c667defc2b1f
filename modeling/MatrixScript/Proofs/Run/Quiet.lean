import MatrixScript.Proofs.Expression.Moves
import MatrixScript.Script.Run

/-!
# Programs that only read

Operands are read, variables are looked up and blocks are passed over without any
change but to the reader, which moves on without a jump.  `Quiet` is that relation
between the machine before and the machine afterwards.
-/

namespace MatrixScript

namespace Machine

/-- Only the reader has changed, and without a jump. -/
def Quiet (m m' : Machine) : Prop :=
  Reader.Moves m.reader m'.reader ∧ m' = { m with reader := m'.reader }

instance : Std.Refl Quiet := ⟨fun _ => ⟨Lexer.Moves.refl, rfl⟩⟩

instance : IsTrans Machine Quiet where
  trans := by
    rintro m₁ m₂ m₃ ⟨hmoves, heq⟩ ⟨hmoves', heq'⟩
    refine ⟨hmoves.trans hmoves', ?_⟩
    rw [heq', heq]

theorem quiet_refl {m : Machine} : Quiet m m := Std.Refl.refl m

/-- A statement that has only read so far goes on reading, and stops or goes on. -/
theorem quiet_bind {α β : Type} {m m₁ : Machine} {x : ExecM α} {f : α → ExecM β}
    {P : EStateM.Result Error Machine β → Prop} (hquiet : Quiet m m₁) (hx : Evolves Quiet x)
    (herror : ∀ e m₂, Quiet m m₂ → P (.error e m₂))
    (hok : ∀ a m₂, x m₁ = .ok a m₂ → Quiet m m₂ → P (f a m₂)) : P ((x >>= f) m₁) := by
  have hfirst := IsTrans.trans _ _ _ hquiet (hx m₁)
  cases hxs : x m₁ with
  | error e m₂ =>
      rw [bind_of_eq_error hxs]
      rw [hxs] at hfirst
      exact herror e m₂ hfirst
  | ok a m₂ =>
      rw [bind_of_eq_ok hxs]
      rw [hxs] at hfirst
      exact hok a m₂ hxs hfirst

end Machine

open Machine

theorem ExecM.evolves_read {α : Type} {x : ReadM α} (h : Evolves Reader.Moves x) :
    Evolves Quiet (ExecM.read x) := by
  intro m
  have hmoves := h m.reader
  unfold ExecM.read
  split <;> rename_i hx <;> rw [hx] at hmoves <;> exact ⟨hmoves, rfl⟩

theorem ExecM.evolves_ofExcept {α : Type} (result : Except Error α) :
    Evolves Quiet (ExecM.ofExcept result) := by
  cases result with
  | ok value => exact evolves_pure value
  | error e => exact evolves_throw e

theorem ExecM.evolves_bound (name : VariableName) : Evolves Quiet (ExecM.bound name) :=
  evolves_get.bind fun _ => ExecM.evolves_ofExcept _

namespace Statement

open Reader

section Operands

variable {r r' : Reader} {command : Command}

/-- The name of a variable is the token that comes next. -/
theorem taken_of_variableOperand {name : VariableName}
    (h : variableOperand command r = .ok name r') :
    ∃ token, r.lexer.next.outcome = .ok token ∧ r'.lexer = r.lexer.next.lexer ∧
      token.endsStatement = false ∧ VariableName.ofText? token.lexeme = some name := by
  obtain ⟨token, r₁, hnext, h⟩ := bind_eq_ok.mp h
  obtain ⟨houtcome, hlexer⟩ := reads_of_next hnext
  cases hends : token.endsStatement with
  | true => rw [hends] at h; cases h
  | false =>
      rw [hends] at h
      unfold Literal.variableName at h
      cases hname : VariableName.ofText? token.lexeme with
      | none => rw [hname] at h; cases h
      | some found =>
          rw [hname] at h
          cases h
          exact ⟨token, houtcome, hlexer, hends, hname⟩

/-- The name of a file is the token that comes next. -/
theorem taken_of_fileOperand {path : String} (h : fileOperand command r = .ok path r') :
    ∃ token, r.lexer.next.outcome = .ok token ∧ r'.lexer = r.lexer.next.lexer ∧
      token.endsStatement = false := by
  obtain ⟨token, r₁, hnext, h⟩ := bind_eq_ok.mp h
  obtain ⟨houtcome, hlexer⟩ := reads_of_next hnext
  cases hkind : token.kind with
  | delimiter mark => rw [hkind] at h; cases h
  | label => rw [hkind] at h; cases h
  | word | number | command _ | function _ | string | quote =>
      rw [hkind] at h
      have hr' : r' = r₁ := by
        cases hempty : token.lexeme.isEmpty <;> rw [hempty] at h <;> cases h
        rfl
      refine ⟨token, houtcome, hr' ▸ hlexer, ?_⟩
      simp [Token.endsStatement_eq_false_iff, hkind]

/-- A number of rows or columns is the token that comes next. -/
theorem taken_of_dimensionOperand {count : Nat} (h : dimensionOperand command r = .ok count r') :
    ∃ token, r.lexer.next.outcome = .ok token ∧ r'.lexer = r.lexer.next.lexer ∧
      token.endsStatement = false := by
  obtain ⟨token, r₁, hnext, h⟩ := bind_eq_ok.mp h
  obtain ⟨houtcome, hlexer⟩ := reads_of_next hnext
  by_cases hnumber : token.kind = .number
  · rw [if_pos hnumber] at h
    have hr' : r' = r₁ := by
      cases hcount : Literal.dimension token.lexeme <;> rw [hcount] at h <;> cases h
      rfl
    refine ⟨token, houtcome, hr' ▸ hlexer, ?_⟩
    simp [Token.endsStatement_eq_false_iff, hnumber]
  · rw [if_neg hnumber] at h
    cases hends : token.endsStatement <;> rw [hends] at h <;> cases h

end Operands

theorem evolves_variableOperand (command : Command) :
    Evolves Moves (variableOperand command) := by
  refine evolves_next.bind fun token => ?_
  split
  · exact evolves_refuse _
  · exact evolves_ofParse _

theorem evolves_fileOperand (command : Command) : Evolves Moves (fileOperand command) := by
  refine evolves_next.bind fun token => ?_
  split
  · exact evolves_refuse _
  · exact evolves_refuse _
  · split
    · exact evolves_refuse _
    · exact evolves_pure _

theorem evolves_dimensionOperand (command : Command) :
    Evolves Moves (dimensionOperand command) := by
  refine evolves_next.bind fun token => ?_
  split
  · exact evolves_ofParse _
  · split
    · exact evolves_refuse _
    · exact evolves_refuse _

theorem evolves_labelFiles : Evolves Moves labelFiles := by
  have hfirst : Evolves Moves (optionalFile .compocor) := by
    refine evolves_peek.bind fun token => ?_
    split
    · exact evolves_pure _
    · exact (evolves_fileOperand _).map _
  refine hfirst.bind fun columns => ?_
  split
  · exact evolves_pure _
  · exact (evolves_fileOperand _).bind fun rows => evolves_pure _

theorem evolves_env : Evolves Quiet env :=
  evolves_get.bind fun _ => evolves_pure _

theorem evolves_pointLabels (table : DenseMatrix Float) (paths : Option (String × String)) :
    Evolves Quiet (pointLabels table paths) := by
  cases paths with
  | none => exact evolves_pure _
  | some paths =>
      refine evolves_get.bind fun m => (ExecM.evolves_ofExcept _).bind fun columns => ?_
      exact (ExecM.evolves_ofExcept _).bind fun rows => evolves_pure _

theorem evolves_forM_note {α : Type} (items : List α) (note : α → ReadM Unit)
    (hnote : ∀ a, Evolves Moves (note a)) :
    Evolves Quiet (items.forM fun a => (note a : ExecM Unit)) := by
  induction items with
  | nil => exact evolves_pure _
  | cons first rest ih => exact (ExecM.evolves_read (hnote first)).bind fun _ => ih

theorem evolves_diagonalize (m : DenseMatrix Float) : Evolves Quiet (diagonalize m) := by
  refine evolves_get.bind fun machine => ?_
  refine (evolves_forM_note _ _ fun _ => evolves_note _ _).bind fun _ => ?_
  split
  · exact evolves_throw _
  · exact evolves_pure _

end Statement

namespace Flow

open Reader

theorem evolves_skipFrom (block : Block) (bound depth : Nat) :
    Evolves Moves (skipFrom block bound depth) := by
  induction bound generalizing depth with
  | zero => exact evolves_throw _
  | succ bound ih =>
      refine evolves_next.bind fun token => ?_
      split
      · exact evolves_throw _
      · split
        · exact evolves_skipLine.bind fun _ => ih depth
        · split
          · exact ih (depth + 1)
          · split
            · split
              · exact evolves_pure ()
              · exact ih _
            · exact ih depth
      · exact ih depth

theorem evolves_skip (block : Block) : Evolves Moves (skip block) :=
  evolves_get.bind fun _ => evolves_skipFrom block _ 0

end Flow

end MatrixScript
