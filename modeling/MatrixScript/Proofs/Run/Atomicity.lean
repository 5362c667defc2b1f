import MatrixScript.Proofs.Run.Effect

/-!
# Statements are done as a whole or not at all

A statement that fails leaves the variables as they were, and the files and the
output too unless a text could not be written.  A statement that succeeds changes
at most the variable that it names, and it adds to the output.
-/

namespace MatrixScript

theorem Store.get?_insert_of_ne (store : Store) {name other : VariableName}
    (value : DenseMatrix Float) (hne : other ≠ name) :
    (store.insert name value).get? other = store.get? other := by
  have hindex : (name.index : Nat) ≠ other.index := by
    intro heq
    exact hne (congrArg VariableName.mk (Fin.ext heq.symm))
  unfold Store.get? Store.insert
  exact Vector.getElem_set_ne name.index.isLt other.index.isLt hindex

namespace Machine

/-- The statement that comes next is an assignment to a variable, or a `load` whose
second operand names it. -/
def Targets (m : Machine) (name : VariableName) : Prop :=
  ∃ token, m.reader.lexer.next.outcome = .ok token ∧
    (token.kind = .word ∧ VariableName.ofText? token.lexeme = some name ∨
      token.kind = .command .load ∧ ∃ operand,
        m.reader.lexer.next.lexer.next.lexer.next.outcome = .ok operand ∧
          VariableName.ofText? operand.lexeme = some name)

/-- What a statement may have changed when it stops.  If it fails, no variable has
changed, and no file and no output either, unless the error is that of a text which a
file or the sink of the output did not take; then the texts before it have been written.
If it succeeds, at most the variable that it names has changed, and the output has only
grown. -/
def Settled (m : Machine) : EStateM.Result Error Machine (Option Outcome) → Prop
  | .error e m' =>
    m'.store = m.store ∧
      (m'.world.disk = m.world.disk ∧ m'.world.output = m.world.output ∨
        ∃ texts path text fault world, m.world.emitAll texts = (.ok (), world) ∧
          world.emit path text = (.error fault, m'.world) ∧ e = .file fault)
  | .ok _ m' =>
    (m'.store = m.store ∨ ∃ name, m.Targets name ∧
      ∀ other, other ≠ name → m'.store.get? other = m.store.get? other) ∧
    ∃ more, m'.world.output = m.world.output ++ more

variable {m : Machine} {token : Token}
  {result : EStateM.Result Error Machine (Option Outcome)}

theorem Quiet.settled (h : Quiet m (finalState result)) : m.Settled result := by
  cases result with
  | ok outcome m' =>
      rw [show m' = _ from h.2]
      exact ⟨.inl rfl, "", by simp⟩
  | error e m' =>
      rw [show m' = _ from h.2]
      exact ⟨rfl, .inl ⟨rfl, rfl⟩⟩

theorem Effect.settled (hnext : m.reader.lexer.next.outcome = .ok token)
    (h : Effect token m.taken result) : m.Settled result := by
  cases h with
  | quiet hquiet =>
      exact Quiet.settled (IsTrans.trans _ _ _ (quiet_taken m) hquiet)
  | wrote hwrote =>
      obtain ⟨reader, texts, world, _, hemit, rfl⟩ := hwrote
      have houtput := World.output_emitAll m.taken.world texts
      rw [hemit] at houtput
      exact ⟨.inl rfl, houtput⟩
  | refused hwrote =>
      obtain ⟨reader, texts, world, _, hemit, rfl⟩ := hwrote
      obtain ⟨before, path, text, now, hbefore, hfault⟩ :=
        World.exists_emit_of_emitAll_error hemit
      exact ⟨rfl, .inr ⟨before, path, text, _, now, hbefore, hfault, rfl⟩⟩
  | assigned hword hname _ =>
      refine ⟨.inr ⟨_, ⟨token, hnext, .inl ⟨hword, hname⟩⟩, ?_⟩, "", by simp [taken]⟩
      intro other hne
      exact Store.get?_insert_of_ne _ _ hne
  | loaded hload hoperand hname _ =>
      refine ⟨.inr ⟨_, ⟨token, hnext, .inr ⟨hload, _, hoperand, hname⟩⟩, ?_⟩, "",
        by simp [taken]⟩
      intro other hne
      exact Store.get?_insert_of_ne _ _ hne
  | drained _ => exact ⟨rfl, .inl ⟨rfl, rfl⟩⟩
  | jumped _ _ _ => exact ⟨.inl rfl, "", by simp [taken]⟩
  | opened _ _ _ hfinal =>
      cases result with
      | ok outcome m' =>
          rw [show m' = _ from hfinal]
          exact ⟨.inl rfl, "", by simp [taken]⟩
      | error e m' =>
          rw [show m' = _ from hfinal]
          exact ⟨rfl, .inl ⟨rfl, rfl⟩⟩
  | returned _ _ _ => exact ⟨.inl rfl, "", by simp [taken]⟩

/-- Every step is all or nothing, from every state of the machine and for every
statement that comes next. -/
theorem step_settled (m : Machine) : m.Settled (step m) := by
  rcases step_effect m with ⟨e, herror⟩ | ⟨token, hnext, heffect⟩
  · rw [herror]
    exact Quiet.settled (quiet_taken m)
  · exact heffect.settled hnext

/-- A sink that takes two characters and then refuses the rest. -/
example :
    let m := Machine.new "rem \"done\"" [] {} { output := "so: ", sink := [some ⟨"full", 2⟩] }
    (match step m with
      | .error e m' => some (e.message, m'.world.output)
      | .ok _ _ => none) = some ("I/O error on 'con:': full", "so: do") := by
  decide +kernel

end Machine

end MatrixScript
