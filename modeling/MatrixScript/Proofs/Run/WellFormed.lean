import MatrixScript.Proofs.Matrix.Shape
import MatrixScript.Proofs.Run.Atomicity
import MatrixScript.Proofs.Run.Cursors

/-!
# The matrices of a run

No script can get hold of a matrix that is not well formed.  Matrices come into a run
by `load` and by the constants of expressions, which check the size that is asked for;
everything else is computed from the variables, and `step_store` says that a step adds
nothing to them but the value of an expression or a matrix that was read.
-/

namespace MatrixScript

open DenseMatrix

/-! ## Expressions -/

theorem Literal.dimension_pos {text : String} {count : Nat} (h : dimension text = .ok count) :
    1 ≤ count := by
  unfold dimension at h
  split at h
  · rename_i n hn
    cases h
    exact of_decide_eq_true (Option.filter_eq_some_iff.mp hn).2
  · cases h

theorem checkedElements_le {rows cols max count : Nat}
    (h : checkedElements rows cols max = .ok count) : rows * cols ≤ max := by
  unfold checkedElements at h
  split at h
  · assumption
  · cases h

namespace BinaryOperator

theorem wellFormed_apply {operator : BinaryOperator} {a b value : Value}
    (ha : a.WellFormed) (hb : b.WellFormed) (h : operator.apply a b = .ok value) :
    value.WellFormed := by
  cases operator with
  | add | sub | union | intersection => exact ha.zipWith h
  | product => exact ha.of_product hb (shape_mul h).1
  | maxMinProduct => exact ha.of_product hb (shape_maxMin h).1

end BinaryOperator

theorem UnaryOperator.wellFormed_apply (operator : UnaryOperator) {a : Value}
    (ha : a.WellFormed) : (operator.apply a).WellFormed := by
  cases operator with
  | transpose => exact wellFormed_ofFn ha.cols_pos ha.rows_pos _
  | complement => exact ha.of_shape_eq rfl

/-- Every variable that is bound holds a well-formed matrix. -/
def Store.WellFormed (store : Store) : Prop :=
  ∀ name value, store.get? name = some value → value.WellFormed

namespace Expression

variable {env : Env} {operand total : ReadM Value}

/-- The program gives well-formed matrices only. -/
abbrev GivesMatrix (x : ReadM Value) : Prop := Returns DenseMatrix.WellFormed x

theorem givesMatrix_chain {level : Delimiter → Option BinaryOperator}
    (hoperand : GivesMatrix operand) (bound : Nat) {left : Value} (hleft : left.WellFormed) :
    GivesMatrix (chain level operand bound left) := by
  induction bound generalizing left with
  | zero => exact returns_pure hleft
  | succ bound ih =>
      refine .of_bind fun token => ?_
      split
      · exact returns_pure hleft
      · rename_i operator _
        refine .of_bind fun _ => hoperand.bind fun right hright => ?_
        have hvalue : GivesMatrix (ReadM.ofMatrix (operator.apply left right)) :=
          ReadM.returns_ofMatrix fun _ => BinaryOperator.wellFormed_apply hleft hright
        exact hvalue.bind fun value h => ih h

theorem givesMatrix_product (hoperand : GivesMatrix operand) (bound : Nat) :
    GivesMatrix (product operand bound) :=
  hoperand.bind fun _ hfirst => givesMatrix_chain hoperand bound hfirst

theorem givesMatrix_sum (hoperand : GivesMatrix operand) (bound : Nat) :
    GivesMatrix (sum operand bound) :=
  (givesMatrix_product hoperand bound).bind fun _ hfirst =>
    givesMatrix_chain (givesMatrix_product hoperand bound) bound hfirst

theorem returns_count : Returns (1 ≤ ·) count := by
  refine .of_bind fun token => ?_
  split
  · exact Reader.returns_ofParse fun _ => Literal.dimension_pos
  · exact returns_throw _

theorem returns_shape : Returns (fun size => 1 ≤ size.rows ∧ 1 ≤ size.cols) shape := by
  refine .of_bind fun _ => returns_count.bind fun rows hrows => ?_
  refine .of_bind fun _ => returns_count.bind fun cols hcols => ?_
  exact .of_bind fun _ => returns_pure ⟨hrows, hcols⟩

/-- A constant has at least one element, and not more than there may be. -/
theorem returns_constant (keyword : String) {build : Nat → Nat → Value}
    (hbuild : ∀ rows cols, (build rows cols).shape = ⟨rows, cols⟩) :
    Returns (fun value : Value => value.WellFormed ∧ value.rows * value.cols ≤ env.maxElements)
      (constant env keyword build) := by
  refine returns_shape.bind fun size hsize => ?_
  have hchecked : Returns (fun _ => size.rows * size.cols ≤ env.maxElements)
      (ReadM.ofExcept (checkedElements size.rows size.cols env.maxElements)) :=
    ReadM.returns_ofExcept fun _ => checkedElements_le
  refine hchecked.bind fun _ hle => .of_bind fun _ => returns_pure ?_
  obtain ⟨hrows, hcols⟩ := Shape.mk.injEq .. ▸ hbuild size.rows size.cols
  rw [wellFormed_iff, hrows, hcols]
  exact ⟨hsize, hle⟩

theorem givesMatrix_primitive (hstore : env.store.WellFormed) (htotal : GivesMatrix total) :
    GivesMatrix (primitive env total) := by
  refine .of_bind fun token => ?_
  split
  · refine .of_bind fun name => ReadM.returns_ofExcept fun value hvalue => ?_
    unfold Store.bound at hvalue
    cases hget : env.store.get? name with
    | none => rw [hget] at hvalue; cases hvalue
    | some found => rw [hget] at hvalue; cases hvalue; exact hstore name _ hget
  · exact .of_bind fun factor => htotal.bind fun value hvalue =>
      returns_pure (hvalue.of_shape_eq rfl)
  · split
    · exact returns_throw _
    · exact returns_throw _

theorem givesMatrix_atom (hstore : env.store.WellFormed) (htotal : GivesMatrix total) :
    GivesMatrix (atom env total) := by
  refine .of_bind fun token => ?_
  split
  · refine .of_bind fun _ => htotal.bind fun value hvalue => .of_bind fun close => ?_
    split
    · exact returns_pure hvalue
    · exact returns_throw _
  · exact givesMatrix_primitive hstore htotal

theorem returns_call_constant {builtin : Builtin}
    (hbuiltin : builtin = .identity ∨ builtin = .zeros) :
    Returns (fun value : Value => value.WellFormed ∧ value.rows * value.cols ≤ env.maxElements)
      (call env total builtin) := by
  rcases hbuiltin with rfl | rfl
  · exact returns_constant _ fun _ _ => rfl
  · exact returns_constant _ fun _ _ => rfl

theorem givesMatrix_call (hstore : env.store.WellFormed) (htotal : GivesMatrix total)
    (builtin : Builtin) : GivesMatrix (call env total builtin) := by
  have hatom := givesMatrix_atom hstore htotal
  cases builtin with
  | identity =>
      exact fun r value r' h => (returns_call_constant (.inl rfl) r value r' h).1
  | zeros => exact fun r value r' h => (returns_call_constant (.inr rfl) r value r' h).1
  | chiSquare => exact hatom.map fun _ h => wellFormed_ofFn h.cols_pos h.cols_pos _
  | doubleCenter => exact hatom.map fun _ h => h.of_shape_eq rfl
  | standardize => exact hatom.map fun _ h => h.of_shape_eq rfl
  | columnProfiles => exact hatom.map fun _ h => h.of_shape_eq rfl
  | symmetricInverse =>
      exact hatom.bind fun _ h => ReadM.returns_ofMatrix fun _ hinverse =>
        h.of_shape_eq (shape_symmetricInverse hinverse).1

theorem givesMatrix_unary (hstore : env.store.WellFormed) (bound : Nat) :
    GivesMatrix (unary env bound) := by
  induction bound with
  | zero => exact returns_throw _
  | succ bound ih =>
      have htotal := givesMatrix_sum ih bound
      refine .of_bind fun token => ?_
      split
      · split
        · refine .of_bind fun _ => ih.bind fun _ h => ?_
          exact returns_pure (UnaryOperator.wellFormed_apply _ h)
        · exact givesMatrix_atom hstore htotal
      · exact .of_bind fun _ => givesMatrix_call hstore htotal _
      · exact givesMatrix_atom hstore htotal

theorem givesMatrix_evaluate (hstore : env.store.WellFormed) : GivesMatrix (evaluate env) := by
  refine .of_bind fun token => ?_
  split
  · exact returns_throw _
  · exact .of_bind fun reader => givesMatrix_sum (givesMatrix_unary hstore _) _

end Expression

/-! ## Statements -/

theorem MatrixFile.read_eq_ok {path : String} {rows cols : Nat} {lines : List Disk.Line}
    {value : DenseMatrix Float} (h : (read path rows cols lines).1 = .ok value) :
    value.shape = ⟨rows, cols⟩ ∧ value.WellFormed := by
  unfold read at h
  split at h
  · cases h
  · split at h
    · cases h
    · rename_i hdata
      cases h
      exact ofList?_eq_ok hdata

theorem World.load_eq_ok {world : World} {path : String} {rows cols : Nat}
    {value : DenseMatrix Float} (h : (world.load path rows cols).1 = .ok value) :
    value.shape = ⟨rows, cols⟩ ∧ value.WellFormed := by
  unfold World.load at h
  split at h
  · exact MatrixFile.read_eq_ok h
  · split at h
    · cases h
    · exact MatrixFile.read_eq_ok h

namespace ExecM

variable {α : Type} {m m' : Machine} {a : α}

/-- What only reads keeps the variables and the limits. -/
theorem read_keeps {x : ReadM α} (h : read x m = .ok a m') :
    m'.store = m.store ∧ m'.limits = m.limits := by
  obtain ⟨r, _, rfl⟩ := read_eq_ok.mp h
  exact ⟨rfl, rfl⟩

theorem ofExcept_eq_ok {result : Except Error α} (h : ofExcept result m = .ok a m') :
    result = .ok a ∧ m' = m := by
  cases result with
  | error e => cases h
  | ok value => cases h; exact ⟨rfl, rfl⟩

end ExecM

namespace Statement

open ExecM (read_keeps ofExcept_eq_ok)

variable {m m' : Machine}

theorem loadMatrix_eq_ok {path : String} {rows cols : Nat} {value : DenseMatrix Float}
    (h : loadMatrix path rows cols m = .ok value m') :
    value.shape = ⟨rows, cols⟩ ∧ value.WellFormed ∧ m'.store = m.store := by
  rw [loadMatrix, get_bind_apply] at h
  cases hload : m.world.load path rows cols with
  | mk result world =>
      rw [hload] at h
      cases result with
      | error e => cases h
      | ok found =>
          cases h
          have hvalue := World.load_eq_ok (congrArg Prod.fst hload)
          exact ⟨hvalue.1, hvalue.2, rfl⟩

/-- A `load` that succeeds binds one variable, to a matrix with at least one element and
not more than there may be. -/
theorem load_eq_ok (h : load m = .ok () m') :
    ∃ name value, m'.store = m.store.insert name value ∧ value.WellFormed ∧
      value.rows * value.cols ≤ m.limits.maxElements := by
  obtain ⟨path, m₁, hpath, h⟩ := bind_eq_ok.mp h
  obtain ⟨name, m₂, hname, h⟩ := bind_eq_ok.mp h
  obtain ⟨rows, m₃, hrows, h⟩ := bind_eq_ok.mp h
  obtain ⟨cols, m₄, hcols, h⟩ := bind_eq_ok.mp h
  have hstore : m₄.store = m.store := by
    rw [(read_keeps hcols).1, (read_keeps hrows).1, (read_keeps hname).1, (read_keeps hpath).1]
  have hlimits : m₄.limits = m.limits := by
    rw [(read_keeps hcols).2, (read_keeps hrows).2, (read_keeps hname).2, (read_keeps hpath).2]
  obtain ⟨_, _, hget, h⟩ := bind_eq_ok.mp h
  cases hget
  obtain ⟨count, m₅, hcount, h⟩ := bind_eq_ok.mp h
  obtain ⟨hchecked, hsame⟩ := ofExcept_eq_ok hcount
  obtain ⟨value, m₆, hload, h⟩ := bind_eq_ok.mp h
  rw [hsame] at hload
  obtain ⟨hshape, hvalue, hstore'⟩ := loadMatrix_eq_ok hload
  obtain ⟨hrows, hcols⟩ := Shape.mk.injEq .. ▸ hshape
  cases h
  refine ⟨name, value, congrArg (·.insert name value) (hstore'.trans hstore), hvalue, ?_⟩
  rw [hrows, hcols, ← hlimits]
  exact checkedElements_le hchecked

/-- An assignment that succeeds binds one variable, to the value of an expression. -/
theorem assignment_eq_ok {name : String} (h : assignment name m = .ok () m') :
    ∃ target value reader reader', m'.store = m.store.insert target value ∧
      Expression.evaluate ⟨m.store, m.limits.maxElements⟩ reader = .ok value reader' := by
  obtain ⟨target, m₁, htarget, h⟩ := bind_eq_ok.mp h
  obtain ⟨_, m₂, hequals, h⟩ := bind_eq_ok.mp h
  have hstore : m₂.store = m.store := by
    rw [(read_keeps hequals).1, (read_keeps htarget).1]
  have hlimits : m₂.limits = m.limits := by
    rw [(read_keeps hequals).2, (read_keeps htarget).2]
  obtain ⟨env, _, henv, h⟩ := bind_eq_ok.mp h
  cases henv
  obtain ⟨value, m₃, hvalue, h⟩ := bind_eq_ok.mp h
  obtain ⟨reader, hevaluate, _⟩ := ExecM.read_eq_ok.mp hvalue
  obtain ⟨_, m₄, hend, h⟩ := bind_eq_ok.mp h
  cases h
  refine ⟨target, value, m₂.reader, reader, ?_, ?_⟩
  · rw [← hstore, ← (read_keeps hvalue).1, ← (read_keeps hend).1]
  · rw [← hstore, ← hlimits]
    exact hevaluate

end Statement

/-! ## Runs -/

theorem Store.get?_insert_self (store : Store) (name : VariableName)
    (value : DenseMatrix Float) : (store.insert name value).get? name = some value := by
  simp [get?, insert]

theorem Store.WellFormed.insert {store : Store} {name : VariableName}
    {value : DenseMatrix Float} (h : store.WellFormed) (hvalue : value.WellFormed) :
    (store.insert name value).WellFormed := by
  intro other found hfound
  by_cases hname : other = name
  · rw [hname, get?_insert_self] at hfound
    cases hfound
    exact hvalue
  · rw [get?_insert_of_ne store value hname] at hfound
    exact h other found hfound

theorem Store.wellFormed_empty : Store.empty.WellFormed := by
  intro name value h
  simp [get?, empty] at h

namespace Machine

variable {m m' : Machine} {token : Token}

/-- A matrix that a step can bind a variable to: the value of an expression, or a matrix
that was read and that is not too large. -/
inductive Makes (m : Machine) (value : DenseMatrix Float) : Prop where
  | evaluated {reader reader' : Reader}
      (h : Expression.evaluate ⟨m.store, m.limits.maxElements⟩ reader = .ok value reader')
  | loaded (h : value.WellFormed) (hsize : value.rows * value.cols ≤ m.limits.maxElements)

/-- A step leaves the variables as they are, or it binds one of them to a matrix that
it makes. -/
theorem step_store (m : Machine) :
    (finalState (step m)).limits = m.limits ∧
      ((finalState (step m)).store = m.store ∨
        ∃ name value, m.Makes value ∧ (finalState (step m)).store = m.store.insert name value) := by
  rcases step_effect m with ⟨e, herror⟩ | ⟨token, hnext, heffect⟩
  · rw [herror]
    exact ⟨rfl, .inl rfl⟩
  · generalize hresult : step m = result at heffect
    cases heffect with
    | quiet hquiet => rw [hquiet.2]; exact ⟨rfl, .inl rfl⟩
    | wrote hwrote | refused hwrote =>
        obtain ⟨_, _, _, _, _, rfl⟩ := hwrote
        exact ⟨rfl, .inl rfl⟩
    | assigned hword _ _ =>
        rw [step_of_kind hnext hword] at hresult
        obtain ⟨_, m₁, hassign, hpure⟩ := bind_eq_ok.mp hresult
        obtain ⟨name, value, _, _, hstore, hvalue⟩ := Statement.assignment_eq_ok hassign
        cases hpure
        exact ⟨rfl, .inr ⟨name, value, .evaluated hvalue, hstore⟩⟩
    | loaded hload _ _ _ =>
        rw [step_of_kind hnext hload] at hresult
        obtain ⟨_, m₁, hloaded, hpure⟩ := bind_eq_ok.mp hresult
        obtain ⟨name, value, hstore, hvalue, hsize⟩ := Statement.load_eq_ok hloaded
        cases hpure
        exact ⟨rfl, .inr ⟨name, value, .loaded hvalue hsize, hstore⟩⟩
    | drained _ | jumped _ _ _ | returned _ _ _ => exact ⟨rfl, .inl rfl⟩
    | opened _ _ _ hfinal => rw [hfinal]; exact ⟨rfl, .inl rfl⟩

/-- A run with these limits in which all variables hold well-formed matrices. -/
structure Tame (limits : Limits) (m : Machine) : Prop where
  limits_eq : m.limits = limits
  store : m.store.WellFormed

variable {limits : Limits}

theorem Makes.wellFormed {value : DenseMatrix Float} (h : m.Makes value)
    (hstore : m.store.WellFormed) : value.WellFormed := by
  cases h with
  | evaluated h => exact Expression.givesMatrix_evaluate hstore _ _ _ h
  | loaded h _ => exact h

theorem Tame.step (h : Tame limits m) : Tame limits (finalState (step m)) := by
  obtain ⟨hlimits, hstore | ⟨name, value, hmakes, hstore⟩⟩ := step_store m
  · exact ⟨hlimits.trans h.limits_eq, hstore ▸ h.store⟩
  · exact ⟨hlimits.trans h.limits_eq, hstore ▸ h.store.insert (hmakes.wellFormed h.store)⟩

theorem Tame.prepare (h : Tame limits m) :
    Tame limits (prepare m).2 ∧ ∀ ready, (prepare m).1 = .ok ready → Tame limits ready := by
  cases hfound : m.collected.outcome with
  | error e =>
      obtain ⟨journal, hrun⟩ := prepare_of_error hfound
      rw [hrun]
      exact ⟨⟨h.limits_eq, h.store⟩, fun _ hready => nomatch hready⟩
  | ok index =>
      obtain ⟨journal, hrun⟩ := prepare_of_ok hfound
      rw [hrun]
      refine ⟨⟨h.limits_eq, h.store⟩, ?_⟩
      rintro _ ⟨⟩
      exact ⟨h.limits_eq, h.store⟩

theorem Tame.run (h : Tame limits m) (fuel : Nat) : Tame limits (run fuel m).2 :=
  run_invariant h.prepare (fun _ h => h.step) (fun _ _ _ h => ⟨h.limits_eq, h.store⟩) fuel

/-- After any number of steps all variables hold well-formed matrices, and so does every
expression that is evaluated then, wherever it stands; a constant or a matrix that is
loaded then has no more elements than there may be. -/
theorem run_wellFormed (source : String) (params : List String) (limits : Limits)
    (world : World) (fuel : Nat) :
    let now := (run fuel (Machine.new source params limits world)).2
    let env : Expression.Env := ⟨now.store, now.limits.maxElements⟩
    (∀ name value, now.store.get? name = some value → value.WellFormed) ∧
    (∀ reader value reader', Expression.evaluate env reader = .ok value reader' →
      value.WellFormed) ∧
    (∀ builtin total reader value reader', builtin = .identity ∨ builtin = .zeros →
      Expression.call env total builtin reader = .ok value reader' →
        value.WellFormed ∧ value.rows * value.cols ≤ limits.maxElements) ∧
    (∀ reader after, Statement.load { now with reader := reader } = .ok () after →
      ∃ name value, after.store = now.store.insert name value ∧ value.WellFormed ∧
        value.rows * value.cols ≤ limits.maxElements) := by
  intro now env
  have hnew : Tame limits (Machine.new source params limits world) :=
    ⟨rfl, Store.wellFormed_empty⟩
  have hnow : Tame limits now := hnew.run fuel
  refine ⟨hnow.store, fun reader value reader' => ?_, ?_, fun reader after hload => ?_⟩
  · exact @Expression.givesMatrix_evaluate env hnow.store reader value reader'
  · intro builtin total reader value reader' hbuiltin hcall
    have hvalue := Expression.returns_call_constant hbuiltin _ _ _ hcall
    exact hnow.limits_eq ▸ hvalue
  · obtain ⟨name, value, hstore, hvalue, hsize⟩ := Statement.load_eq_ok hload
    exact ⟨name, value, hstore, hvalue, hnow.limits_eq ▸ hsize⟩

theorem run_wellFormed_product :
    let now := (run 8 (Machine.new "A = matzero(2, 3)\nB = A * \x60A\n" [] {} {})).2
    ∃ value, now.store.get? ⟨1⟩ = some value ∧ value.shape = ⟨2, 2⟩ ∧ value.WellFormed := by
  intro now
  have hshape : (now.store.get? ⟨1⟩).map DenseMatrix.shape = some ⟨2, 2⟩ := by decide +kernel
  obtain ⟨value, hvalue, hshape⟩ := Option.map_eq_some_iff.mp hshape
  have hall := run_wellFormed "A = matzero(2, 3)\nB = A * \x60A\n" [] {} {} 8
  exact ⟨value, hvalue, hshape, hall.1 _ value hvalue⟩

end Machine

end MatrixScript
