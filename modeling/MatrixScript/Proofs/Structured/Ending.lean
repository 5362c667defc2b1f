import MatrixScript.Proofs.Run.Quiet
import MatrixScript.Proofs.Structured.Program
import MatrixScript.Proofs.Structured.Statement

/-!
# Where statements end

A command takes as many operands as it has and stops there, without a look at what
comes after the last one.  So on a line that has no more tokens than that, the end of
the line is next when the command is done.  An assignment makes sure of it.
-/

namespace MatrixScript

open Machine

/-- The end of the statement is next. -/
def Lexer.AtEnd (lexer : Lexer) : Prop :=
  ∃ token, lexer.next.outcome = .ok token ∧ token.endsStatement = true

theorem Lexer.atEnd_of_peek {lexer : Lexer} {token : Token}
    (h : lexer.peek.outcome = .ok token) (hends : token.endsStatement = true) :
    lexer.peek.lexer.AtEnd :=
  ⟨token, (next_peek h).2.1, hends⟩

/-! ## Programs that leave the lexer alone -/

/-- The lexer is the same. -/
def Machine.Rests (m m' : Machine) : Prop := m'.reader.lexer = m.reader.lexer

instance : Std.Refl Rests := ⟨fun _ => rfl⟩

instance : IsTrans Machine Rests := ⟨fun _ _ _ h h' => h'.trans h⟩

section Rests

variable {α : Type}

theorem Rests.lexer_eq {x : ExecM α} {m m' : Machine} {a : α} (hx : Evolves Rests x)
    (h : x m = .ok a m') : m'.reader.lexer = m.reader.lexer := by
  have hrests := hx m
  rw [h] at hrests
  exact hrests

theorem rests_ofExcept (result : Except Error α) : Evolves Rests (ExecM.ofExcept result) := by
  cases result with
  | ok value => exact evolves_pure value
  | error e => exact evolves_throw e

theorem rests_ofMatrix (result : Except (MatrixError Float) α) :
    Evolves Rests (ExecM.read (ReadM.ofMatrix result)) := by
  cases result with
  | ok value => exact fun _ => rfl
  | error e => exact fun _ => rfl

theorem rests_bound (name : VariableName) : Evolves Rests (ExecM.bound name) :=
  evolves_get.bind fun _ => rests_ofExcept _

theorem rests_note (level : Level) (text : String) :
    Evolves Rests (ExecM.read (Reader.note level text)) :=
  fun _ => rfl

theorem rests_assign (name : VariableName) (value : DenseMatrix Float) :
    Evolves Rests (ExecM.assign name value) :=
  fun _ => rfl

theorem rests_say (text : String) : Evolves Rests (ExecM.say text) := by
  intro m
  rw [ExecM.say_apply]
  split <;> rfl

theorem rests_emit (path text : String) : Evolves Rests (ExecM.emit path text) := by
  unfold ExecM.emit
  split
  · exact rests_say text
  · refine evolves_get.bind fun m => ?_
    split
    · exact evolves_throw _
    · exact fun _ => rfl

theorem rests_loadMatrix (path : String) (rows cols : Nat) :
    Evolves Rests (Statement.loadMatrix path rows cols) := by
  refine evolves_get.bind fun m => ?_
  obtain ⟨result, world⟩ := m.world.load path rows cols
  cases result with
  | error e => exact fun _ => rfl
  | ok value => exact fun _ => rfl

theorem rests_forM_note (items : List α) (level : α → Level) (text : α → String) :
    Evolves Rests (items.forM fun a => ExecM.read (Reader.note (level a) (text a))) := by
  induction items with
  | nil => exact evolves_pure _
  | cons first rest ih => exact (rests_note _ _).bind fun _ => ih

theorem rests_diagonalize (m : DenseMatrix Float) :
    Evolves Rests (Statement.diagonalize m) := by
  refine evolves_get.bind fun machine => (rests_forM_note _ _ _).bind fun _ => ?_
  split
  · exact evolves_throw _
  · exact evolves_pure _

theorem rests_pointLabels (table : DenseMatrix Float) (paths : Option (String × String)) :
    Evolves Rests (Statement.pointLabels table paths) := by
  cases paths with
  | none => exact evolves_pure _
  | some paths =>
      exact evolves_get.bind fun m => (rests_ofExcept _).bind fun columns =>
        (rests_ofExcept _).bind fun rows => evolves_pure _

end Rests

/-! ## Programs that come to the end of the statement -/

section Finishing

variable {α β : Type} {count : Nat}

/-- If no more than `count` tokens are left of the statement, the program comes to its
end. -/
def Finishes (count : Nat) (x : ExecM α) : Prop :=
  ∀ m a m' operands last, operands.length ≤ count → last.endsStatement = true →
    m.reader.lexer.Upcoming (operands ++ [last]) → x m = .ok a m' → m'.reader.lexer.AtEnd

/-- However much is left of the statement, the program comes to its end. -/
def Stops (x : ExecM α) : Prop :=
  ∀ m a m', x m = .ok a m' → m'.reader.lexer.AtEnd

/-- The program takes one token, which does not end the statement. -/
def TakesOperand (x : ReadM α) : Prop :=
  ∀ r a r', x r = .ok a r' → ∃ token, r.lexer.next.outcome = .ok token ∧
    r'.lexer = r.lexer.next.lexer ∧ token.endsStatement = false

theorem Stops.finishes {x : ExecM α} (h : Stops x) : Finishes count x :=
  fun m a m' _ _ _ _ _ hx => h m a m' hx

theorem Finishes.mono {count' : Nat} {x : ExecM α} (h : Finishes count x)
    (hle : count' ≤ count) : Finishes count' x :=
  fun m a m' operands last hlength => h m a m' operands last (hlength.trans hle)

theorem stops_refuse (cause : ParseError) :
    Stops (ExecM.read (Reader.refuse cause : ReadM α)) :=
  fun _ _ _ h => nomatch h

theorem Stops.of_bind {x : ExecM α} {f : α → ExecM β} (hf : ∀ a, Stops (f a)) :
    Stops (x >>= f) := by
  intro m b m' h
  obtain ⟨a, m₁, _, hrest⟩ := bind_eq_ok.mp h
  exact hf a m₁ b m' hrest

theorem Stops.bind_rests {x : ExecM α} {f : α → ExecM β} (hx : Stops x)
    (hf : ∀ a, Evolves Rests (f a)) : Stops (x >>= f) := by
  intro m b m' h
  obtain ⟨a, m₁, hfirst, hrest⟩ := bind_eq_ok.mp h
  rw [Rests.lexer_eq (hf a) hrest]
  exact hx m a m₁ hfirst

theorem finishes_of_rests {x : ExecM α} (hx : Evolves Rests x) : Finishes 0 x := by
  intro m a m' operands last hlength hlast hup h
  obtain rfl := List.eq_nil_of_length_eq_zero (Nat.le_zero.mp hlength)
  rw [Rests.lexer_eq hx h]
  exact ⟨last, hup.1, hlast⟩

theorem Finishes.bind_rests {x : ExecM α} {f : α → ExecM β} (hx : Finishes count x)
    (hf : ∀ a, Evolves Rests (f a)) : Finishes count (x >>= f) := by
  intro m b m' operands last hlength hlast hup h
  obtain ⟨a, m₁, hfirst, hrest⟩ := bind_eq_ok.mp h
  rw [Rests.lexer_eq (hf a) hrest]
  exact hx m a m₁ operands last hlength hlast hup hfirst

/-- An operand is the first of the tokens that are left. -/
theorem TakesOperand.upcoming {x : ReadM α} {r r' : Reader} {a : α} {operands : List Token}
    {last : Token} (hx : TakesOperand x) (h : x r = .ok a r') (hlast : last.endsStatement = true)
    (hup : r.lexer.Upcoming (operands ++ [last])) :
    ∃ others, others.length + 1 = operands.length ∧ r'.lexer.Upcoming (others ++ [last]) := by
  obtain ⟨token, hnext, hlexer, hgo⟩ := hx r a r' h
  cases operands with
  | nil =>
      have hends := hup.1
      rw [hnext] at hends
      cases hends
      rw [hgo] at hlast
      cases hlast
  | cons first others =>
      rw [hlexer]
      exact ⟨others, rfl, hup.2⟩

theorem Finishes.of_operand {x : ReadM α} {f : α → ExecM β} (hx : TakesOperand x)
    (hf : ∀ a, Finishes count (f a)) : Finishes (count + 1) (ExecM.read x >>= f) := by
  intro m b m' operands last hlength hlast hup h
  obtain ⟨a, m₁, hfirst, hrest⟩ := bind_eq_ok.mp h
  obtain ⟨r, hread, rfl⟩ := ExecM.read_eq_ok.mp hfirst
  obtain ⟨others, hothers, hup'⟩ := hx.upcoming hread hlast hup
  exact hf a _ b m' others last (by omega) hlast hup' hrest

end Finishing

/-! ## Statements -/

namespace Statement

open Lexer

theorem takesOperand_variable (command : Command) : TakesOperand (variableOperand command) := by
  intro r a r' h
  obtain ⟨token, hnext, hlexer, hgo, _⟩ := taken_of_variableOperand h
  exact ⟨token, hnext, hlexer, hgo⟩

theorem takesOperand_file (command : Command) : TakesOperand (fileOperand command) :=
  fun _ _ _ h => taken_of_fileOperand h

theorem takesOperand_dimension (command : Command) :
    TakesOperand (dimensionOperand command) :=
  fun _ _ _ h => taken_of_dimensionOperand h

/-- There are two files of labels, or the statement ends before them. -/
theorem finishes_labelFiles : Finishes 2 (ExecM.read labelFiles) := by
  intro m paths m' operands last hlength hlast hup h
  obtain ⟨r, hread, rfl⟩ := ExecM.read_eq_ok.mp h
  obtain ⟨columns, r₁, hcolumns, hrows⟩ := bind_eq_ok.mp hread
  obtain ⟨token, r₂, hpeek, hfile⟩ := bind_eq_ok.mp hcolumns
  obtain ⟨hlook, hlexer⟩ := Reader.reads_of_peek hpeek
  cases hends : token.endsStatement with
  | true =>
      rw [hends] at hfile
      cases hfile
      cases hrows
      change r.lexer.AtEnd
      rw [hlexer]
      exact atEnd_of_peek hlook hends
  | false =>
      rw [hends, if_neg Bool.false_ne_true, map_eq_bind] at hfile
      have hup₂ : r₂.lexer.Upcoming (operands ++ [last]) := by
        rw [hlexer]
        exact (upcoming_peek hlook).mpr hup
      obtain ⟨path, r₃, hpath, hcolumns⟩ := bind_eq_ok.mp hfile
      cases hcolumns
      obtain ⟨path', r₄, hpath', hrows⟩ := bind_eq_ok.mp hrows
      cases hrows
      obtain ⟨others, hothers, hup₃⟩ := (takesOperand_file _).upcoming hpath hlast hup₂
      obtain ⟨none, hnone, hup₄⟩ := (takesOperand_file _).upcoming hpath' hlast hup₃
      obtain rfl := List.eq_nil_of_length_eq_zero (show none.length = 0 by omega)
      exact ⟨last, hup₄.1, hlast⟩

theorem stops_expectEnd : Stops (ExecM.read Reader.expectEnd) := by
  intro m a m' h
  obtain ⟨r, hread, rfl⟩ := ExecM.read_eq_ok.mp h
  obtain ⟨token, r₁, hpeek, hrest⟩ := bind_eq_ok.mp hread
  obtain ⟨hlook, hlexer⟩ := Reader.reads_of_peek hpeek
  cases hends : token.endsStatement with
  | false => rw [hends] at hrest; cases hrest
  | true =>
      rw [hends] at hrest
      cases hrest
      change r.lexer.AtEnd
      rw [hlexer]
      exact atEnd_of_peek hlook hends

theorem stops_assignment (name : String) : Stops (assignment name) :=
  .of_bind fun _ => .of_bind fun _ => .of_bind fun _ => .of_bind fun _ =>
    stops_expectEnd.bind_rests fun _ => rests_assign _ _

theorem finishes_load : Finishes 4 load :=
  .of_operand (takesOperand_file _) fun path => .of_operand (takesOperand_variable _) fun _ =>
  .of_operand (takesOperand_dimension _) fun rows =>
  .of_operand (takesOperand_dimension _) fun cols => finishes_of_rests <|
    evolves_get.bind fun _ => (rests_ofExcept _).bind fun _ =>
      (rests_loadMatrix path rows cols).bind fun _ => rests_assign _ _

theorem finishes_save : Finishes 2 save :=
  .of_operand (takesOperand_variable _) fun _ => .of_operand (takesOperand_file _) fun _ =>
    finishes_of_rests <| (rests_bound _).bind fun _ => rests_emit _ _

theorem finishes_print : Finishes 1 print :=
  .of_operand (takesOperand_variable _) fun _ =>
    finishes_of_rests <| (rests_bound _).bind fun _ => rests_emit _ _

theorem finishes_tridiag : Finishes 3 tridiag :=
  .of_operand (takesOperand_variable _) fun _ => .of_operand (takesOperand_file _) fun _ =>
  .of_operand (takesOperand_file _) fun _ => finishes_of_rests <|
    (rests_bound _).bind fun _ => (rests_diagonalize _).bind fun _ =>
    (rests_note _ _).bind fun _ => (rests_emit _ _).bind fun _ => rests_emit _ _

theorem finishes_compocor : Finishes 8 compocor :=
  .of_operand (takesOperand_variable _) fun _ => .of_operand (takesOperand_variable _) fun _ =>
  .of_operand (takesOperand_variable _) fun _ => .of_operand (takesOperand_file _) fun _ =>
  .of_operand (takesOperand_file _) fun _ => .of_operand (takesOperand_file _) fun _ =>
  finishes_labelFiles.bind_rests fun _ =>
    (rests_bound _).bind fun _ => (rests_bound _).bind fun _ => (rests_ofMatrix _).bind fun _ =>
    (rests_bound _).bind fun _ => (rests_ofMatrix _).bind fun _ =>
    (rests_pointLabels _ _).bind fun _ =>
    (rests_emit _ _).bind fun _ => (rests_note _ _).bind fun _ =>
    (rests_emit _ _).bind fun _ => (rests_note _ _).bind fun _ =>
    (rests_emit _ _).bind fun _ => (rests_note _ _).bind fun _ => rests_emit _ _

theorem finishes_supplementary (command : Command) (kind : PointKind) :
    Finishes 4 (supplementary command kind) :=
  .of_operand (takesOperand_variable _) fun _ => .of_operand (takesOperand_variable _) fun _ =>
  .of_operand (takesOperand_variable _) fun _ => .of_operand (takesOperand_file _) fun _ =>
  finishes_of_rests <|
    (rests_bound _).bind fun _ => (rests_bound _).bind fun _ => (rests_bound _).bind fun _ =>
    (rests_ofMatrix _).bind fun _ => (rests_note _ _).bind fun _ => rests_emit _ _

theorem finishes_action {first : Token} {operands : List Token}
    (h : isStatement (first :: operands) = true) :
    Finishes operands.length (action first.kind first.lexeme) := by
  have hfirst := (Bool.and_eq_true_iff.mp h).2
  cases hkind : first.kind with
  | word => exact (stops_assignment _).finishes
  | command command =>
      rw [hkind] at hfirst
      -- The number of operands is at most the number that the command takes.
      cases command with
      | load => exact finishes_load.mono (of_decide_eq_true hfirst)
      | save => exact finishes_save.mono (of_decide_eq_true hfirst)
      | print => exact finishes_print.mono (of_decide_eq_true hfirst)
      | tridiag => exact finishes_tridiag.mono (of_decide_eq_true hfirst)
      | compocor => exact finishes_compocor.mono (of_decide_eq_true hfirst)
      | composupp => exact (finishes_supplementary _ _).mono (of_decide_eq_true hfirst)
      | compocsupp => exact (finishes_supplementary _ _).mono (of_decide_eq_true hfirst)
      | goto | rem | quit | ifBlock | endIf | whileBlock | endWhile => cases hfirst
  | delimiter _ | number | function _ | string | quote | label =>
      exact (stops_refuse _).finishes

end Statement

end MatrixScript
