import MatrixScript.Proofs.Lockstep.Statement
import MatrixScript.Proofs.Structured.Reading
import MatrixScript.Script.Run

/-!
# Statements in their place and on their own

A statement does the same on a line within a script and on a script of only that
line: it reads the same operands, computes the same values, writes the same texts and
fails with the same error.
-/

namespace MatrixScript

open Machine

/-- Two machines side by side on a line, with equal variables, limits and worlds. -/
structure Twins (pre line post : List Char) (count : Nat) (here alone : Machine) : Prop where
  onLine : OnLine pre line post count here.reader alone.reader
  store_eq : here.store = alone.store
  limits_eq : here.limits = alone.limits
  world_eq : here.world = alone.world

/-- The variables and the worlds of two machines are the same. -/
def SameEffects (here alone : Machine) : Prop :=
  here.store = alone.store ∧ here.world = alone.world

/-- Two programs do the same on a line. -/
abbrev LocalExec {α : Type} (pre line post : List Char) (limit : Nat) (x y : ExecM α) : Prop :=
  Coupled (Twins pre line post) SameEffects limit x y

/-- Statements of single lines are compared whatever the labels and loops are. -/
def Control.any : Control := fun _ _ _ _ => True

section LocalExec

variable {α : Type} {pre line post : List Char} {limit count : Nat} {here alone : Machine}

theorem Twins.joined (h : Twins pre line post count here alone) :
    Joined .any (NearOnLine pre line post count) here alone where
  lexer := h.onLine.near
  store_eq := h.store_eq.symm
  limits_eq := h.limits_eq.symm
  world_eq := h.world_eq.symm
  control := trivial

theorem Machine.Joined.twins (h : Joined .any (NearOnLine pre line post count) here alone) :
    ∃ k, k ≤ count ∧ Twins pre line post k here alone := by
  obtain ⟨k, hk, hline⟩ := h.lexer.onLine
  exact ⟨k, hk, hline, h.store_eq.symm, h.limits_eq.symm, h.world_eq.symm⟩

/-- Programs that run in step on every line do the same there. -/
theorem localExec_of_execPaired {x y : ExecM α}
    (h : ∀ n, ExecPaired .exact (fun _ _ => True) .any (NearOnLine pre line post n) Eq
      (NearOnLine pre line post n) x y) : LocalExec pre line post limit x y := by
  intro n here alone _ htwins
  refine (h n here alone htwins.joined).alike (fun _ _ h => ⟨h.store_eq.symm, h.world_eq.symm⟩) ?_
  rintro a _ s t ⟨rfl, hjoined⟩
  exact ⟨rfl, hjoined.twins⟩

theorem exec_emit (path text : String) :
    LocalExec pre line post limit (ExecM.emit path text) (ExecM.emit path text) :=
  localExec_of_execPaired fun _ => execPaired_emit (.refl path) text fun _ _ _ => trivial

end LocalExec

namespace Statement

variable {pre line post : List Char} {limit : Nat}

/-- What a statement does that is no part of a block, after its first token. -/
def action : TokenKind → (lexeme : String) → ExecM Unit
  | .word, lexeme => assignment lexeme
  | .command .load, _ => load
  | .command .save, _ => save
  | .command .print, _ => print
  | .command .tridiag, _ => tridiag
  | .command .compocor, _ => compocor
  | .command .composupp, _ => supplementary .composupp .rows
  | .command .compocsupp, _ => supplementary .compocsupp .columns
  | _, lexeme => (Reader.refuse (.unexpectedToken lexeme) : ReadM Unit)

/-- To the letter, operands do in any role. -/
theorem localExec_of_runs {roles : List OperandRole} {x y : ExecM Unit}
    (h : ∀ n, (pacing_onLine pre line post).Runs .any
      ((pacing_onLine pre line post).Before roles n) n x y) : LocalExec pre line post limit x y :=
  localExec_of_execPaired fun n =>
    (h n).imp (fun _ _ hjoined => hjoined.imp fun _ _ hnear => ⟨hnear, nofun⟩)
      (fun _ _ h => h) fun _ _ h => h

theorem exec_action (kind : TokenKind) (lexeme : String) :
    LocalExec pre line post limit (action kind lexeme) (action kind lexeme) := by
  have pace := pacing_onLine pre line post
  have hrefuse : LocalExec pre line post limit
      (ExecM.read (Reader.refuse (.unexpectedToken lexeme) : ReadM Unit))
      (ExecM.read (Reader.refuse (.unexpectedToken lexeme) : ReadM Unit)) :=
    localExec_of_execPaired fun _ => execPaired_read (readPaired_refuse rfl pace.stop_of_near)
  cases kind with
  | word => exact localExec_of_execPaired fun _ => pace.exec_assignment rfl
  | command command =>
      cases command with
      | load => exact localExec_of_runs fun _ => pace.exec_load
      | save => exact localExec_of_runs fun _ => pace.exec_save
      | print => exact localExec_of_runs fun _ => pace.exec_print
      | tridiag => exact localExec_of_runs fun _ => pace.exec_tridiag
      | compocor => exact localExec_of_runs fun _ => pace.exec_compocor
      | composupp => exact localExec_of_runs fun _ => pace.exec_supplementary _ _
      | compocsupp => exact localExec_of_runs fun _ => pace.exec_supplementary _ _
      | goto | rem | quit | ifBlock | endIf | whileBlock | endWhile => exact hrefuse
  | delimiter _ | number | function _ | string | quote | label => exact hrefuse

end Statement

end MatrixScript
