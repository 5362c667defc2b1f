import MatrixScript.Proofs.Monad.Outcome

/-!
# Two runs side by side

`Coupled` relates two programs that run on two states: from related states they both
succeed with the same value, in related states again, or they both fail with the same
error.  The relation carries a measure that never grows.
-/

namespace MatrixScript

variable {ε σ τ α β : Type}

/-- Both outcomes are values that fit together, or both are the same error. -/
inductive Alike (F : σ → τ → Prop) (Q : α → β → σ → τ → Prop) :
    EStateM.Result ε σ α → EStateM.Result ε τ β → Prop where
  | ok {a : α} {b : β} {s : σ} {t : τ} (h : Q a b s t) : Alike F Q (.ok a s) (.ok b t)
  | error {e : ε} {s : σ} {t : τ} (h : F s t) : Alike F Q (.error e s) (.error e t)

section Alike

variable {F : σ → τ → Prop} {Q : α → β → σ → τ → Prop}

theorem Alike.imp {Q' : α → β → σ → τ → Prop} {x : EStateM.Result ε σ α}
    {y : EStateM.Result ε τ β} (h : Alike F Q x y)
    (hQ : ∀ a b s t, Q a b s t → Q' a b s t) : Alike F Q' x y := by
  cases h with
  | ok hok => exact .ok (hQ _ _ _ _ hok)
  | error herror => exact .error herror

theorem Alike.and_right {P : β → τ → Prop} {x : EStateM.Result ε σ α}
    {y : EStateM.Result ε τ β} (h : Alike F Q x y) (hy : ∀ b t, y = .ok b t → P b t) :
    Alike F (fun a b s t => Q a b s t ∧ P b t) x y := by
  cases h with
  | ok hok => exact .ok ⟨hok, hy _ _ rfl⟩
  | error herror => exact .error herror

end Alike

/-- The two programs do the same from all related states up to a measure. -/
def Coupled (R : Nat → σ → τ → Prop) (F : σ → τ → Prop) (bound : Nat)
    (x : EStateM ε σ α) (y : EStateM ε τ α) : Prop :=
  ∀ n s t, n ≤ bound → R n s t →
    Alike F (fun a b s' t' => a = b ∧ ∃ k, k ≤ n ∧ R k s' t') (x s) (y t)

theorem coupled_pure {R : Nat → σ → τ → Prop} {F : σ → τ → Prop} {bound : Nat} (a : α) :
    Coupled R F bound (pure a : EStateM ε σ α) (pure a : EStateM ε τ α) :=
  fun n _ _ _ h => .ok ⟨rfl, n, Nat.le_refl n, h⟩

end MatrixScript
