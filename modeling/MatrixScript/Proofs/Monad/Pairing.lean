import MatrixScript.Proofs.Monad.Outcome

/-!
# Two programs in step

`Paired` relates two programs by what holds of their states before and after: from
states that are related they both succeed, with values and states that are related
again, or they both fail, with related errors.  Errors and the states at the point of
failure have relations of their own, `E` and `F`, which are the same for all parts of a
program.
-/

namespace MatrixScript

variable {ε σ τ α β γ δ : Type}

/-- Both outcomes are values that fit together, or both are errors that do. -/
inductive Fits (E : ε → ε → Prop) (F : σ → τ → Prop) (Q : α → β → σ → τ → Prop) :
    EStateM.Result ε σ α → EStateM.Result ε τ β → Prop where
  | ok {a : α} {b : β} {s : σ} {t : τ} (h : Q a b s t) : Fits E F Q (.ok a s) (.ok b t)
  | error {e e' : ε} {s : σ} {t : τ} (he : E e e') (h : F s t) :
      Fits E F Q (.error e s) (.error e' t)

/-- From states related by `P` the programs come to values related by `V`, in states
related by `Q`, unless both fail. -/
def Paired (E : ε → ε → Prop) (F P : σ → τ → Prop) (V : α → β → Prop) (Q : σ → τ → Prop)
    (x : EStateM ε σ α) (y : EStateM ε τ β) : Prop :=
  ∀ s t, P s t → Fits E F (fun a b s' t' => V a b ∧ Q s' t') (x s) (y t)

section Rules

variable {E : ε → ε → Prop} {F P Q : σ → τ → Prop} {V : α → β → Prop}
  {x : EStateM ε σ α} {y : EStateM ε τ β} {s : σ} {t : τ}

theorem Fits.imp {G G' : α → β → σ → τ → Prop} {r : EStateM.Result ε σ α}
    {r' : EStateM.Result ε τ β} (h : Fits E F G r r')
    (hG : ∀ a b s t, G a b s t → G' a b s t) : Fits E F G' r r' := by
  cases h with
  | ok hok => exact .ok (hG _ _ _ _ hok)
  | error he hstate => exact .error he hstate

theorem Fits.bind {G : α → β → σ → τ → Prop} {G' : γ → δ → σ → τ → Prop}
    {f : α → EStateM ε σ γ} {g : β → EStateM ε τ δ} (hxy : Fits E F G (x s) (y t))
    (hfg : ∀ a b s' t', G a b s' t' → Fits E F G' (f a s') (g b t')) :
    Fits E F G' ((x >>= f) s) ((y >>= g) t) := by
  generalize hx : x s = found, hy : y t = found' at hxy
  cases hxy with
  | ok hok =>
      rw [bind_of_eq_ok hx, bind_of_eq_ok hy]
      exact hfg _ _ _ _ hok
  | error he hstate =>
      rw [bind_of_eq_error hx, bind_of_eq_error hy]
      exact .error he hstate

theorem paired_pure {a : α} {b : β} (h : V a b) :
    Paired E F P V P (pure a : EStateM ε σ α) (pure b : EStateM ε τ β) :=
  fun _ _ hP => .ok ⟨h, hP⟩

theorem paired_throw {e e' : ε} (he : E e e') (hF : ∀ s t, P s t → F s t) :
    Paired E F P V Q (throw e : EStateM ε σ α) (throw e' : EStateM ε τ β) :=
  fun s t hP => .error he (hF s t hP)

/-- Programs in step stay so if they may start from less and come to more. -/
theorem Paired.imp {P' Q' : σ → τ → Prop} {V' : α → β → Prop} (h : Paired E F P V Q x y)
    (hP : ∀ s t, P' s t → P s t) (hV : ∀ a b, V a b → V' a b) (hQ : ∀ s t, Q s t → Q' s t) :
    Paired E F P' V' Q' x y :=
  fun s t hs => (h s t (hP s t hs)).imp fun a b _ _ hok => ⟨hV a b hok.1, hQ _ _ hok.2⟩

theorem Paired.bind {R : σ → τ → Prop} {W : γ → δ → Prop} {f : α → EStateM ε σ γ}
    {g : β → EStateM ε τ δ} (hxy : Paired E F P V Q x y)
    (hfg : ∀ a b, V a b → Paired E F Q W R (f a) (g b)) :
    Paired E F P W R (x >>= f) (y >>= g) :=
  fun s t hP => (hxy s t hP).bind fun a b s' t' hok => hfg a b hok.1 s' t' hok.2

theorem Paired.map {W : γ → δ → Prop} {f : α → γ} {g : β → δ} (hxy : Paired E F P V Q x y)
    (hfg : ∀ a b, V a b → W (f a) (g b)) : Paired E F P W Q (f <$> x) (g <$> y) := by
  rw [map_eq_bind, map_eq_bind]
  exact hxy.bind fun a b h => paired_pure (hfg a b h)

/-- The two states may be read, and the programs go on with what they find. -/
theorem paired_get_bind {f : σ → EStateM ε σ α} {g : τ → EStateM ε τ β}
    (hfg : ∀ s t, P s t → Paired E F P V Q (f s) (g t)) :
    Paired E F P V Q (get >>= f) (get >>= g) :=
  fun s t hP => hfg s t hP s t hP

end Rules

end MatrixScript
