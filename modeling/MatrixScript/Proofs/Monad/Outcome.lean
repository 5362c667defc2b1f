import Mathlib.Order.Defs.Unbundled
import MatrixScript.Script.Machine

/-!
# Outcomes of programs

Reading and running are programs that keep their state at the point of failure.
This module takes such programs apart at their binds, once for all later proofs:
`bind_eq_ok` inverts a sequence, `Evolves` says that a program changes its state by a
given preorder, whatever its outcome, and `Returns` and `Throws` say what is true of
its values and of its errors.
-/

namespace MatrixScript

variable {ε σ α β : Type}

/-- The state in which a program stops, be it with a value or with an error. -/
def finalState : EStateM.Result ε σ α → σ
  | .ok _ s => s
  | .error _ s => s

@[simp] theorem finalState_ok (a : α) (s : σ) :
    finalState (.ok a s : EStateM.Result ε σ α) = s := rfl

/-! ## Sequences -/

theorem bind_eq_ok {x : EStateM ε σ α} {f : α → EStateM ε σ β} {s s' : σ} {b : β} :
    (x >>= f) s = .ok b s' ↔ ∃ a t, x s = .ok a t ∧ f a t = .ok b s' := by
  change EStateM.bind x f s = .ok b s' ↔ _
  unfold EStateM.bind
  cases x s with
  | ok a t => exact ⟨fun h => ⟨a, t, rfl, h⟩, by rintro ⟨_, _, ⟨⟩, h⟩; exact h⟩
  | error e t => simp

theorem bind_of_eq_ok {x : EStateM ε σ α} {f : α → EStateM ε σ β} {s t : σ} {a : α}
    (hx : x s = .ok a t) : (x >>= f) s = f a t := by
  change EStateM.bind x f s = _
  simp only [EStateM.bind, hx]

theorem bind_of_eq_error {x : EStateM ε σ α} {f : α → EStateM ε σ β} {s t : σ} {e : ε}
    (hx : x s = .error e t) : (x >>= f) s = .error e t := by
  change EStateM.bind x f s = _
  simp only [EStateM.bind, hx]

/-- A sequence goes on from what its first part comes to. -/
theorem bind_apply_congr {x y : EStateM ε σ α} {f : α → EStateM ε σ β} {s t : σ}
    (h : x s = y t) : (x >>= f) s = (y >>= f) t := by
  change EStateM.bind x f s = EStateM.bind y f t
  simp only [EStateM.bind, h]

theorem map_eq_bind (f : α → β) (x : EStateM ε σ α) :
    f <$> x = x >>= fun a => pure (f a) := by
  funext s
  change EStateM.map f x s = EStateM.bind x _ s
  unfold EStateM.map EStateM.bind
  cases x s <;> rfl

theorem get_bind_apply (f : σ → EStateM ε σ β) (s : σ) :
    ((get : EStateM ε σ σ) >>= f) s = f s s := rfl

/-! ## Changes of the state -/

/-- Whatever its outcome, the program changes its state by `R`. -/
def Evolves (R : σ → σ → Prop) (x : EStateM ε σ α) : Prop :=
  ∀ s, R s (finalState (x s))

section Evolves

variable {R : σ → σ → Prop}

theorem evolves_pure [Std.Refl R] (a : α) : Evolves R (pure a : EStateM ε σ α) :=
  fun s => Std.Refl.refl s

theorem evolves_throw [Std.Refl R] (e : ε) : Evolves R (throw e : EStateM ε σ α) :=
  fun s => Std.Refl.refl s

theorem evolves_get [Std.Refl R] : Evolves R (get : EStateM ε σ σ) :=
  fun s => Std.Refl.refl s

theorem Evolves.bind [IsTrans σ R] {x : EStateM ε σ α} {f : α → EStateM ε σ β}
    (hx : Evolves R x) (hf : ∀ a, Evolves R (f a)) : Evolves R (x >>= f) := by
  intro s
  have hfirst := hx s
  cases hxs : x s with
  | ok a t =>
      rw [bind_of_eq_ok hxs]
      rw [hxs] at hfirst
      exact IsTrans.trans _ _ _ hfirst (hf a t)
  | error e t =>
      rw [bind_of_eq_error hxs]
      rwa [hxs] at hfirst

theorem Evolves.map [Std.Refl R] [IsTrans σ R] {x : EStateM ε σ α} (f : α → β)
    (hx : Evolves R x) : Evolves R (f <$> x) := by
  rw [map_eq_bind]
  exact hx.bind fun a => evolves_pure (f a)

end Evolves

/-! ## Values -/

/-- Whenever the program succeeds, its value is as `P` says. -/
def Returns (P : α → Prop) (x : EStateM ε σ α) : Prop :=
  ∀ s a s', x s = .ok a s' → P a

section Returns

variable {P : α → Prop} {Q : β → Prop}

theorem returns_pure {a : α} (h : P a) : Returns P (pure a : EStateM ε σ α) := by
  rintro s _ _ ⟨⟩
  exact h

theorem returns_throw (e : ε) : Returns P (throw e : EStateM ε σ α) := by
  rintro s _ _ ⟨⟩

theorem Returns.bind {x : EStateM ε σ α} {f : α → EStateM ε σ β} (hx : Returns P x)
    (hf : ∀ a, P a → Returns Q (f a)) : Returns Q (x >>= f) := by
  intro s b s' h
  obtain ⟨a, t, hfirst, hrest⟩ := bind_eq_ok.mp h
  exact hf a (hx s a t hfirst) t b s' hrest

/-- The value is that of the last part, whatever the parts before it give. -/
theorem Returns.of_bind {x : EStateM ε σ α} {f : α → EStateM ε σ β}
    (hf : ∀ a, Returns Q (f a)) : Returns Q (x >>= f) := by
  intro s b s' h
  obtain ⟨a, t, _, hrest⟩ := bind_eq_ok.mp h
  exact hf a t b s' hrest

theorem Returns.map {x : EStateM ε σ α} {f : α → β} (hx : Returns P x)
    (hf : ∀ a, P a → Q (f a)) : Returns Q (f <$> x) := by
  rw [map_eq_bind]
  exact hx.bind fun a ha => returns_pure (hf a ha)

end Returns

/-! ## Errors -/

/-- Whenever the program fails, its error is as `P` says. -/
def Throws (P : ε → Prop) (x : EStateM ε σ α) : Prop :=
  ∀ s e s', x s = .error e s' → P e

section Throws

variable {P : ε → Prop}

theorem throws_pure (a : α) : Throws P (pure a : EStateM ε σ α) := by
  rintro s _ _ ⟨⟩

theorem throws_throw {e : ε} (h : P e) : Throws P (throw e : EStateM ε σ α) := by
  rintro s _ _ ⟨⟩
  exact h

theorem Throws.bind {x : EStateM ε σ α} {f : α → EStateM ε σ β} (hx : Throws P x)
    (hf : ∀ a, Throws P (f a)) : Throws P (x >>= f) := by
  intro s e s' h
  cases hxs : x s with
  | ok a t =>
      rw [bind_of_eq_ok hxs] at h
      exact hf a t e s' h
  | error e' t =>
      rw [bind_of_eq_error hxs] at h
      cases h
      exact hx s _ _ hxs

end Throws

/-! ## Reading and writing as parts of running -/

namespace ExecM

theorem read_eq_ok {x : ReadM α} {m m' : Machine} {a : α} :
    read x m = .ok a m' ↔
      ∃ r, x m.reader = .ok a r ∧ m' = { m with reader := r } := by
  unfold read
  cases x m.reader with
  | ok b r =>
      constructor
      · rintro ⟨⟩; exact ⟨r, rfl, rfl⟩
      · rintro ⟨_, ⟨⟩, rfl⟩; rfl
  | error e r => simp

theorem read_eq_error {x : ReadM α} {m m' : Machine} {e : Error} :
    read x m = .error e m' ↔
      ∃ r, x m.reader = .error e r ∧ m' = { m with reader := r } := by
  unfold read
  cases x m.reader with
  | ok b r => simp
  | error e r =>
      constructor
      · rintro ⟨⟩; exact ⟨r, rfl, rfl⟩
      · rintro ⟨_, ⟨⟩, rfl⟩; rfl

/-- Writing to the console does to the machine what it does to the world. -/
theorem say_apply (text : String) (m : Machine) :
    say text m =
      match m.world.say text with
      | (.ok _, world) => .ok () { m with world := world }
      | (.error e, world) => .error (.file e) { m with world := world } := by
  rw [say, get_bind_apply]
  rcases m.world.say text with ⟨_ | _, world⟩ <;> rfl

end ExecM

end MatrixScript
