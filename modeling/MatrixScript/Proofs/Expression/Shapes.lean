import MatrixScript.Proofs.Matrix.Shape
import MatrixScript.Proofs.Monad.Reading
import MatrixScript.Script.Expression

/-!
# Shapes decide what an expression comes to

An expression is evaluated while it is read, so what is read next could depend on the
values so far.  It does not: two stores that bind the same variables to matrices of the
same shapes lead through the same tokens, to values of one shape or to the same error.
The one exception is `inv_sym`, which looks at the elements to tell whether a matrix is
positive definite.
-/

namespace MatrixScript

/-- The two stores bind the same variables, to matrices of the same shapes. -/
def Store.SameShapes (left right : Store) : Prop :=
  ∀ name, (right.get? name).map DenseMatrix.shape = (left.get? name).map DenseMatrix.shape

theorem Store.SameShapes.refl (store : Store) : store.SameShapes store :=
  fun _ => rfl

theorem Store.SameShapes.insert {left right : Store} (h : left.SameShapes right)
    (name : VariableName) {a b : DenseMatrix Float} (hshape : b.shape = a.shape) :
    (left.insert name a).SameShapes (right.insert name b) := by
  intro other
  have hother := h other
  simp only [Store.get?, Store.insert, Fin.getElem_fin] at hother ⊢
  by_cases hname : name.index = other.index
  · simp [hname, hshape]
  · simp [Fin.val_ne_of_ne hname, hother]

namespace Expression

open DenseMatrix

/-- A call of `inv_sym` fails at a reader: its word and then its operand have been read,
and the operand is not positive definite. -/
def InverseFails (env : Env) (e : Error) (reader : Reader) : Prop :=
  ∃ start word opened bound operand pivot value,
    Reader.next start = .ok word opened ∧ word.kind = .function .symmetricInverse ∧
    atom env (sum (unary env bound) bound) opened = .ok operand reader ∧
    operand.symmetricInverse = .error (.notPositiveDefinite pivot value) ∧
    e = .matrix (.notPositiveDefinite pivot value)

variable {α β : Type} {left right : Env} {V : α → α → Prop} {W : β → β → Prop}

/-- What two evaluations come to if shapes decide: both have values that are related, at
one reader, or both fail with one error at one reader, or an inverse fails on either
side. -/
inductive ByShape (left right : Env) (V : α → α → Prop) :
    EStateM.Result Error Reader α → EStateM.Result Error Reader α → Prop where
  | value {a b : α} (reader : Reader) (h : V a b) :
      ByShape left right V (.ok a reader) (.ok b reader)
  | error (e : Error) (reader : Reader) : ByShape left right V (.error e reader) (.error e reader)
  | inverseLeft {e : Error} {reader : Reader} (result : EStateM.Result Error Reader α)
      (h : InverseFails left e reader) : ByShape left right V (.error e reader) result
  | inverseRight {e : Error} {reader : Reader} (result : EStateM.Result Error Reader α)
      (h : InverseFails right e reader) : ByShape left right V result (.error e reader)

/-- Wherever the reader stands, shapes decide between the two programs. -/
def Decides (left right : Env) (V : α → α → Prop) (x y : ReadM α) : Prop :=
  ∀ reader, ByShape left right V (x reader) (y reader)

/-- Values of one shape. -/
abbrev SameShape (a b : Value) : Prop := b.shape = a.shape

/-! ## Rules -/

section Rules

theorem ByShape.bind {x y : ReadM α} {f g : α → ReadM β} {reader : Reader}
    (hxy : ByShape left right V (x reader) (y reader))
    (hfg : ∀ a b r, x reader = .ok a r → y reader = .ok b r → V a b →
      ByShape left right W (f a r) (g b r)) :
    ByShape left right W ((x >>= f) reader) ((y >>= g) reader) := by
  generalize hx : x reader = found, hy : y reader = found' at hxy hfg
  cases hxy with
  | value r h =>
      rw [bind_of_eq_ok hx, bind_of_eq_ok hy]
      exact hfg _ _ r rfl rfl h
  | error e r =>
      rw [bind_of_eq_error hx, bind_of_eq_error hy]
      exact .error e r
  | inverseLeft _ h =>
      rw [bind_of_eq_error hx]
      exact .inverseLeft _ h
  | inverseRight _ h =>
      rw [bind_of_eq_error hy]
      exact .inverseRight _ h

theorem Decides.bind {x y : ReadM α} {f g : α → ReadM β} (hxy : Decides left right V x y)
    (hfg : ∀ a b, V a b → Decides left right W (f a) (g b)) :
    Decides left right W (x >>= f) (y >>= g) :=
  fun reader => (hxy reader).bind fun a b r _ _ h => hfg a b h r

/-- What does not look at the store is the same on both sides, and what follows may use
that it went well. -/
theorem byShape_same_bind {x : ReadM α} {f g : α → ReadM β} {reader : Reader}
    (hfg : ∀ a r, x reader = .ok a r → ByShape left right W (f a r) (g a r)) :
    ByShape left right W ((x >>= f) reader) ((x >>= g) reader) := by
  cases hx : x reader with
  | ok a r =>
      rw [bind_of_eq_ok hx, bind_of_eq_ok hx]
      exact hfg a r hx
  | error e r =>
      rw [bind_of_eq_error hx, bind_of_eq_error hx]
      exact .error e r

theorem decides_same_bind {x : ReadM α} {f g : α → ReadM β}
    (hfg : ∀ a, Decides left right W (f a) (g a)) :
    Decides left right W (x >>= f) (x >>= g) :=
  fun _ => byShape_same_bind fun a r _ => hfg a r

theorem decides_pure {a b : α} (h : V a b) : Decides left right V (pure a) (pure b) :=
  fun reader => .value reader h

theorem decides_throw (e : Error) : Decides left right V (throw e) (throw e) :=
  fun reader => .error e reader

theorem decides_same {x : ReadM α} (hV : ∀ a, V a a) : Decides left right V x x := by
  intro reader
  cases hx : x reader with
  | ok a r => exact .value r (hV a)
  | error e r => exact .error e r

theorem Decides.map {x y : ReadM α} {f : α → β} (hxy : Decides left right V x y)
    (hf : ∀ a b, V a b → W (f a) (f b)) : Decides left right W (f <$> x) (f <$> y) := by
  rw [map_eq_bind, map_eq_bind]
  exact hxy.bind fun a b h => decides_pure (hf a b h)

end Rules

/-! ## Operators -/

theorem decides_of_determined {x y : Except (MatrixError Float) Value} {fits : Prop}
    {shape : Shape} {e : MatrixError Float} (hx : Determined fits shape e x)
    (hy : Determined fits shape e y) :
    Decides left right SameShape (ReadM.ofMatrix x) (ReadM.ofMatrix y) := by
  rcases hx with ⟨hfits, m, rfl, hm⟩ | ⟨hfits, rfl⟩
  · rcases hy with ⟨_, n, rfl, hn⟩ | ⟨hnot, _⟩
    · exact decides_pure (hn.trans hm.symm)
    · exact absurd hfits hnot
  · rcases hy with ⟨hfits', _⟩ | ⟨_, rfl⟩
    · exact absurd hfits' hfits
    · exact decides_throw _

/-- The shapes of two operands tell whether they fit, what the shape of the result is, and
what is wrong if there is none. -/
theorem exists_determined_apply (operator : BinaryOperator) :
    ∃ (fits : Shape → Shape → Prop) (shape : Shape → Shape → Shape)
      (e : Shape → Shape → MatrixError Float), ∀ a b : Value,
      Determined (fits a.shape b.shape) (shape a.shape b.shape) (e a.shape b.shape)
        (operator.apply a b) := by
  cases operator with
  | add => exact ⟨fun s t => t = s, fun s _ => s, .mismatch .add, determined_zipWith .add _⟩
  | sub => exact ⟨fun s t => t = s, fun s _ => s, .mismatch .sub, determined_zipWith .sub _⟩
  | union => exact ⟨fun s t => t = s, fun s _ => s, .mismatch .union, determined_zipWith .union _⟩
  | intersection =>
      exact ⟨fun s t => t = s, fun s _ => s, .mismatch .intersection,
        determined_zipWith .intersection _⟩
  | product =>
      exact ⟨fun s t => t.rows = s.cols, fun s t => ⟨s.rows, t.cols⟩, .mismatch .product,
        determined_mul⟩
  | maxMinProduct =>
      exact ⟨fun s t => t.rows = s.cols, fun s t => ⟨s.rows, t.cols⟩, .mismatch .maxMinProduct,
        determined_maxMin⟩

theorem decides_apply (operator : BinaryOperator) {a b a' b' : Value} (ha : SameShape a a')
    (hb : SameShape b b') :
    Decides left right SameShape (ReadM.ofMatrix (operator.apply a b))
      (ReadM.ofMatrix (operator.apply a' b')) := by
  obtain ⟨fits, shape, e, hall⟩ := exists_determined_apply operator
  have hresult' := hall a' b'
  rw [ha, hb] at hresult'
  exact decides_of_determined (hall a b) hresult'

theorem sameShape_unary (operator : UnaryOperator) {a b : Value} (h : SameShape a b) :
    SameShape (operator.apply a) (operator.apply b) := by
  have hrows : b.rows = a.rows := congrArg Shape.rows h
  have hcols : b.cols = a.cols := congrArg Shape.cols h
  cases operator with
  | transpose => exact (Shape.mk.injEq ..).mpr ⟨hcols, hrows⟩
  | complement => exact h

/-! ## Levels of the grammar -/

section Levels

variable {x y : ReadM Value} {level : Delimiter → Option BinaryOperator}

theorem decides_chain (hxy : Decides left right SameShape x y) (bound : Nat) {a b : Value}
    (h : SameShape a b) :
    Decides left right SameShape (chain level x bound a) (chain level y bound b) := by
  induction bound generalizing a b with
  | zero => exact decides_pure h
  | succ bound ih =>
      refine decides_same_bind fun token => ?_
      split
      · exact decides_pure h
      · refine decides_same_bind fun _ => hxy.bind fun c d hoperand => ?_
        exact (decides_apply _ h hoperand).bind fun _ _ hvalue => ih hvalue

theorem decides_product (hxy : Decides left right SameShape x y) (bound : Nat) :
    Decides left right SameShape (product x bound) (product y bound) :=
  hxy.bind fun _ _ h => decides_chain hxy bound h

theorem decides_sum (hxy : Decides left right SameShape x y) (bound : Nat) :
    Decides left right SameShape (sum x bound) (sum y bound) :=
  (decides_product hxy bound).bind fun _ _ h =>
    decides_chain (decides_product hxy bound) bound h

theorem decides_bound {s t : Store} (h : s.SameShapes t) (name : VariableName) :
    Decides left right SameShape (ReadM.ofExcept (s.bound name))
      (ReadM.ofExcept (t.bound name)) := by
  have hname := h name
  unfold Store.bound
  cases hs : s.get? name with
  | none =>
      rw [hs, Option.map_none, Option.map_eq_none_iff] at hname
      rw [hname]
      exact decides_throw _
  | some a =>
      rw [hs, Option.map_some, Option.map_eq_some_iff] at hname
      obtain ⟨b, hb, hshape⟩ := hname
      rw [hb]
      exact decides_pure hshape

theorem decides_primitive (hstore : left.store.SameShapes right.store)
    (hxy : Decides left right SameShape x y) :
    Decides left right SameShape (primitive left x) (primitive right y) := by
  refine decides_same_bind fun token => ?_
  split
  · exact decides_same_bind fun name => decides_bound hstore name
  · exact decides_same_bind fun factor => hxy.bind fun _ _ h => decides_pure h
  · split
    · exact decides_throw _
    · exact decides_throw _

theorem decides_atom (hstore : left.store.SameShapes right.store)
    (hxy : Decides left right SameShape x y) :
    Decides left right SameShape (atom left x) (atom right y) := by
  refine decides_same_bind fun token => ?_
  split
  · refine decides_same_bind fun _ => hxy.bind fun _ _ h => decides_same_bind fun close => ?_
    split
    · exact decides_pure h
    · exact decides_throw _
  · exact decides_primitive hstore hxy

theorem decides_constant (hmax : right.maxElements = left.maxElements) (keyword : String)
    (build : Nat → Nat → Value) :
    Decides left right SameShape (constant left keyword build) (constant right keyword build) := by
  unfold constant
  rw [hmax]
  exact decides_same fun _ => rfl

/-- Only an inverse that fails can tell operands of one shape apart. -/
theorem byShape_inverse {bound : Nat} {start opened : Reader} {word : Token}
    (hword : Reader.next start = .ok word opened)
    (hkind : word.kind = .function .symmetricInverse)
    (hatom : Decides left right SameShape (atom left (sum (unary left bound) bound))
      (atom right (sum (unary right bound) bound))) :
    ByShape left right SameShape
      (call left (sum (unary left bound) bound) .symmetricInverse opened)
      (call right (sum (unary right bound) bound) .symmetricInverse opened) := by
  change ByShape left right SameShape ((atom left _ >>= _) opened) ((atom right _ >>= _) opened)
  refine (hatom opened).bind fun a b r hx hy hshape => ?_
  have hsquare : b.IsSquare ↔ a.IsSquare := by
    rw [DenseMatrix.IsSquare, DenseMatrix.IsSquare,
      show b.rows = a.rows from congrArg Shape.rows hshape,
      show b.cols = a.cols from congrArg Shape.cols hshape]
  rcases a.symmetricInverse_cases with ⟨ha, ⟨m, hm⟩ | ⟨pivot, value, hm⟩⟩ | ⟨ha, hm⟩
  · rcases b.symmetricInverse_cases with ⟨_, ⟨n, hn⟩ | ⟨pivot, value, hn⟩⟩ | ⟨hb, _⟩
    · rw [hm, hn]
      refine .value r ?_
      rw [SameShape, (shape_symmetricInverse hm).1, (shape_symmetricInverse hn).1, hshape]
    · rw [hn]
      exact .inverseRight _ ⟨start, word, opened, bound, b, pivot, value, hword, hkind, hy, hn, rfl⟩
    · exact absurd (hsquare.mpr ha) hb
  · rw [hm]
    exact .inverseLeft _ ⟨start, word, opened, bound, a, pivot, value, hword, hkind, hx, hm, rfl⟩
  · rcases b.symmetricInverse_cases with ⟨hb, _⟩ | ⟨_, hn⟩
    · exact absurd (hsquare.mp hb) ha
    · rw [hm, hn, hshape]
      exact .error _ r

theorem byShape_call (hstore : left.store.SameShapes right.store)
    (hmax : right.maxElements = left.maxElements) {bound : Nat} {builtin : Builtin}
    {start opened : Reader} {word : Token} (hword : Reader.next start = .ok word opened)
    (hkind : word.kind = .function builtin)
    (hunary : Decides left right SameShape (unary left bound) (unary right bound)) :
    ByShape left right SameShape (call left (sum (unary left bound) bound) builtin opened)
      (call right (sum (unary right bound) bound) builtin opened) := by
  have hatom := decides_atom hstore (decides_sum hunary bound)
  have hsame : ∀ f : Value → Value, (∀ a b, SameShape a b → SameShape (f a) (f b)) →
      ByShape left right SameShape ((f <$> atom left (sum (unary left bound) bound)) opened)
        ((f <$> atom right (sum (unary right bound) bound)) opened) :=
    fun f hf => hatom.map hf opened
  cases builtin with
  | identity => exact decides_constant hmax _ _ opened
  | zeros => exact decides_constant hmax _ _ opened
  | chiSquare =>
      refine hsame _ fun a b h => ?_
      have hcols : b.cols = a.cols := congrArg Shape.cols h
      exact (Shape.mk.injEq ..).mpr ⟨hcols, hcols⟩
  | doubleCenter => exact hsame _ fun _ _ h => h
  | standardize => exact hsame _ fun _ _ h => h
  | columnProfiles => exact hsame _ fun _ _ h => h
  | symmetricInverse => exact byShape_inverse hword hkind hatom

theorem decides_unary (hstore : left.store.SameShapes right.store)
    (hmax : right.maxElements = left.maxElements) (bound : Nat) :
    Decides left right SameShape (unary left bound) (unary right bound) := by
  induction bound with
  | zero => exact decides_throw _
  | succ bound ih =>
      have hatom := decides_atom hstore (decides_sum ih bound)
      intro reader
      refine byShape_same_bind fun token r hpeek => ?_
      cases hkind : token.kind with
      | delimiter mark =>
          dsimp only
          cases mark.unaryOperator? with
          | some operator =>
              exact decides_same_bind
                (fun _ => ih.bind fun _ _ h => decides_pure (sameShape_unary operator h)) r
          | none => exact hatom r
      | function builtin =>
          refine byShape_same_bind fun word opened hword => ?_
          -- The word that is taken is the one that was looked at.
          have hsame : word = token := by
            obtain ⟨hlook, hlexer⟩ := Reader.reads_of_peek hpeek
            obtain ⟨hnext, _⟩ := Reader.reads_of_next hword
            rw [hlexer, (Lexer.next_peek hlook).2.1] at hnext
            cases hnext
            rfl
          exact byShape_call hstore hmax hword (hsame ▸ hkind) ih
      | _ => exact hatom r

end Levels

/-- Shapes decide everything but positive definiteness.  Evaluating an expression with two
stores that bind the same variables to matrices of the same shapes, from any state of the
reader, gives values of one shape with the same tokens taken, or the same error with the
same tokens taken, or on one side a call of `inv_sym` fails. -/
theorem evaluate_by_shape (left right : Store) (maxElements : Nat) (reader : Reader)
    (h : left.SameShapes right) :
    ByShape ⟨left, maxElements⟩ ⟨right, maxElements⟩ (fun a b => b.shape = a.shape)
      (evaluate ⟨left, maxElements⟩ reader) (evaluate ⟨right, maxElements⟩ reader) := by
  refine decides_same_bind (fun token => ?_) reader
  split
  · exact decides_throw _
  · refine decides_same_bind fun r => ?_
    have hunary (bound : Nat) : Decides ⟨left, maxElements⟩ ⟨right, maxElements⟩ SameShape
        (unary ⟨left, maxElements⟩ bound) (unary ⟨right, maxElements⟩ bound) :=
      decides_unary h (by rfl) bound
    exact decides_sum (hunary _) _

/-- The product `A * A` with a matrix of zeros and with an identity matrix. -/
theorem evaluate_by_shape_zeros_identity :
    let left := Store.empty.insert ⟨0⟩ (DenseMatrix.zeros 2 2)
    let right := Store.empty.insert ⟨0⟩ (DenseMatrix.identity 2 2)
    let reader : Reader := { lexer := { source := "A * A".toList, params := [] } }
    left.SameShapes right ∧
      ByShape ⟨left, 100⟩ ⟨right, 100⟩ (fun a b => b.shape = a.shape)
        (evaluate ⟨left, 100⟩ reader) (evaluate ⟨right, 100⟩ reader) :=
  have h := (Store.SameShapes.refl Store.empty).insert ⟨0⟩
    (show (DenseMatrix.identity 2 2 : DenseMatrix Float).shape = (DenseMatrix.zeros 2 2).shape from
      rfl)
  ⟨h, evaluate_by_shape _ _ 100 _ h⟩

end Expression

end MatrixScript
