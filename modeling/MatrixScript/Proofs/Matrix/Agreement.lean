import MatrixScript.Proofs.Matrix.Shape

/-!
# Computations of matrices that agree

A law of the matrix algebra equates two computations, and both may fail on shapes that do not fit.
`Denotes` says what a computation comes to: on shapes that fit it is a matrix of a certain shape,
whose elements are related to the values of a function at their places, and on others it is an
error about shapes.  There is one rule for every operation and one for computing in sequence, and
two computations that denote the same agree (`Agree`).

The function is one of all naturals, so that it can be written down before it is known whether the
shapes fit.
-/

namespace MatrixScript

namespace DenseMatrix

variable {α β : Type} {R : α → β → Prop} {fits : Prop} {s t : Shape} {F G : Nat → Nat → β}
  {a b m n : DenseMatrix α} {x y : Except (MatrixError α) (DenseMatrix α)}

/-! ## Agreement -/

/-- Matrices of one shape, with related elements at the same places. -/
inductive Pointwise (S : α → α → Prop) : DenseMatrix α → DenseMatrix α → Prop
  | intro {r c : Nat} {g h : Grid α r c} (hcells : ∀ i j, S (g.get i j) (h.get i j)) :
      Pointwise S ⟨r, c, g⟩ ⟨r, c, h⟩

theorem pointwise_iff {S : α → α → Prop} {r c : Nat} {g h : Grid α r c} :
    Pointwise S ⟨r, c, g⟩ ⟨r, c, h⟩ ↔ ∀ i j, S (g.get i j) (h.get i j) := by
  constructor
  · rintro ⟨hcells⟩
    exact hcells
  · exact .intro

theorem pointwise_flip_iff {S : α → α → Prop} :
    Pointwise (fun x y => S y x) a b ↔ Pointwise S b a := by
  constructor
  · rintro ⟨hcells⟩
    exact .intro hcells
  · rintro ⟨hcells⟩
    exact .intro hcells

/-- There is no result, for the reason that two shapes do not fit. -/
def Mismatched (x : Except (MatrixError α) (DenseMatrix α)) : Prop :=
  ∃ op left right, x = .error (.mismatch op left right)

/-- On shapes that fit both computations have results, which are related element by element, and
on others both fail because of the shapes. -/
def Agree (S : α → α → Prop) (fits : Prop) (x y : Except (MatrixError α) (DenseMatrix α)) : Prop :=
  (fits ∧ ∃ m n, x = .ok m ∧ y = .ok n ∧ Pointwise S m n) ∨
    (¬ fits ∧ Mismatched x ∧ Mismatched y)

theorem Agree.of_fits {S : α → α → Prop} (h : Agree S fits x y) (hfits : fits) :
    ∃ m n, x = .ok m ∧ y = .ok n ∧ Pointwise S m n := by
  rcases h with ⟨-, hresults⟩ | ⟨hnot, -⟩
  · exact hresults
  · exact absurd hfits hnot

/-! ## Denotations -/

/-- The elements of a matrix are related to the values of a function at their places. -/
def Elements (R : α → β → Prop) (F : Nat → Nat → β) (m : DenseMatrix α) : Prop :=
  ∀ i j, R (m.get i j) (F i.val j.val)

/-- On shapes that fit, a computation has a result of the given shape with elements related to the
values of a function, and on others it fails because of the shapes. -/
def Denotes (R : α → β → Prop) (fits : Prop) (s : Shape) (F : Nat → Nat → β)
    (x : Except (MatrixError α) (DenseMatrix α)) : Prop :=
  (fits ∧ ∃ m, x = .ok m ∧ m.shape = s ∧ Elements R F m) ∨ (¬ fits ∧ Mismatched x)

theorem exists_elements [Nonempty β] (h : ∀ i j, ∃ v, R (m.get i j) v) : ∃ F, Elements R F m := by
  have hplace : ∀ i j, ∃ v, ∀ (hi : i < m.rows) (hj : j < m.cols), R (m.get ⟨i, hi⟩ ⟨j, hj⟩) v := by
    intro i j
    by_cases hin : i < m.rows ∧ j < m.cols
    · obtain ⟨v, hv⟩ := h ⟨i, hin.1⟩ ⟨j, hin.2⟩
      exact ⟨v, fun _ _ => hv⟩
    · obtain ⟨v⟩ := ‹Nonempty β›
      exact ⟨v, fun hi hj => absurd ⟨hi, hj⟩ hin⟩
  refine ⟨fun i j => Classical.choose (hplace i j), fun i j => ?_⟩
  exact Classical.choose_spec (hplace i.val j.val) i.isLt j.isLt

theorem elements_ofFn {r c : Nat} {f : Fin r → Fin c → α} (h : ∀ i j, R (f i j) (F i j)) :
    Elements R F (ofFn r c f) := by
  intro i j
  have hget : (ofFn r c f).get i j = f i j := get_ofFn r c f i j
  rw [hget]
  exact h i j

/-- Two computations that denote related values agree. -/
theorem Denotes.agree {S : α → α → Prop} {T : β → β → Prop} {fits' : Prop}
    (hx : Denotes R fits s F x) (hy : Denotes R fits' t G y)
    (hS : ∀ {x y u v}, R x u → R y v → T u v → S x y) (hfits : fits ↔ fits')
    (hsame : fits → s = t ∧ ∀ i j, i < s.rows → j < s.cols → T (F i j) (G i j)) :
    Agree S fits x y := by
  rcases hx with ⟨hfit, ⟨r, c, g⟩, hm, rfl, hF⟩ | ⟨hfit, hx⟩
  · rcases hy with ⟨-, ⟨r', c', h⟩, hn, rfl, hG⟩ | ⟨hfit', -⟩
    · obtain ⟨hshape, hT⟩ := hsame hfit
      cases hshape
      refine .inl ⟨hfit, _, _, hm, hn, .intro fun i j => ?_⟩
      exact hS (hF i j) (hG i j) (hT i j i.isLt j.isLt)
    · exact absurd (hfits.mp hfit) hfit'
  · rcases hy with ⟨hfit', -⟩ | ⟨-, hy⟩
    · exact absurd (hfits.mpr hfit') hfit
    · exact .inr ⟨hfit, hx, hy⟩

theorem Denotes.agree_of_eq {S : α → α → Prop} {fits' : Prop} {F G : Nat → Nat → α}
    (hx : Denotes Eq fits s F x) (hy : Denotes Eq fits' t G y) (hfits : fits ↔ fits')
    (hsame : fits → s = t ∧ ∀ i j, i < s.rows → j < s.cols → S (F i j) (G i j)) :
    Agree S fits x y :=
  hx.agree hy (fun hx hy h => hx ▸ hy ▸ h) hfits hsame

/-! ## Rules -/

theorem denotes_ok (hm : m.shape = s) (hF : Elements R F m) : Denotes R True s F (.ok m) :=
  .inl ⟨trivial, m, rfl, hm, hF⟩

theorem Denotes.bind {fits' : Prop} {f : DenseMatrix α → Except (MatrixError α) (DenseMatrix α)}
    (hx : Denotes R fits s F x)
    (hf : ∀ m, m.shape = s → Elements R F m → Denotes R fits' t G (f m)) :
    Denotes R (fits ∧ fits') t G (x >>= f) := by
  rcases hx with ⟨hfit, m, rfl, hshape, helements⟩ | ⟨hfit, op, left, right, rfl⟩
  · rcases hf m hshape helements with ⟨hfit', hresult⟩ | ⟨hfit', herror⟩
    · exact .inl ⟨⟨hfit, hfit'⟩, hresult⟩
    · exact .inr ⟨fun h => hfit' h.2, herror⟩
  · exact .inr ⟨fun h => hfit h.1, op, left, right, rfl⟩

theorem Denotes.map {f : DenseMatrix α → DenseMatrix α} (hx : Denotes R fits s F x)
    (hf : ∀ m, m.shape = s → Elements R F m → (f m).shape = t ∧ Elements R G (f m)) :
    Denotes R fits t G (f <$> x) := by
  rcases hx with ⟨hfit, m, rfl, hshape, helements⟩ | ⟨hfit, op, left, right, rfl⟩
  · exact .inl ⟨hfit, f m, rfl, hf m hshape helements⟩
  · exact .inr ⟨hfit, op, left, right, rfl⟩

theorem zipWith_of_shape (op : Operation) (f : α → α → α) {r c : Nat} (g h : Grid α r c) :
    zipWith op f ⟨r, c, g⟩ ⟨r, c, h⟩ =
      .ok ⟨r, c, .ofFn fun i j => f (g.get i j) (h.get i j)⟩ := by
  rw [zipWith, grid?_eq_some_iff.mpr rfl]
  rfl

theorem denotes_zipWith (op : Operation) {f : α → α → α} {f' : β → β → β}
    (hf : ∀ x y u v, R x u → R y v → R (f x y) (f' u v)) (ha : a.shape = s) (hF : Elements R F a)
    (hb : b.shape = t) (hG : Elements R G b) :
    Denotes R (t = s) s (fun i j => f' (F i j) (G i j)) (zipWith op f a b) := by
  subst ha hb
  by_cases hfit : b.shape = a.shape
  · obtain ⟨r, c, g⟩ := a
    obtain ⟨r', c', h⟩ := b
    cases hfit
    rw [zipWith_of_shape]
    exact .inl ⟨rfl, _, rfl, rfl, elements_ofFn fun i j => hf _ _ _ _ (hF i j) (hG i j)⟩
  · rw [zipWith, grid?_eq_none hfit]
    exact .inr ⟨hfit, op, a.shape, b.shape, rfl⟩

/-- The products of the algebra: every element is the total of what comes of the pairs of a row
and a column. -/
def product (op : Operation) (total : {n : Nat} → (Fin n → α) → α) (pair : α → α → α)
    (a b : DenseMatrix α) : Except (MatrixError α) (DenseMatrix α) :=
  match b.grid? a.cols b.cols with
  | some g => .ok (ofFn a.rows b.cols fun i j => total fun k => pair (a.get i k) (g.get k j))
  | none => .error (.mismatch op a.shape b.shape)

theorem mul_eq_product [Scalar α] : mul a b = product .product Scalar.sum (· * ·) a b := rfl

theorem maxMin_eq_product [Scalar α] :
    maxMin a b = product .maxMinProduct Scalar.maximum Scalar.min a b := rfl

theorem product_of_shape (op : Operation) (total : {n : Nat} → (Fin n → α) → α) (pair : α → α → α)
    {r n c : Nat} (g : Grid α r n) (h : Grid α n c) :
    product op total pair ⟨r, n, g⟩ ⟨n, c, h⟩ =
      .ok ⟨r, c, .ofFn fun i j => total fun k => pair (g.get i k) (h.get k j)⟩ := by
  rw [product, grid?_eq_some_iff.mpr rfl]
  rfl

theorem denotes_product (op : Operation) {total : {n : Nat} → (Fin n → α) → α}
    {total' : {n : Nat} → (Fin n → β) → β} {pair : α → α → α} {pair' : β → β → β}
    (htotal : ∀ {n : Nat} {f : Fin n → α} {g : Fin n → β},
      (∀ k, R (f k) (g k)) → R (total f) (total' g))
    (hpair : ∀ x y u v, R x u → R y v → R (pair x y) (pair' u v))
    (ha : a.shape = s) (hF : Elements R F a) (hb : b.shape = t) (hG : Elements R G b) :
    Denotes R (t.rows = s.cols) ⟨s.rows, t.cols⟩
      (fun i j => total' fun k : Fin s.cols => pair' (F i k) (G k j))
      (product op total pair a b) := by
  subst ha hb
  by_cases hfit : b.shape.rows = a.shape.cols
  · obtain ⟨r, c, g⟩ := a
    obtain ⟨r', c', h⟩ := b
    cases hfit
    rw [product_of_shape]
    refine .inl ⟨rfl, _, rfl, rfl, elements_ofFn fun i j => ?_⟩
    exact htotal fun k => hpair _ _ _ _ (hF i k) (hG k j)
  · have hshape : b.shape ≠ ⟨a.cols, b.cols⟩ := fun hshape => hfit (congrArg Shape.rows hshape)
    rw [product, grid?_eq_none hshape]
    exact .inr ⟨hfit, op, a.shape, b.shape, rfl⟩

end DenseMatrix

end MatrixScript
