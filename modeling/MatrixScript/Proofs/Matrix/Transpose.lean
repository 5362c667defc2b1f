import MatrixScript.Proofs.Binary64.Order
import MatrixScript.Proofs.Exact.Machine
import MatrixScript.Proofs.Exact.Real
import MatrixScript.Proofs.Matrix.Agreement

/-!
# Transposition

Transposing twice changes nothing, transposing a product reverses it, and everything that works
element by element passes through.  Both products take up the inner index in one order, whichever
of the two matrices comes first, so all that the reversal asks of an arithmetic is that two
factors, and the smaller of two elements, do not depend on their order; no rounding is done
differently.  The sums of rows and of columns add up the same elements in the same order as well,
but start from zeros of different signs.
-/

namespace MatrixScript

/-! ## Folds of related terms -/

namespace Scalar

variable {α : Type} [Scalar α] {S : α → α → Prop} {n : Nat}

theorem accumulate_related (hadd : ∀ {x y : α} (z : α), S x y → S (x + z) (y + z)) {x y : α}
    (h : S x y) (f : Fin n → α) : S (accumulate x f) (accumulate y f) := by
  induction n with
  | zero =>
      rw [accumulate, accumulate, Fin.foldl_zero, Fin.foldl_zero]
      exact h
  | succ n ih =>
      rw [accumulate, accumulate, Fin.foldl_succ_last, Fin.foldl_succ_last]
      exact hadd _ (ih fun k => f k.castSucc)

theorem maximum_related (hrefl : ∀ x : α, S x x)
    (hmax : ∀ {x y x' y' : α}, S x y → S x' y' → S (max x x') (max y y')) {f g : Fin n → α}
    (h : ∀ k, S (f k) (g k)) : S (maximum f) (maximum g) := by
  induction n with
  | zero => exact hrefl _
  | succ n ih =>
      rw [maximum, maximum, Fin.foldl_succ_last, Fin.foldl_succ_last]
      exact hmax (ih fun k => h k.castSucc) (h (Fin.last n))

/-- Sums of the same terms in the same order, the one from the negative zero on and the other from
zero. -/
inductive SignOfZero : α → α → Prop
  | zero : SignOfZero (-0) 0
  | add {x y : α} (z : α) (h : SignOfZero x y) : SignOfZero (x + z) (y + z)

end Scalar

namespace DenseMatrix

variable {α β : Type} {R : α → β → Prop} {F : Nat → Nat → β} {m : DenseMatrix α}

/-! ## Transposed elements -/

theorem get_transpose (m : DenseMatrix α) (i : Fin m.cols) (j : Fin m.rows) :
    m.transpose.get i j = m.get j i :=
  get_ofFn _ _ _ i j

theorem transpose_transpose (m : DenseMatrix α) : m.transpose.transpose = m := by
  obtain ⟨r, c, g⟩ := m
  refine congrArg (DenseMatrix.mk r c) (Grid.ext_get fun i j => ?_)
  rw [Grid.get_ofFn]
  exact get_transpose ⟨r, c, g⟩ j i

theorem transpose_map (f : α → α) (m : DenseMatrix α) :
    (m.map f).transpose = m.transpose.map f := by
  obtain ⟨r, c, g⟩ := m
  refine congrArg (DenseMatrix.mk c r) (Grid.ext_get fun (i : Fin c) (j : Fin r) => ?_)
  have hleft : (Grid.ofFn fun i j => (g.map f).get j i).get i j = f (g.get j i) := by
    rw [Grid.get_ofFn, Grid.get_map]
  have hright : ((Grid.ofFn fun i j => g.get j i).map f).get i j = f (g.get j i) := by
    rw [Grid.get_map, Grid.get_ofFn]
  exact hleft.trans hright.symm

theorem transpose_shape_eq_iff {a b : DenseMatrix α} :
    b.transpose.shape = a.transpose.shape ↔ b.shape = a.shape := by
  change Shape.mk b.cols b.rows = ⟨a.cols, a.rows⟩ ↔ Shape.mk b.rows b.cols = ⟨a.rows, a.cols⟩
  rw [Shape.mk.injEq, Shape.mk.injEq, and_comm]

theorem Elements.transpose (h : Elements R F m) : Elements R (fun i j => F j i) m.transpose :=
  elements_ofFn fun i j => h j i

theorem Denotes.transpose {fits : Prop} {s : Shape} {x : Except (MatrixError α) (DenseMatrix α)}
    (hx : Denotes R fits s F x) :
    Denotes R fits ⟨s.cols, s.rows⟩ (fun i j => F j i) (DenseMatrix.transpose <$> x) := by
  refine hx.map fun m hshape hF => ⟨?_, hF.transpose⟩
  rw [← hshape]
  rfl

/-! ## Laws -/

variable [Scalar α] {S Z : α → α → Prop}

/-- How transposition goes with the other operations.  The elements of the max-min product are
compared by `S`, and the sums of rows and of columns by `Z`; all else is equal. -/
structure TransposeLaws (α : Type) [Scalar α] (S Z : α → α → Prop) : Prop where
  involutive : ∀ m : DenseMatrix α, m.transpose.transpose = m
  mul_reversed : ∀ a b : DenseMatrix α,
    Agree Eq (b.rows = a.cols) (transpose <$> mul a b) (mul b.transpose a.transpose)
  maxMin_reversed : ∀ a b : DenseMatrix α,
    Agree S (b.rows = a.cols) (transpose <$> maxMin a b) (maxMin b.transpose a.transpose)
  add_transpose : ∀ a b : DenseMatrix α,
    Agree Eq (b.shape = a.shape) (transpose <$> add a b) (add a.transpose b.transpose)
  sub_transpose : ∀ a b : DenseMatrix α,
    Agree Eq (b.shape = a.shape) (transpose <$> sub a b) (sub a.transpose b.transpose)
  union_transpose : ∀ a b : DenseMatrix α,
    Agree Eq (b.shape = a.shape) (transpose <$> union a b) (union a.transpose b.transpose)
  intersection_transpose : ∀ a b : DenseMatrix α,
    Agree Eq (b.shape = a.shape) (transpose <$> intersection a b)
      (intersection a.transpose b.transpose)
  complement_transpose : ∀ m : DenseMatrix α, m.complement.transpose = m.transpose.complement
  scale_transpose : ∀ (factor : α) (m : DenseMatrix α),
    (m.scale factor).transpose = m.transpose.scale factor
  rowSums_transpose : ∀ (m : DenseMatrix α) (j : Fin m.cols),
    Z (m.transpose.rowSums.get j) (m.columnSums.get j)
  columnSums_transpose : ∀ (m : DenseMatrix α) (i : Fin m.rows),
    Z (m.rowSums.get i) (m.transpose.columnSums.get i)

theorem get_rowSums (m : DenseMatrix α) (i : Fin m.rows) :
    m.rowSums.get i = Scalar.accumulate (-0) fun j => m.get i j :=
  MatrixScript.get_ofFn _ i

theorem get_columnSums (m : DenseMatrix α) (j : Fin m.cols) :
    m.columnSums.get j = Scalar.accumulate 0 fun i => m.get i j :=
  MatrixScript.get_ofFn _ j

theorem exists_elements_eq (m : DenseMatrix α) : ∃ F, Elements Eq F m :=
  have : Nonempty α := ⟨0⟩
  exists_elements fun _ _ => ⟨_, rfl⟩

theorem agree_zipWith_transpose (op : Operation) (f : α → α → α) (a b : DenseMatrix α) :
    Agree Eq (b.shape = a.shape) (transpose <$> zipWith op f a b)
      (zipWith op f a.transpose b.transpose) := by
  obtain ⟨F, hF⟩ := exists_elements_eq a
  obtain ⟨G, hG⟩ := exists_elements_eq b
  have hf : ∀ x y u v : α, x = u → y = v → f x y = f u v := by
    rintro _ _ _ _ rfl rfl
    rfl
  have hleft := (denotes_zipWith op hf rfl hF rfl hG).transpose
  have hright := denotes_zipWith op hf rfl hF.transpose rfl hG.transpose
  exact hleft.agree_of_eq hright transpose_shape_eq_iff.symm fun _ => ⟨rfl, fun _ _ _ _ => rfl⟩

/-- A product is reversed if its pairs may be taken in the other order and its total respects
that. -/
theorem agree_product_transpose (op : Operation) {total : {n : Nat} → (Fin n → α) → α}
    {pair : α → α → α} (hpair : ∀ x y, S (pair x y) (pair y x))
    (htotal : ∀ {n : Nat} {f g : Fin n → α}, (∀ k, S (f k) (g k)) → S (total f) (total g))
    (a b : DenseMatrix α) :
    Agree S (b.rows = a.cols) (transpose <$> product op total pair a b)
      (product op total pair b.transpose a.transpose) := by
  obtain ⟨F, hF⟩ := exists_elements_eq a
  obtain ⟨G, hG⟩ := exists_elements_eq b
  have hpair' : ∀ x y u v : α, x = u → y = v → pair x y = pair u v := by
    rintro _ _ _ _ rfl rfl
    rfl
  have htotal' : ∀ {n : Nat} {f g : Fin n → α}, (∀ k, f k = g k) → total f = total g :=
    fun h => congrArg total (funext h)
  have hleft := (denotes_product op htotal' hpair' rfl hF rfl hG).transpose
  have hright := denotes_product op htotal' hpair' rfl hG.transpose rfl hF.transpose
  refine hleft.agree_of_eq hright eq_comm fun hfit => ⟨rfl, fun i j _ _ => ?_⟩
  -- The inner index runs over the columns of the one or the rows of the other: the same range.
  have hinner : b.transpose.shape.cols = a.shape.cols := hfit
  rw [hinner]
  exact htotal fun k => hpair _ _

theorem transposeLaws (hmul : ∀ x y : α, x * y = y * x) (hrefl : ∀ x, S x x)
    (hmin : ∀ x y : α, S (Scalar.min x y) (Scalar.min y x))
    (hmax : ∀ {x y x' y' : α}, S x y → S x' y' → S (Scalar.max x x') (Scalar.max y y'))
    (hzero : Z (-0) 0) (hadd : ∀ {x y : α} (z : α), Z x y → Z (x + z) (y + z)) :
    TransposeLaws α S Z where
  involutive := transpose_transpose
  mul_reversed a b := by
    have hsum {n : Nat} {f g : Fin n → α} (h : ∀ k, f k = g k) : Scalar.sum f = Scalar.sum g :=
      congrArg Scalar.sum (funext h)
    rw [mul_eq_product, mul_eq_product]
    exact agree_product_transpose .product hmul hsum a b
  maxMin_reversed a b := by
    rw [maxMin_eq_product, maxMin_eq_product]
    exact agree_product_transpose .maxMinProduct hmin (Scalar.maximum_related hrefl hmax) a b
  add_transpose := agree_zipWith_transpose .add _
  sub_transpose := agree_zipWith_transpose .sub _
  union_transpose := agree_zipWith_transpose .union _
  intersection_transpose := agree_zipWith_transpose .intersection _
  complement_transpose := transpose_map _
  scale_transpose factor := transpose_map _
  rowSums_transpose m j := by
    have hrow : m.transpose.rowSums.get j = Scalar.accumulate (-0) fun i => m.get i j :=
      (get_rowSums m.transpose j).trans (congrArg _ (funext fun i => get_transpose m j i))
    rw [hrow, get_columnSums]
    exact Scalar.accumulate_related hadd hzero _
  columnSums_transpose m i := by
    have hcolumn : m.transpose.columnSums.get i = Scalar.accumulate 0 fun j => m.get i j :=
      (get_columnSums m.transpose i).trans (congrArg _ (funext fun j => get_transpose m j i))
    rw [hcolumn, get_rowSums]
    exact Scalar.accumulate_related hadd hzero _

/-- Transposition is an involution that reverses both products and passes through all else, in
every arithmetic in which factors and the smaller of two elements may be exchanged: without any
difference, but that the sums of rows and of columns start from different zeros.  On machine
numbers, NaN and the infinities included, the max-min product and the sums of rows and columns may
differ in the sign of a zero, and nothing else may. -/
theorem transpose_reverses_products :
    (∀ (α : Type) [Scalar α], (∀ x y : α, x * y = y * x) →
      (∀ x y : α, Scalar.min x y = Scalar.min y x) → TransposeLaws α Eq Scalar.SignOfZero) ∧
    TransposeLaws Float Binary64.SameValue Binary64.SameValue := by
  refine ⟨fun α _ hmul hmin => ?_, ?_⟩
  · refine transposeLaws hmul (fun _ => rfl) hmin ?_ .zero .add
    rintro x _ x' _ rfl rfl
    rfl
  · exact transposeLaws Binary64.mul_comm .refl Binary64.sameValue_min_comm
      Binary64.sameValue_max (.inr ⟨by decide, by decide⟩) fun z h => h.add z

/-- The real numbers are such an arithmetic. -/
theorem transpose_reverses_products_real : TransposeLaws ℝ Eq Scalar.SignOfZero :=
  transpose_reverses_products.1 ℝ mul_comm min_comm

end DenseMatrix

end MatrixScript
