import MatrixScript.Proofs.Bounds.Correspondence
import MatrixScript.Proofs.Bounds.Inverse
import MatrixScript.Proofs.Bounds.Iteration
import MatrixScript.Scalar.Float

/-!
# The bounds of the numeric routines

Each numeric routine is called with matrices of any shapes.  `Call` has one constructor
for each family of routines; `Call.run` is the routine itself and `Call.onIndices` the
same computation on plain indices, where an access outside a matrix or a vector stops
the program.  On well-formed operands the two come to the same, so no access is outside;
the answers have the shapes that the operands determine; and a routine complains about
shapes exactly if its operands do not fit.
-/

namespace MatrixScript

variable {α : Type}

/-- The errors that are about the shapes of the operands, and not about their elements. -/
def MatrixError.AboutShapes : MatrixError α → Prop
  | .mismatch .. => True
  | .notSquare .. => True
  | .fewEigenvalues .. => True
  | .eigenvectorShape .. => True
  | .coordinateShape .. => True
  | .notPositiveDefinite .. => False
  | .noConvergence .. => False

/-! ## What the routines on eigenvalues come to -/

theorem Correspondence.axisValues_of_le {values : DenseMatrix α} (h : values.WellFormed)
    (hrows : 2 ≤ values.rows) : ∃ lambdas, axisValues values = .ok lambdas := by
  unfold axisValues
  rw [dif_pos ⟨hrows, h.cols_pos⟩]
  exact ⟨_, rfl⟩

theorem Correspondence.axisValues_of_lt {values : DenseMatrix α} (hrows : values.rows < 2) :
    axisValues values = .error (.fewEigenvalues values.rows) := by
  unfold axisValues
  rw [dif_neg fun h => Nat.not_lt_of_le h.1 hrows]

section Results

variable [Scalar α]

/-- A square matrix has as many eigenvalues and eigenvectors as rows, or the iteration gives
up. -/
theorem DenseMatrix.eigen_cases (tolerance : α) (limit : Nat) (m : DenseMatrix α) :
    (m.IsSquare ∧ ((∃ e, m.eigen tolerance limit = .ok e ∧ e.values.length = m.rows ∧
        e.vectors.shape = ⟨m.rows, m.rows⟩) ∨
      ∃ index, m.eigen tolerance limit = .error (.noConvergence index limit))) ∨
    (¬ m.IsSquare ∧ m.eigen tolerance limit = .error (.notSquare .eigen m.shape)) := by
  unfold eigen eigenCounting
  by_cases hsquare : m.IsSquare
  · obtain ⟨g, hgrid⟩ := exists_grid? (show m.shape = ⟨m.rows, m.rows⟩ by rw [shape, ← hsquare])
    rw [hgrid]
    refine .inl ⟨hsquare, ?_⟩
    dsimp only
    cases (Iteration.diagonalize (Scalar.max tolerance Scalar.epsilon) limit
      (List.finRange m.rows) (Iteration.start (Tridiagonal.ofSymmetric g))).2 with
    | ok s =>
        refine .inl ⟨_, rfl, ?_, rfl⟩
        rw [Eigen.sorted, List.length_map, Vector.length_toList]
    | error index => exact .inr ⟨index, rfl⟩
  · rw [grid?_eq_none fun hshape => hsquare (congrArg Shape.cols hshape).symm]
    exact .inr ⟨hsquare, rfl⟩

namespace Correspondence

theorem length_shares (total : α) (axis : Nat) (before : α) (lambdas : List α) :
    (shares total axis before lambdas).length = lambdas.length := by
  induction lambdas generalizing axis before with
  | nil => rfl
  | cons lambda rest ih => rw [shares, List.length_cons, ih, List.length_cons]

end Correspondence

end Results

namespace Kernel

/-! ## Calls and answers -/

/-- The operations on elements at the same places. -/
inductive Elementwise where
  | add
  | sub
  | union
  | intersection

/-- The two products. -/
inductive Product where
  | sums
  | maxima

/-- The operations on one matrix that have a result for every matrix. -/
inductive Transform (α : Type) where
  | transpose
  | complement
  | scale (factor : α)
  | standardize
  | columnProfiles
  | chiSquare
  | doubleCenter

/-- A call of a numeric routine. -/
inductive Call (α : Type) where
  | elementwise (kind : Elementwise) (a b : DenseMatrix α)
  | product (kind : Product) (a b : DenseMatrix α)
  | transform (kind : Transform α) (m : DenseMatrix α)
  | inverse (m : DenseMatrix α)
  | eigen (tolerance : α) (limit : Nat) (m : DenseMatrix α)
  | inertia (values : DenseMatrix α)
  | analyse (table vectors values : DenseMatrix α)
  | project (kind : PointKind) (points coordinates values : DenseMatrix α)

/-- What a numeric routine returns. -/
inductive Answer (α : Type) where
  | matrix (m : DenseMatrix α)
  | eigen (e : Eigen α)
  | inertia (axes : List (AxisInertia α))
  | analysis (c : Correspondence α)

/-- The sizes of an answer. -/
inductive Form where
  | matrix (shape : Shape)
  | eigen (values : Nat) (vectors : Shape)
  | inertia (axes : Nat)
  | analysis (coordinates absolute relative : Shape)

def Answer.form : Answer α → Form
  | .matrix m => .matrix m.shape
  | .eigen e => .eigen e.values.length e.vectors.shape
  | .inertia axes => .inertia axes.length
  | .analysis c => .analysis c.coordinates.shape c.absolute.shape c.relative.shape

def Answer.matrices : Answer α → List (DenseMatrix α)
  | .matrix m => [m]
  | .eigen e => [e.vectors]
  | .inertia _ => []
  | .analysis c => [c.coordinates, c.absolute, c.relative]

section Families

variable [Scalar α]

namespace Elementwise

def operation : Elementwise → Operation
  | add => .add
  | sub => .sub
  | union => .union
  | intersection => .intersection

def apply : Elementwise → DenseMatrix α → DenseMatrix α → Except (MatrixError α) (DenseMatrix α)
  | add => DenseMatrix.add
  | sub => DenseMatrix.sub
  | union => DenseMatrix.union
  | intersection => DenseMatrix.intersection

def onElements : Elementwise → α → α → α
  | add => (· + ·)
  | sub => (· - ·)
  | union => Scalar.max
  | intersection => Scalar.min

theorem apply_eq (kind : Elementwise) (a b : DenseMatrix α) :
    kind.apply a b = DenseMatrix.zipWith kind.operation kind.onElements a b := by
  cases kind <;> rfl

end Elementwise

namespace Product

def operation : Product → Operation
  | sums => .product
  | maxima => .maxMinProduct

def apply : Product → DenseMatrix α → DenseMatrix α → Except (MatrixError α) (DenseMatrix α)
  | sums => DenseMatrix.mul
  | maxima => DenseMatrix.maxMin

def onIndices : Product → DenseMatrix α → DenseMatrix α → Checked α (DenseMatrix α)
  | sums => Indexed.mul
  | maxima => Indexed.maxMin

theorem onIndices_eq (kind : Product) (a b : DenseMatrix α) :
    kind.onIndices a b = refusing (kind.apply a b) := by
  cases kind with
  | sums => exact Indexed.mul_eq a b
  | maxima => exact Indexed.maxMin_eq a b

theorem determined_apply (kind : Product) (a b : DenseMatrix α) :
    DenseMatrix.Determined (b.rows = a.cols) ⟨a.rows, b.cols⟩
      (.mismatch kind.operation a.shape b.shape) (kind.apply a b) := by
  cases kind with
  | sums => exact DenseMatrix.determined_mul a b
  | maxima => exact DenseMatrix.determined_maxMin a b

end Product

namespace Transform

def apply : Transform α → DenseMatrix α → DenseMatrix α
  | transpose => DenseMatrix.transpose
  | complement => DenseMatrix.complement
  | scale factor => DenseMatrix.scale factor
  | standardize => DenseMatrix.standardize
  | columnProfiles => DenseMatrix.columnProfiles
  | chiSquare => DenseMatrix.chiSquare
  | doubleCenter => DenseMatrix.doubleCenter

def onIndices : Transform α → DenseMatrix α → Checked α (DenseMatrix α)
  | transpose => Indexed.transpose
  | complement => Indexed.map fun x => if 0 < x then 0 else 1
  | scale factor => Indexed.map fun x => factor * x
  | standardize => Indexed.standardize
  | columnProfiles => Indexed.columnProfiles
  | chiSquare => Indexed.chiSquare
  | doubleCenter => Indexed.doubleCenter

theorem onIndices_eq (kind : Transform α) (m : DenseMatrix α) :
    kind.onIndices m = .ok (kind.apply m) := by
  cases kind with
  | transpose => exact Indexed.transpose_eq m
  | complement => exact Indexed.map_eq _ m
  | scale factor => exact Indexed.map_eq _ m
  | standardize => exact Indexed.standardize_eq m
  | columnProfiles => exact Indexed.columnProfiles_eq m
  | chiSquare => exact Indexed.chiSquare_eq m
  | doubleCenter => exact Indexed.doubleCenter_eq m

/-- The shape of a result, from that of the operand. -/
def shape (s : Shape) : Transform α → Shape
  | transpose => ⟨s.cols, s.rows⟩
  | complement => s
  | scale _ => s
  | standardize => s
  | columnProfiles => s
  | chiSquare => ⟨s.cols, s.cols⟩
  | doubleCenter => s

theorem shape_apply (kind : Transform α) (m : DenseMatrix α) :
    (kind.apply m).shape = kind.shape m.shape := by
  cases kind <;> rfl

theorem wellFormed_apply (kind : Transform α) {m : DenseMatrix α} (h : m.WellFormed) :
    (kind.apply m).WellFormed := by
  rw [DenseMatrix.wellFormed_iff]
  cases kind with
  | transpose => exact ⟨h.cols_pos, h.rows_pos⟩
  | chiSquare => exact ⟨h.cols_pos, h.cols_pos⟩
  | complement | scale | standardize | columnProfiles | doubleCenter =>
      exact ⟨h.rows_pos, h.cols_pos⟩

end Transform

/-- The points of an analysis that supplementary points are weighed against. -/
def active (points : DenseMatrix α) : PointKind → Nat
  | .rows => points.cols
  | .columns => points.rows

/-- The points that are projected. -/
def projected (points : DenseMatrix α) : PointKind → Nat
  | .rows => points.rows
  | .columns => points.cols

end Families

namespace Call

def operands : Call α → List (DenseMatrix α)
  | elementwise _ a b => [a, b]
  | product _ a b => [a, b]
  | transform _ m => [m]
  | inverse m => [m]
  | eigen _ _ m => [m]
  | inertia values => [values]
  | analyse table vectors values => [table, vectors, values]
  | project _ points coordinates values => [points, coordinates, values]

/-- The condition on the shapes of the operands.  The trivial axis and one more have to be
among the eigenvalues, of the eigenvectors there have to be more than axes, and the points
of an analysis may be more than those that a projection needs. -/
def Fits : Call α → Prop
  | elementwise _ a b => b.shape = a.shape
  | product _ a b => b.rows = a.cols
  | transform _ _ => True
  | inverse m => m.IsSquare
  | eigen _ _ m => m.IsSquare
  | inertia values => 2 ≤ values.rows
  | analyse table vectors values =>
    2 ≤ values.rows ∧ vectors.rows = table.cols ∧ values.rows - 1 < vectors.cols
  | project kind points coordinates values =>
    2 ≤ values.rows ∧ active points kind ≤ coordinates.rows ∧ values.rows - 1 ≤ coordinates.cols

/-- The form of the answer.  There is an axis for each eigenvalue but the first, and an
analysis has a point for each column and for each row of its table. -/
def form : Call α → Form
  | elementwise _ a _ => .matrix a.shape
  | product _ a b => .matrix ⟨a.rows, b.cols⟩
  | transform kind m => .matrix (kind.shape m.shape)
  | inverse m => .matrix m.shape
  | eigen _ _ m => .eigen m.rows ⟨m.rows, m.rows⟩
  | inertia values => .inertia (values.rows - 1)
  | analyse table _ values =>
    let shape := ⟨table.cols + table.rows, values.rows - 1⟩
    .analysis shape shape shape
  | project kind points _ values => .matrix ⟨projected points kind, values.rows - 1⟩

/-- The error by which a routine complains about shapes. -/
def Refuses : Call α → MatrixError α → Prop
  | elementwise kind a b, e => e = .mismatch kind.operation a.shape b.shape
  | product kind a b, e => e = .mismatch kind.operation a.shape b.shape
  | transform _ _, _ => False
  | inverse m, e => e = .notSquare .inverse m.shape
  | eigen _ _ m, e => e = .notSquare .eigen m.shape
  | inertia values, e => e = .fewEigenvalues values.rows
  | analyse table vectors values, e =>
    e = if values.rows < 2 then .fewEigenvalues values.rows
      else .eigenvectorShape vectors.shape table.cols (values.rows - 1)
  | project kind points coordinates values, e =>
    e = if values.rows < 2 then .fewEigenvalues values.rows
      else .coordinateShape kind coordinates.shape (active points kind) (values.rows - 1)

/-- The errors that a routine may meet on its way, whatever the shapes are. -/
def Fails : Call α → MatrixError α → Prop
  | elementwise _ _ _, _ => False
  | product _ _ _, _ => False
  | transform _ _, _ => False
  | inverse _, e => ∃ pivot value, e = .notPositiveDefinite pivot value
  | eigen _ limit _, e => ∃ index, e = .noConvergence index limit
  | inertia _, _ => False
  | analyse _ _ _, _ => False
  | project _ _ _ _, _ => False

theorem aboutShapes_of_refuses {call : Call α} {e : MatrixError α} (h : call.Refuses e) :
    e.AboutShapes := by
  cases call with
  | elementwise | product | inverse | eigen | inertia => cases h; trivial
  | transform => cases h
  | analyse | project =>
      cases h
      split <;> trivial

theorem not_aboutShapes_of_fails {call : Call α} {e : MatrixError α} (h : call.Fails e) :
    ¬ e.AboutShapes := by
  cases call with
  | inverse =>
      obtain ⟨pivot, value, rfl⟩ := h
      exact not_false
  | eigen =>
      obtain ⟨index, rfl⟩ := h
      exact not_false
  | elementwise | product | transform | inertia | analyse | project => cases h

/-- What may come of a call: an answer of the right form made of well-formed matrices, or
an error met on the way, if the operands fit, and a complaint otherwise. -/
inductive Outcome (call : Call α) : Except (MatrixError α) (Answer α) → Prop where
  | answered {answer : Answer α} (hfits : call.Fits) (hform : answer.form = call.form)
      (hmatrices : ∀ m ∈ answer.matrices, m.WellFormed) : Outcome call (.ok answer)
  | failed {e : MatrixError α} (hfits : call.Fits) (he : call.Fails e) : Outcome call (.error e)
  | refused {e : MatrixError α} (hmisfit : ¬ call.Fits) (he : call.Refuses e) :
      Outcome call (.error e)

/-- A complaint about shapes comes exactly of operands that do not fit. -/
theorem aboutShapes_iff {call : Call α} {result : Except (MatrixError α) (Answer α)}
    (h : call.Outcome result) :
    (∃ e, result = .error e ∧ e.AboutShapes) ↔ ¬ call.Fits := by
  cases h with
  | answered hfits => simp [hfits]
  | failed hfits he =>
      have hnot := not_aboutShapes_of_fails he
      simp [hfits, hnot]
  | refused hmisfit he =>
      have habout := aboutShapes_of_refuses he
      simp [hmisfit, habout]

theorem outcome_of_determined {call : Call α} {shape : Shape} {e : MatrixError α}
    {result : Except (MatrixError α) (DenseMatrix α)}
    (h : DenseMatrix.Determined call.Fits shape e result) (hform : call.form = .matrix shape)
    (hpos : call.Fits → 1 ≤ shape.rows ∧ 1 ≤ shape.cols) (he : call.Refuses e) :
    call.Outcome (result.map .matrix) := by
  rcases h with ⟨hfits, m, rfl, rfl⟩ | ⟨hmisfit, rfl⟩
  · refine .answered hfits hform.symm ?_
    intro m' hm'
    obtain rfl := List.mem_singleton.mp hm'
    exact DenseMatrix.wellFormed_iff.mpr (hpos hfits)
  · exact .refused hmisfit he

variable [Scalar α]

def run : Call α → Except (MatrixError α) (Answer α)
  | elementwise kind a b => (kind.apply a b).map .matrix
  | product kind a b => (kind.apply a b).map .matrix
  | transform kind m => .ok (.matrix (kind.apply m))
  | inverse m => m.symmetricInverse.map .matrix
  | eigen tolerance limit m => (m.eigen tolerance limit).map .eigen
  | inertia values => (Correspondence.explainedInertia values).map .inertia
  | analyse table vectors values => (Correspondence.analyse table vectors values).map .analysis
  | project kind points coordinates values =>
    (Correspondence.project kind points coordinates values).map .matrix

/-- The computation on plain indices. -/
def onIndices : Call α → Checked α (Answer α)
  | elementwise kind a b => (Indexed.zipWith kind.operation kind.onElements a b).map .matrix
  | product kind a b => (kind.onIndices a b).map .matrix
  | transform kind m => (kind.onIndices m).map .matrix
  | inverse m => (Indexed.symmetricInverse m).map .matrix
  | eigen tolerance limit m => (Indexed.eigen tolerance limit m).map .eigen
  | inertia values => (Indexed.explainedInertia values).map .inertia
  | analyse table vectors values => (Indexed.analyse table vectors values).map .analysis
  | project .rows points coordinates values =>
    (Indexed.projectRows points coordinates values).map .matrix
  | project .columns points coordinates values =>
    (Indexed.projectColumns points coordinates values).map .matrix

theorem onIndices_eq {call : Call α} (h : ∀ m ∈ call.operands, m.WellFormed) :
    call.onIndices = refusing call.run := by
  have hmap : ∀ {β γ : Type} (result : Except (MatrixError α) β) (f : β → γ),
      (refusing result).map f = refusing (result.map f) := by
    intro β γ result f
    cases result <;> rfl
  cases call with
  | elementwise kind a b =>
      rw [onIndices, run, kind.apply_eq, Indexed.zipWith_eq, hmap]
  | product kind a b => rw [onIndices, run, kind.onIndices_eq, hmap]
  | transform kind m =>
      rw [onIndices, run, kind.onIndices_eq]
      rfl
  | inverse m => rw [onIndices, run, Indexed.symmetricInverse_eq, hmap]
  | eigen tolerance limit m =>
      have hm : m.WellFormed := h m List.mem_cons_self
      rw [onIndices, run, Indexed.eigen_eq tolerance limit hm.rows_pos, hmap]
  | inertia values =>
      have hvalues : values.WellFormed := h values List.mem_cons_self
      rw [onIndices, run, Indexed.explainedInertia_eq hvalues, hmap]
  | analyse table vectors values =>
      have hvalues : values.WellFormed := h values (by simp [operands])
      rw [onIndices, run, Indexed.analyse_eq table vectors hvalues, hmap]
  | project kind points coordinates values =>
      have hvalues : values.WellFormed := h values (by simp [operands])
      cases kind with
      | rows =>
          rw [onIndices, run, Indexed.projectRows_eq points coordinates hvalues, hmap]
          rfl
      | columns =>
          rw [onIndices, run, Indexed.projectColumns_eq points coordinates hvalues, hmap]
          rfl

/-! ## Outcomes -/

theorem outcome_inverse {m : DenseMatrix α} (h : m.WellFormed) :
    (inverse m).Outcome (inverse m).run := by
  rw [run]
  rcases m.symmetricInverse_cases with
    ⟨hsquare, ⟨n, hn⟩ | ⟨pivot, value, hfailed⟩⟩ | ⟨hmisfit, hrefused⟩
  · have hshape := (DenseMatrix.shape_symmetricInverse hn).1
    rw [hn]
    refine .answered hsquare (congrArg Form.matrix hshape) ?_
    intro m' hm'
    obtain rfl := List.mem_singleton.mp hm'
    exact h.of_shape_eq hshape
  · rw [hfailed]
    exact .failed hsquare ⟨pivot, value, rfl⟩
  · rw [hrefused]
    exact .refused hmisfit rfl

theorem outcome_eigen (tolerance : α) (limit : Nat) {m : DenseMatrix α} (h : m.WellFormed) :
    (eigen tolerance limit m).Outcome (eigen tolerance limit m).run := by
  rw [run]
  rcases m.eigen_cases tolerance limit with
    ⟨hsquare, ⟨e, he, hvalues, hvectors⟩ | ⟨index, hfailed⟩⟩ | ⟨hmisfit, hrefused⟩
  · rw [he]
    refine .answered hsquare ?_ ?_
    · show Form.eigen e.values.length e.vectors.shape = .eigen m.rows ⟨m.rows, m.rows⟩
      rw [hvalues, hvectors]
    · intro m' hm'
      obtain rfl := List.mem_singleton.mp hm'
      have hrows : e.vectors.rows = m.rows := congrArg Shape.rows hvectors
      have hcols : e.vectors.cols = m.rows := congrArg Shape.cols hvectors
      exact DenseMatrix.wellFormed_iff.mpr ⟨hrows ▸ h.rows_pos, hcols ▸ h.rows_pos⟩
  · rw [hfailed]
    exact .failed hsquare ⟨index, rfl⟩
  · rw [hrefused]
    exact .refused hmisfit rfl

theorem outcome_inertia {values : DenseMatrix α} (h : values.WellFormed) :
    (inertia values).Outcome (inertia values).run := by
  rw [run, Correspondence.explainedInertia]
  by_cases hrows : 2 ≤ values.rows
  · obtain ⟨lambdas, hlambdas⟩ := Correspondence.axisValues_of_le h hrows
    rw [hlambdas]
    refine .answered hrows ?_ ?_
    · show Form.inertia (Correspondence.shares _ 1 0 lambdas.toList).length =
        .inertia (values.rows - 1)
      rw [Correspondence.length_shares, Vector.length_toList]
    · intro m hm
      exact absurd hm List.not_mem_nil
  · rw [Correspondence.axisValues_of_lt (Nat.lt_of_not_le hrows)]
    exact .refused hrows rfl

theorem outcome_analyse {table : DenseMatrix α} (vectors : DenseMatrix α) {values : DenseMatrix α}
    (htable : table.WellFormed) (hvalues : values.WellFormed) :
    (analyse table vectors values).Outcome (analyse table vectors values).run := by
  rw [run, Correspondence.analyse]
  by_cases hrows : 2 ≤ values.rows
  · obtain ⟨lambdas, hlambdas⟩ := Correspondence.axisValues_of_le hvalues hrows
    rw [hlambdas, ok_bind, Correspondence.axisVectors]
    by_cases hfits : vectors.rows = table.cols ∧ values.rows - 1 < vectors.cols
    · rw [dif_pos hfits]
      refine .answered ⟨hrows, hfits⟩ rfl ?_
      have hpoints : 1 ≤ table.cols + table.rows := Nat.le_add_right_of_le htable.cols_pos
      have haxes : 1 ≤ values.rows - 1 := Nat.le_sub_one_of_lt hrows
      intro m hm
      simp only [Answer.matrices, List.mem_cons, List.not_mem_nil, or_false] at hm
      rcases hm with rfl | rfl | rfl <;> exact DenseMatrix.wellFormed_iff.mpr ⟨hpoints, haxes⟩
    · rw [dif_neg hfits]
      refine .refused (fun h => hfits h.2) ?_
      show _ = if values.rows < 2 then _ else _
      rw [if_neg (Nat.not_lt_of_le hrows)]
  · have hfew : values.rows < 2 := Nat.lt_of_not_le hrows
    rw [Correspondence.axisValues_of_lt hfew]
    refine .refused (fun h => hrows h.1) ?_
    show _ = if values.rows < 2 then _ else _
    rw [if_pos hfew]

/-- With eigenvalues that are there, a projection depends on the shape of the coordinates. -/
theorem project_cases (kind : PointKind) (points coordinates : DenseMatrix α)
    {values : DenseMatrix α} {lambdas : Vector α (values.rows - 1)}
    (h : Correspondence.axisValues values = .ok lambdas) :
    DenseMatrix.Determined
      (active points kind ≤ coordinates.rows ∧ values.rows - 1 ≤ coordinates.cols)
      ⟨projected points kind, values.rows - 1⟩
      (.coordinateShape kind coordinates.shape (active points kind) (values.rows - 1))
      (Correspondence.project kind points coordinates values) := by
  cases kind with
  | rows =>
      rw [active, Correspondence.project, Correspondence.projectRows, h, ok_bind]
      split
      next hfits => exact .inl ⟨hfits, _, rfl, rfl⟩
      next hmisfit => exact .inr ⟨hmisfit, rfl⟩
  | columns =>
      rw [active, Correspondence.project, Correspondence.projectColumns, h, ok_bind]
      split
      next hfits => exact .inl ⟨hfits, _, rfl, rfl⟩
      next hmisfit => exact .inr ⟨hmisfit, rfl⟩

theorem project_of_error (kind : PointKind) (points coordinates : DenseMatrix α)
    {values : DenseMatrix α} {e : MatrixError α} (h : Correspondence.axisValues values = .error e) :
    Correspondence.project kind points coordinates values = .error e := by
  cases kind with
  | rows =>
      rw [Correspondence.project, Correspondence.projectRows, h]
      rfl
  | columns =>
      rw [Correspondence.project, Correspondence.projectColumns, h]
      rfl

theorem determined_project (kind : PointKind) (points coordinates : DenseMatrix α)
    {values : DenseMatrix α} (h : values.WellFormed) :
    DenseMatrix.Determined (project kind points coordinates values).Fits
      ⟨projected points kind, values.rows - 1⟩
      (if values.rows < 2 then .fewEigenvalues values.rows
        else .coordinateShape kind coordinates.shape (active points kind) (values.rows - 1))
      (Correspondence.project kind points coordinates values) := by
  by_cases hrows : 2 ≤ values.rows
  · obtain ⟨lambdas, hlambdas⟩ := Correspondence.axisValues_of_le h hrows
    rw [if_neg (Nat.not_lt_of_le hrows)]
    rcases project_cases kind points coordinates hlambdas with
      ⟨hfits, hplaces⟩ | ⟨hmisfit, hrefused⟩
    · exact .inl ⟨⟨hrows, hfits⟩, hplaces⟩
    · exact .inr ⟨fun h => hmisfit h.2, hrefused⟩
  · have hfew : values.rows < 2 := Nat.lt_of_not_le hrows
    rw [if_pos hfew]
    exact .inr ⟨fun h => hrows h.1,
      project_of_error kind points coordinates (Correspondence.axisValues_of_lt hfew)⟩

theorem outcome_run {call : Call α} (h : ∀ m ∈ call.operands, m.WellFormed) :
    call.Outcome call.run := by
  cases call with
  | elementwise kind a b =>
      have ha : a.WellFormed := h a List.mem_cons_self
      rw [run, kind.apply_eq]
      exact outcome_of_determined (DenseMatrix.determined_zipWith _ _ a b) rfl
        (fun _ => ⟨ha.rows_pos, ha.cols_pos⟩) rfl
  | product kind a b =>
      have ha : a.WellFormed := h a List.mem_cons_self
      have hb : b.WellFormed := h b (by simp [operands])
      exact outcome_of_determined (kind.determined_apply a b) rfl
        (fun _ => ⟨ha.rows_pos, hb.cols_pos⟩) rfl
  | transform kind m =>
      have hm : m.WellFormed := h m List.mem_cons_self
      refine .answered trivial (congrArg Form.matrix (kind.shape_apply m)) ?_
      intro m' hm'
      obtain rfl := List.mem_singleton.mp hm'
      exact kind.wellFormed_apply hm
  | inverse m => exact outcome_inverse (h m List.mem_cons_self)
  | eigen tolerance limit m => exact outcome_eigen tolerance limit (h m List.mem_cons_self)
  | inertia values => exact outcome_inertia (h values List.mem_cons_self)
  | analyse table vectors values =>
      exact outcome_analyse vectors (h table List.mem_cons_self) (h values (by simp [operands]))
  | project kind points coordinates values =>
      have hpoints : points.WellFormed := h points List.mem_cons_self
      have hvalues : values.WellFormed := h values (by simp [operands])
      apply outcome_of_determined (determined_project kind points coordinates hvalues) rfl ?_ rfl
      intro hfits
      refine ⟨?_, Nat.le_sub_one_of_lt hfits.1⟩
      cases kind with
      | rows => exact hpoints.rows_pos
      | columns => exact hpoints.cols_pos

/-- On well-formed operands a numeric routine stays inside its matrices and vectors: on
plain indices it comes to the same, and it never stops at an access.  It gives an answer
of the right form or an error, and complains about shapes exactly if they do not fit. -/
theorem run_staysInside (call : Call α) (h : ∀ m ∈ call.operands, m.WellFormed) :
    call.onIndices = refusing call.run ∧
      (∀ shape row column, call.onIndices ≠ .error (.cell shape row column)) ∧
      (∀ length index, call.onIndices ≠ .error (.entry length index)) ∧
      call.Outcome call.run ∧
      ((∃ e, call.run = .error e ∧ e.AboutShapes) ↔ ¬ call.Fits) := by
  have heq := onIndices_eq h
  have houtcome := outcome_run h
  refine ⟨heq, ?_, ?_, houtcome, aboutShapes_iff houtcome⟩
  · intro shape row column
    rw [heq]
    cases call.run <;> simp
  · intro length index
    rw [heq]
    cases call.run <;> simp

/-- One supplementary column against the last two of five points, on two axes. -/
theorem run_staysInside_last_points :
    let call : Call Float := .project .columns (.zeros 2 1) (.zeros 5 2) (.zeros 3 1)
    (∀ m ∈ call.operands, m.WellFormed) ∧ call.Fits ∧
      ∃ answer, call.onIndices = .ok answer ∧ answer.form = .matrix ⟨1, 2⟩ := by
  intro call
  have hoperands : ∀ m ∈ call.operands, m.WellFormed := by
    intro m hm
    simp only [call, operands, List.mem_cons, List.not_mem_nil, or_false] at hm
    rw [DenseMatrix.wellFormed_iff]
    rcases hm with rfl | rfl | rfl <;> decide
  have hfits : call.Fits := by
    show 2 ≤ 3 ∧ 2 ≤ 5 ∧ 3 - 1 ≤ 2
    decide
  obtain ⟨hindices, -, -, houtcome, -⟩ := run_staysInside call hoperands
  refine ⟨hoperands, hfits, ?_⟩
  rw [hindices]
  cases houtcome with
  | answered _ hform _ => exact ⟨_, rfl, hform⟩

end Call

end Kernel

end MatrixScript
