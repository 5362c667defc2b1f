import Mathlib.Data.Fin.Tuple.Basic
import Mathlib.Data.Fintype.EquivFin
import Mathlib.Data.Fintype.Lattice
import MatrixScript.Proofs.Expression.Denotation
import MatrixScript.Proofs.Relation.Lattice

/-!
# Powers of a relation

Read a square matrix as a graph with an edge from every index to every other, as wide as the
element there.  A walk is as wide as its narrowest edge, and the product `A ^ A ^ … ^ A` of `k`
factors has the widths of the widest walks of `k` edges for its elements; on a matrix of zeros and
ones it says where there is a walk of exactly `k` edges.

The invariant of the products from left to right is `Widest`, which says how wide the widest walks
are by the bounds that a walk can keep to: so a product appends an edge, and no maximum over walks
has to be exchanged with a minimum.
-/

namespace MatrixScript

open Binary64

/-! ## Walks -/

/-- A walk of `k` edges from `i` to `j`. -/
structure Walk (n k : ℕ) (i j : Fin n) where
  place : Fin (k + 1) → Fin n
  start_eq : place 0 = i
  stop_eq : place (Fin.last k) = j

section Walks

variable {α : Type} {n k : ℕ} {i j : Fin n} {g : Grid α n n} {P : α → Prop}

/-- The element at an edge of a walk. -/
def Walk.edge (w : Walk n k i j) (g : Grid α n n) (t : Fin k) : α :=
  g.get (w.place t.castSucc) (w.place t.succ)

/-- The last edge of a walk can be taken off. -/
theorem exists_walk_succ_iff :
    (∃ w : Walk n (k + 1) i j, ∀ t, P (w.edge g t)) ↔
      ∃ l, (∃ w : Walk n k i l, ∀ t, P (w.edge g t)) ∧ P (g.get l j) := by
  constructor
  · rintro ⟨w, hw⟩
    have hlast := hw (Fin.last k)
    rw [Walk.edge, Fin.succ_last, w.stop_eq] at hlast
    exact ⟨_, ⟨⟨fun t => w.place t.castSucc, w.start_eq, rfl⟩, fun t => hw t.castSucc⟩, hlast⟩
  · rintro ⟨l, ⟨w, hw⟩, hlast⟩
    have hbefore (t : Fin (k + 1)) :
        Fin.snoc (α := fun _ => Fin n) w.place j t.castSucc = w.place t := Fin.snoc_castSucc _ _ t
    have hstop : Fin.snoc (α := fun _ => Fin n) w.place j (Fin.last (k + 1)) = j :=
      Fin.snoc_last _ _
    have hedge (t : Fin (k + 1)) :
        P (g.get (Fin.snoc (α := fun _ => Fin n) w.place j t.castSucc)
          (Fin.snoc (α := fun _ => Fin n) w.place j t.succ)) := by
      rw [hbefore]
      cases t using Fin.lastCases with
      | last =>
          rw [Fin.succ_last, hstop, w.stop_eq]
          exact hlast
      | cast t =>
          rw [Fin.succ_castSucc, hbefore]
          exact hw t
    exact ⟨⟨Fin.snoc w.place j, (hbefore 0).trans w.start_eq, hstop⟩, hedge⟩

theorem exists_walk_one_iff :
    (∃ w : Walk n 1 i j, ∀ t, P (w.edge g t)) ↔ P (g.get i j) := by
  rw [exists_walk_succ_iff]
  constructor
  · rintro ⟨l, ⟨w, -⟩, hedge⟩
    have hstay : i = l := w.start_eq.symm.trans w.stop_eq
    rwa [hstay]
  · intro hedge
    exact ⟨i, ⟨⟨fun _ => i, rfl, rfl⟩, fun t => t.elim0⟩, hedge⟩

end Walks

/-! ## Widest walks -/

section Widths

variable {n k : ℕ} {g m : Grid Float n n}

/-- The elements of `m` are the widths of the widest walks of `k` edges: a walk can keep to a bound
exactly if the element does. -/
def Widest (g : Grid Float n n) (k : ℕ) (m : Grid Float n n) : Prop :=
  ∀ i j, IsNumber (m.get i j) ∧ ∀ bound : EReal, bound ≤ value (m.get i j) ↔
    ∃ w : Walk n k i j, ∀ t, bound ≤ value (w.edge g t)

theorem widest_one (hg : ∀ i j, IsNumber (g.get i j)) : Widest g 1 g := by
  intro i j
  exact ⟨hg i j, fun bound => (exists_walk_one_iff (P := fun x => bound ≤ value x)).symm⟩

theorem le_iSup_inf_iff [Nonempty (Fin n)] {f h : Fin n → EReal} {bound : EReal} :
    bound ≤ ⨆ l, f l ⊓ h l ↔ ∃ l, bound ≤ f l ∧ bound ≤ h l := by
  constructor
  · intro hle
    obtain ⟨l, hl⟩ := Finite.exists_max fun l => f l ⊓ h l
    exact ⟨l, le_inf_iff.mp (hle.trans (iSup_le hl))⟩
  · rintro ⟨l, hl⟩
    exact le_iSup_of_le l (le_inf_iff.mpr hl)

/-- A further factor makes the walks longer by one edge. -/
theorem Widest.maxMin (hg : ∀ i j, IsNumber (g.get i j)) (h : Widest g k m) :
    ∃ p, DenseMatrix.maxMin ⟨n, n, m⟩ ⟨n, n, g⟩ = .ok ⟨n, n, p⟩ ∧ Widest g (k + 1) p := by
  refine ⟨_, DenseMatrix.product_of_shape .maxMinProduct _ _ m g, fun i j => ?_⟩
  have hproduct : Represents (Scalar.maximum fun l => Scalar.min (m.get i l) (g.get l j))
      (⨆ l, value (m.get i l) ⊓ value (g.get l j)) :=
    represents_maximum fun l => represents_min ⟨(h i l).1, rfl⟩ ⟨hg l j, rfl⟩
  rw [Grid.get_ofFn]
  refine ⟨hproduct.1, fun bound => ?_⟩
  have : Nonempty (Fin n) := ⟨i⟩
  rw [hproduct.2, le_iSup_inf_iff, exists_walk_succ_iff (P := fun x => bound ≤ value x)]
  exact exists_congr fun l => and_congr_left fun _ => (h i l).2 bound

/-- The widest walk is one whose narrowest edge is as wide as the element, and no walk is wider. -/
theorem Widest.isGreatest (h : Widest g (k + 1) m) (i j : Fin n) :
    IsGreatest {s | ∃ w : Walk n (k + 1) i j, IsLeast (Set.range fun t => value (w.edge g t)) s}
      (value (m.get i j)) := by
  obtain ⟨-, hbound⟩ := h i j
  constructor
  · -- The narrowest edge of a walk that keeps to the element is again a bound that it keeps to.
    obtain ⟨w, hw⟩ := (hbound _).mp le_rfl
    obtain ⟨t, ht⟩ := Finite.exists_min fun t => value (w.edge g t)
    have hle : value (w.edge g t) ≤ value (m.get i j) := (hbound _).mpr ⟨w, ht⟩
    refine ⟨w, ⟨t, hle.antisymm (hw t)⟩, ?_⟩
    rintro _ ⟨t, rfl⟩
    exact hw t
  · rintro s ⟨w, -, hleast⟩
    exact (hbound s).mpr ⟨w, fun t => hleast ⟨t, rfl⟩⟩

/-- An element of a matrix of zeros and ones. -/
def IsBit (x : Float) : Prop := (x == 0) = true ∨ (x == 1) = true

theorem value_zero_lt_value_one : value 0 < value 1 :=
  (lt_iff.mp (show (0 : Float) < 1 by decide)).2.2

theorem IsBit.value_one_le_iff {x : Float} (h : IsBit x) :
    value 1 ≤ value x ↔ (x == 1) = true := by
  constructor
  · intro hle
    refine h.resolve_left fun hzero => ?_
    rw [(beq_iff.mp hzero).2.2] at hle
    exact hle.not_gt value_zero_lt_value_one
  · intro hone
    exact (beq_iff.mp hone).2.2.ge

theorem IsBit.beq_zero_iff {x : Float} (h : IsBit x) :
    (x == 0) = true ↔ ¬ (x == 1) = true := by
  constructor
  · intro hzero hone
    have hvalue := (beq_iff.mp hzero).2.2.symm.trans (beq_iff.mp hone).2.2
    exact value_zero_lt_value_one.ne hvalue
  · exact h.resolve_right

theorem IsBit.of_value_eq {x y : Float} (h : IsBit x) (hy : IsNumber y)
    (hvalue : value x = value y) : IsBit y := by
  have hcopy {c : Float} (hc : (x == c) = true) : (y == c) = true := by
    obtain ⟨-, hnumber, heq⟩ := beq_iff.mp hc
    exact beq_iff.mpr ⟨hy, hnumber, hvalue.symm.trans heq⟩
  exact h.imp hcopy hcopy

/-- Over zeros and ones, an element is one if there is a walk of ones, and otherwise zero. -/
theorem Widest.beq_iff_exists_walk (h : Widest g (k + 1) m) (hg : ∀ i j, IsBit (g.get i j))
    (i j : Fin n) :
    ((m.get i j == 1) = true ↔ ∃ w : Walk n (k + 1) i j, ∀ t, (w.edge g t == 1) = true) ∧
    ((m.get i j == 0) = true ↔ ¬ ∃ w : Walk n (k + 1) i j, ∀ t, (w.edge g t == 1) = true) := by
  obtain ⟨w, ⟨t, ht⟩, -⟩ := (h.isGreatest i j).1
  have hbit : IsBit (m.get i j) := (hg _ _).of_value_eq (h i j).1 ht
  have hone : (m.get i j == 1) = true ↔
      ∃ w : Walk n (k + 1) i j, ∀ t, (w.edge g t == 1) = true := by
    rw [← hbit.value_one_le_iff, (h i j).2]
    exact exists_congr fun w => forall_congr' fun t => (hg _ _).value_one_le_iff
  exact ⟨hone, hbit.beq_zero_iff.trans hone.not⟩

end Widths

/-! ## Written powers -/

namespace Expression

open Lexer

variable {name : VariableName} {k : ℕ} {tokens : List Token} {env : Env}

/-- The tokens of a product `A ^ A ^ … ^ A` of `k` factors. -/
inductive Factors (name : VariableName) : ℕ → List Token → Prop
  | one {token : Token} (hkind : token.kind = .word)
      (hname : VariableName.ofText? token.lexeme = some name) : Factors name 1 [token]
  | more {k : ℕ} {tokens : List Token} {caret token : Token} (h : Factors name k tokens)
      (hcaret : caret.kind = .delimiter .caret) (hkind : token.kind = .word)
      (hname : VariableName.ofText? token.lexeme = some name) :
      Factors name (k + 1) (tokens ++ [caret, token])

/-- The tree of a product of `k + 1` factors, which are taken from the left to the right. -/
def power (name : VariableName) : ℕ → Tree
  | 0 => .named name
  | k + 1 => .binary .maxMinProduct (power name k) (.named name)

theorem Factors.renders (h : Factors name k tokens) :
    ∃ d, k = d + 1 ∧ ∀ last, Renders .product last (power name d) tokens := by
  induction h with
  | one hkind hname => exact ⟨0, rfl, fun last => .ofOperand (.ofAtom (.named hkind hname))⟩
  | more _ hcaret hkind hname ih =>
      obtain ⟨d, rfl, hrenders⟩ := ih
      refine ⟨d + 1, rfl, fun last => .product ?_ (hrenders false) (.ofAtom (.named hkind hname))⟩
      rw [productOperator?, Token.delimiter?, hcaret]
      rfl

theorem denote_power {n : ℕ} {g : Grid Float n n} (hbound : env.store.bound name = .ok ⟨n, n, g⟩)
    (hg : ∀ i j, IsNumber (g.get i j)) (d : ℕ) :
    ∃ m, (power name d).denote env = .ok ⟨n, n, m⟩ ∧ Widest g (d + 1) m := by
  induction d with
  | zero => exact ⟨g, hbound, widest_one hg⟩
  | succ d ih =>
      obtain ⟨m, hm, hwidest⟩ := ih
      obtain ⟨p, hp, hlonger⟩ := hwidest.maxMin hg
      refine ⟨p, ?_, hlonger⟩
      have hnamed : Tree.denote env (.named name) = .ok ⟨n, n, g⟩ := hbound
      rw [power, Tree.denote, hm, hnamed]
      change (DenseMatrix.maxMin ⟨n, n, m⟩ ⟨n, n, g⟩).mapError Error.matrix = _
      rw [hp]
      rfl

/-- The elements of a product `A ^ A ^ … ^ A` of `k` factors are the greatest of the least
elements along the walks of `k` edges between two indices.  Over zeros and ones, an element is one
if there is a walk of exactly `k` edges and zero if there is none. -/
theorem evaluate_power_walks {reader : Reader} {next : Token} {n : ℕ} {g : Grid Float n n}
    (hfactors : Factors name k tokens) (hsound : reader.lexer.Sound)
    (hup : reader.lexer.Upcoming (tokens ++ [next])) (hnext : EndsSum next)
    (hbound : env.store.bound name = .ok ⟨n, n, g⟩) (hg : DenseMatrix.NaNFree ⟨n, n, g⟩) :
    ∃ (m : Grid Float n n) (reader' : Reader), evaluate env reader = .ok ⟨n, n, m⟩ reader' ∧
      Reads reader.lexer tokens reader'.lexer ∧ DenseMatrix.NaNFree ⟨n, n, m⟩ ∧
      (∀ i j, IsGreatest
        {s | ∃ w : Walk n k i j, IsLeast (Set.range fun t => value (w.edge g t)) s}
        (value (m.get i j))) ∧
      ((∀ i j, IsBit (g.get i j)) → ∀ i j,
        ((m.get i j == 1) = true ↔ ∃ w : Walk n k i j, ∀ t, (w.edge g t == 1) = true) ∧
        ((m.get i j == 0) = true ↔ ¬ ∃ w : Walk n k i j, ∀ t, (w.edge g t == 1) = true)) := by
  obtain ⟨d, rfl, hrenders⟩ := hfactors.renders
  obtain ⟨m, hm, hwidest⟩ := denote_power hbound hg d
  have hyields : Yields env (power name d) tokens (evaluate env) reader :=
    yields_evaluate (.ofProduct (hrenders true)) hsound hup hnext
  rw [Yields, hm] at hyields
  obtain ⟨reader', hevaluate, hreads⟩ := hyields
  exact ⟨m, reader', hevaluate, hreads, fun i j => (hwidest i j).1, hwidest.isGreatest,
    hwidest.beq_iff_exists_walk⟩

/-- From `0` over `1` to `2` and around there, a walk of three edges; none comes back. -/
theorem evaluate_power_walks_cube :
    let g : Grid Float 3 3 := ⟨#v[0, 1, 0, -0, 0, 1, 0, 0, 1]⟩
    let env : Env := ⟨Store.empty.insert ⟨0⟩ ⟨3, 3, g⟩, 100⟩
    let reader : Reader := { lexer := { source := "A ^ A ^ A\n".toList, params := [] } }
    ∃ (m : Grid Float 3 3) (reader' : Reader), evaluate env reader = .ok ⟨3, 3, m⟩ reader' ∧
      (m.get 0 2 == 1) = true ∧ (m.get 2 0 == 0) = true := by
  intro g env reader
  have hfactors : Factors ⟨0⟩ 3
      [⟨.word, "A", ⟨0, 1⟩⟩, ⟨.delimiter .caret, "^", ⟨2, 1⟩⟩, ⟨.word, "A", ⟨4, 1⟩⟩,
        ⟨.delimiter .caret, "^", ⟨6, 1⟩⟩, ⟨.word, "A", ⟨8, 1⟩⟩] :=
    .more (.more (.one rfl rfl) rfl rfl rfl) rfl rfl rfl
  have hsound : reader.lexer.Sound := sound_of_start rfl rfl rfl
  have hnext : EndsSum ⟨.delimiter .endOfLine, "\n", ⟨9, 1⟩⟩ := ⟨rfl, rfl⟩
  have hbits : ∀ i j, IsBit (g.get i j) := by
    unfold IsBit
    decide
  obtain ⟨m, reader', hevaluate, -, -, -, hwalks⟩ :=
    @evaluate_power_walks ⟨0⟩ 3 _ env reader _ 3 g hfactors hsound (by decide +kernel) hnext rfl
      (by decide)
  refine ⟨m, reader', hevaluate, (hwalks hbits 0 2).1.mpr ?_, (hwalks hbits 2 0).2.mpr ?_⟩
  · exact ⟨⟨#v[0, 1, 2, 2].get, rfl, rfl⟩, by decide⟩
  · intro hwalk
    have hcolumn : ∀ l, ¬ (g.get l 0 == 1) = true := by decide
    obtain ⟨l, -, hedge⟩ := (exists_walk_succ_iff (P := fun x => (x == 1) = true)).mp hwalk
    exact hcolumn l hedge

end Expression

end MatrixScript
