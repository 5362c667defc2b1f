import Mathlib.LinearAlgebra.Matrix.NonsingularInverse
import Mathlib.Tactic.Ring
import MatrixScript.Proofs.Bounds.Iteration
import MatrixScript.Proofs.Exact.Real

/-!
# Plane rotations in exact arithmetic

A sweep of the iteration rotates two neighbouring columns after the other.  Such a rotation is
a multiplication by an orthogonal matrix (`basis_rotate`), and it takes a symmetric matrix
with a band of five diagonals to another one, in which only the elements around the two indices
have changed (`Turns.banded_eq`).
-/

namespace MatrixScript

namespace Iteration

open Matrix

variable {n : Nat}

/-! ## Rotations -/

/-- The columns of a matrix after a rotation in the plane of `i` and `i + 1`. -/
def rotated (i : Fin (n - 1)) (sine cosine : ℝ) (A : Matrix (Fin n) (Fin n) ℝ) :
    Matrix (Fin n) (Fin n) ℝ :=
  Matrix.of fun k j =>
    if j = Index.next i then sine * A k (Index.here i) + cosine * A k (Index.next i)
    else if j = Index.here i then cosine * A k (Index.here i) - sine * A k (Index.next i)
    else A k j

noncomputable def rotation (i : Fin (n - 1)) (sine cosine : ℝ) : Matrix (Fin n) (Fin n) ℝ :=
  rotated i sine cosine 1

section Rotation

variable (i : Fin (n - 1)) (sine cosine : ℝ) (A : Matrix (Fin n) (Fin n) ℝ)

theorem here_ne_next : Index.here i ≠ Index.next i := by
  have hhere := Index.val_here i
  have hnext := Index.val_next i
  omega

theorem rotated_next (k : Fin n) : rotated i sine cosine A k (Index.next i) =
    sine * A k (Index.here i) + cosine * A k (Index.next i) := if_pos rfl

theorem rotated_here (k : Fin n) : rotated i sine cosine A k (Index.here i) =
    cosine * A k (Index.here i) - sine * A k (Index.next i) :=
  (if_neg (here_ne_next i)).trans (if_pos rfl)

theorem rotated_of_ne (k : Fin n) {j : Fin n} (hhere : j ≠ Index.here i)
    (hnext : j ≠ Index.next i) : rotated i sine cosine A k j = A k j :=
  (if_neg hnext).trans (if_neg hhere)

theorem mul_rotated (B : Matrix (Fin n) (Fin n) ℝ) :
    A * rotated i sine cosine B = rotated i sine cosine (A * B) := by
  ext k j
  rcases eq_or_ne j (Index.next i) with rfl | hnext
  · simp only [rotated_next, Matrix.mul_apply, Finset.mul_sum, ← Finset.sum_add_distrib]
    exact Finset.sum_congr rfl fun p _ => by ring
  · rcases eq_or_ne j (Index.here i) with rfl | hhere
    · simp only [rotated_here, Matrix.mul_apply, Finset.mul_sum, ← Finset.sum_sub_distrib]
      exact Finset.sum_congr rfl fun p _ => by ring
    · simp only [rotated_of_ne i sine cosine _ _ hhere hnext, Matrix.mul_apply]

theorem mul_rotation : A * rotation i sine cosine = rotated i sine cosine A := by
  rw [rotation, mul_rotated, Matrix.mul_one]

/-- A matrix between a rotation and its transpose, rows and columns turned one after the other. -/
theorem conjugate_eq_rotated :
    (rotation i sine cosine)ᵀ * A * rotation i sine cosine =
      (rotated i sine cosine (rotated i sine cosine A)ᵀ)ᵀ := by
  rw [Matrix.mul_assoc, mul_rotation, ← mul_rotation i sine cosine (rotated i sine cosine A)ᵀ,
    transpose_mul, transpose_transpose]

end Rotation

/-! ## Bands -/

/-- The symmetric matrix with the diagonal `d`, with `e j` beside the diagonal at `j` and `j + 1`,
and with `f j` at `j` and `j + 2`. -/
def banded (d e f : Fin n → ℝ) : Matrix (Fin n) (Fin n) ℝ :=
  Matrix.of fun k j =>
    if k = j then d k
    else if k.val = j.val + 1 then e j
    else if j.val = k.val + 1 then e k
    else if k.val = j.val + 2 then f j
    else if j.val = k.val + 2 then f k
    else 0

/-- The last of the couplings stands beside nothing. -/
theorem banded_congr {d e e' f : Fin n → ℝ} (h : ∀ j : Fin n, j.val + 1 < n → e j = e' j) :
    banded d e f = banded d e' f := by
  ext k j
  rw [banded, banded, of_apply, of_apply]
  split_ifs
  · rfl
  · exact h j (by omega)
  · exact h k (by omega)
  all_goals rfl

/-- What a rotation in the plane of `i` and `i + 1` makes of a band: the bulge `f` moves from
`i` to the index before it. -/
structure Turns (i : Fin (n - 1)) (sine cosine : ℝ) (d e f d' e' f' : Fin n → ℝ) : Prop where
  diagonal : ∀ k, k ≠ Index.here i → k ≠ Index.next i → d' k = d k
  here : d' (Index.here i) = cosine * cosine * d (Index.here i) -
    2 * sine * cosine * e (Index.here i) + sine * sine * d (Index.next i)
  next : d' (Index.next i) = sine * sine * d (Index.here i) +
    2 * sine * cosine * e (Index.here i) + cosine * cosine * d (Index.next i)
  coupling : ∀ k, k ≠ Index.here i → k ≠ Index.next i → k.val + 1 ≠ i.val → e' k = e k
  between : e' (Index.here i) = sine * cosine * (d (Index.here i) - d (Index.next i)) +
    (cosine * cosine - sine * sine) * e (Index.here i)
  before : ∀ k : Fin n, k.val + 1 = i.val → e' k = cosine * e k ∧ f' k = sine * e k
  after : e' (Index.next i) = sine * f (Index.here i) + cosine * e (Index.next i)
  absorbed : cosine * f (Index.here i) = sine * e (Index.next i)
  bulge : ∀ k, k ≠ Index.here i → f k = 0
  bulge' : ∀ k : Fin n, k.val + 1 ≠ i.val → f' k = 0

namespace Turns

variable {i : Fin (n - 1)} {sine cosine : ℝ} {d e f d' e' f' : Fin n → ℝ}

/-- Row `i + 1`: the bulge that ends in it is absorbed, and another one comes up before `i`. -/
theorem row_next (h : Turns i sine cosine d e f d' e' f') (j : Fin n) :
    sine * rotated i sine cosine (banded d e f) (Index.here i) j +
        cosine * rotated i sine cosine (banded d e f) (Index.next i) j =
      banded d' e' f' (Index.next i) j := by
  have hhere := Index.val_here i
  have hnext := Index.val_next i
  rcases eq_or_ne j (Index.next i) with rfl | hjn
  · rw [rotated_next, rotated_next]
    simp only [banded, of_apply]
    grind [h.next]
  · rcases eq_or_ne j (Index.here i) with rfl | hjh
    · rw [rotated_here, rotated_here]
      simp only [banded, of_apply]
      grind [h.between]
    · rw [rotated_of_ne _ _ _ _ _ hjh hjn, rotated_of_ne _ _ _ _ _ hjh hjn]
      have hbefore := h.before j
      have hold := h.bulge j hjh
      have hbeyond := h.bulge (Index.next i) (here_ne_next i).symm
      have hnew := h.bulge' (Index.next i) (by omega)
      simp only [banded, of_apply]
      grind [h.after]

theorem row_here (h : Turns i sine cosine d e f d' e' f') (j : Fin n) :
    cosine * rotated i sine cosine (banded d e f) (Index.here i) j -
        sine * rotated i sine cosine (banded d e f) (Index.next i) j =
      banded d' e' f' (Index.here i) j := by
  have hhere := Index.val_here i
  have hnext := Index.val_next i
  rcases eq_or_ne j (Index.next i) with rfl | hjn
  · rw [rotated_next, rotated_next]
    simp only [banded, of_apply]
    grind [h.between]
  · rcases eq_or_ne j (Index.here i) with rfl | hjh
    · rw [rotated_here, rotated_here]
      simp only [banded, of_apply]
      grind [h.here]
    · rw [rotated_of_ne _ _ _ _ _ hjh hjn, rotated_of_ne _ _ _ _ _ hjh hjn]
      have hbefore := h.before j
      have hold := h.bulge j hjh
      have hbeyond := h.bulge (Index.next i) (here_ne_next i).symm
      have hnew := h.bulge' j
      have hhere' := h.bulge' (Index.here i) (by omega)
      simp only [banded, of_apply]
      grind [h.absorbed]

theorem row_of_ne (h : Turns i sine cosine d e f d' e' f') {k : Fin n}
    (hkh : k ≠ Index.here i) (hkn : k ≠ Index.next i) (j : Fin n) :
    rotated i sine cosine (banded d e f) k j = banded d' e' f' k j := by
  have hhere := Index.val_here i
  have hnext := Index.val_next i
  have hold := h.bulge k hkh
  have hnew := h.bulge' k
  have hbefore := h.before k
  rcases eq_or_ne j (Index.next i) with rfl | hjn
  · rw [rotated_next]
    have hbeyond := h.bulge (Index.next i) (here_ne_next i).symm
    have hnext' := h.bulge' (Index.next i) (by omega)
    simp only [banded, of_apply]
    grind [h.after]
  · rcases eq_or_ne j (Index.here i) with rfl | hjh
    · rw [rotated_here]
      have hbeyond := h.bulge (Index.next i) (here_ne_next i).symm
      have hhere' := h.bulge' (Index.here i) (by omega)
      simp only [banded, of_apply]
      grind [h.absorbed]
    · rw [rotated_of_ne _ _ _ _ _ hjh hjn]
      have holdj := h.bulge j hjh
      have hnewj := h.bulge' j
      have hdiagonal := h.diagonal k hkh hkn
      have hk := h.coupling k hkh hkn
      have hj := h.coupling j hjh hjn
      simp only [banded, of_apply]
      grind

/-- The rotation takes the one band to the other. -/
theorem banded_eq (h : Turns i sine cosine d e f d' e' f') :
    (rotation i sine cosine)ᵀ * banded d e f * rotation i sine cosine = banded d' e' f' := by
  rw [conjugate_eq_rotated]
  ext k j
  rw [transpose_apply]
  rcases eq_or_ne k (Index.next i) with rfl | hnext
  · rw [rotated_next]
    exact h.row_next j
  · rcases eq_or_ne k (Index.here i) with rfl | hhere
    · rw [rotated_here]
      exact h.row_here j
    · rw [rotated_of_ne _ _ _ _ _ hhere hnext]
      exact h.row_of_ne hhere hnext j

end Turns

theorem banded_one : banded (n := n) 1 0 0 = 1 := by
  ext k j
  rw [one_apply]
  simp [banded]

/-- A rotation is orthogonal, as it takes the identity to itself. -/
theorem transpose_rotation_mul_self (i : Fin (n - 1)) {sine cosine : ℝ}
    (h : sine * sine + cosine * cosine = 1) :
    (rotation i sine cosine)ᵀ * rotation i sine cosine = 1 := by
  have hturns : Turns i sine cosine 1 0 0 1 0 0 := by
    constructor <;> intros <;> simp only [Pi.one_apply, Pi.zero_apply] <;> grind
  have hone := hturns.banded_eq
  rwa [banded_one, Matrix.mul_one] at hone

theorem rotation_mul_transpose (i : Fin (n - 1)) {sine cosine : ℝ}
    (h : sine * sine + cosine * cosine = 1) :
    rotation i sine cosine * (rotation i sine cosine)ᵀ = 1 :=
  mul_eq_one_comm.mp (transpose_rotation_mul_self i h)

/-- Columns that are turned along with a matrix make up the same product with it. -/
theorem mul_conjugate_mul_transpose {r : Matrix (Fin n) (Fin n) ℝ} (hr : r * rᵀ = 1)
    (v A : Matrix (Fin n) (Fin n) ℝ) :
    v * r * (rᵀ * A * r) * (v * r)ᵀ = v * A * vᵀ := by
  calc v * r * (rᵀ * A * r) * (v * r)ᵀ = v * (r * rᵀ) * A * (r * rᵀ) * vᵀ := by
        simp only [transpose_mul, Matrix.mul_assoc]
    _ = v * A * vᵀ := by rw [hr, Matrix.mul_one, Matrix.mul_one]

/-! ## The columns of a state -/

/-- The matrix of the columns. -/
def basis (s : Iteration ℝ n) : Matrix (Fin n) (Fin n) ℝ :=
  Matrix.of fun k j => (s.columns.get j).get k

theorem basis_apply (s : Iteration ℝ n) (k j : Fin n) : s.basis k j = (s.columns.get j).get k :=
  rfl

theorem basis_rotate (s : Iteration ℝ n) (sine cosine : ℝ) (i : Fin (n - 1))
    (d e : Vector ℝ n) :
    basis ⟨rotate s.columns sine cosine i, d, e⟩ = s.basis * rotation i sine cosine := by
  rw [mul_rotation]
  ext k j
  exact Indexed.get_rotate s.columns sine cosine i j k

end Iteration

end MatrixScript
