import MatrixScript.Eigen.Tridiagonal

/-!
# Diagonalising a tridiagonal matrix

The implicit QL iteration. A sweep over the block from `l` to `m` chases a bulge upwards by plane
rotations, which are applied to the eigenvector columns as well. Eigenvalue `l` has converged when the
element that couples it to the next one is negligible; if another element is, the block ends there.
-/

namespace MatrixScript

/-- A symmetric tridiagonal matrix on its way to diagonal form: `coupling[i]` stands beside
`diagonal[i]` and `diagonal[i + 1]`, and column `j` of the basis belongs to `diagonal[j]`. -/
structure Iteration (α : Type) (n : Nat) where
  columns : Vector (Vector α n) n
  diagonal : Vector α n
  coupling : Vector α n

namespace Iteration

variable {α : Type} [Scalar α] {n : Nat}

/-- The iteration starts from a tridiagonal form; nothing comes after the last coupling. -/
def start (t : Tridiagonal α n) : Iteration α n where
  columns := Vector.ofFn fun j => Vector.ofFn fun i => t.basis.get i j
  diagonal := t.diagonal
  coupling := Vector.ofFn fun i =>
    match Index.after? i with
    | some k => t.subdiagonal.get k
    | none => 0

/-- Whether `coupling[m]` is zero beside its two diagonal elements. -/
def negligible (s : Iteration α n) (relative : α) (m : Fin (n - 1)) : Bool :=
  Scalar.abs (s.coupling.get (Index.here m)) ≤
    relative *
      (Scalar.abs (s.diagonal.get (Index.here m)) + Scalar.abs (s.diagonal.get (Index.next m)))

/-- The end of the block that starts at `l`: the first index from `l` on whose coupling is negligible,
or the last index. -/
def blockEnd (s : Iteration α n) (relative : α) (l : Fin n) : Fin n :=
  match (List.finRange (n - 1)).find? fun m => l.val ≤ m.val && s.negligible relative m with
  | some m => Index.here m
  | none => Index.last l

/-- A bulge on its way up: the rotation `(cosine, sine)`, what it takes off the next diagonal element,
and the element that has to be rotated away. -/
structure Bulge (α : Type) where
  sine : α
  cosine : α
  shift : α
  residue : α

/-- The columns `i` and `i + 1` after a rotation. -/
def rotate (columns : Vector (Vector α n) n) (sine cosine : α) (i : Fin (n - 1)) :
    Vector (Vector α n) n :=
  let x := columns.get (Index.here i)
  let y := columns.get (Index.next i)
  setAt (setAt columns (Index.here i) (Vector.ofFn fun k => cosine * x.get k - sine * y.get k))
    (Index.next i) (Vector.ofFn fun k => sine * x.get k + cosine * y.get k)

/-- Chases the bulge from index `l + t` to index `l`. If a rotation has nothing to rotate, the block
splits below it and the sweep ends early. -/
def chase (l m : Fin n) :
    (t : Nat) → l.val + t ≤ m.val → Iteration α n → Bulge α → Iteration α n
  | 0, _, s, b =>
    { s with
      diagonal := setAt s.diagonal l (s.diagonal.get l - b.shift)
      coupling := setAt (setAt s.coupling l b.residue) m 0 }
  | t + 1, h, s, b =>
    let i : Fin (n - 1) := ⟨l + t, by omega⟩
    let here := Index.here i
    let next := Index.next i
    let f := b.sine * s.coupling.get here
    let e := b.cosine * s.coupling.get here
    let r := Scalar.hypot f b.residue
    let coupling := setAt s.coupling next r
    if r == 0 then
      { s with
        diagonal := setAt s.diagonal next (s.diagonal.get next - b.shift)
        coupling := setAt coupling m 0 }
    else
      let sine := f / r
      let cosine := b.residue / r
      let g := s.diagonal.get next - b.shift
      let w := (s.diagonal.get here - g) * sine + Scalar.ofCount 2 * cosine * e
      let shift := sine * w
      chase l m t (by omega)
        { columns := rotate s.columns sine cosine i
          diagonal := setAt s.diagonal next (g + shift)
          coupling := coupling }
        ⟨sine, cosine, shift, cosine * w - e⟩

/-- One sweep over the block from `l` to `m`, with the shift of the leading two by two block. -/
def sweep (s : Iteration α n) (l m : Fin n) (h : l < m) : Iteration α n :=
  let i : Fin (n - 1) := ⟨l, by omega⟩
  let g := (s.diagonal.get (Index.next i) - s.diagonal.get l) /
    (Scalar.ofCount 2 * s.coupling.get l)
  let r := Scalar.hypot g 1
  let residue :=
    s.diagonal.get m - s.diagonal.get l + s.coupling.get l / (g + Scalar.copySign r g)
  chase l m (m.val - l.val) (by omega) s ⟨1, 1, 0, residue⟩

/-- Sweeps until eigenvalue `l` has converged, at most `budget` times; `used` counts the sweeps. -/
def converge (relative : α) (l : Fin n) :
    (budget used : Nat) → Iteration α n → Option (Nat × Iteration α n)
  | 0, used, s => if l < s.blockEnd relative l then none else some (used, s)
  | budget + 1, used, s =>
    if h : l < s.blockEnd relative l then
      converge relative l budget (used + 1) (s.sweep l (s.blockEnd relative l) h)
    else some (used, s)

/-- The state in which the given eigenvalues have converged too, or the index of the first that has not
after `limit` sweeps, with the numbers of sweeps that were used before. -/
def diagonalize (relative : α) (limit : Nat) :
    List (Fin n) → Iteration α n → List Nat × Except (Fin n) (Iteration α n)
  | [], s => ([], .ok s)
  | l :: rest, s =>
    match converge relative l limit 0 s with
    | none => ([], .error l)
    | some (used, s') =>
      let (counts, result) := diagonalize relative limit rest s'
      (used :: counts, result)

end Iteration

end MatrixScript
