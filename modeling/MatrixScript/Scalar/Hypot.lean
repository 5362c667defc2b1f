import MatrixScript.Scalar.Binary64

/-!
# The length of a vector, correctly rounded

`Binary64.hypot x y` is the binary64 number nearest to `√(x² + y²)`. The sum of squares is formed
exactly, as an integer times an even power of two; its integer square root is taken with so many
digits that one more digit, set when the root is not exact, decides the rounding.
-/

namespace MatrixScript

namespace Binary64

/-- One step of Newton's iteration for the square root of `n`. -/
def newtonStep (n x : Nat) : Nat := (x + n / x) / 2

/-- Newton's iteration from above, as long as it decreases. -/
def newtonRoot (n : Nat) : Nat → Nat → Nat
  | 0, x => x
  | fuel + 1, x => if newtonStep n x < x then newtonRoot n fuel (newtonStep n x) else x

/-- The integer square root. From a start above the root every step at least halves the distance to it,
so the number of binary digits bounds the steps. -/
def root (n : Nat) : Nat :=
  newtonRoot n (2 * n.log2 + 2) (Nat.pow 2 (n.log2 / 2 + 1))

/-- The binary digits that are added before a root is taken. -/
def guardDigits : Nat := 64

/-- The number nearest to `√n * 2 ^ exponent`. -/
def nearestRoot (n : Nat) (exponent : Int) : Float :=
  let scaled := n * Nat.pow 4 guardDigits
  let whole := root scaled
  let digits := 2 * whole + (if whole * whole = scaled then 0 else 1)
  match exponent - (guardDigits + 1) with
  | .ofNat e => nearest false (digits * Nat.pow 2 e) 1
  | .negSucc e => nearest false digits (Nat.pow 2 (e + 1))

/-- The number nearest to the length of the vector `(x, y)`. It is infinite as soon as one of the
components is. -/
def hypot (x y : Float) : Float :=
  match decode x, decode y with
  | .infinity _, _ => infinity false
  | _, .infinity _ => infinity false
  | .nan, _ => nan
  | _, .nan => nan
  | .finite _ m p, .finite _ n q =>
    let low := if p < q then p else q
    let a := m * Nat.pow 2 (p - low).toNat
    let b := n * Nat.pow 2 (q - low).toNat
    nearestRoot (a * a + b * b) low

end Binary64

end MatrixScript
