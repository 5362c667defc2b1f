import MatrixScript.Scalar.Binary64

/-!
# Numbers with a fixed count of decimal places

`Decimal.fixed p x` writes `x` with `p` digits after the point and never with an exponent. The digits
are those of the exact value, a half going to the even neighbour; the sign of `x` is kept, also in
front of a zero.
-/

namespace MatrixScript

namespace Decimal

/-- The digits of `n` with a point before the last `places` of them, and at least one digit before
the point. -/
def pointed (places n : Nat) : List Char :=
  let digits := Nat.toDigits 10 n
  let padded := List.replicate (places + 1 - digits.length) '0' ++ digits
  let whole := padded.length - places
  if places = 0 then padded else padded.take whole ++ '.' :: padded.drop whole

def sign (negative : Bool) : String :=
  if negative then "-" else ""

/-- A number with `places` digits after the point. -/
def fixed (places : Nat) (x : Float) : String :=
  match Binary64.decode x with
  | .nan => "NaN"
  | .infinity negative => sign negative ++ "inf"
  | .finite negative m q =>
    sign negative ++
      String.ofList (pointed places (Binary64.roundScaled (m * Nat.pow 10 places) 1 (-q)))

end Decimal

end MatrixScript
