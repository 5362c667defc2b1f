import MatrixScript.Decimal.Fixed

/-!
# The shortest decimal that reads back

`Decimal.shortest x` writes the fewest digits that round to `x`, and among those the nearest to it,
an exact tie going up. The text is positional whatever the size of the number, and a whole number
has no point.
-/

namespace MatrixScript

namespace Decimal

/-- The open or closed interval of the reals that round to `m * 2 ^ q`, in quarters of `2 ^ q`. Below
a power of two the grid is finer, so the interval is shorter on that side. -/
structure Interval where
  low : Nat
  high : Nat
  closed : Bool
  deriving DecidableEq, Repr

/-- The interval of the reals that round to `m * 2 ^ q`. Its ends are ties, which go to an even
mantissa. -/
def Interval.around (m : Nat) (q : Int) : Interval where
  low := 4 * m - (if m = Binary64.hidden ∧ q ≠ Binary64.minExponent then 1 else 2)
  high := 4 * m + 2
  closed := m % 2 = 0

structure Ratio where
  numerator : Nat
  denominator : Nat

/-- The fraction `2 ^ q / 4 / 10 ^ s`. -/
def Ratio.quarter (q s : Int) : Ratio where
  numerator := Nat.pow 2 (q - 2).toNat * Nat.pow 10 (-s).toNat
  denominator := Nat.pow 2 (2 - q).toNat * Nat.pow 10 s.toNat

/-- Whether the real `c * 10 ^ s` lies in the interval, `unit` being a quarter of the grid in units
of `10 ^ s`. -/
def Interval.contains (i : Interval) (unit : Ratio) (c : Nat) : Bool :=
  let low := i.low * unit.numerator
  let high := i.high * unit.numerator
  let value := c * unit.denominator
  if i.closed then low ≤ value && value ≤ high else low < value && value < high

/-- The nearer of the neighbours of `m * 2 ^ q` on the grid of the multiples of `10 ^ s` that rounds
to it, if one of them does. -/
def onGrid? (m : Nat) (q s : Int) : Option Nat :=
  let unit := Ratio.quarter q s
  let interval := Interval.around m q
  let exact := 4 * m * unit.numerator
  let down := exact / unit.denominator
  let up := down + 1
  let upNearer := unit.denominator ≤ 2 * (exact % unit.denominator)
  match interval.contains unit down, interval.contains unit up with
  | true, true => some (if upNearer then up else down)
  | true, false => some down
  | false, true => some up
  | false, false => none

/-- The first grid, from coarse to fine, that has a decimal which rounds to `m * 2 ^ q`. -/
def search (m : Nat) (q : Int) : Nat → Int → Nat × Int
  | 0, s => ((onGrid? m q s).getD 0, s)
  | n + 1, s =>
    match onGrid? m q s with
    | some c => (c, s)
    | none => search m q n (s - 1)

/-- An upper bound of the decimal exponent of `m * 2 ^ q`: it is below `10 ^ bound`. -/
def magnitudeBound (m : Nat) (q : Int) : Int :=
  let bits := q + m.log2 + 1
  if 0 ≤ bits then bits * 30103 / 100000 + 1 else bits * 30102 / 100000 + 1

/-- The digits `c * 10 ^ s` without an exponent and without zeros after the last place that
counts. -/
def positional (c : Nat) (s : Int) : List Char :=
  match s with
  | .ofNat e => Nat.toDigits 10 (c * Nat.pow 10 e)
  | .negSucc e =>
    let text := pointed (e + 1) c
    let kept := (text.reverse.dropWhile (· = '0')).reverse
    if kept.getLast? = some '.' then kept.dropLast else kept

/-- The fewest digits that read back as the number. -/
def shortest (x : Float) : String :=
  match Binary64.decode x with
  | .nan => "NaN"
  | .infinity negative => sign negative ++ "inf"
  | .finite negative m q =>
    if m = 0 then sign negative ++ "0"
    else
      let (c, s) := search m q 25 (magnitudeBound m q)
      sign negative ++ String.ofList (positional c s)

end Decimal

end MatrixScript
