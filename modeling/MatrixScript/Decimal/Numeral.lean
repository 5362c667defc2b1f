import MatrixScript.Scalar.Binary64

/-!
# Reading numbers

A numeral is an optional sign followed by a word for infinity or for not-a-number, in any case of
its letters, or by decimal digits with an optional point and an optional exponent. Its value is the
binary64 number nearest to what is written.

A count is a numeral of digits alone, with an optional plus sign, that fits a 64-bit word.
-/

namespace MatrixScript

namespace Decimal

/-- What a numeral says: `decimal s d e` is `d * 10 ^ e`, negated if `s`. -/
inductive Numeral where
  | nan
  | infinity (negative : Bool)
  | decimal (negative : Bool) (digits : Nat) (exponent : Int)
  deriving DecidableEq, Repr

def ofDigits (digits : List Char) : Nat :=
  digits.foldl (fun n c => 10 * n + (c.toNat - '0'.toNat)) 0

/-- A sign that may be missing, and what follows it. -/
def splitSign : List Char → Bool × List Char
  | '-' :: rest => (true, rest)
  | '+' :: rest => (false, rest)
  | text => (false, text)

/-- The exponent after its mark: an optional sign and at least one digit. -/
def exponent? (text : List Char) : Option Int :=
  let (negative, digits) := splitSign text
  if digits.isEmpty || !digits.all Char.isDigit then none
  else some (if negative then -(ofDigits digits : Int) else ofDigits digits)

/-- The digits after the point and the exponent, `whole` being the digits before the point. -/
def Numeral.finish? (negative : Bool) (whole fraction rest : List Char) : Option Numeral :=
  if whole.isEmpty && fraction.isEmpty then none
  else
    let digits := ofDigits (whole ++ fraction)
    let shift : Int := -(fraction.length : Int)
    match rest with
    | [] => some (.decimal negative digits shift)
    | mark :: tail =>
      if mark = 'e' ∨ mark = 'E' then
        (exponent? tail).map fun e => .decimal negative digits (shift + e)
      else none

def Numeral.unsigned? (negative : Bool) (text : List Char) : Option Numeral :=
  let word := String.ofList (text.map Char.toLower)
  if word = "nan" then some .nan
  else if word = "inf" ∨ word = "infinity" then some (.infinity negative)
  else
    let whole := text.takeWhile Char.isDigit
    match text.dropWhile Char.isDigit with
    | '.' :: rest =>
      finish? negative whole (rest.takeWhile Char.isDigit) (rest.dropWhile Char.isDigit)
    | rest => finish? negative whole [] rest

/-- Reads a numeral that makes up the whole text. -/
def Numeral.ofText? (text : String) : Option Numeral :=
  let (negative, rest) := splitSign text.toList
  unsigned? negative rest

/-- More decimal digits before the point than any finite number has. -/
def largestExponent : Int := 310

/-- So far after the point that every number rounds to zero. -/
def smallestExponent : Int := -330

/-- The binary64 number nearest to what a numeral writes. The two bounds keep the powers of ten
small: past them the answer is an infinity or a zero. -/
def Numeral.toFloat : Numeral → Float
  | .nan => Binary64.nan
  | .infinity negative => Binary64.infinity negative
  | .decimal negative digits exponent =>
    let size : Int := (Nat.toDigits 10 digits).length + exponent
    if digits = 0 ∨ size < smallestExponent then Binary64.nearest negative 0 1
    else if largestExponent < size then Binary64.infinity negative
    else
      match exponent with
      | .ofNat e => Binary64.nearest negative (digits * Nat.pow 10 e) 1
      | .negSucc e => Binary64.nearest negative digits (Nat.pow 10 (e + 1))

def float? (text : String) : Option Float :=
  (Numeral.ofText? text).map Numeral.toFloat

def finite? (text : String) : Option Float :=
  (float? text).filter Float.isFinite

def maxCount : Nat := Nat.pow 2 64 - 1

/-- The digits of a count, without its plus sign. -/
def countDigits : List Char → List Char
  | '+' :: rest => rest
  | text => text

/-- The count a text writes: digits after an optional plus sign, up to `maxCount`. -/
def count? (text : String) : Option Nat :=
  let digits := countDigits text.toList
  if digits.isEmpty || !digits.all Char.isDigit then none
  else if ofDigits digits ≤ maxCount then some (ofDigits digits) else none

end Decimal

end MatrixScript
