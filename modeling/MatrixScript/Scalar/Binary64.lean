/-!
# Binary64 numbers as exact values

A finite `Float` is a signed integer multiple of a power of two. `Binary64.decode` reads that exact
value off its bits, and `Binary64.nearest` goes back: the number nearest to a quotient of two
naturals, a half going to the even neighbour.
-/

namespace MatrixScript

namespace Binary64

/-- What a `Float` stands for: `finite s m q` is `m * 2 ^ q`, negated if `s`. -/
inductive Value where
  | nan
  | infinity (negative : Bool)
  | finite (negative : Bool) (mantissa : Nat) (exponent : Int)
  deriving DecidableEq, Repr

/-- The least exponent of a finite number. -/
def minExponent : Int := -1074

/-- The numbers of one exponent, subnormal ones included, have mantissas below twice this. -/
def hidden : Nat := Nat.pow 2 52

def infinityBits : Nat := 2047 * hidden

def signBit : Nat := Nat.pow 2 63

def decode (x : Float) : Value :=
  let bits := x.toBits.toNat
  let negative := signBit ≤ bits
  let field := bits % signBit / hidden
  let fraction := bits % hidden
  if field = 2047 then
    if fraction = 0 then .infinity negative else .nan
  else if field = 0 then
    .finite negative fraction minExponent
  else
    .finite negative (hidden + fraction) (minExponent + (field - 1))

/-- The integer nearest to `num / den`; a half goes to the even neighbour. -/
def roundDiv (num den : Nat) : Nat :=
  let quotient := num / den
  let twice := 2 * (num % den)
  if den < twice ∨ (twice = den ∧ quotient % 2 = 1) then quotient + 1 else quotient

/-- The integer nearest to `num / den / 2 ^ exponent`. -/
def roundScaled (num den : Nat) (exponent : Int) : Nat :=
  match exponent with
  | .ofNat e => roundDiv num (den * Nat.pow 2 e)
  | .negSucc e => roundDiv (num * Nat.pow 2 (e + 1)) den

/-- Whether `num / den < bound * 2 ^ exponent`. -/
def below (num den bound : Nat) (exponent : Int) : Bool :=
  match exponent with
  | .ofNat e => num < bound * den * Nat.pow 2 e
  | .negSucc e => num * Nat.pow 2 (e + 1) < bound * den

/-- The exponent of the binary64 grid that holds the numbers of the size of `num / den`. -/
def gridExponent (num den : Nat) : Int :=
  let guess : Int := (num.log2 : Int) - den.log2 - 53
  let fitted := if below num den (2 * hidden) guess then guess else guess + 1
  if fitted < minExponent then minExponent else fitted

/-- The magnitude bits of the number nearest to `num / den`. Consecutive bit patterns are
consecutive numbers, so a mantissa that rounds up to the next power of two needs no special
case. -/
def nearestBits (num den : Nat) : Nat :=
  if num = 0 then 0
  else
    let exponent := gridExponent num den
    let bits := (exponent - minExponent).toNat * hidden + roundScaled num den exponent
    if infinityBits ≤ bits then infinityBits else bits

/-- The number nearest to `num / den`, negated if `negative`; a half goes to the even neighbour and
what is too large becomes infinite. -/
def nearest (negative : Bool) (num den : Nat) : Float :=
  Float.ofBits (nearestBits num den + (if negative then signBit else 0)).toUInt64

def infinity (negative : Bool) : Float :=
  Float.ofBits (infinityBits + (if negative then signBit else 0)).toUInt64

def nan : Float :=
  Float.ofBits (infinityBits + hidden / 2).toUInt64

def isNegative (x : Float) : Bool :=
  signBit ≤ x.toBits.toNat

end Binary64

end MatrixScript
