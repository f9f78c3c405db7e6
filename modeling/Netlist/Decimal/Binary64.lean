/-!
# Binary fractions of double precision

Magnitudes of 64-bit floating point numbers, as exact dyadic rationals. Every
operation is the exact one followed by one rounding to the nearest magnitude,
where a tie goes to the even significand. A result too large to be represented
is `none`.
-/

namespace Netlist.Decimal

/-- A power of ten. -/
def tenPower (exponent : Nat) : Nat :=
  Nat.pow 10 exponent

/-- The integer nearest to a fraction; a tie goes to the even one. -/
def roundHalfEven (numerator denominator : Nat) : Nat :=
  let quotient := numerator / denominator
  let remainder := numerator % denominator
  if 2 * remainder < denominator then quotient
  else if denominator < 2 * remainder then quotient + 1
  else quotient + quotient % 2

/-- The number `significand * 2 ^ exponent`. -/
structure Binary64 where
  significand : Nat
  exponent : Int
  deriving DecidableEq, Repr

namespace Binary64

/-- Number of bits of a significand. -/
def precision : Nat := 53

/-- The least number with more bits than a significand. -/
def significandLimit : Nat := 1 <<< precision

/-- The least significand of full precision. -/
def leastFull : Nat := 1 <<< (precision - 1)

/-- The least exponent. -/
def minExponent : Int := -1074

/-- The greatest exponent. -/
def maxExponent : Int := 971

/-- Zero. -/
def zero : Binary64 := ⟨0, minExponent⟩

/-- The numerator and denominator of `numerator / denominator / 2 ^ exponent`. -/
def scale (numerator denominator : Nat) (exponent : Int) : Nat × Nat :=
  if 0 ≤ exponent then (numerator, denominator <<< exponent.toNat)
  else (numerator <<< (-exponent).toNat, denominator)

/-- The exponent at which the fraction, which is not zero, has a significand of
full precision, or the least exponent if that is greater. -/
def exponentOf (numerator denominator : Nat) : Int :=
  let guess : Int := (Nat.log2 numerator : Int) - Nat.log2 denominator - precision
  let (top, bottom) := scale numerator denominator guess
  max minExponent (if bottom <<< precision ≤ top then guess + 1 else guess)

/-- The number nearest to a fraction. -/
def ofRatio (numerator denominator : Nat) : Option Binary64 :=
  if numerator = 0 then some zero
  else
    let exponent := exponentOf numerator denominator
    let (top, bottom) := scale numerator denominator exponent
    let rounded := roundHalfEven top bottom
    let result : Binary64 :=
      if rounded = significandLimit then ⟨leastFull, exponent + 1⟩ else ⟨rounded, exponent⟩
    if maxExponent < result.exponent then none else some result

/-- The number nearest to a natural number. -/
def ofNat (value : Nat) : Option Binary64 :=
  ofRatio value 1

/-- The number as a fraction. -/
def toRatio (number : Binary64) : Nat × Nat :=
  if 0 ≤ number.exponent then (number.significand <<< number.exponent.toNat, 1)
  else (number.significand, 1 <<< (-number.exponent).toNat)

/-- The rounded product. -/
def mul (left right : Binary64) : Option Binary64 :=
  let (leftTop, leftBottom) := left.toRatio
  let (rightTop, rightBottom) := right.toRatio
  ofRatio (leftTop * rightTop) (leftBottom * rightBottom)

/-- The rounded quotient; the divisor is not zero. -/
def div (left right : Binary64) : Option Binary64 :=
  let (leftTop, leftBottom) := left.toRatio
  let (rightTop, rightBottom) := right.toRatio
  ofRatio (leftTop * rightBottom) (leftBottom * rightTop)

/-- The number rounded to hundredths, counted in hundredths. -/
def hundredths (number : Binary64) : Nat :=
  let (top, bottom) := number.toRatio
  roundHalfEven (100 * top) bottom

end Binary64

/-- A count of hundredths with two decimal places. -/
def twoPlaces (hundredths : Nat) : String :=
  let places := hundredths % 100
  s!"{hundredths / 100}.{places / 10}{places % 10}"

/-- `part / whole` in percent with two decimal places, computed in double
precision. -/
def percentage (part whole : Nat) : String :=
  let quotient := do
    let part ← Binary64.ofNat part
    let whole ← Binary64.ofNat whole
    let ratio ← part.div whole
    let hundred ← Binary64.ofNat 100
    ratio.mul hundred
  twoPlaces ((quotient.map Binary64.hundredths).getD 0)

end Netlist.Decimal
