import Netlist.Decimal.Binary64

/-!
# Shortest decimal text of a binary fraction

The text of a number has the fewest significant digits that read back as the
same number, and among those the digits nearest to it; of two that are equally
near, the one that ends in an even digit. Very large and very small numbers are
written with an exponent, and all others with a decimal point.
-/

namespace Netlist.Decimal

namespace Shortest

/-- The numbers that round to one binary fraction, as multiples of
`1 / denominator`; the ends belong to them if `closed`. -/
structure Interval where
  low : Nat
  value : Nat
  high : Nat
  denominator : Nat
  closed : Bool

/-- The interval around a number that is not zero. The lower end is nearer than
the upper one just above a power of two, where the numbers below are denser. -/
def Interval.around (number : Binary64) : Interval :=
  let quarter : Binary64 := ⟨1, number.exponent - 2⟩
  let (unit, denominator) := quarter.toRatio
  let dense := number.significand = Binary64.leastFull ∧
    Binary64.minExponent < number.exponent
  { low := (4 * number.significand - if dense then 1 else 2) * unit
    value := 4 * number.significand * unit
    high := (4 * number.significand + 2) * unit
    denominator
    closed := number.significand % 2 = 0 }

/-- The decimal number `digits * 10 ^ exponent`. -/
structure Scaled where
  digits : Nat
  exponent : Int

/-- The numerator and denominator of a decimal number. -/
def Scaled.toRatio (number : Scaled) : Nat × Nat :=
  if 0 ≤ number.exponent then (number.digits * tenPower number.exponent.toNat, 1)
  else (number.digits, tenPower (-number.exponent).toNat)

/-- The decimal number reads back as the binary fraction. -/
def Interval.holds (interval : Interval) (number : Scaled) : Bool :=
  let (top, bottom) := number.toRatio
  let scaled := top * interval.denominator
  if interval.closed then interval.low * bottom ≤ scaled && scaled ≤ interval.high * bottom
  else interval.low * bottom < scaled && scaled < interval.high * bottom

/-- Distance between the binary fraction and a decimal number with the given
denominator, up to a common factor. -/
def Interval.distance (interval : Interval) (number : Scaled) : Nat :=
  let (top, bottom) := number.toRatio
  let scaled := top * interval.denominator
  let exact := interval.value * bottom
  (scaled - exact) + (exact - scaled)

/-- The decimal number at or below the binary fraction on the grid of a power
of ten. -/
def Interval.below (interval : Interval) (exponent : Int) : Scaled :=
  if 0 ≤ exponent then
    ⟨interval.value / (interval.denominator * tenPower exponent.toNat), exponent⟩
  else ⟨interval.value * tenPower (-exponent).toNat / interval.denominator, exponent⟩

/-- The nearer one of two points next to each other; the even one if they are
equally near. -/
def Interval.nearer (interval : Interval) (below above : Scaled) : Scaled :=
  if interval.distance below < interval.distance above then below
  else if interval.distance above < interval.distance below then above
  else if below.digits % 2 = 0 then below
  else above

/-- The point of a grid that reads back and is nearest, if one does. -/
def Interval.onGrid (interval : Interval) (exponent : Int) : Option Scaled :=
  let below := interval.below exponent
  let above : Scaled := ⟨below.digits + 1, exponent⟩
  match interval.holds below, interval.holds above with
  | true, true => some (interval.nearer below above)
  | true, false => some below
  | false, true => some above
  | false, false => none

/-- The place of the leading digit: the exponent of the greatest power of ten
at or below the number. -/
def Interval.leadingPlace (interval : Interval) : Int :=
  let whole := interval.value / interval.denominator
  if whole = 0 then
    let places := (List.range 400).find? fun place =>
      interval.denominator ≤ interval.value * tenPower place
    Int.negOfNat (places.getD 400)
  else (Nat.toDigits 10 whole).length - 1

/-- The decimal number with the fewest digits that reads back. -/
def ofBinary (number : Binary64) : Scaled :=
  if number.significand = 0 then ⟨0, 0⟩
  else
    let interval := Interval.around number
    let place := interval.leadingPlace
    let found := (List.range 17).findSome? fun digits =>
      interval.onGrid (place - Int.ofNat digits)
    found.getD ⟨0, 0⟩

/-- Digits without the zeros at their end, which move into the exponent. -/
def dropZeros : List Char → Int → List Char × Int
  | digits, exponent =>
    let zeros := (digits.reverse.takeWhile (· = '0')).length
    (digits.take (digits.length - zeros), exponent + zeros)

/-- A number whose leading digit stands at one of these places is written
without an exponent. -/
def isPositional (place : Int) : Bool :=
  -5 ≤ place && place ≤ 15

/-- Digits times a power of ten without an exponent, with at least one digit on
either side of the point. -/
def positional (digits : List Char) (exponent : Int) : List Char :=
  if 0 ≤ exponent then digits ++ List.replicate exponent.toNat '0' ++ ['.', '0']
  else
    let places := (-exponent).toNat
    let padded := List.replicate (places + 1 - digits.length) '0' ++ digits
    let whole := padded.length - places
    padded.take whole ++ '.' :: padded.drop whole

/-- An exponent with its sign. -/
def exponentText (exponent : Int) : List Char :=
  (if exponent < 0 then '-' else '+') :: Nat.toDigits 10 exponent.natAbs

/-- Digits with the leading one at a place, written with an exponent. The point
stands behind the leading digit, unless it is the only one. -/
def scientific (digits : List Char) (place : Int) : List Char :=
  let fraction := digits.drop 1
  digits.take 1 ++ (if fraction.isEmpty then [] else '.' :: fraction) ++
    'e' :: exponentText place

/-- The text of a decimal number. -/
def Scaled.text (number : Scaled) : String :=
  if number.digits = 0 then "0.0"
  else
    let (digits, exponent) := dropZeros (Nat.toDigits 10 number.digits) number.exponent
    let place := exponent + digits.length - 1
    String.ofList
      (if isPositional place then positional digits exponent else scientific digits place)

end Shortest

/-- The shortest text of a number and its sign. -/
def shortest (negative : Bool) (number : Binary64) : String :=
  (if negative then "-" else "") ++ (Shortest.ofBinary number).text

end Netlist.Decimal
