import Netlist.Decimal.Word
import Netlist.Json.Reader.Text

/-!
# Reading JSON numbers

A number without fraction and exponent is kept as it is, if it fits. Any other
number is a significand, as many of its digits as fit into a word, times or
divided by a power of ten, where the significand, the power and the result are
rounded one after the other.
-/

namespace Netlist.Json

open Netlist.Decimal

namespace Reader

/-- Append digits to a significand as long as it remains a word; also the
number of digits that found no room. -/
def absorb (significand : Nat) : List Char → Nat × Nat
  | [] => (significand, 0)
  | digit :: digits =>
    let grown := 10 * significand + (digit.toNat - '0'.toNat)
    if grown < wordLimit then absorb grown digits else (significand, digits.length + 1)

/-- The greatest power of ten that a binary fraction is multiplied with or
divided by in one step. -/
def largestStep : Nat := 308

/-- A power of ten, rounded. -/
def roundedPower (exponent : Nat) : Binary64 :=
  (Binary64.ofNat (tenPower exponent)).getD Binary64.zero

/-- Divide by a power of ten in steps of at most `10 ^ 308`. -/
def divideByTens (number : Binary64) (exponent : Nat) : Binary64 :=
  if exponent ≤ largestStep then (number.div (roundedPower exponent)).getD Binary64.zero
  else if number.significand = 0 then number
  else
    divideByTens ((number.div (roundedPower largestStep)).getD Binary64.zero)
      (exponent - largestStep)
termination_by exponent
decreasing_by
  simp only [largestStep] at *
  omega

/-- A significand with a decimal exponent, rounded: none if it is too large. -/
def roundedNumber (significand : Nat) (exponent : Int) : Option Binary64 := do
  let number ← Binary64.ofNat significand
  if exponent < 0 then some (divideByTens number (-exponent).toNat)
  else if number.significand = 0 then some number
  else if largestStep < exponent.toNat then none
  else number.mul (roundedPower exponent.toNat)

/-- The greatest exponent that may be written. -/
def exponentLimit : Nat := 1 <<< 31

/-- The exponent part of a number, with its sign. -/
structure Exponent where
  negative : Bool
  digits : List Char

/-- The value of a number from its parts: none if it is out of range. -/
def numberOfParts (negative : Bool) (integer fraction : List Char) (exponent : Option Exponent) :
    Option Number :=
  let (significand, dropped) := absorb 0 integer
  match dropped, fraction, exponent with
  | 0, [], none =>
    if !negative then some (.natural significand)
    else if significand = 0 ∨ wordLimit < 2 * significand then
      (Binary64.ofNat significand).map (.rounded true)
    else some (.negated significand)
  | _, _, _ =>
    let (significand, ignored) := absorb significand fraction
    let place : Int := (dropped : Int) - (fraction.length - ignored : Nat)
    match exponent with
    | none => (roundedNumber significand place).map (.rounded negative)
    | some exponent =>
      let shift := Nat.ofDigitChars 10 exponent.digits 0
      if shift < exponentLimit then
        let place := if exponent.negative then place - shift else place + shift
        (roundedNumber significand place).map (.rounded negative)
      else if significand ≠ 0 ∧ !exponent.negative then none
      else some (.rounded negative Binary64.zero)

/-- Split off the digits in front of a text. -/
def spanDigits (text : List Char) : List Char × List Char :=
  text.span Char.isDigit

/-- The integer part of a number, without superfluous zeros. -/
def integerPart (text : List Char) : Except (List Char) (List Char × List Char) :=
  match text with
  | [] => .error []
  | '0' :: rest =>
    match rest with
    | digit :: behind => if digit.isDigit then .error behind else .ok (['0'], rest)
    | [] => .ok (['0'], [])
  | character :: rest => if character.isDigit then .ok (spanDigits text) else .error rest

/-- The fraction of a number, if there is one: a point and at least one digit. -/
def fractionPart : List Char → Except (List Char) (List Char × List Char)
  | '.' :: text =>
    match spanDigits text with
    | ([], rest) => .error (rest.drop 1)
    | (digits, rest) => .ok (digits, rest)
  | text => .ok ([], text)

/-- The digits of an exponent behind its sign. -/
def exponentDigits (negative : Bool) (text : List Char) :
    Except (List Char) (Option Exponent × List Char) :=
  match spanDigits text with
  | ([], rest) => .error (rest.drop 1)
  | (digits, rest) => .ok (some ⟨negative, digits⟩, rest)

/-- The exponent of a number, if there is one. -/
def exponentPart : List Char → Except (List Char) (Option Exponent × List Char)
  | 'e' :: '+' :: text | 'E' :: '+' :: text => exponentDigits false text
  | 'e' :: '-' :: text | 'E' :: '-' :: text => exponentDigits true text
  | 'e' :: text | 'E' :: text => exponentDigits false text
  | text => .ok (none, text)

/-- A number, behind its minus sign if it has one. -/
def number (negative : Bool) (text : List Char) : Except (List Char) (Value × List Char) := do
  let (integer, text) ← integerPart text
  let (fraction, text) ← fractionPart text
  let (exponent, text) ← exponentPart text
  match numberOfParts negative integer fraction exponent with
  | some value => .ok (.number value, text)
  | none => .error text

end Reader

end Netlist.Json
