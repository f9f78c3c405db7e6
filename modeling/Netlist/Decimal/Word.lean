/-!
# Decimal words

Wires and counts are written in decimal and must fit into 64 bits. Reading also
accepts leading zeros and one plus sign; what `toDigits` writes is read back
(`readWord_toDigits`).
-/

namespace Netlist.Decimal

/-- One more than the largest word. -/
def wordLimit : Nat := UInt64.size

/-- The value of a non-empty run of digits, if it is a word. -/
def readDigits (characters : List Char) : Option Nat :=
  if !characters.isEmpty && characters.all Char.isDigit then
    let value := Nat.ofDigitChars 10 characters 0
    if value < wordLimit then some value else none
  else none

/-- The value of a decimal word, with or without a plus sign. -/
def readWord : List Char → Option Nat
  | '+' :: digits => readDigits digits
  | digits => readDigits digits

theorem readDigits_toDigits {value : Nat} (isWord : value < wordLimit) :
    readDigits (Nat.toDigits 10 value) = some value := by
  have digits : (Nat.toDigits 10 value).all Char.isDigit = true := by
    simp only [List.all_eq_true]
    intro character member
    exact Nat.isDigit_of_mem_toDigits (by decide) (by decide) member
  simp [readDigits, digits, isWord]

theorem readWord_toDigits {value : Nat} (isWord : value < wordLimit) :
    readWord (Nat.toDigits 10 value) = some value := by
  have noSign : ∀ digits, Nat.toDigits 10 value ≠ '+' :: digits := by
    intro digits equal
    have digit : '+'.isDigit = true :=
      Nat.isDigit_of_mem_toDigits (b := 10) (n := value) (by decide) (by decide)
        (equal ▸ List.mem_cons_self)
    exact absurd digit (by decide)
  rw [← readDigits_toDigits isWord]
  unfold readWord
  split
  · rename_i digits equal
    exact absurd equal (noSign digits)
  · rfl

end Netlist.Decimal
