import Netlist.Json.Value
import Netlist.Outcome

/-!
# Reading JSON strings

A reader takes something off the front of a text. When the text is no JSON, it
returns what is left behind the place of the fault, which tells the number of
the line that the fault is on. This module has the type of readers, and the
readers of white space and strings.
-/

namespace Netlist.Json

/-- Takes something off the front of a text. A failure holds what is left
behind the place of the fault. -/
abbrev Reader (α : Type) := List Char → Except (List Char) (α × List Char)

namespace Reader

/-- The white space of JSON. -/
def isSpace (character : Char) : Bool :=
  character = ' ' || character = '\t' || character = '\n' || character = '\r'

/-- The text without the white space in front of it. -/
def skipSpace (text : List Char) : List Char :=
  text.dropWhile isSpace

/-- The value of a hexadecimal digit of either case. -/
def hexValue (character : Char) : Option Nat :=
  if character.isDigit then some (character.toNat - '0'.toNat)
  else if 'a' ≤ character ∧ character ≤ 'f' then some (character.toNat - 'a'.toNat + 10)
  else if 'A' ≤ character ∧ character ≤ 'F' then some (character.toNat - 'A'.toNat + 10)
  else none

/-- The text behind its first bytes; a character that straddles them is gone. -/
def dropBytes : Nat → List Char → List Char
  | _, [] => []
  | count, character :: text =>
    if count = 0 then character :: text else dropBytes (count - character.utf8Size) text

/-- The number of bytes of a text. -/
def byteLength (text : List Char) : Nat :=
  text.foldl (fun count character => count + character.utf8Size) 0

/-- Four hexadecimal digits. Where they are missing, the fault lies behind the
four bytes that stand in their place. -/
def hexWord (text : List Char) : Except (List Char) (Nat × List Char) :=
  if byteLength (text.take 4) < 4 then .error []
  else match text.take 4, (text.take 4).mapM hexValue with
    | [_, _, _, _], some digits => .ok (digits.foldl (16 * · + ·) 0, text.drop 4)
    | _, _ => .error (dropBytes 4 text)

/-- A single expected character within a string. -/
def expectChar (expected : Char) : List Char → Except (List Char) (List Char)
  | [] => .error []
  | character :: text => if character = expected then .ok text else .error text

/-- The code unit stands in front of another one. -/
def isLeading (unit : Nat) : Bool := 0xd800 ≤ unit && unit ≤ 0xdbff

/-- The code unit stands behind another one. -/
def isTrailing (unit : Nat) : Bool := 0xdc00 ≤ unit && unit ≤ 0xdfff

/-- A character given by one or two code units, behind the first `\u`. -/
def unicodeEscape (text : List Char) : Except (List Char) (Char × List Char) := do
  let (unit, text) ← hexWord text
  if isTrailing unit then .error text
  else if isLeading unit then do
    let text ← expectChar '\\' text
    let text ← expectChar 'u' text
    let (second, text) ← hexWord text
    if isTrailing second then
      .ok (Char.ofNat ((unit - 0xd800) * 0x400 + (second - 0xdc00) + 0x10000), text)
    else .error text
  else .ok (Char.ofNat unit, text)

/-- The characters that a backslash and one character stand for. -/
def simpleEscape : Char → Option Char
  | '"' => some '"'
  | '\\' => some '\\'
  | '/' => some '/'
  | 'b' => some '\x08'
  | 'f' => some '\x0c'
  | 'n' => some '\n'
  | 'r' => some '\r'
  | 't' => some '\t'
  | _ => none

/-- The character of an escape, behind the backslash. -/
def escape : List Char → Except (List Char) (Char × List Char)
  | [] => .error []
  | character :: text =>
    if character = 'u' then unicodeEscape text
    else match simpleEscape character with
      | some meaning => .ok (meaning, text)
      | none => .error text

theorem length_le_of_hexWord {text rest : List Char} {unit : Nat}
    (read : hexWord text = .ok (unit, rest)) : rest.length ≤ text.length := by
  unfold hexWord at read
  split at read
  · cases read
  · split at read
    · cases read
      simp
    · cases read

theorem length_le_of_expectChar {expected : Char} {text rest : List Char}
    (read : expectChar expected text = .ok rest) : rest.length ≤ text.length := by
  unfold expectChar at read
  split at read
  · cases read
  · split at read
    · cases read
      simp
    · cases read

theorem length_le_of_unicodeEscape {text rest : List Char} {character : Char}
    (read : unicodeEscape text = .ok (character, rest)) : rest.length ≤ text.length := by
  unfold unicodeEscape at read
  obtain ⟨⟨unit, afterUnit⟩, first, read⟩ := eq_ok_of_bind read
  have unitShorter := length_le_of_hexWord first
  dsimp only at read
  split at read
  · cases read
  · split at read
    · obtain ⟨afterBackslash, backslash, read⟩ := eq_ok_of_bind read
      have backslashShorter := length_le_of_expectChar backslash
      obtain ⟨afterLetter, letter, read⟩ := eq_ok_of_bind read
      have letterShorter := length_le_of_expectChar letter
      obtain ⟨⟨second, afterSecond⟩, last, read⟩ := eq_ok_of_bind read
      have secondShorter := length_le_of_hexWord last
      dsimp only at read
      split at read
      · simp only [Except.ok.injEq, Prod.mk.injEq] at read
        obtain ⟨_, rfl⟩ := read
        omega
      · cases read
    · simp only [Except.ok.injEq, Prod.mk.injEq] at read
      obtain ⟨_, rfl⟩ := read
      exact unitShorter

theorem length_lt_of_escape {text rest : List Char} {character : Char}
    (read : escape text = .ok (character, rest)) : rest.length < text.length := by
  cases text with
  | nil => cases read
  | cons first tail =>
    simp only [escape] at read
    split at read
    · have shorter := length_le_of_unicodeEscape read
      simp only [List.length_cons]
      omega
    · split at read
      · cases read
        simp
      · cases read

/-- The characters of a string up to its closing quotation mark, behind the
opening one. -/
def stringBody (text : List Char) : Except (List Char) (List Char × List Char) :=
  match text with
  | [] => .error []
  | '"' :: rest => .ok ([], rest)
  | '\\' :: rest =>
    match read : escape rest with
    | .error fault => .error fault
    | .ok (character, rest') =>
      have := length_lt_of_escape read
      (stringBody rest').map fun (body, left) => (character :: body, left)
  | character :: rest =>
    if character < ' ' then .error rest
    else (stringBody rest).map fun (body, left) => (character :: body, left)
termination_by text.length

end Reader

end Netlist.Json
