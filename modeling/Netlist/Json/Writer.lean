import Netlist.Json.Value

/-!
# Writing JSON

The compact form has no white space. The spread form has one element or member
a line, indented by two blanks for each container around it.
-/

namespace Netlist.Json

/-- The escape sequence of a character that must not stand in a string. -/
def escapeSequence? (character : Char) : Option (List Char) :=
  if character = '"' then some ['\\', '"']
  else if character = '\\' then some ['\\', '\\']
  else if character = '\x08' then some ['\\', 'b']
  else if character = '\x0c' then some ['\\', 'f']
  else if character = '\n' then some ['\\', 'n']
  else if character = '\r' then some ['\\', 'r']
  else if character = '\t' then some ['\\', 't']
  else if character < ' ' then
    let digits := Nat.toDigits 16 character.toNat
    some ('\\' :: 'u' :: List.replicate (4 - digits.length) '0' ++ digits)
  else none

/-- The form of a character within a string. -/
def escaped (character : Char) : List Char :=
  (escapeSequence? character).getD [character]

/-- A string in quotation marks. -/
def quoted (text : String) : List Char :=
  '"' :: text.toList.flatMap escaped ++ ['"']

/-- The text of a number. -/
def Number.text : Number → List Char
  | natural value => Nat.toDigits 10 value
  | negated value => '-' :: Nat.toDigits 10 value
  | rounded negative magnitude => (Decimal.shortest negative magnitude).toList

mutual

/-- The compact form of a value. -/
def Value.compact : Value → List Char
  | .null => ['n', 'u', 'l', 'l']
  | .bool true => ['t', 'r', 'u', 'e']
  | .bool false => ['f', 'a', 'l', 's', 'e']
  | .number value => value.text
  | .string value => quoted value
  | .array elements => '[' :: compactElements elements ++ [']']
  | .object members => '\x7b' :: compactMembers members ++ ['\x7d']

/-- The elements of an array, with commas between them. -/
def Value.compactElements : List Value → List Char
  | [] => []
  | [element] => element.compact
  | element :: next :: rest => element.compact ++ ',' :: compactElements (next :: rest)

/-- The members of an object, with commas between them. -/
def Value.compactMembers : List (String × Value) → List Char
  | [] => []
  | [(name, value)] => quoted name ++ ':' :: value.compact
  | (name, value) :: next :: rest =>
    quoted name ++ ':' :: value.compact ++ ',' :: compactMembers (next :: rest)

end

/-- A line break and the blanks in front of the next line. -/
def lineBreak (depth : Nat) : List Char :=
  '\n' :: List.replicate (2 * depth) ' '

mutual

/-- The spread form of a value inside of some containers. -/
def Value.spread (depth : Nat) : Value → List Char
  | .null => ['n', 'u', 'l', 'l']
  | .bool true => ['t', 'r', 'u', 'e']
  | .bool false => ['f', 'a', 'l', 's', 'e']
  | .number value => value.text
  | .string value => quoted value
  | .array [] => ['[', ']']
  | .array (first :: rest) =>
    '[' :: spreadElements (depth + 1) (first :: rest) ++ lineBreak depth ++ [']']
  | .object [] => ['\x7b', '\x7d']
  | .object (first :: rest) =>
    '\x7b' :: spreadMembers (depth + 1) (first :: rest) ++ lineBreak depth ++ ['\x7d']

/-- The elements of an array, each on a line of its own. -/
def Value.spreadElements (depth : Nat) : List Value → List Char
  | [] => []
  | [element] => lineBreak depth ++ element.spread depth
  | element :: next :: rest =>
    lineBreak depth ++ element.spread depth ++ ',' :: spreadElements depth (next :: rest)

/-- The members of an object, each on a line of its own. -/
def Value.spreadMembers (depth : Nat) : List (String × Value) → List Char
  | [] => []
  | [(name, value)] => lineBreak depth ++ quoted name ++ ':' :: ' ' :: value.spread depth
  | (name, value) :: next :: rest =>
    lineBreak depth ++ quoted name ++ ':' :: ' ' :: value.spread depth ++
      ',' :: spreadMembers depth (next :: rest)

end

end Netlist.Json
