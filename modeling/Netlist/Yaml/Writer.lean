import Netlist.Json.Writer
import Netlist.Yaml.Scalar

/-!
# Writing YAML

A document in block style: one scalar a line, indented by two blanks for each
list or mapping around it. A list stands under its key, indented like a mapping,
and an empty one is written in brackets behind the key.
-/

namespace Netlist.Yaml

open Netlist.Json

/-- Lines moved to the right by two blanks. -/
def indent (lines : List (List Char)) : List (List Char) :=
  lines.map fun line => ' ' :: ' ' :: line

/-- Lines with a dash in front of the first one. -/
def itemLines : List (List Char) → List (List Char)
  | [] => []
  | first :: rest => ('-' :: ' ' :: first) :: indent rest

mutual

/-- The lines of a value. -/
def lines : Value → List (List Char)
  | .null => [['~']]
  | .bool true => [['t', 'r', 'u', 'e']]
  | .bool false => [['f', 'a', 'l', 's', 'e']]
  | .number value => [value.text]
  | .string value => [scalar value]
  | .array [] => [['[', ']']]
  | .array (first :: rest) => elementLines (first :: rest)
  | .object [] => [['\x7b', '\x7d']]
  | .object (first :: rest) => memberLines (first :: rest)

/-- The lines of the elements of a list. -/
def elementLines : List Value → List (List Char)
  | [] => []
  | element :: rest => itemLines (lines element) ++ elementLines rest

/-- The lines of the members of a mapping. What needs lines of its own stands
under the key, and anything else behind it. -/
def memberLines : List (String × Value) → List (List Char)
  | [] => []
  | (name, .array (first :: others)) :: rest =>
    (scalar name ++ [':']) :: indent (elementLines (first :: others)) ++ memberLines rest
  | (name, .object (first :: others)) :: rest =>
    (scalar name ++ [':']) :: indent (memberLines (first :: others)) ++ memberLines rest
  | (name, value) :: rest =>
    (lines value).map (fun line => scalar name ++ ':' :: ' ' :: line) ++ memberLines rest

end

/-- A whole document. -/
def document (value : Value) : List Char :=
  (['-', '-', '-'] :: lines value).flatMap fun line => line ++ ['\n']

end Netlist.Yaml
