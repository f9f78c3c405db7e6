import Netlist.Json.Reader.Number

/-!
# Reading JSON

A recursive reader of values. A failure of `read` holds the number of the line
with the fault. Containers may be nested 127 deep.
-/

namespace Netlist.Json

namespace Reader

/-- The rest of a literal, whose value is known. -/
def literal (value : Value) : List Char → Reader Value
  | [], text => .ok (value, text)
  | _ :: _, [] => .error []
  | expected :: word, character :: text =>
    if character = expected then literal value word text else .error text

/-- A value that is no container. -/
def scalar : Reader Value
  | [] => .error []
  | 'n' :: text => literal .null ['u', 'l', 'l'] text
  | 't' :: text => literal (.bool true) ['r', 'u', 'e'] text
  | 'f' :: text => literal (.bool false) ['a', 'l', 's', 'e'] text
  | '-' :: text => number true text
  | '"' :: text => (stringBody text).map fun (body, left) => (.string (String.ofList body), left)
  | character :: text =>
    if character.isDigit then number false (character :: text) else .error text

/-- The elements of an array behind the first one, with its closing bracket.
The number bounds how many they are. -/
def moreElements (element : Reader Value) : Nat → Reader (List Value)
  | 0, text => .error text
  | bound + 1, text =>
    match skipSpace text with
    | [] => .error []
    | ']' :: rest => .ok ([], rest)
    | ',' :: rest =>
      match skipSpace rest with
      | ']' :: behind => .error behind
      | start => do
        let (first, left) ← element start
        let (others, left) ← moreElements element bound left
        return (first :: others, left)
    | _ :: rest => .error rest

/-- The elements of an array behind its opening bracket. The number bounds how
many they are. -/
def elements (element : Reader Value) (bound : Nat) : Reader (List Value) := fun text =>
  match skipSpace text with
  | [] => .error []
  | ']' :: rest => .ok ([], rest)
  | start => do
    let (first, left) ← element start
    let (others, left) ← moreElements element bound left
    return (first :: others, left)

/-- A member of an object, behind the first quotation mark of its name. -/
def member (element : Reader Value) : Reader (String × Value) := fun text => do
  let (name, left) ← stringBody text
  match skipSpace left with
  | ':' :: rest =>
    let (value, left) ← element rest
    return ((String.ofList name, value), left)
  | rest => .error (rest.drop 1)

/-- The members of an object behind the given ones, with its closing brace. The
number bounds how many they are. -/
def moreMembers (element : Reader Value) :
    Nat → List (String × Value) → Reader (List (String × Value))
  | 0, _, text => .error text
  | bound + 1, members, text =>
    match skipSpace text with
    | [] => .error []
    | '\x7d' :: rest => .ok (members, rest)
    | ',' :: rest =>
      match skipSpace rest with
      | '"' :: start => do
        let ((name, value), left) ← member element start
        moreMembers element bound (setMember name value members) left
      | behind => .error (behind.drop 1)
    | _ :: rest => .error rest

/-- The members of an object behind its opening brace. The number bounds how
many they are. -/
def members (element : Reader Value) (bound : Nat) : Reader (List (String × Value)) := fun text =>
  match skipSpace text with
  | '\x7d' :: rest => .ok ([], rest)
  | '"' :: start => do
    let ((name, value), left) ← member element start
    moreMembers element bound (setMember name value []) left
  | rest => .error (rest.drop 1)

/-- A value in which containers are nested at most as deep as the last number
says, where no container has more elements than the bound. -/
def value (bound : Nat) : Nat → Reader Value
  | 0, text =>
    match skipSpace text with
    | '[' :: rest | '\x7b' :: rest => .error rest
    | start => scalar start
  | room + 1, text =>
    match skipSpace text with
    | '[' :: rest =>
      (elements (value bound room) bound rest).map fun (found, left) => (.array found, left)
    | '\x7b' :: rest =>
      (members (value bound room) bound rest).map fun (found, left) => (.object found, left)
    | start => scalar start

/-- How deep containers may be nested. -/
def depthLimit : Nat := 127

end Reader

/-- The number of line feeds in a text. -/
def countBreaks (text : List Char) : Nat :=
  text.count '\n'

/-- Read a whole text as one value. A failure holds the number of the line with
the fault. -/
def read (text : String) : Except Nat Value :=
  let characters := text.toList
  let result := do
    let (found, left) ← Reader.value characters.length Reader.depthLimit characters
    match Reader.skipSpace left with
    | [] => .ok found
    | _ :: behind => .error behind
  result.mapError fun left => countBreaks characters - countBreaks left + 1

end Netlist.Json
