import Netlist.Error

/-!
# The shape of JSON netlists

A JSON netlist maps the names of modules to their ports and cells. A port or a
cell is an object with known members, or the array of their values in order. The
ports of a module and the cells are decoded as a whole before any of them is
used; the connections of a cell are decoded when the cell is.
-/

namespace Netlist.Yosys

open Netlist.Json

/-- A bit of a port or of a connection. -/
inductive Bit where
  | net (number : Nat)
  /-- A constant, given as a string. -/
  | constant (text : String)
  deriving DecidableEq, Repr

/-- A port of a module. -/
structure Port where
  direction : String
  bits : List Bit
  deriving DecidableEq, Repr

/-- A cell of a module. Its connections and the directions of its own ports are
not decoded yet. -/
structure Cell where
  kind : String
  directions : Value
  connections : Value

/-- Decodes a value that should have some shape. -/
abbrev Decoder (α : Type) := Value → Except Mismatch α

/-- A string. -/
def text : Decoder String
  | .string value => .ok value
  | found => .error (.unexpected found .string)

/-- A bit: the number of a net, or a string. -/
def bit : Decoder Bit
  | .number (.natural number) => .ok (.net number)
  | .string value => .ok (.constant value)
  | _ => .error .noBit

/-- The bits of a port or of a connection. -/
def bits : Decoder (List Bit)
  | .array elements => elements.mapM bit
  | found => .error (.unexpected found .sequence)

/-- Decode the members of an object that carry a name, in order; the object
holds no name twice. -/
def field? {α : Type} (decode : Decoder α) (name : String) (members : List (String × Value)) :
    Except Mismatch (Option α) :=
  match members.lookup name with
  | some value => (decode value).map some
  | none => .ok none

/-- A field that must be there. -/
def required {α : Type} (name : String) : Option α → Except Mismatch α
  | some value => .ok value
  | none => .error (.missingField name)

/-- Which of two names comes first among the members of an object, if either is
there. A fault in the value of an earlier member is found before one in a later
member. -/
def comesFirst (first second : String) (members : List (String × Value)) : Bool :=
  match members.find? fun (name, _) => name = first ∨ name = second with
  | some (name, _) => name = first
  | none => true

/-- A port given as an object. -/
def portOfMembers (members : List (String × Value)) : Except Mismatch Port := do
  let (direction, bits) ←
    if comesFirst "direction" "bits" members then do
      let direction ← field? text "direction" members
      let bits ← field? bits "bits" members
      pure (direction, bits)
    else do
      let bits ← field? bits "bits" members
      let direction ← field? text "direction" members
      pure (direction, bits)
  return ⟨← required "direction" direction, ← required "bits" bits⟩

/-- A port given as an array. -/
def portOfElements : List Value → Except Mismatch Port
  | [] => .error (.tooShort 0 "Port" 2)
  | [direction] => do
    let _ ← text direction
    throw (.tooShort 1 "Port" 2)
  | direction :: second :: rest => do
    let direction ← text direction
    let bits ← bits second
    if rest.isEmpty then return ⟨direction, bits⟩
    else throw (.tooLong (rest.length + 2))

/-- A port. -/
def port : Decoder Port
  | .object members => portOfMembers members
  | .array elements => portOfElements elements
  | found => .error (.unexpected found (.record "Port"))

/-- A cell given as an object. -/
def cellOfMembers (members : List (String × Value)) : Except Mismatch Cell := do
  let kind ← required "type" (← field? text "type" members)
  return ⟨kind, (members.lookup "port_directions").getD .null,
    (members.lookup "connections").getD .null⟩

/-- A cell given as an array, which may end after its type. -/
def cellOfElements : List Value → Except Mismatch Cell
  | [] => .error (.tooShort 0 "Cell" 3)
  | kind :: rest => do
    let kind ← text kind
    match rest with
    | [] => return ⟨kind, .null, .null⟩
    | [directions] => return ⟨kind, directions, .null⟩
    | [directions, connections] => return ⟨kind, directions, connections⟩
    | _ => throw (.tooLong (rest.length + 1))

/-- A cell. -/
def cell : Decoder Cell
  | .object members => cellOfMembers members
  | .array elements => cellOfElements elements
  | found => .error (.unexpected found (.record "Cell"))

/-- What an object lists, decoded in order. A missing listing is empty. -/
def entries {α : Type} (decode : Decoder α) (listing : Section) :
    Value → Except Error (List (String × α))
  | .null => .ok []
  | .object members => members.mapM fun (name, value) =>
    match decode value with
    | .ok decoded => .ok (name, decoded)
    | .error mismatch => .error (.parse 0 (.entry listing name mismatch))
  | _ => .error (.parse 0 (.notObject listing))

/-- A member of an object, or null where there is none. -/
def memberOrNull (name : String) (value : Value) : Value :=
  (value.member? name).getD .null

/-- A module of a JSON netlist. -/
structure ModuleSource where
  name : String
  ports : List (String × Port)
  cells : List (String × Cell)

/-- Decode the ports and the cells of a module. -/
def moduleSource (name : String) (body : Value) : Except Error ModuleSource := do
  let ports ← entries port .port (memberOrNull "ports" body)
  let cells ← entries cell .cell (memberOrNull "cells" body)
  return ⟨name, ports, cells⟩

/-- Decode all modules of a JSON netlist. -/
def moduleSources (root : Value) : Except Error (List ModuleSource) := do
  match root.member? "modules" with
  | none => throw (.parse 0 .noModules)
  | some modules =>
    let bodies ← entries Except.ok .module modules
    bodies.mapM fun (name, body) => moduleSource name body

end Netlist.Yosys
