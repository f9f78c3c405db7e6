import Netlist.Wire

/-!
# Gates

A gate computes one wire from an ordered list of wires. Its operator is one of
four Boolean primitives, recognized by name in any case and with or without the
markers of an internal cell (`$_AND_`), or an opaque cell that only has a name.
-/

namespace Netlist

/-- What a gate computes. -/
inductive Operator where
  | and
  | xor
  | inv
  | buf
  /-- A technology cell, carried by name. -/
  | cell (name : String)
  deriving DecidableEq, Repr

namespace Operator

/-- Cut away every marker `$_` at the start. -/
def dropOpening : List Char → List Char
  | '$' :: '_' :: rest => dropOpening rest
  | characters => characters

/-- Cut away every underscore at the end. -/
def dropClosing (characters : List Char) : List Char :=
  (characters.reverse.dropWhile (· = '_')).reverse

/-- The word by which an operator is recognized: upper case in ASCII, without
markers. -/
def bareWord (name : String) : String :=
  String.ofList ((dropClosing (dropOpening name.toList)).map Char.toUpper)

/-- The operator with the given name; a name that is not known is a cell. -/
def ofName (name : String) : Operator :=
  match bareWord name with
  | "AND" => and
  | "XOR" => xor
  | "INV" | "NOT" => inv
  | "BUF" | "ALIAS" => buf
  | _ => cell name

/-- The number of inputs of a primitive. A cell may have any. -/
def arity? : Operator → Option Nat
  | and | xor => some 2
  | inv | buf => some 1
  | cell _ => none

/-- The name under which an operator is written. -/
def name : Operator → String
  | and => "AND"
  | xor => "XOR"
  | inv => "INV"
  | buf => "BUF"
  | cell name => name

/-- The value of a primitive on as many bits as it has inputs. -/
def compute? : Operator → List Bool → Option Bool
  | and, [left, right] => some (left && right)
  | xor, [left, right] => some (left ^^ right)
  | inv, [bit] => some !bit
  | buf, [bit] => some bit
  | _, _ => none

/-- Every operator but a cell. -/
def IsPrimitive (operator : Operator) : Prop :=
  operator.arity?.isSome

instance (operator : Operator) : Decidable operator.IsPrimitive :=
  inferInstanceAs (Decidable (_ = true))

theorem arity?_eq_some_length {operator : Operator} {bits : List Bool} {bit : Bool}
    (computed : operator.compute? bits = some bit) : operator.arity? = some bits.length := by
  unfold compute? at computed
  split at computed <;> first | rfl | cases computed

end Operator

/-- A gate with ordered inputs and one output. -/
structure Gate where
  operator : Operator
  inputs : List Wire
  output : Wire
  deriving DecidableEq, Repr

namespace Gate

/-- The wires of a gate: its inputs in order, then its output. -/
def wires (gate : Gate) : List Wire :=
  gate.inputs ++ [gate.output]

/-- The gate with every wire renamed. -/
def rename (relabel : Wire → Wire) (gate : Gate) : Gate :=
  { gate with inputs := gate.inputs.map relabel, output := relabel gate.output }

/-- A gate that copies one wire to another. -/
def copy (source target : Wire) : Gate :=
  ⟨.buf, [source], target⟩

@[simp]
theorem mem_wires_iff {gate : Gate} {wire : Wire} :
    wire ∈ gate.wires ↔ wire ∈ gate.inputs ∨ wire = gate.output := by
  simp [wires]

@[simp]
theorem wires_rename (relabel : Wire → Wire) (gate : Gate) :
    (gate.rename relabel).wires = gate.wires.map relabel := by
  simp [wires, rename]

theorem rename_id (gate : Gate) : gate.rename id = gate := by
  simp [rename]

end Gate

end Netlist
