import Netlist.Bristol.Line
import Netlist.Circuit

/-!
# Writing Bristol circuits

A circuit is written as a header with the numbers of its gates and wires, two
lines that hold nothing but a zero, its inputs, its gates in order, and its
outputs. A circuit that reads a constant declares both constants as its first
two inputs. The number of wires is counted in a machine word, and where this
overflows nothing is written.
-/

namespace Netlist.Circuit

open Netlist.Bristol

/-- The wires that a circuit declares as inputs. -/
def declaredInputs (circuit : Circuit) : List Wire :=
  (if circuit.readsConstants then [falseWire, trueWire] else []) ++ circuit.inputs

/-- The lines of a circuit behind its header. -/
def bristolLines (circuit : Circuit) : List Line :=
  circuit.declaredInputs.map .input ++ circuit.gates.map .gate ++ circuit.outputs.map .output

/-- The lines in front of all others. -/
def bristolHeader (circuit : Circuit) : List String :=
  [Line.spaced [toString circuit.gates.length, toString circuit.wireCount], "0", "0"]

/-- The text of a Boolean circuit. It takes the number of wires for a number of any size. -/
def toBristol (circuit : Circuit) : Except Error String :=
  if circuit.domain = .boolean then
    let lines := circuit.bristolHeader ++ circuit.bristolLines.map Line.text
    .ok (String.join (lines.map fun line => line ++ "\n"))
  else .error (.domainMismatch .serialization .boolean)

/-- The text of a Boolean circuit, if its wires can be counted in a machine word. -/
def writeBristol? (circuit : Circuit) : Option (Except Error String) :=
  match circuit.domain with
  | .boolean => circuit.wireCount?.map fun _ => circuit.toBristol
  | .arithmetic => some circuit.toBristol

theorem writeBristol?_eq_some_iff {circuit : Circuit} (isBoolean : circuit.domain = .boolean)
    {text : String} : circuit.writeBristol? = some (.ok text) ↔
      circuit.wireCount < Decimal.wordLimit ∧ circuit.toBristol = .ok text := by
  rw [writeBristol?, isBoolean, wireCount?_eq]
  by_cases counted : circuit.wireCount < Decimal.wordLimit
  · rw [if_pos counted]
    exact Option.some_inj.trans (and_iff_right counted).symm
  · rw [if_neg counted]
    exact iff_of_false (by rintro ⟨⟩) fun both => counted both.1

end Netlist.Circuit
