import Netlist.Circuit
import Netlist.Json.Writer
import Netlist.Yaml.Writer

/-!
# Circuits as documents

The form of a circuit in JSON and YAML: its name, domain, ports and gates, and
the wires that gates write and read. The places of instances are empty.
-/

namespace Netlist

/-- A wire as JSON. -/
def wireDocument (wire : Wire) : Json.Value :=
  .number (.natural wire)

/-- Wires as JSON. -/
def wiresDocument (wires : List Wire) : Json.Value :=
  .array (wires.map wireDocument)

/-- An operator as JSON: a word, or the name of a cell. -/
def Operator.document : Operator → Json.Value
  | .and => .string "And"
  | .xor => .string "Xor"
  | .inv => .string "Inv"
  | .buf => .string "Buf"
  | .cell name => .object [("Cell", .string name)]

/-- A gate as JSON. -/
def Gate.document (node : Gate) : Json.Value :=
  .object
    [("op", node.operator.document),
     ("inputs", wiresDocument node.inputs),
     ("output", wireDocument node.output)]

namespace Circuit

/-- A circuit as JSON. -/
def document (circuit : Circuit) : Json.Value :=
  .object
    [("name", .string circuit.name),
     ("domain", .string circuit.domain.title),
     ("inputs", wiresDocument circuit.inputs),
     ("outputs", wiresDocument circuit.outputs),
     ("gates", .array (circuit.gates.map Gate.document)),
     ("instances", .array []),
     ("gate_outputs", wiresDocument (Gate.allOutputs circuit.gates)),
     ("gate_inputs", wiresDocument (Gate.allInputs circuit.gates)),
     ("subcircuit_inputs", .array []),
     ("subcircuit_outputs", .array [])]

/-- The JSON text of a circuit, on one line. -/
def toJson (circuit : Circuit) : String :=
  String.ofList circuit.document.compact

/-- The YAML text of a circuit. -/
def toYaml (circuit : Circuit) : String :=
  String.ofList (Yaml.document circuit.document)

end Circuit

end Netlist
