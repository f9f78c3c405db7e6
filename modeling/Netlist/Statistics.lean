import Netlist.Composite
import Netlist.Design
import Netlist.Json.Value

/-!
# Statistics

Counts of what a design, its flat circuit and a composite circuit are made of.
Gates are counted by operator, and opaque cells by name.
-/

namespace Netlist

/-- How many gates there are of each kind. -/
structure GateCounts where
  and : Nat
  xor : Nat
  inv : Nat
  buf : Nat
  /-- The names of cells, in order, with their numbers. -/
  cells : List (String × Nat)
  deriving DecidableEq, Repr

namespace GateCounts

/-- No gates. -/
def zero : GateCounts :=
  ⟨0, 0, 0, 0, []⟩

/-- Count one more cell of a name. Names are kept in order. -/
def countCell (name : String) : List (String × Nat) → List (String × Nat)
  | [] => [(name, 1)]
  | (other, number) :: rest =>
    if name = other then (other, number + 1) :: rest
    else if name < other then (name, 1) :: (other, number) :: rest
    else (other, number) :: countCell name rest

/-- Count one more gate. -/
def countGate (counts : GateCounts) (node : Gate) : GateCounts :=
  match node.operator with
  | .and => { counts with and := counts.and + 1 }
  | .xor => { counts with xor := counts.xor + 1 }
  | .inv => { counts with inv := counts.inv + 1 }
  | .buf => { counts with buf := counts.buf + 1 }
  | .cell name => { counts with cells := countCell name counts.cells }

/-- Count some more gates. -/
def countGates (counts : GateCounts) (gates : List Gate) : GateCounts :=
  gates.foldl countGate counts

/-- The number of all gates. -/
def total (counts : GateCounts) : Nat :=
  counts.and + counts.xor + counts.inv + counts.buf +
    counts.cells.foldl (fun sum cell => sum + cell.2) 0

end GateCounts

/-- Counts of a netlist and of a composite circuit. -/
structure Statistics where
  modules : Nat
  instances : Nat
  inputs : Nat
  outputs : Nat
  /-- The size of the largest wire space. -/
  wires : Nat
  gates : GateCounts
  booleanWires : Nat
  arithmeticWires : Nat
  arithmeticGates : GateCounts
  bridges : Nat
  assertions : Nat
  deriving DecidableEq, Repr

namespace Statistics

/-- Nothing was counted yet. -/
def zero : Statistics :=
  ⟨0, 0, 0, 0, 0, .zero, 0, 0, .zero, 0, 0⟩

/-- Count the modules and instances of a design. -/
def addDesign (counts : Statistics) (design : Design) : Statistics :=
  { counts with
    modules := counts.modules + design.modules.length
    instances := counts.instances + (design.modules.flatMap Module.instances).length }

/-- Count the ports, wires and gates of a flat circuit. -/
def addCircuit (counts : Statistics) (circuit : Circuit) : Statistics :=
  { counts with
    inputs := counts.inputs + circuit.inputs.length
    outputs := counts.outputs + circuit.outputs.length
    wires := max counts.wires circuit.wireCount
    gates := counts.gates.countGates circuit.gates }

/-- Count a step of a composite circuit. -/
def addStep (counts : Statistics) : Step → Statistics
  | .sizeHint _ _ => counts
  | .input _ => { counts with inputs := counts.inputs + 1 }
  | .boolean node => { counts with gates := counts.gates.countGate node }
  | .bridge _ => { counts with bridges := counts.bridges + 1 }
  | .arithmetic node => { counts with arithmeticGates := counts.arithmeticGates.countGate node }
  | .assertZero _ => { counts with assertions := counts.assertions + 1 }

/-- The wires of one domain that a step names. -/
def stepWires : Domain → Step → List Wire
  | .boolean, .input wire => [wire]
  | .boolean, .boolean node => node.wires
  | .boolean, .bridge bridge => bridge.wires
  | .arithmetic, .bridge bridge => [bridge.arithmetic]
  | .arithmetic, .arithmetic node => node.wires
  | .arithmetic, .assertZero wire => [wire]
  | _, _ => []

/-- The number of distinct wires of one domain in a composite circuit. -/
def wireNumber (domain : Domain) (composite : Composite) : Nat :=
  (Wire.ascending (composite.flatMap (stepWires domain))).length

/-- Count the steps of a composite circuit and the wires on either side. -/
def addComposite (counts : Statistics) (composite : Composite) : Statistics :=
  let counted := composite.foldl addStep counts
  { counted with
    booleanWires := counted.booleanWires + wireNumber .boolean composite
    arithmeticWires := counted.arithmeticWires + wireNumber .arithmetic composite }

end Statistics

/-- A natural number as JSON. -/
def Json.natural (value : Nat) : Json.Value :=
  .number (.natural value)

/-- Counts of gates as JSON. -/
def GateCounts.toJson (counts : GateCounts) : Json.Value :=
  .object
    [("and_gates", Json.natural counts.and),
     ("xor_gates", Json.natural counts.xor),
     ("inv_gates", Json.natural counts.inv),
     ("buf_gates", Json.natural counts.buf),
     ("cell_gates", .object (counts.cells.map fun (name, number) => (name, Json.natural number)))]

/-- Counts as JSON. -/
def Statistics.toJson (counts : Statistics) : Json.Value :=
  .object
    [("modules", Json.natural counts.modules),
     ("instances", Json.natural counts.instances),
     ("inputs", Json.natural counts.inputs),
     ("outputs", Json.natural counts.outputs),
     ("wires", Json.natural counts.wires),
     ("gate_stats", counts.gates.toJson),
     ("boolean_wires", Json.natural counts.booleanWires),
     ("arithmetic_wires", Json.natural counts.arithmeticWires),
     ("arithmetic_gates", counts.arithmeticGates.toJson),
     ("bridges", Json.natural counts.bridges),
     ("assert_zero", Json.natural counts.assertions)]

end Netlist
