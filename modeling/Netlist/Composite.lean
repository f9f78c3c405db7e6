import Netlist.Circuit
import Netlist.Connection
import Netlist.Event

/-!
# Composite circuits

A composite circuit is a Boolean circuit whose values pass over bridges into an
arithmetic circuit whose outputs are zero. It is a list of steps in the order in
which they can be carried out.
-/

namespace Netlist

/-- One step of a composite circuit. -/
inductive Step where
  /-- The sizes of the two wire spaces. -/
  | sizeHint (arithmetic boolean : Nat)
  /-- A Boolean wire is given from outside. -/
  | input (wire : Wire)
  | boolean (node : Gate)
  | bridge (bridge : Bridge)
  | arithmetic (node : Gate)
  /-- An arithmetic wire is zero. -/
  | assertZero (wire : Wire)
  deriving DecidableEq, Repr

/-- A Boolean circuit and an arithmetic circuit, joined by bridges. -/
abbrev Composite := List Step

namespace Composite

/-- The bridges of a composite circuit. -/
def bridges (composite : Composite) : List Bridge :=
  composite.filterMap fun
    | .bridge bridge => some bridge
    | _ => none

/-- The steps of two circuits and their connection. Inputs and outputs are in
ascending order, gates and bridges in their own. -/
def steps (boolean arithmetic : Circuit) (connection : Connection) : Composite :=
  .sizeHint arithmetic.wireCount boolean.wireCount ::
    (boolean.inputs.mergeSort.map .input ++ boolean.gates.map .boolean ++
      connection.bridges.map .bridge ++ arithmetic.gates.map .arithmetic ++
      arithmetic.outputs.mergeSort.map .assertZero)

/-- Join a Boolean circuit and an arithmetic one. -/
def compose (boolean arithmetic : Circuit) (connection : Connection) : Report Composite :=
  if boolean.domain ≠ .boolean then .fail (.domainMismatch .composition .boolean)
  else if arithmetic.domain ≠ .arithmetic then .fail (.domainMismatch .composition .arithmetic)
  else
    ⟨[.composed boolean.gates.length connection.bridges.length arithmetic.gates.length],
      .ok (steps boolean arithmetic connection)⟩

end Composite

end Netlist
