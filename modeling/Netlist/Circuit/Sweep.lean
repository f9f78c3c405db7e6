import Mathlib.Logic.Function.Basic
import Netlist.Circuit

/-!
# Sweeps over circuits

A sweep evaluates the gates of a circuit one after the other. A gate gives a value to its
output if all of its inputs have one by then and its operator is a primitive; any other
gate is passed over, so wires may be left without a value.
-/

namespace Netlist

/-- What is known about the values of wires. -/
abbrev Knowledge := Wire → Option Bool

/-- The value that a gate computes from what is known. -/
def Gate.value? (known : Knowledge) (gate : Gate) : Option Bool :=
  (gate.inputs.mapM known).bind gate.operator.compute?

/-- What is known once a gate was evaluated or passed over. -/
def Gate.learn (known : Knowledge) (gate : Gate) : Knowledge :=
  match gate.value? known with
  | some bit => Function.update known gate.output (some bit)
  | none => known

namespace Circuit

/-- What is known before any gate is evaluated: constants and inputs. -/
def given (circuit : Circuit) (assignment : Wire → Bool) : Knowledge := fun wire =>
  if circuit.domain.IsConstant wire then some (decide (wire = trueWire))
  else if wire ∈ circuit.inputs then some (assignment wire)
  else none

/-- What is known once all gates were evaluated in order. -/
def sweep (circuit : Circuit) (assignment : Wire → Bool) : Knowledge :=
  circuit.gates.foldl Gate.learn (circuit.given assignment)

end Circuit

end Netlist
