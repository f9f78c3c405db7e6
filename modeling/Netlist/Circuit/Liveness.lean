import Netlist.Circuit
import Netlist.Event

/-!
# Dead gates

A wire is live if an output depends on it: the outputs are live, and so are all
inputs of a gate that drives a live wire. A gate is dead if its output is not
live. Dropping the dead gates keeps the others in order and the ports as
declared.
-/

namespace Netlist

/-- The wire is in the least set that contains the outputs and, with the output
of a gate, all of its inputs. -/
inductive Circuit.Live (circuit : Circuit) : Wire → Prop where
  | output {wire : Wire} : wire ∈ circuit.outputs → circuit.Live wire
  | input {gate : Gate} {wire : Wire} :
    gate ∈ circuit.gates → circuit.Live gate.output → wire ∈ gate.inputs → circuit.Live wire

/-- The gates that drive one of the given wires. -/
def Gate.drivingAny (wires : List Wire) (gates : List Gate) : List Gate :=
  gates.filter fun gate => gate.output ∈ wires

/-- The gates that drive none of the given wires. -/
def Gate.drivingNone (wires : List Wire) (gates : List Gate) : List Gate :=
  gates.filter fun gate => gate.output ∉ wires

theorem Gate.length_drivingNone_lt {wires : List Wire} {gates : List Gate}
    (some_driving : Gate.drivingAny wires gates ≠ []) :
    (Gate.drivingNone wires gates).length < gates.length := by
  obtain ⟨gate, member⟩ := List.exists_mem_of_ne_nil _ some_driving
  rw [Gate.drivingNone, List.length_filter_lt_length_iff_exists]
  exact ⟨gate, (List.mem_filter.1 member).1, by simpa using (List.mem_filter.1 member).2⟩

/-- The given wires, and the wires that they depend on: the gates that drive one
are taken away, and the search goes on from their inputs, until no gate that is
left drives a wire it has come to. -/
def liveWires (gates : List Gate) (front : List Wire) : List Wire :=
  if finished : Gate.drivingAny front gates = [] then front
  else
    have := Gate.length_drivingNone_lt finished
    front ++ liveWires (Gate.drivingNone front gates)
      ((Gate.drivingAny front gates).flatMap Gate.inputs)
termination_by gates.length

namespace Circuit

/-- The wires that an output depends on. -/
def live (circuit : Circuit) : List Wire :=
  liveWires circuit.gates circuit.outputs

/-- The circuit without its dead gates. -/
def dropDead (circuit : Circuit) : Circuit :=
  let live := circuit.live
  { circuit with gates := circuit.gates.filter fun gate => gate.output ∈ live }

/-- How many gates are dead. -/
def deadCount (circuit : Circuit) : Nat :=
  circuit.gates.length - circuit.dropDead.gates.length

/-- The circuit without its dead gates. What was dropped is reported, unless
there were no gates to begin with. -/
def eliminateDead (circuit : Circuit) : Report Circuit :=
  let total := circuit.gates.length
  ⟨if total = 0 then [] else [.deadGates circuit.deadCount total], .ok circuit.dropDead⟩

end Circuit

/-- What is known to be live is live. -/
theorem subset_liveWires (gates : List Gate) (front : List Wire) :
    front ⊆ liveWires gates front := by
  unfold liveWires
  split
  · exact List.Subset.refl _
  · exact List.subset_append_left _ _

end Netlist
