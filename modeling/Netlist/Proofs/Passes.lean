import Netlist.Circuit.Liveness
import Netlist.Circuit.Renumbering
import Netlist.Circuit.Schedule
import Netlist.Proofs.Bookkeeping

/-!
# Passes in place

A circuit is changed in place by passes: its gates are put in order, its dead gates are
dropped, or its inner wires are renumbered. The sets of wires that are kept beside it
(`KeptCircuit`) go through the passes with it. Sorting leaves them as they are, whether it
succeeds or not; dropping gates and renumbering clear the sets of the gates, and collect them
anew from the gates that stay.
-/

namespace Netlist

/-- The sets with every gate of a list added, one after the other, to none. -/
def WireSets.recount (sets : WireSets) (gates : List Gate) : WireSets :=
  gates.foldl addGate { sets with gateInputs := [], gateOutputs := [] }

/-- A circuit with the sets of wires that are kept beside it. -/
structure KeptCircuit where
  circuit : Circuit
  sets : WireSets
  deriving DecidableEq, Repr

namespace KeptCircuit

/-- Put the gates in order, if no gate depends on itself. -/
def sort (kept : KeptCircuit) : KeptCircuit × Except Error Unit :=
  match kept.circuit.schedule with
  | .ok ordered => ({ kept with circuit := ordered }, .ok ())
  | .error error => (kept, .error error)

/-- Drop the gates that no output depends on, and tell how many they were. -/
def eliminate (kept : KeptCircuit) : KeptCircuit × Nat :=
  ({ circuit := kept.circuit.dropDead, sets := kept.sets.recount kept.circuit.dropDead.gates },
    kept.circuit.deadCount)

/-- Renumber the inner wires to follow upon the ports and the constants. -/
def compact (kept : KeptCircuit) : KeptCircuit where
  circuit := kept.circuit.compact
  sets := kept.sets.recount kept.circuit.compact.gates

/-- Renumber the inner wires with words, if none of them overflows. -/
def compact? (kept : KeptCircuit) : Option KeptCircuit :=
  kept.circuit.compact?.map fun circuit => ⟨circuit, kept.sets.recount circuit.gates⟩

end KeptCircuit

namespace WireSets

theorem foldl_addGate (sets : WireSets) (gates : List Gate) :
    gates.foldl addGate sets = { sets with
      gateInputs := gates.foldl (fun set gate => Wire.insertAll gate.inputs set) sets.gateInputs
      gateOutputs :=
        gates.foldl (fun set gate => Wire.insertAll [gate.output] set) sets.gateOutputs } := by
  induction gates generalizing sets with
  | nil => rfl
  | cons gate rest ih => exact ih (sets.addGate gate)

/-- The sets of the gates are those of the given gates, whatever they were before. -/
theorem recount_eq (sets : WireSets) (gates : List Gate) :
    sets.recount gates = { sets with
      gateInputs := Gate.allInputs gates, gateOutputs := Gate.allOutputs gates } := by
  unfold recount Gate.allInputs Gate.allOutputs
  rw [foldl_addGate, Wire.foldl_insertAll, Wire.foldl_insertAll, List.map_eq_flatMap]

/-- The order of the gates does not matter. -/
theorem recount_perm {first second : List Gate} (perm : first.Perm second) (sets : WireSets) :
    sets.recount first = sets.recount second := by
  rw [recount_eq, recount_eq]
  unfold Gate.allInputs Gate.allOutputs
  rw [Wire.ascending_perm (perm.flatMap_right _), Wire.ascending_perm (perm.map _)]

end WireSets

namespace KeptCircuit

variable {kept : KeptCircuit}

theorem sort_of_ok {ordered : Circuit} (scheduled : kept.circuit.schedule = .ok ordered) :
    kept.sort = ({ kept with circuit := ordered }, .ok ()) := by
  rw [sort, scheduled]

theorem sort_of_error {error : Error} (failed : kept.circuit.schedule = .error error) :
    kept.sort = (kept, .error error) := by
  rw [sort, failed]

/-- The pass succeeds exactly if the gates can be ordered. -/
theorem sort_eq_ok_iff : kept.sort.2 = .ok () ↔ ∃ ordered, kept.circuit.schedule = .ok ordered := by
  cases scheduled : kept.circuit.schedule with
  | ok ordered => simp [sort_of_ok scheduled]
  | error error => simp [sort_of_error scheduled]

end KeptCircuit

end Netlist
