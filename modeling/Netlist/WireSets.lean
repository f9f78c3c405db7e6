import Netlist.Module

/-!
# Sets of wires beside modules

Beside a module the wires that its gates read and write are kept, and those that
feed its instances or are driven by them. The sets of the gates grow with every
gate. The sets of the instances are cleared and collected anew when the
directions of the instances are known.
-/

namespace Netlist

/-- The sets of wires that are kept beside a module, each as an ascending list. -/
structure WireSets where
  /-- The wires that gates read. -/
  gateInputs : List Wire
  /-- The wires that gates write. -/
  gateOutputs : List Wire
  /-- The wires that feed an instance. -/
  subcircuitInputs : List Wire
  /-- The wires that an instance drives. -/
  subcircuitOutputs : List Wire
  deriving DecidableEq, Repr

namespace WireSets

/-- The sets of a module without gates and instances. -/
def empty : WireSets :=
  ⟨[], [], [], []⟩

/-- The sets once a gate was added. -/
def addGate (sets : WireSets) (gate : Gate) : WireSets :=
  { sets with
    gateInputs := Wire.insertAll gate.inputs sets.gateInputs
    gateOutputs := Wire.insertAscending gate.output sets.gateOutputs }

/-- The sets once the directions of instances are known: those of the instances are
cleared, and collected from one instance after the other. -/
def collect (sets : WireSets) (instances : List Instance) : WireSets :=
  { sets with
    subcircuitInputs := instances.foldl
      (fun set inner => Wire.insertAll (inner.inputs.map Pairing.caller) set) []
    subcircuitOutputs := instances.foldl
      (fun set inner => Wire.insertAll (inner.outputs.map Pairing.caller) set) [] }

end WireSets

end Netlist
