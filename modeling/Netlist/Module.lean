import Netlist.Gate
import Netlist.Wire.Ascending

/-!
# Modules

A module is one model of a netlist: ports, gates, and instances of other
modules. Each instance pairs wires of its caller with port wires of its callee;
which pairings are inputs and which are outputs is known once all modules are.
-/

namespace Netlist

/-- A wire of the caller and the port wire of the callee that it is bound to. -/
structure Pairing where
  caller : Wire
  callee : Wire
  deriving DecidableEq, Repr

/-- The use of a module within another one. -/
structure Instance where
  callee : String
  pairings : List Pairing
  /-- The pairings that carry values into the callee. -/
  inputs : List Pairing
  /-- The pairings that carry values out of the callee. -/
  outputs : List Pairing
  deriving DecidableEq, Repr

/-- An instance whose directions are not known yet. -/
def Instance.unresolved (callee : String) (pairings : List Pairing) : Instance :=
  ⟨callee, pairings, [], []⟩

/-- One model of a netlist. -/
structure Module where
  name : String
  domain : Domain
  inputs : List Wire
  outputs : List Wire
  gates : List Gate
  instances : List Instance
  deriving DecidableEq, Repr

/-- The wires read by some gates, ascending. -/
def Gate.allInputs (gates : List Gate) : List Wire :=
  Wire.ascending (gates.flatMap Gate.inputs)

/-- The wires written by some gates, ascending. -/
def Gate.allOutputs (gates : List Gate) : List Wire :=
  Wire.ascending (gates.map Gate.output)

/-- Append a port, unless the wire is a port already. -/
def addPort (wire : Wire) (ports : List Wire) : List Wire :=
  if wire ∈ ports then ports else ports ++ [wire]

namespace Module

/-- A module without ports, gates and instances. -/
def empty (name : String) (domain : Domain) : Module :=
  ⟨name, domain, [], [], [], []⟩

/-- Declare an input. -/
def addInput (module : Module) (wire : Wire) : Module :=
  { module with inputs := addPort wire module.inputs }

/-- Declare an output. -/
def addOutput (module : Module) (wire : Wire) : Module :=
  { module with outputs := addPort wire module.outputs }

/-- Append a gate. -/
def addGate (module : Module) (gate : Gate) : Module :=
  { module with gates := module.gates ++ [gate] }

/-- Append an instance. -/
def addInstance (module : Module) (inner : Instance) : Module :=
  { module with instances := module.instances ++ [inner] }

/-- The wires that gates write, ascending. -/
def gateOutputs (module : Module) : List Wire :=
  Gate.allOutputs module.gates

/-- The wires that gates read, ascending. -/
def gateInputs (module : Module) : List Wire :=
  Gate.allInputs module.gates

/-- The wires that feed an instance, ascending. -/
def subcircuitInputs (module : Module) : List Wire :=
  Wire.ascending (module.instances.flatMap fun inner => inner.inputs.map Pairing.caller)

/-- The wires that an instance drives, ascending. -/
def subcircuitOutputs (module : Module) : List Wire :=
  Wire.ascending (module.instances.flatMap fun inner => inner.outputs.map Pairing.caller)

/-- Something gives the wire a value: it is a constant or an input, or a gate or
an instance drives it. -/
def IsDriven (module : Module) (wire : Wire) : Prop :=
  module.domain.IsConstant wire ∨ wire ∈ module.gateOutputs ∨
    wire ∈ module.subcircuitOutputs ∨ wire ∈ module.inputs

instance (module : Module) (wire : Wire) : Decidable (module.IsDriven wire) :=
  inferInstanceAs (Decidable (_ ∨ _ ∨ _ ∨ _))

/-- The module has no instances. -/
def isFlat (module : Module) : Bool :=
  module.instances.isEmpty

/-- The wires of ports and gates, ascending. -/
def wires (module : Module) : List Wire :=
  Wire.ascending (module.inputs ++ module.outputs ++ module.gates.flatMap Gate.wires)

end Module

/-- A port that is added is a port, and the others remain. -/
@[simp]
theorem mem_addPort_iff {wire other : Wire} {ports : List Wire} :
    other ∈ addPort wire ports ↔ other = wire ∨ other ∈ ports := by
  unfold addPort
  split
  · rename_i present
    constructor
    · exact Or.inr
    · rintro (rfl | member)
      · exact present
      · exact member
  · simp [or_comm]

@[simp]
theorem Gate.mem_allInputs_iff {wire : Wire} {gates : List Gate} :
    wire ∈ Gate.allInputs gates ↔ ∃ gate ∈ gates, wire ∈ gate.inputs := by
  simp [Gate.allInputs]

@[simp]
theorem Gate.mem_allOutputs_iff {wire : Wire} {gates : List Gate} :
    wire ∈ Gate.allOutputs gates ↔ ∃ gate ∈ gates, gate.output = wire := by
  simp [Gate.allOutputs]

end Netlist
