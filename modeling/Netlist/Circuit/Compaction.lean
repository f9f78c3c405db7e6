import Netlist.Circuit

/-!
# Compact numbering

`Circuit.compact` renumbers the inner wires of a circuit, in the order in which
the gates name them first, to follow directly upon the ports and the constants.
Ports and constants keep their numbers. The new numbers are of any size; as words
they are given in passing over the gates (`Circuit.compact?`).
-/

namespace Netlist.Circuit

/-- The wires that keep their numbers: ports and constants. -/
def fixedWires (circuit : Circuit) : List Wire :=
  circuit.inputs ++ circuit.outputs ++ List.range circuit.domain.reserved

/-- The first number for an inner wire: one more than the highest fixed one. -/
def innerStart (circuit : Circuit) : Wire :=
  match circuit.fixedWires.max? with
  | some wire => wire + 1
  | none => 0

/-- The wires of gates that do not keep their numbers, each once, in the order
in which the gates name them. -/
def innerWires (circuit : Circuit) : List Wire :=
  let fixed := circuit.fixedWires
  ((circuit.gates.flatMap Gate.wires).filter (· ∉ fixed)).eraseDups

/-- The number of a wire after the listed wires are numbered one after the
other. -/
def renumber (start : Wire) (inner : List Wire) (wire : Wire) : Wire :=
  match inner.idxOf? wire with
  | some place => start + place
  | none => wire

/-- The new number of a wire. -/
def compactWire (circuit : Circuit) : Wire → Wire :=
  renumber circuit.innerStart circuit.innerWires

/-- The circuit with its inner wires renumbered. -/
def compact (circuit : Circuit) : Circuit :=
  let start := circuit.innerStart
  let inner := circuit.innerWires
  { circuit with gates := circuit.gates.map (Gate.rename (renumber start inner)) }

theorem gates_compact (circuit : Circuit) :
    circuit.compact.gates = circuit.gates.map (Gate.rename circuit.compactWire) :=
  rfl

/-- Ports and constants keep their numbers. -/
theorem compactWire_of_mem_fixedWires {circuit : Circuit} {wire : Wire}
    (isFixed : wire ∈ circuit.fixedWires) : circuit.compactWire wire = wire := by
  have absent : circuit.innerWires.idxOf? wire = none := by
    simp [innerWires, List.mem_eraseDups, isFixed]
  simp [compactWire, renumber, absent]

end Netlist.Circuit
