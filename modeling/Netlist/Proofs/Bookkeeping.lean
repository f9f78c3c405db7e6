import Mathlib.Data.List.Induction
import Mathlib.Data.List.Sort
import Netlist.WireSets

/-!
# Bookkeeping

The sets of wires that are kept beside a module (`WireSets`) grow with every gate, and those
of the instances are collected anew when the directions are known. Sets that are kept in this
way are the ones that the module gives by itself (`Module.Grows.gateInputs_eq`,
`Module.Grows.gateOutputs_eq`, `WireSets.matches_collect`).
-/

namespace Netlist

namespace Wire

/-- An increasing list is the ascending form of every list with the same members. -/
theorem eq_ascending_of_mem_iff {set wires : List Wire} (increasing : set.Pairwise (· < ·))
    (same : ∀ wire, wire ∈ set ↔ wire ∈ wires) : set = ascending wires := by
  refine increasing.eq_of_mem_iff (pairwise_ascending wires) fun {wire} => ?_
  rw [mem_ascending_iff]
  exact same wire

/-- The order of wires does not matter to their ascending form. -/
theorem ascending_perm {first second : List Wire} (perm : first.Perm second) :
    ascending first = ascending second :=
  eq_ascending_of_mem_iff (pairwise_ascending _) fun wire => by
    rw [mem_ascending_iff, perm.mem_iff]

/-- Wires that join an ascending list one group after the other. -/
theorem foldl_insertAll {α : Type} (wires : α → List Wire) (items : List α) :
    items.foldl (fun set item => insertAll (wires item) set) [] =
      ascending (items.flatMap wires) := by
  induction items using List.reverseRecOn with
  | nil => rfl
  | append_singleton items item ih =>
    rw [List.foldl_append, List.foldl_cons, List.foldl_nil, ih]
    apply eq_ascending_of_mem_iff (pairwise_insertAll (pairwise_ascending _))
    intro wire
    rw [mem_insertAll_iff, mem_ascending_iff, List.flatMap_append, List.mem_append,
      List.flatMap_singleton, or_comm]

end Wire

namespace Module

variable {module : Module} {wire : Wire}

theorem mem_subcircuitInputs_iff :
    wire ∈ module.subcircuitInputs ↔
      ∃ inner ∈ module.instances, ∃ pairing ∈ inner.inputs, pairing.caller = wire := by
  simp only [subcircuitInputs, Wire.mem_ascending_iff, List.mem_flatMap, List.mem_map]

theorem mem_subcircuitOutputs_iff :
    wire ∈ module.subcircuitOutputs ↔
      ∃ inner ∈ module.instances, ∃ pairing ∈ inner.outputs, pairing.caller = wire := by
  simp only [subcircuitOutputs, Wire.mem_ascending_iff, List.mem_flatMap, List.mem_map]

end Module

namespace WireSets

/-- The sets of the instances are those that the module gives. -/
structure Matches (sets : WireSets) (module : Module) : Prop where
  subcircuitInputs : sets.subcircuitInputs = module.subcircuitInputs
  subcircuitOutputs : sets.subcircuitOutputs = module.subcircuitOutputs

/-- Whatever the sets were before, collecting them gives those of the module. -/
theorem matches_collect (sets : WireSets) (module : Module) :
    (sets.collect module.instances).Matches module :=
  ⟨Wire.foldl_insertAll _ _, Wire.foldl_insertAll _ _⟩

end WireSets

/-- The module was built from an empty one by adding ports, gates and instances, and the
sets were kept along with it. -/
inductive Module.Grows : Module → WireSets → Prop where
  | empty (name : String) (domain : Domain) : Grows (Module.empty name domain) WireSets.empty
  | addInput {module : Module} {sets : WireSets} (wire : Wire) :
    Grows module sets → Grows (module.addInput wire) sets
  | addOutput {module : Module} {sets : WireSets} (wire : Wire) :
    Grows module sets → Grows (module.addOutput wire) sets
  | addGate {module : Module} {sets : WireSets} (gate : Gate) :
    Grows module sets → Grows (module.addGate gate) (sets.addGate gate)
  | addInstance {module : Module} {sets : WireSets} (inner : Instance) :
    Grows module sets → Grows (module.addInstance inner) sets

namespace Module.Grows

variable {module : Module} {sets : WireSets}

/-- The wires that gates read are those that were kept. -/
theorem gateInputs_eq (grows : module.Grows sets) : sets.gateInputs = module.gateInputs := by
  induction grows with
  | empty => rfl
  | addInput _ _ ih => exact ih
  | addOutput _ _ ih => exact ih
  | @addGate module sets gate _ ih =>
    have increasing : sets.gateInputs.Pairwise (· < ·) := ih ▸ Wire.pairwise_ascending _
    apply Wire.eq_ascending_of_mem_iff (Wire.pairwise_insertAll increasing)
    intro wire
    rw [Wire.mem_insertAll_iff, ih, Module.addGate, List.flatMap_append, List.mem_append,
      List.flatMap_singleton, or_comm, gateInputs, Gate.allInputs, Wire.mem_ascending_iff]
  | addInstance _ _ ih => exact ih

/-- The wires that gates write are those that were kept. -/
theorem gateOutputs_eq (grows : module.Grows sets) : sets.gateOutputs = module.gateOutputs := by
  induction grows with
  | empty => rfl
  | addInput _ _ ih => exact ih
  | addOutput _ _ ih => exact ih
  | @addGate module sets gate _ ih =>
    have increasing : sets.gateOutputs.Pairwise (· < ·) := ih ▸ Wire.pairwise_ascending _
    apply Wire.eq_ascending_of_mem_iff (Wire.pairwise_insertAscending increasing)
    intro wire
    rw [Wire.mem_insertAscending_iff, ih, Module.addGate, List.map_append, List.mem_append,
      List.map_singleton, List.mem_singleton, or_comm, gateOutputs, Gate.allOutputs,
      Wire.mem_ascending_iff]
  | addInstance _ _ ih => exact ih

end Module.Grows

end Netlist
