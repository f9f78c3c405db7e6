import Mathlib.Data.List.Perm.Basic
import Netlist.Proofs.Drivers
import Netlist.Proofs.Resolution

/-!
# Likeness up to the numbers of wires

Modules are alike if a relation of their wires that is one to one and keeps the constants
leads from the ports, gates and instances of one to those of the other, in order
(`Module.Alike`). Each module of a design has a relation of its own, as its wires are its
own: an instance relates wires of its caller by the one and wires of its callee by the
other. Alike modules are both clean or neither is (`Module.Alike.isClean_eq`).
-/

namespace Netlist

/-- A property of all items of one list is one of all items of the other, if it is so for
related items. -/
theorem forall_mem_iff_of_forall₂ {α β : Type} {relation : α → β → Prop} {items : List α}
    {images : List β} (related : List.Forall₂ relation items images) {first : α → Prop}
    {second : β → Prop} (same : ∀ item image, relation item image → (first item ↔ second image)) :
    (∀ item ∈ items, first item) ↔ ∀ image ∈ images, second image := by
  induction related with
  | nil => exact iff_of_true (List.forall_mem_nil _) (List.forall_mem_nil _)
  | cons head _ ih => rw [List.forall_mem_cons, List.forall_mem_cons, ih, same _ _ head]

/-- The relation is one to one and keeps the constants of the domain. -/
structure Domain.Matching (domain : Domain) (relation : Wire → Wire → Prop) : Prop where
  left : ∀ {one two image : Wire}, relation one image → relation two image → one = two
  right : ∀ {wire one two : Wire}, relation wire one → relation wire two → one = two
  constants : ∀ {wire : Wire}, domain.IsConstant wire → relation wire wire

namespace Domain.Matching

variable {domain : Domain} {relation : Wire → Wire → Prop}

theorem biUnique (matching : domain.Matching relation) : Relator.BiUnique relation :=
  ⟨fun _ _ _ one two => matching.left one two, fun _ _ _ one two => matching.right one two⟩

theorem flip (matching : domain.Matching relation) :
    domain.Matching fun wire image => relation image wire :=
  ⟨matching.right, matching.left, matching.constants⟩

theorem eq_iff (matching : domain.Matching relation) {one two image copy : Wire}
    (first : relation one image) (second : relation two copy) : one = two ↔ image = copy := by
  constructor
  · rintro rfl
    exact matching.right first second
  · rintro rfl
    exact matching.left first second

/-- A constant is related to itself only. -/
theorem eq_of_isConstant (matching : domain.Matching relation) {wire image : Wire}
    (related : relation wire image) (constant : domain.IsConstant wire ∨ domain.IsConstant image) :
    wire = image := by
  rcases constant with constant | constant
  · exact matching.right (matching.constants constant) related
  · exact matching.left related (matching.constants constant)

theorem isConstant_iff (matching : domain.Matching relation) {wire image : Wire}
    (related : relation wire image) : domain.IsConstant wire ↔ domain.IsConstant image := by
  constructor
  · intro constant
    exact matching.eq_of_isConstant related (Or.inl constant) ▸ constant
  · intro constant
    exact matching.eq_of_isConstant related (Or.inr constant) ▸ constant

theorem mem_iff (matching : domain.Matching relation) {wires images : List Wire}
    (alike : List.Forall₂ relation wires images) {wire image : Wire}
    (related : relation wire image) :
    wire ∈ wires ↔ image ∈ images :=
  List.rel_mem matching.biUnique related alike

theorem nodup_iff (matching : domain.Matching relation) {wires images : List Wire}
    (alike : List.Forall₂ relation wires images) : wires.Nodup ↔ images.Nodup :=
  List.rel_nodup matching.biUnique alike

theorem filter_inconstant (matching : domain.Matching relation) {wires images : List Wire}
    (alike : List.Forall₂ relation wires images) :
    List.Forall₂ relation (wires.filter fun wire => ¬ domain.IsConstant wire)
      (images.filter fun wire => ¬ domain.IsConstant wire) := by
  refine List.rel_filter (fun wire image related => ?_) alike
  change decide _ = true ↔ decide _ = true
  rw [decide_eq_true_iff, decide_eq_true_iff, matching.isConstant_iff related]

end Domain.Matching

/-! ### Gates, instances and modules -/

/-- The gates compute the same from related wires. -/
structure Gate.Alike (relation : Wire → Wire → Prop) (gate image : Gate) : Prop where
  operator : gate.operator = image.operator
  inputs : List.Forall₂ relation gate.inputs image.inputs
  output : relation gate.output image.output

/-- The pairings bind related wires to related wires. -/
structure Pairing.Alike (callers callees : Wire → Wire → Prop) (pairing image : Pairing) :
    Prop where
  caller : callers pairing.caller image.caller
  callee : callees pairing.callee image.callee

/-- The instances are of one module, with pairings and directions that are alike. -/
structure Instance.Alike (relation : String → Wire → Wire → Prop) (caller : String)
    (inner image : Instance) : Prop where
  callee : inner.callee = image.callee
  pairings : List.Forall₂ (Pairing.Alike (relation caller) (relation inner.callee))
    inner.pairings image.pairings
  inputs : List.Forall₂ (Pairing.Alike (relation caller) (relation inner.callee))
    inner.inputs image.inputs
  outputs : List.Forall₂ (Pairing.Alike (relation caller) (relation inner.callee))
    inner.outputs image.outputs

/-- The modules have one name, with ports, gates and instances that are alike, in order. -/
structure Module.Alike (relation : String → Wire → Wire → Prop) (module image : Module) :
    Prop where
  name : module.name = image.name
  domain : module.domain = image.domain
  inputs : List.Forall₂ (relation module.name) module.inputs image.inputs
  outputs : List.Forall₂ (relation module.name) module.outputs image.outputs
  gates : List.Forall₂ (Gate.Alike (relation module.name)) module.gates image.gates
  instances : List.Forall₂ (Instance.Alike relation module.name) module.instances image.instances

theorem Gate.Alike.mono {relation weaker : Wire → Wire → Prop} {gate image : Gate}
    (alike : gate.Alike relation image)
    (weakens : ∀ wire image, relation wire image → weaker wire image) :
    gate.Alike weaker image :=
  ⟨alike.operator, alike.inputs.imp weakens, weakens _ _ alike.output⟩

theorem Gate.Alike.flip {relation : Wire → Wire → Prop} {gate image : Gate}
    (alike : gate.Alike relation image) :
    image.Alike (fun wire copy => relation copy wire) gate :=
  ⟨alike.operator.symm, alike.inputs.flip, alike.output⟩

theorem Gate.biUnique_alike {relation : Wire → Wire → Prop} (unique : Relator.BiUnique relation) :
    Relator.BiUnique (Gate.Alike relation) := by
  constructor
  · intro one image two first second
    have inputs := unique.1.forall₂ first.inputs second.inputs
    have output := unique.1 first.output second.output
    cases one
    exact Gate.mk.injEq .. ▸ ⟨first.operator.trans second.operator.symm, inputs, output⟩
  · intro gate one two first second
    have inputs := unique.2.forall₂ first.inputs second.inputs
    have output := unique.2 first.output second.output
    cases one
    exact Gate.mk.injEq .. ▸ ⟨first.operator.symm.trans second.operator, inputs, output⟩

theorem Pairing.biUnique_alike {callers callees : Wire → Wire → Prop}
    (callersUnique : Relator.BiUnique callers) (calleesUnique : Relator.BiUnique callees) :
    Relator.BiUnique (Pairing.Alike callers callees) := by
  constructor
  · intro one image two first second
    have caller := callersUnique.1 first.caller second.caller
    have callee := calleesUnique.1 first.callee second.callee
    cases one
    exact Pairing.mk.injEq .. ▸ ⟨caller, callee⟩
  · intro pairing one two first second
    have caller := callersUnique.2 first.caller second.caller
    have callee := calleesUnique.2 first.callee second.callee
    cases one
    exact Pairing.mk.injEq .. ▸ ⟨caller, callee⟩

theorem Instance.Alike.flip {relation : String → Wire → Wire → Prop} {caller : String}
    {inner image : Instance} (alike : inner.Alike relation caller image) :
    image.Alike (fun name wire copy => relation name copy wire) caller inner := by
  obtain ⟨callee, pairings, inputs, outputs⟩ := alike
  rw [callee] at pairings inputs outputs
  exact ⟨callee.symm, pairings.flip.imp fun _ _ same => ⟨same.caller, same.callee⟩,
    inputs.flip.imp fun _ _ same => ⟨same.caller, same.callee⟩,
    outputs.flip.imp fun _ _ same => ⟨same.caller, same.callee⟩⟩

namespace Module.Alike

variable {relation : String → Wire → Wire → Prop} {module image : Module}

theorem flip (alike : module.Alike relation image) :
    image.Alike (fun name wire copy => relation name copy wire) module := by
  have name := alike.name
  constructor
  all_goals try rw [← name]
  · exact alike.domain.symm
  · exact alike.inputs.flip
  · exact alike.outputs.flip
  · exact alike.gates.flip.imp fun _ _ gate => gate.flip
  · exact alike.instances.flip.imp fun _ _ inner => inner.flip

theorem forall₂_callers (alike : module.Alike relation image) {pick : Instance → List Pairing}
    (picked : ∀ inner copy, Instance.Alike relation module.name inner copy →
      List.Forall₂ (Pairing.Alike (relation module.name) (relation inner.callee)) (pick inner)
        (pick copy)) :
    List.Forall₂ (relation module.name)
      (module.instances.flatMap fun inner => (pick inner).map Pairing.caller)
      (image.instances.flatMap fun inner => (pick inner).map Pairing.caller) := by
  refine List.rel_flatMap alike.instances fun inner copy same => ?_
  exact List.rel_map (fun _ _ pairing => pairing.caller) (picked inner copy same)

theorem forall₂_outputs (alike : module.Alike relation image) :
    List.Forall₂ (relation module.name) (module.gates.map Gate.output)
      (image.gates.map Gate.output) :=
  List.rel_map (fun _ _ gate => gate.output) alike.gates

section

variable (alike : module.Alike relation image)
  (matching : module.domain.Matching (relation module.name))

include alike matching

theorem isDriven_iff {wire copy : Wire} (related : relation module.name wire copy) :
    module.IsDriven wire ↔ image.IsDriven copy := by
  have callers := alike.forall₂_callers fun _ _ inner => inner.outputs
  unfold IsDriven gateOutputs Gate.allOutputs subcircuitOutputs
  simp only [Wire.mem_ascending_iff]
  rw [← alike.domain, matching.isConstant_iff related,
    matching.mem_iff alike.forall₂_outputs related,
    matching.mem_iff callers related, matching.mem_iff alike.inputs related]

theorem forall_isDriven_iff {wires copies : List Wire}
    (related : List.Forall₂ (relation module.name) wires copies) :
    (∀ wire ∈ wires, module.IsDriven wire) ↔ ∀ copy ∈ copies, image.IsDriven copy :=
  forall_mem_iff_of_forall₂ related fun _ _ same => alike.isDriven_iff matching same

/-- The drivers of alike modules are alike. -/
theorem forall₂_drivers :
    List.Forall₂ (relation module.name) module.drivers image.drivers := by
  have constants : List.Forall₂ (relation module.name) (List.range module.domain.reserved)
      (List.range module.domain.reserved) := by
    refine List.forall₂_same.2 fun wire member => ?_
    exact matching.constants (List.mem_range.1 member)
  have callers := matching.filter_inconstant (alike.forall₂_callers fun _ _ inner => inner.outputs)
  have inputs := matching.filter_inconstant alike.inputs
  unfold drivers
  rw [← alike.domain]
  exact List.rel_append (List.rel_append (List.rel_append constants inputs) alike.forall₂_outputs)
    callers

/-- Alike modules are both clean, or neither is. -/
theorem isClean_eq : module.isClean = image.isClean := by
  have outputs := alike.forall_isDriven_iff matching alike.outputs
  have gateInputs : (∀ wire ∈ module.gateInputs, module.IsDriven wire) ↔
      ∀ copy ∈ image.gateInputs, image.IsDriven copy := by
    simp only [gateInputs, Gate.allInputs, Wire.mem_ascending_iff]
    exact alike.forall_isDriven_iff matching
      (List.rel_flatMap alike.gates fun _ _ gate => gate.inputs)
  have callers : (∀ wire ∈ module.subcircuitInputs, module.IsDriven wire) ↔
      ∀ copy ∈ image.subcircuitInputs, image.IsDriven copy := by
    simp only [subcircuitInputs, Wire.mem_ascending_iff]
    exact alike.forall_isDriven_iff matching (alike.forall₂_callers fun _ _ inner => inner.inputs)
  have drivers := matching.nodup_iff (alike.forall₂_drivers matching)
  have ports : (∀ wire ∈ module.outputs, wire ∉ module.inputs) ↔
      ∀ copy ∈ image.outputs, copy ∉ image.inputs :=
    forall_mem_iff_of_forall₂ alike.outputs fun _ _ same =>
      not_congr (matching.mem_iff alike.inputs same)
  rw [Bool.eq_iff_iff, isClean_iff_isOrderly, isClean_iff_isOrderly]
  constructor
  · intro orderly
    exact ⟨outputs.1 orderly.outputs, gateInputs.1 orderly.gateInputs, drivers.1 orderly.drivers,
      ports.1 orderly.ports, callers.1 orderly.subcircuitInputs⟩
  · intro orderly
    exact ⟨outputs.2 orderly.outputs, gateInputs.2 orderly.gateInputs, drivers.2 orderly.drivers,
      ports.2 orderly.ports, callers.2 orderly.subcircuitInputs⟩

end

end Module.Alike

end Netlist
