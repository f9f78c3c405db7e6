import Netlist.Proofs.Allocation

/-!
# Translation by names

Wires of two allocators correspond if they have one name (`Allocator.Matches`). Each wire
corresponds to one other at most, and constants to constants, so whatever is read off
modules alike in ports, gates and instances (`Allocator.MatchesModule`) is alike as well.
-/

namespace Netlist

theorem rel_imp {α β : Type} {relation weaker : α → β → Prop} {first : Option α}
    {second : Option β} (related : Option.Rel relation first second)
    (weakens : ∀ value image, relation value image → weaker value image) :
    Option.Rel weaker first second := by
  cases related with
  | none => exact .none
  | some same => exact .some (weakens _ _ same)

namespace Allocator

variable {first second later other : Allocator}

/-- The wires have one name, each by its allocator. -/
def Matches (first second : Allocator) (wire image : Wire) : Prop :=
  ∃ name, first.nameOf wire = some name ∧ second.nameOf image = some name

/-- Wires go on to correspond while more is allocated. -/
theorem Matches.of_extends {wire image : Wire} (same : first.Matches second wire image)
    (left : first.Extends later) (right : second.Extends other) :
    later.Matches other wire image := by
  obtain ⟨name, named, imageNamed⟩ := same
  exact ⟨name, left.nameOf named, right.nameOf imageNamed⟩

theorem eq_of_nameOf {allocator : Allocator} {one two : Wire} {name : String}
    (oneNamed : allocator.nameOf one = some name) (twoNamed : allocator.nameOf two = some name) :
    one = two :=
  Option.some.inj ((lookup_eq_some_iff.2 oneNamed).symm.trans (lookup_eq_some_iff.2 twoNamed))

/-- Each wire corresponds to one other at most, and the other way round. -/
theorem Matches.eq_iff {one two image copy : Wire} (oneSame : first.Matches second one image)
    (twoSame : first.Matches second two copy) : one = two ↔ image = copy := by
  obtain ⟨name, oneNamed, imageNamed⟩ := oneSame
  obtain ⟨other, twoNamed, copyNamed⟩ := twoSame
  constructor
  · rintro rfl
    rw [oneNamed] at twoNamed
    cases twoNamed
    exact eq_of_nameOf imageNamed copyNamed
  · rintro rfl
    rw [imageNamed] at copyNamed
    cases copyNamed
    exact eq_of_nameOf oneNamed twoNamed

/-- Lists of wires that correspond contain wires that correspond, or neither does. -/
theorem Matches.mem_iff {wires images : List Wire}
    (same : List.Forall₂ (first.Matches second) wires images) {wire image : Wire}
    (matched : first.Matches second wire image) : wire ∈ wires ↔ image ∈ images := by
  induction same with
  | nil => exact iff_of_false List.not_mem_nil List.not_mem_nil
  | cons head _ ih => rw [List.mem_cons, List.mem_cons, ih, matched.eq_iff head]

theorem Matches.isConstant_iff (domain : first.domain = second.domain) {wire image : Wire}
    (same : first.Matches second wire image) :
    first.domain.IsConstant wire ↔ second.domain.IsConstant image := by
  obtain ⟨name, named, imageNamed⟩ := same
  rw [isConstant_iff_of_nameOf named, isConstant_iff_of_nameOf imageNamed, domain]

/-- Only the domain decides which names get wires. -/
theorem exists_allocate_iff {allocator : Allocator} {name : String} :
    (∃ result, allocator.allocate name = .ok result) ↔
      (IsConstantName name → name ∈ allocator.domain.constantNames) := by
  cases found : allocator.lookup name with
  | some wire =>
    refine iff_of_true ⟨_, allocate_of_lookup found⟩ fun isConstant => ?_
    have member := List.mem_of_getElem? (lookup_eq_some_iff.1 found)
    rcases List.mem_append.1 member with constant | isNamed
    · exact constant
    · exact absurd isConstant (allocator.no_constant name isNamed)
  | none =>
    by_cases isConstant : IsConstantName name
    · refine iff_of_false ?_ fun allowed => ?_
      · rw [allocate_of_isConstantName found isConstant]
        rintro ⟨_, ⟨⟩⟩
      · exact lookup_eq_none_iff.1 found (List.mem_append_left _ (allowed isConstant))
    · obtain ⟨last, allocated, -⟩ := allocate_of_isNew found isConstant
      exact iff_of_true ⟨_, allocated⟩ fun constant => absurd constant isConstant

/-! ### Gates, instances and modules -/

/-- The gates compute the same from wires that correspond. -/
structure MatchesGate (first second : Allocator) (gate image : Gate) : Prop where
  operator : gate.operator = image.operator
  inputs : List.Forall₂ (first.Matches second) gate.inputs image.inputs
  output : first.Matches second gate.output image.output

/-- The pairings bind wires that correspond to wires that correspond. -/
structure MatchesPairing (first second : Allocator) (pairing image : Pairing) : Prop where
  caller : first.Matches second pairing.caller image.caller
  callee : first.Matches second pairing.callee image.callee

/-- The instances are of one module, with pairings and directions that correspond. -/
structure MatchesInstance (first second : Allocator) (inner image : Instance) : Prop where
  callee : inner.callee = image.callee
  pairings : List.Forall₂ (first.MatchesPairing second) inner.pairings image.pairings
  inputs : List.Forall₂ (first.MatchesPairing second) inner.inputs image.inputs
  outputs : List.Forall₂ (first.MatchesPairing second) inner.outputs image.outputs

/-- The modules have one name, with ports, gates and instances that correspond, in order. -/
structure MatchesModule (first second : Allocator) (module image : Module) : Prop where
  name : module.name = image.name
  domain : module.domain = image.domain
  inputs : List.Forall₂ (first.Matches second) module.inputs image.inputs
  outputs : List.Forall₂ (first.Matches second) module.outputs image.outputs
  gates : List.Forall₂ (first.MatchesGate second) module.gates image.gates
  instances : List.Forall₂ (first.MatchesInstance second) module.instances image.instances

theorem MatchesGate.of_extends {gate image : Gate} (same : first.MatchesGate second gate image)
    (left : first.Extends later) (right : second.Extends other) :
    later.MatchesGate other gate image :=
  ⟨same.operator, same.inputs.imp fun _ _ input => input.of_extends left right,
    same.output.of_extends left right⟩

theorem MatchesPairing.of_extends {pairing image : Pairing}
    (same : first.MatchesPairing second pairing image) (left : first.Extends later)
    (right : second.Extends other) : later.MatchesPairing other pairing image :=
  ⟨same.caller.of_extends left right, same.callee.of_extends left right⟩

theorem MatchesInstance.of_extends {inner image : Instance}
    (same : first.MatchesInstance second inner image) (left : first.Extends later)
    (right : second.Extends other) : later.MatchesInstance other inner image :=
  ⟨same.callee, same.pairings.imp fun _ _ pairing => pairing.of_extends left right,
    same.inputs.imp fun _ _ pairing => pairing.of_extends left right,
    same.outputs.imp fun _ _ pairing => pairing.of_extends left right⟩

namespace MatchesModule

variable {module image : Module}

theorem of_extends (same : first.MatchesModule second module image) (left : first.Extends later)
    (right : second.Extends other) : later.MatchesModule other module image :=
  ⟨same.name, same.domain, same.inputs.imp fun _ _ port => port.of_extends left right,
    same.outputs.imp fun _ _ port => port.of_extends left right,
    same.gates.imp fun _ _ gate => gate.of_extends left right,
    same.instances.imp fun _ _ inner => inner.of_extends left right⟩

theorem empty (name : String) (domain : Domain) :
    first.MatchesModule second (Module.empty name domain) (Module.empty name domain) :=
  ⟨rfl, rfl, .nil, .nil, .nil, .nil⟩

/-- Corresponding lists of ports take up corresponding wires, or both have them. -/
theorem forall₂_addPort {ports images : List Wire}
    (same : List.Forall₂ (first.Matches second) ports images) {wire copy : Wire}
    (matched : first.Matches second wire copy) :
    List.Forall₂ (first.Matches second) (addPort wire ports) (addPort copy images) := by
  unfold addPort
  by_cases present : wire ∈ ports
  · rwa [if_pos present, if_pos ((Matches.mem_iff same matched).1 present)]
  · rw [if_neg present, if_neg fun member => present ((Matches.mem_iff same matched).2 member)]
    exact List.rel_append same (.cons matched .nil)

theorem addInput (same : first.MatchesModule second module image) {wire copy : Wire}
    (matched : first.Matches second wire copy) :
    first.MatchesModule second (module.addInput wire) (image.addInput copy) :=
  { same with inputs := forall₂_addPort same.inputs matched }

theorem addOutput (same : first.MatchesModule second module image) {wire copy : Wire}
    (matched : first.Matches second wire copy) :
    first.MatchesModule second (module.addOutput wire) (image.addOutput copy) :=
  { same with outputs := forall₂_addPort same.outputs matched }

theorem addGate (same : first.MatchesModule second module image) {gate copy : Gate}
    (matched : first.MatchesGate second gate copy) :
    first.MatchesModule second (module.addGate gate) (image.addGate copy) :=
  { same with gates := List.rel_append same.gates (.cons matched .nil) }

theorem addInstance (same : first.MatchesModule second module image) {inner copy : Instance}
    (matched : first.MatchesInstance second inner copy) :
    first.MatchesModule second (module.addInstance inner) (image.addInstance copy) :=
  { same with instances := List.rel_append same.instances (.cons matched .nil) }

end MatchesModule

/-! ### Sets of wires -/

/-- Each wire of either list corresponds to one of the other. -/
structure MatchesSet (first second : Allocator) (wires images : List Wire) : Prop where
  forth : ∀ wire ∈ wires, ∃ image ∈ images, first.Matches second wire image
  back : ∀ image ∈ images, ∃ wire ∈ wires, first.Matches second wire image

theorem matchesSet_of_forall₂ {wires images : List Wire}
    (same : List.Forall₂ (first.Matches second) wires images) :
    first.MatchesSet second wires images := by
  constructor
  · intro wire member
    exact exists_of_mem_right same.flip member
  · intro image member
    exact exists_of_mem_right same member

theorem MatchesSet.ascending {wires images : List Wire}
    (same : first.MatchesSet second wires images) :
    first.MatchesSet second (Wire.ascending wires) (Wire.ascending images) := by
  constructor
  · intro wire member
    obtain ⟨image, isImage, matched⟩ := same.forth wire (Wire.mem_ascending_iff.1 member)
    exact ⟨image, Wire.mem_ascending_iff.2 isImage, matched⟩
  · intro image member
    obtain ⟨wire, isWire, matched⟩ := same.back image (Wire.mem_ascending_iff.1 member)
    exact ⟨wire, Wire.mem_ascending_iff.2 isWire, matched⟩

/-- The callers of pairings that correspond, over all instances. -/
theorem forall₂_callers {inners images : List Instance} {pick : Instance → List Pairing}
    (same : List.Forall₂ (first.MatchesInstance second) inners images)
    (picked : ∀ inner image, first.MatchesInstance second inner image →
      List.Forall₂ (first.MatchesPairing second) (pick inner) (pick image)) :
    List.Forall₂ (first.Matches second)
      (inners.flatMap fun inner => (pick inner).map Pairing.caller)
      (images.flatMap fun inner => (pick inner).map Pairing.caller) := by
  refine List.rel_flatMap same fun inner image matched => ?_
  exact List.rel_map (fun _ _ pairing => pairing.caller) (picked inner image matched)

namespace MatchesModule

variable {module image : Module}

/-- Modules that correspond feed corresponding wires into their instances. -/
theorem subcircuitInputs (same : first.MatchesModule second module image) :
    first.MatchesSet second module.subcircuitInputs image.subcircuitInputs :=
  (matchesSet_of_forall₂ (forall₂_callers same.instances fun _ _ inner => inner.inputs)).ascending

/-- Modules that correspond have corresponding wires driven by their instances. -/
theorem subcircuitOutputs (same : first.MatchesModule second module image) :
    first.MatchesSet second module.subcircuitOutputs image.subcircuitOutputs :=
  (matchesSet_of_forall₂ (forall₂_callers same.instances fun _ _ inner => inner.outputs)).ascending

end MatchesModule

end Allocator

end Netlist
