import Mathlib.Data.List.Nodup
import Netlist.Proofs.Resolution

/-!
# Allocation

Allocating wires only ever adds names to an allocator (`Allocator.Extends`), so that
wires keep their names and stay in use. A module that is numbered by an allocator
(`Module.IsNumberedBy`) stays so while more is allocated, and while ports, gates and
instances with numbered wires are added. A design of such modules is well formed once
its directions are resolved (`Design.isWellFormed_of_resolved?`).
-/

namespace Netlist

namespace Allocator

/-- The second allocator has the names of the first one, and maybe more. -/
structure Extends (first last : Allocator) : Prop where
  domain : last.domain = first.domain
  named : first.named <+: last.named

variable {first middle last : Allocator}

theorem Extends.refl (allocator : Allocator) : allocator.Extends allocator :=
  ⟨rfl, List.prefix_rfl⟩

theorem Extends.trans (start : first.Extends middle) (rest : middle.Extends last) :
    first.Extends last :=
  ⟨rest.domain.trans start.domain, start.named.trans rest.named⟩

theorem Extends.names (extension : first.Extends last) : first.names <+: last.names := by
  rw [Allocator.names, Allocator.names, extension.domain]
  exact (List.prefix_append_right_inj _).2 extension.named

theorem Extends.next_le (extension : first.Extends last) : first.next ≤ last.next :=
  extension.names.length_le

/-- Wires keep their names. -/
theorem Extends.nameOf (extension : first.Extends last) {wire : Wire} {name : String}
    (named : first.nameOf wire = some name) : last.nameOf wire = some name := by
  obtain ⟨others, same⟩ := extension.names
  have inRange := (List.getElem?_eq_some_iff.1 named).1
  rw [Allocator.nameOf, ← same, List.getElem?_append_left inRange]
  exact named

theorem lt_next_of_nameOf {allocator : Allocator} {wire : Wire} {name : String}
    (named : allocator.nameOf wire = some name) : wire < allocator.next :=
  (List.getElem?_eq_some_iff.1 named).1

/-- The wire that is allocated for a name has this name from then on. -/
theorem allocate_eq_ok {allocator : Allocator} {name : String} {wire : Wire}
    (allocated : allocator.allocate name = .ok (wire, last)) :
    allocator.Extends last ∧ last.nameOf wire = some name := by
  unfold allocate at allocated
  split at allocated
  · rename_i found
    cases allocated
    exact ⟨Extends.refl _, lookup_eq_some_iff.1 found⟩
  · split at allocated
    · cases allocated
      refine ⟨⟨rfl, List.prefix_append _ _⟩, ?_⟩
      rw [nameOf, names, next, names, ← List.append_assoc, List.getElem?_concat_length]
    · cases allocated

theorem allocate_of_lookup {allocator : Allocator} {name : String} {wire : Wire}
    (found : allocator.lookup name = some wire) :
    allocator.allocate name = .ok (wire, allocator) := by
  rw [allocate, found]

/-- A new name gets the first wire that is not in use. -/
theorem allocate_of_isNew {allocator : Allocator} {name : String}
    (isNew : allocator.lookup name = none) (inconstant : ¬ IsConstantName name) :
    ∃ last, allocator.allocate name = .ok (allocator.next, last) ∧
      last.domain = allocator.domain ∧ last.names = allocator.names ++ [name] := by
  have absent := lookup_eq_none_iff.1 isNew
  rw [names, List.mem_append, not_or] at absent
  unfold allocate
  rw [isNew]
  refine ⟨_, dif_pos ⟨absent.2, inconstant⟩, rfl, ?_⟩
  rw [names, names, List.append_assoc]

/-- The name of a constant is refused if it has no wire. -/
theorem allocate_of_isConstantName {allocator : Allocator} {name : String}
    (isNew : allocator.lookup name = none) (constant : IsConstantName name) :
    allocator.allocate name = .error (.unsupportedConstant name) := by
  unfold allocate
  rw [isNew]
  exact dif_neg fun fresh => fresh.2 constant

/-- All constants have wires in the Boolean domain. -/
theorem domain_eq_of_isConstantName {allocator : Allocator} {name : String}
    (isNew : allocator.lookup name = none) (constant : IsConstantName name) :
    allocator.domain = .arithmetic := by
  have absent := lookup_eq_none_iff.1 isNew
  cases domain : allocator.domain with
  | arithmetic => rfl
  | boolean =>
    rw [names, domain] at absent
    exact absurd (List.mem_append_left _ (List.mem_pair.2 constant)) absent

/-- The constants are the wires with the names of constants. -/
theorem isConstant_iff_of_nameOf {allocator : Allocator} {wire : Wire} {name : String}
    (named : allocator.nameOf wire = some name) :
    allocator.domain.IsConstant wire ↔ name ∈ allocator.domain.constantNames := by
  unfold nameOf names at named
  rw [Domain.IsConstant, ← Domain.length_constantNames]
  constructor
  · intro constant
    rw [List.getElem?_append_left constant] at named
    exact List.mem_of_getElem? named
  · intro isConstant
    by_contra above
    rw [List.getElem?_append_right (Nat.not_lt.1 above)] at named
    exact allocator.no_constant name (List.mem_of_getElem? named)
      (Domain.isConstantName_of_mem_constantNames isConstant)

/-- The wires of a list have been allocated. -/
def Covers (allocator : Allocator) (wires : List Wire) : Prop :=
  ∀ wire ∈ wires, wire < allocator.next

theorem Covers.of_extends {wires : List Wire} (covered : first.Covers wires)
    (extension : first.Extends last) : last.Covers wires := by
  intro wire member
  exact Nat.lt_of_lt_of_le (covered wire member) extension.next_le

theorem covers_cons_iff {allocator : Allocator} {wire : Wire} {wires : List Wire} :
    allocator.Covers (wire :: wires) ↔ wire < allocator.next ∧ allocator.Covers wires :=
  List.forall_mem_cons

theorem covers_append_iff {allocator : Allocator} {wires others : List Wire} :
    allocator.Covers (wires ++ others) ↔ allocator.Covers wires ∧ allocator.Covers others :=
  List.forall_mem_append

/-- The wires on both sides of pairings have been allocated. -/
def CoversPairings (allocator : Allocator) (pairings : List Pairing) : Prop :=
  ∀ pairing ∈ pairings, pairing.caller < allocator.next ∧ pairing.callee < allocator.next

theorem coversPairings_cons_iff {allocator : Allocator} {pairing : Pairing}
    {pairings : List Pairing} :
    allocator.CoversPairings (pairing :: pairings) ↔
      (pairing.caller < allocator.next ∧ pairing.callee < allocator.next) ∧
        allocator.CoversPairings pairings :=
  List.forall_mem_cons

theorem CoversPairings.of_extends {pairings : List Pairing}
    (covered : first.CoversPairings pairings) (extension : first.Extends last) :
    last.CoversPairings pairings := by
  intro pairing member
  obtain ⟨caller, callee⟩ := covered pairing member
  have le := extension.next_le
  exact ⟨Nat.lt_of_lt_of_le caller le, Nat.lt_of_lt_of_le callee le⟩

end Allocator

namespace Module

/-- The module lies in the domain of the allocator, and all of its wires have been
allocated. -/
structure IsNumberedBy (allocator : Allocator) (module : Module) : Prop where
  domain : module.domain = allocator.domain
  inputs : allocator.Covers module.inputs
  outputs : allocator.Covers module.outputs
  gates : ∀ gate ∈ module.gates, allocator.Covers gate.wires
  pairings : ∀ inner ∈ module.instances, allocator.CoversPairings inner.pairings

namespace IsNumberedBy

variable {allocator last : Allocator} {module : Module}

theorem empty (allocator : Allocator) (name : String) :
    (Module.empty name allocator.domain).IsNumberedBy allocator := by
  constructor
  · rfl
  all_goals
    intro member isMember
    cases isMember

theorem of_extends (numbered : module.IsNumberedBy allocator) (extension : allocator.Extends last) :
    module.IsNumberedBy last := by
  constructor
  · rw [numbered.domain, extension.domain]
  · exact numbered.inputs.of_extends extension
  · exact numbered.outputs.of_extends extension
  · exact fun gate member => (numbered.gates gate member).of_extends extension
  · exact fun inner member => (numbered.pairings inner member).of_extends extension

theorem addInput (numbered : module.IsNumberedBy allocator) {wire : Wire}
    (allocated : wire < allocator.next) : (module.addInput wire).IsNumberedBy allocator := by
  constructor
  · exact numbered.domain
  · intro other member
    rcases mem_addPort_iff.1 member with rfl | old
    · exact allocated
    · exact numbered.inputs other old
  · exact numbered.outputs
  · exact numbered.gates
  · exact numbered.pairings

theorem addOutput (numbered : module.IsNumberedBy allocator) {wire : Wire}
    (allocated : wire < allocator.next) : (module.addOutput wire).IsNumberedBy allocator := by
  constructor
  · exact numbered.domain
  · exact numbered.inputs
  · intro other member
    rcases mem_addPort_iff.1 member with rfl | old
    · exact allocated
    · exact numbered.outputs other old
  · exact numbered.gates
  · exact numbered.pairings

theorem addGate (numbered : module.IsNumberedBy allocator) {gate : Gate}
    (allocated : allocator.Covers gate.wires) :
    (module.addGate gate).IsNumberedBy allocator := by
  constructor
  · exact numbered.domain
  · exact numbered.inputs
  · exact numbered.outputs
  · intro other member
    rcases List.mem_append.1 member with old | new
    · exact numbered.gates other old
    · rw [List.mem_singleton.1 new]
      exact allocated
  · exact numbered.pairings

theorem addInstance (numbered : module.IsNumberedBy allocator) {inner : Instance}
    (allocated : allocator.CoversPairings inner.pairings) :
    (module.addInstance inner).IsNumberedBy allocator := by
  constructor
  · exact numbered.domain
  · exact numbered.inputs
  · exact numbered.outputs
  · exact numbered.gates
  · intro other member
    rcases List.mem_append.1 member with old | new
    · exact numbered.pairings other old
    · rw [List.mem_singleton.1 new]
      exact allocated

/-- All wires of ports and gates have been allocated. -/
theorem wires (numbered : module.IsNumberedBy allocator) :
    allocator.Covers module.wires := by
  intro wire member
  rcases List.mem_append.1 (Wire.mem_ascending_iff.1 member) with inPorts | inGates
  · rcases List.mem_append.1 inPorts with isInput | isOutput
    · exact numbered.inputs wire isInput
    · exact numbered.outputs wire isOutput
  · obtain ⟨gate, gateMember, isWire⟩ := List.mem_flatMap.1 inGates
    exact numbered.gates gate gateMember wire isWire

end IsNumberedBy

/-- The pairings of modules that are the same but for directions are the same. -/
theorem SameButDirections.exists_instance {first second : Module}
    (same : first.SameButDirections second) {inner : Instance}
    (member : inner ∈ second.instances) :
    ∃ original ∈ first.instances, original.pairings = inner.pairings := by
  have inMap : (inner.callee, inner.pairings) ∈
      second.instances.map fun inner => (inner.callee, inner.pairings) :=
    List.mem_map.2 ⟨inner, member, rfl⟩
  rw [same.instances] at inMap
  obtain ⟨original, originalMember, equal⟩ := List.mem_map.1 inMap
  exact ⟨original, originalMember, (Prod.mk.inj equal).2⟩

theorem IsNumberedBy.of_sameButDirections {allocator : Allocator} {first second : Module}
    (numbered : first.IsNumberedBy allocator) (same : first.SameButDirections second) :
    second.IsNumberedBy allocator := by
  constructor
  · rw [same.domain]
    exact numbered.domain
  · rw [same.inputs]
    exact numbered.inputs
  · rw [same.outputs]
    exact numbered.outputs
  · rw [same.gates]
    exact numbered.gates
  · intro inner member
    obtain ⟨original, originalMember, pairings⟩ := same.exists_instance member
    rw [← pairings]
    exact numbered.pairings original originalMember

end Module

namespace Design

/-- A design of numbered modules is well formed once it is resolved. -/
theorem isWellFormed_of_resolved? {source design : Design}
    (numbered : ∀ module ∈ source.modules, module.IsNumberedBy source.allocator)
    (resolved : source.resolved? = .ok design) : design.IsWellFormed := by
  obtain ⟨allocator, _, modules⟩ := resolved?_eq_ok resolved
  have each : ∀ module ∈ design.modules, module.IsNumberedBy design.allocator := by
    intro module member
    obtain ⟨original, originalMember, step⟩ := exists_of_mem_right modules member
    rw [allocator]
    exact (numbered original originalMember).of_sameButDirections step.same
  constructor
  · exact isResolved_of_resolved? resolved
  · exact fun module member => (each module member).domain
  · exact fun module member => ⟨(each module member).wires, (each module member).pairings⟩

theorem bindsOnce_of_resolved? {source design : Design} (bindsOnce : source.BindsOnce)
    (resolved : source.resolved? = .ok design) : design.BindsOnce := by
  obtain ⟨_, _, modules⟩ := resolved?_eq_ok resolved
  intro module member inner innerMember
  obtain ⟨original, originalMember, step⟩ := exists_of_mem_right modules member
  obtain ⟨source, sourceMember, pairings⟩ := step.same.exists_instance innerMember
  rw [← pairings]
  exact bindsOnce original originalMember source sourceMember

/-- Asking for another top changes nothing else. -/
theorem setTop_eq_ok {design changed : Design} {name : String}
    (outcome : design.setTop name = .ok changed) :
    changed.allocator = design.allocator ∧ changed.modules = design.modules := by
  unfold setTop at outcome
  cases found : design.findTop name with
  | error error =>
    rw [found] at outcome
    cases outcome
  | ok module =>
    rw [found] at outcome
    cases outcome
    exact ⟨rfl, rfl⟩

/-- Resolving a design under another top. -/
theorem exists_resolved?_of_setTop {source design : Design} {name : String}
    (read : source.setTop name >>= resolved? = .ok design) :
    ∃ asked : Design, asked.allocator = source.allocator ∧ asked.modules = source.modules ∧
      asked.resolved? = .ok design := by
  cases changed : source.setTop name with
  | error error =>
    rw [changed] at read
    cases read
  | ok asked =>
    rw [changed] at read
    obtain ⟨sameAllocator, sameModules⟩ := setTop_eq_ok changed
    exact ⟨asked, sameAllocator, sameModules, read⟩

theorem allocator_insert (design : Design) (module : Module) :
    (design.insert module).allocator = design.allocator := by
  unfold insert
  split <;> rfl

theorem modules_insert {design : Design} {module : Module}
    (isNew : design.contains module.name = false) :
    (design.insert module).modules = design.modules ++ [module] := by
  rw [insert, isNew]
  rfl

theorem contains_eq_false_iff {design : Design} {name : String} :
    design.contains name = false ↔ name ∉ design.modules.map Module.name := by
  rw [← Bool.not_eq_true, contains_eq_true_iff, List.mem_map]

/-- Names stay distinct when a module of a new name is appended. -/
theorem nodup_names_append {design : Design} {module : Module}
    (distinct : (design.modules.map Module.name).Nodup)
    (isNew : design.contains module.name = false) :
    ((design.modules ++ [module]).map Module.name).Nodup := by
  rw [List.map_append, List.map_singleton, ← List.concat_eq_append]
  exact List.Nodup.concat (contains_eq_false_iff.1 isNew) distinct

theorem mem_insert {design : Design} {module other : Module}
    (member : other ∈ (design.insert module).modules) :
    other ∈ design.modules ∨ other = module := by
  unfold insert at member
  split at member
  · exact Or.inl member
  · rcases List.mem_append.1 member with old | new
    · exact Or.inl old
    · exact Or.inr (List.mem_singleton.1 new)

end Design

end Netlist
