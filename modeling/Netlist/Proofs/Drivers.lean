import Mathlib.Data.List.Nodup
import Netlist.Lint
import Netlist.Proofs.Bookkeeping

/-!
# Drivers of a module

In a clean module all wires that are read are driven, and no wire has two drivers
(`Module.isClean_iff_isOrderly`). So each wire comes from one place: an input, a gate,
or one pairing of one instance (`Module.SingleDrivers`).
-/

namespace Netlist.Module

variable {module : Module}

theorem multiplyDriven_eq_nil_iff : module.multiplyDriven = [] ↔ module.drivers.Nodup := by
  rw [multiplyDriven, List.filter_eq_nil_iff, List.nodup_iff_count_le_one]
  constructor
  · intro single wire
    by_cases member : wire ∈ module.drivers
    · have notMore := single wire (Wire.mem_ascending_iff.2 member)
      exact Nat.le_of_not_lt fun more => notMore (decide_eq_true more)
    · rw [List.count_eq_zero_of_not_mem member]
      exact Nat.zero_le 1
  · intro single wire _ more
    exact absurd (of_decide_eq_true more) (Nat.not_lt_of_le (single wire))

/-- No wire has two drivers. -/
structure SingleDrivers (module : Module) : Prop where
  inputs : (module.inputs.filter fun wire => ¬ module.domain.IsConstant wire).Nodup
  gates : (module.gates.map Gate.output).Nodup
  callers : ((module.instances.flatMap fun inner => inner.outputs.map Pairing.caller).filter
    fun wire => ¬ module.domain.IsConstant wire).Nodup
  gate_ne_constant : ∀ gate ∈ module.gates, ¬ module.domain.IsConstant gate.output
  gate_ne_input : ∀ gate ∈ module.gates, gate.output ∉ module.inputs
  caller_ne_input : ∀ inner ∈ module.instances, ∀ pairing ∈ inner.outputs,
    ¬ module.domain.IsConstant pairing.caller → pairing.caller ∉ module.inputs
  caller_ne_gate : ∀ inner ∈ module.instances, ∀ pairing ∈ inner.outputs,
    ∀ gate ∈ module.gates, gate.output ≠ pairing.caller

theorem singleDrivers_of_nodup (nodup : module.drivers.Nodup) : module.SingleDrivers := by
  unfold drivers at nodup
  obtain ⟨front, callers, apartCallers⟩ := List.nodup_append.1 nodup
  obtain ⟨ports, gates, apartGates⟩ := List.nodup_append.1 front
  obtain ⟨_, inputs, _⟩ := List.nodup_append.1 ports
  have gateMember : ∀ gate ∈ module.gates, gate.output ∈ module.gates.map Gate.output :=
    fun gate member => List.mem_map.2 ⟨gate, member, rfl⟩
  have gateConstant : ∀ gate ∈ module.gates, ¬ module.domain.IsConstant gate.output := by
    intro gate member constant
    exact apartGates _ (List.mem_append_left _ (List.mem_range.2 constant)) _
      (gateMember gate member) rfl
  have callerMember : ∀ inner ∈ module.instances, ∀ pairing ∈ inner.outputs,
      ¬ module.domain.IsConstant pairing.caller →
        pairing.caller ∈ (module.instances.flatMap fun inner =>
          inner.outputs.map Pairing.caller).filter
            fun wire => ¬ module.domain.IsConstant wire := by
    intro inner innerMember pairing member inconstant
    refine List.mem_filter.2 ⟨List.mem_flatMap.2 ⟨inner, innerMember, ?_⟩,
      decide_eq_true inconstant⟩
    exact List.mem_map.2 ⟨pairing, member, rfl⟩
  constructor
  · exact inputs
  · exact gates
  · exact callers
  · exact gateConstant
  · intro gate member isInput
    refine apartGates _ (List.mem_append_right _ (List.mem_filter.2 ⟨isInput, ?_⟩)) _
      (gateMember gate member) rfl
    exact decide_eq_true (gateConstant gate member)
  · intro inner innerMember pairing member inconstant isInput
    refine apartCallers _ (List.mem_append_left _ (List.mem_append_right _ (List.mem_filter.2
      ⟨isInput, ?_⟩))) _ (callerMember inner innerMember pairing member inconstant) rfl
    exact decide_eq_true inconstant
  · intro inner innerMember pairing member gate isGate same
    have inconstant := gateConstant gate isGate
    rw [same] at inconstant
    refine apartCallers _ (List.mem_append_right _ (gateMember gate isGate)) _
      (callerMember inner innerMember pairing member inconstant) same

/-- A wire comes out of an instance by one pairing. -/
theorem SingleDrivers.nodup_callers (single : module.SingleDrivers) {inner : Instance}
    (member : inner ∈ module.instances) :
    ((inner.outputs.filter fun pairing => ¬ module.domain.IsConstant pairing.caller).map
      Pairing.caller).Nodup := by
  have callers := single.callers
  rw [List.filter_flatMap, List.nodup_flatMap] at callers
  have nodup := callers.1 inner member
  rw [List.filter_map] at nodup
  exact nodup

/-- A wire comes out of one instance, by one pairing. -/
theorem SingleDrivers.eq_of_caller (single : module.SingleDrivers) {place other : Nat}
    {first second : Instance} (here : module.instances[place]? = some first)
    (there : module.instances[other]? = some second) {one two : Pairing}
    (oneMember : one ∈ first.outputs) (twoMember : two ∈ second.outputs)
    (same : one.caller = two.caller) (inconstant : ¬ module.domain.IsConstant one.caller) :
    place = other ∧ one = two := by
  have callers := single.callers
  rw [List.filter_flatMap, List.nodup_flatMap] at callers
  have apart := callers.2
  have kept : ∀ {inner : Instance} {pairing}, pairing ∈ inner.outputs →
      ¬ module.domain.IsConstant pairing.caller →
        pairing.caller ∈ (inner.outputs.map Pairing.caller).filter
          fun wire => ¬ module.domain.IsConstant wire := by
    intro inner pairing member inconstant
    exact List.mem_filter.2 ⟨List.mem_map.2 ⟨pairing, member, rfl⟩, decide_eq_true inconstant⟩
  have distinct : ∀ {low high : Nat} {lower upper : Instance} {left right : Pairing},
      low < high → module.instances[low]? = some lower →
        module.instances[high]? = some upper → left ∈ lower.outputs → right ∈ upper.outputs →
          left.caller = right.caller → module.domain.IsConstant left.caller := by
    intro low high lower upper left right below lowHere highHere leftMember rightMember same
    by_contra inconstant
    obtain ⟨lowRange, rfl⟩ := List.getElem?_eq_some_iff.1 lowHere
    obtain ⟨highRange, rfl⟩ := List.getElem?_eq_some_iff.1 highHere
    have disjoint := List.pairwise_iff_getElem.1 apart low high lowRange highRange below
    exact disjoint (kept leftMember inconstant)
      (same ▸ kept rightMember (same ▸ inconstant))
  rcases Nat.lt_trichotomy place other with below | rfl | above
  · exact absurd (distinct below here there oneMember twoMember same) inconstant
  · rw [here] at there
    cases there
    refine ⟨rfl, ?_⟩
    exact List.inj_on_of_nodup_map (single.nodup_callers (List.mem_of_getElem? here))
      (List.mem_filter.2 ⟨oneMember, decide_eq_true inconstant⟩)
      (List.mem_filter.2 ⟨twoMember, decide_eq_true (same ▸ inconstant)⟩) same
  · exact absurd (same ▸ distinct above there here twoMember oneMember same.symm) inconstant

theorem undriven_eq_nil_iff {wires : List Wire} :
    module.undriven wires = [] ↔ ∀ wire ∈ wires, module.IsDriven wire := by
  simp only [undriven, List.filter_eq_nil_iff, Wire.mem_ascending_iff, decide_eq_true_eq,
    not_not]

/-- All wires that are read are driven, each by one driver, and no wire is a port in
both directions. -/
structure IsOrderly (module : Module) : Prop where
  outputs : ∀ wire ∈ module.outputs, module.IsDriven wire
  gateInputs : ∀ wire ∈ module.gateInputs, module.IsDriven wire
  drivers : module.drivers.Nodup
  ports : ∀ wire ∈ module.outputs, wire ∉ module.inputs
  subcircuitInputs : ∀ wire ∈ module.subcircuitInputs, module.IsDriven wire

theorem IsOrderly.singleDrivers (orderly : module.IsOrderly) : module.SingleDrivers :=
  singleDrivers_of_nodup orderly.drivers

/-- An output that is no constant is driven inside the module. -/
theorem IsOrderly.drives (orderly : module.IsOrderly) {wire : Wire}
    (isOutput : wire ∈ module.outputs) (inconstant : ¬ module.domain.IsConstant wire) :
    wire ∈ module.gateOutputs ∨ wire ∈ module.subcircuitOutputs := by
  rcases orderly.outputs wire isOutput with constant | isGate | isCaller | isInput
  · exact absurd constant inconstant
  · exact Or.inl isGate
  · exact Or.inr isCaller
  · exact absurd isInput (orderly.ports wire isOutput)

/-- What it means for a module to break no rule. -/
theorem isClean_iff_isOrderly : module.isClean = true ↔ module.IsOrderly := by
  have aliased : module.aliased = [] ↔ ∀ wire ∈ module.outputs, wire ∉ module.inputs := by
    constructor
    · intro none wire isOutput isInput
      have member : wire ∈ module.aliased := Wire.mem_ascending_iff.2
        (List.mem_filter.2 ⟨isOutput, decide_eq_true isInput⟩)
      rw [none] at member
      cases member
    · intro apart
      apply List.eq_nil_iff_forall_not_mem.2
      intro wire member
      obtain ⟨isOutput, isInput⟩ := List.mem_filter.1 (Wire.mem_ascending_iff.1 member)
      exact apart wire isOutput (of_decide_eq_true isInput)
  rw [isClean_iff]
  constructor
  · intro clean
    constructor
    · exact undriven_eq_nil_iff.1 (clean .undrivenOutput)
    · exact undriven_eq_nil_iff.1 (clean .undrivenGateInput)
    · exact multiplyDriven_eq_nil_iff.1 (clean .multiplyDriven)
    · exact aliased.1 (clean .aliasConflict)
    · exact undriven_eq_nil_iff.1 (clean .undrivenSubcircuitInput)
  · intro orderly check
    cases check with
    | undrivenOutput => exact undriven_eq_nil_iff.2 orderly.outputs
    | undrivenGateInput => exact undriven_eq_nil_iff.2 orderly.gateInputs
    | multiplyDriven => exact multiplyDriven_eq_nil_iff.2 orderly.drivers
    | aliasConflict => exact aliased.2 orderly.ports
    | undrivenSubcircuitInput => exact undriven_eq_nil_iff.2 orderly.subcircuitInputs

end Netlist.Module

namespace Netlist.Linter

/-- The linter reports no finding of a kind exactly if no wire breaks the rule. -/
theorem forall_diagnose_ne_iff {allocator : Allocator} {module : Module} {check : Check} :
    (∀ diagnostic ∈ diagnose allocator module, diagnostic.check ≠ check) ↔
      module.offenders check = [] := by
  have isCheck : check ∈ Check.all := by
    cases check <;> decide
  constructor
  · intro without
    by_contra broken
    have isFinding : (check, module.offenders check) ∈ module.findings := by
      apply List.mem_filter.2
      constructor
      · exact List.mem_map.2 ⟨check, isCheck, rfl⟩
      · simpa using broken
    exact without _ (List.mem_map.2 ⟨_, isFinding, rfl⟩) rfl
  · rintro unbroken diagnostic member rfl
    obtain ⟨⟨check, wires⟩, isFinding, rfl⟩ := List.mem_map.1 member
    obtain ⟨inMap, nonempty⟩ := List.mem_filter.1 isFinding
    obtain ⟨_, _, same⟩ := List.mem_map.1 inMap
    cases same
    dsimp only at unbroken nonempty
    rw [unbroken] at nonempty
    cases nonempty

end Netlist.Linter
