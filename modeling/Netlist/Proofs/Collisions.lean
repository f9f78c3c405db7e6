import Mathlib.Data.List.Nodup
import Netlist.Proofs.BlifReading
import Netlist.Proofs.Sources

/-!
# Collisions of drivers

No wire of the flat circuit of a clean design is driven twice, unless it is a constant
(`Design.nodup_driverSites`, `Design.eq_of_route`). A constant is driven where an
instance binds it to an output port, unless the port gets that very constant from
further down (`Module.Yields`): for designs that bind each port once, the flat circuit
has no multiply driven wires exactly if all such ports do
(`Design.multiplyDriven_flatten_eq_nil_iff`).
-/

namespace Netlist.Design

/-! ### Where the drivers stand -/

/-- The sites that the gates of an occurrence drive: those of its copies, then those of
the gates of its callee. -/
def occurrenceSites (design : Design) (route : Route) (occurrence : Occurrence) : List Site :=
  (occurrence.inner.pairings.filter fun pairing => design.domain.IsConstant pairing.callee ∧
      pairing ∈ occurrence.inner.outputs ∧
        route occurrence.path.tail pairing.caller ≠ pairing.callee).map
      (fun pairing => (occurrence.path.tail, pairing.caller)) ++
    occurrence.callee.gates.map fun gate => (occurrence.path, gate.output)

/-- The sites of all drivers of the flat circuit but the constants: the inputs, the
outputs of the gates of the top, and those of the gates of all occurrences. -/
def driverSites (design : Design) (top : Module) (route : Route) : List Site :=
  (top.inputs.filter fun wire => ¬ design.domain.IsConstant wire).map (Prod.mk []) ++
    top.gates.map (fun gate => ([], gate.output)) ++
      (design.occurrencesBelow top).flatMap (design.occurrenceSites route)

theorem map_output_gates (design : Design) (route : Route) (occurrence : Occurrence) :
    (occurrence.gates design.domain route).map Gate.output =
      (design.occurrenceSites route occurrence).map fun site => route site.1 site.2 := by
  rw [Occurrence.gates, occurrenceSites, portCopies, List.map_append, List.map_append,
    List.map_map, List.map_map, List.map_map, List.map_map]
  rfl

section

variable {design : Design} {top : Module} {route : Route} (isRouting : design.IsRouting top route)
  (wellFormed : design.IsWellFormed) (topMember : top ∈ design.modules)

include isRouting wellFormed topMember

omit wellFormed topMember in
/-- The flat wires of the sites are the inputs and the outputs of gates. -/
theorem map_driverSites :
    ((design.driverSites top route).map fun site => route site.1 site.2) =
      top.inputs.filter (fun wire => ¬ design.domain.IsConstant wire) ++
        (design.routedGates top route).map Gate.output := by
  have inputs : ∀ wires : List Wire,
      ((wires.map (Prod.mk [])).map fun site : Site => route site.1 site.2) = wires := by
    intro wires
    simp only [List.map_map, Function.comp_def, isRouting.top_wire, List.map_id']
  have topGates : ((top.gates.map fun gate => ([], gate.output)).map
      fun site : Site => route site.1 site.2) = top.gates.map Gate.output := by
    simp only [List.map_map, Function.comp_def, isRouting.top_wire]
  have others : (((design.occurrencesBelow top).flatMap (design.occurrenceSites route)).map
      fun site : Site => route site.1 site.2) =
        ((design.occurrencesBelow top).flatMap
          (Occurrence.gates design.domain route)).map Gate.output := by
    rw [List.map_flatMap, List.map_flatMap]
    simp only [map_output_gates]
  rw [driverSites, List.map_append, List.map_append, inputs, topGates, others, routedGates,
    List.map_append, List.append_assoc]

omit isRouting in
theorem drivers_routedCircuit :
    (design.routedCircuit top route).toModule.drivers =
      List.range design.domain.reserved ++
        (top.inputs.filter (fun wire => ¬ design.domain.IsConstant wire) ++
          (design.routedGates top route).map Gate.output) := by
  have domain : design.domain = (design.routedCircuit top route).toModule.domain :=
    (wellFormed.uniform top topMember).symm
  rw [domain, ← List.append_assoc]
  exact List.append_nil _

end

/-! ### No two drivers stand at one site -/

section

variable {design : Design} {top : Module} {route : Route} (isRouting : design.IsRouting top route)
  (wellFormed : design.IsWellFormed) (topMember : top ∈ design.modules)

omit isRouting wellFormed topMember in
theorem mem_occurrenceSites_iff {occurrence : Occurrence} {site : Site} :
    site ∈ design.occurrenceSites route occurrence ↔
      (∃ pairing ∈ occurrence.inner.pairings, design.domain.IsConstant pairing.callee ∧
        pairing ∈ occurrence.inner.outputs ∧
          route occurrence.path.tail pairing.caller ≠ pairing.callee ∧
            (occurrence.path.tail, pairing.caller) = site) ∨
        ∃ gate ∈ occurrence.callee.gates, (occurrence.path, gate.output) = site := by
  simp only [occurrenceSites, List.mem_append, List.mem_map, List.mem_filter, decide_eq_true_eq,
    and_assoc]

include isRouting wellFormed topMember

/-- A port that is copied has a caller that is no constant. -/
theorem not_isConstant_of_copied {path : InstancePath} {module : Module} {place : Nat}
    {inner : Instance} {pairing : Pairing} (reached : design.At top path module)
    (here : module.instances[place]? = some inner) (member : pairing ∈ inner.pairings)
    (constant : design.domain.IsConstant pairing.callee)
    (different : route path pairing.caller ≠ pairing.callee) :
    ¬ design.domain.IsConstant pairing.caller := by
  obtain ⟨callee, _, directions⟩ :=
    wellFormed.resolved module (reached.mem topMember) inner (List.mem_of_getElem? here)
  rcases directions.constantPort pairing member constant with same | ⟨_, inconstant⟩
  · rw [same, isRouting.constant _ constant] at different
    exact absurd rfl different
  · exact inconstant

variable (unfolds : design.Unfolds [top.name] top.instances)
  (single : ∀ module ∈ design.modules, module.SingleDrivers)

include unfolds in
/-- What drives the flat circuit is settled. -/
theorem isSettled_of_mem_driverSites {site : Site} (member : site ∈ design.driverSites top route) :
    design.IsSettled top site := by
  rcases List.mem_append.1 member with inTop | inOccurrences
  · rcases List.mem_append.1 inTop with isInput | isGate
    · obtain ⟨wire, kept, rfl⟩ := List.mem_map.1 isInput
      obtain ⟨isInput, inconstant⟩ := List.mem_filter.1 kept
      exact IsSettled.input isInput (of_decide_eq_true inconstant)
    · obtain ⟨gate, gateMember, rfl⟩ := List.mem_map.1 isGate
      exact IsSettled.gate At.top gateMember
  · obtain ⟨occurrence, occurrenceMember, inSites⟩ := List.mem_flatMap.1 inOccurrences
    have occurs := (mem_occurrencesBelow_iff unfolds).1 occurrenceMember
    rcases mem_occurrenceSites_iff.1 inSites with
      ⟨pairing, pairingMember, constant, isOutput, different, rfl⟩ | ⟨gate, gateMember, rfl⟩
    · obtain ⟨place, path, caller, samePath, above, here, found⟩ := occurs
      rw [samePath, List.tail_cons] at different ⊢
      exact IsSettled.port above here isOutput constant
        (not_isConstant_of_copied isRouting wellFormed topMember above here pairingMember
          constant different)
    · exact IsSettled.gate occurs.at gateMember

include single

/-- Within one occurrence all sites differ. -/
theorem nodup_occurrenceSites {occurrence : Occurrence} (occurs : design.Occurs top occurrence) :
    (design.occurrenceSites route occurrence).Nodup := by
  have calleeMember := occurs.at.mem topMember
  obtain ⟨place, path, caller, samePath, above, here, found⟩ := occurs
  have innerMember := List.mem_of_getElem? here
  have callerMember := above.mem topMember
  apply List.nodup_append.2
  refine ⟨?_, ?_, ?_⟩
  · have nodup := (single caller callerMember).nodup_callers innerMember
    rw [wellFormed.uniform caller callerMember] at nodup
    apply List.Nodup.of_map Prod.snd
    rw [List.map_map]
    refine (List.Sublist.map Pairing.caller ?_).nodup nodup
    obtain ⟨callee, _, directions⟩ := wellFormed.resolved caller callerMember _ innerMember
    -- the copied ports are outputs whose callers are no constants
    have copied : ∀ copied : Pairing → Bool,
        (∀ pairing ∈ occurrence.inner.pairings, copied pairing →
          pairing ∈ occurrence.inner.outputs ∧ ¬ design.domain.IsConstant pairing.caller) →
        occurrence.inner.pairings.filter copied =
          (occurrence.inner.outputs.filter fun pairing =>
            ¬ design.domain.IsConstant pairing.caller).filter copied := by
      intro copied kept
      rw [directions.outputs, List.filter_filter, List.filter_filter]
      apply List.filter_congr
      intro pairing member
      cases isCopied : copied pairing with
      | false => rfl
      | true =>
        obtain ⟨isOutput, inconstant⟩ := kept pairing member isCopied
        simp [inconstant, (directions.mem_outputs_iff.1 isOutput).2]
    rw [copied]
    · exact List.filter_sublist
    · intro pairing member isCopied
      obtain ⟨constant, isOutput, different⟩ := of_decide_eq_true isCopied
      rw [samePath, List.tail_cons] at different
      exact ⟨isOutput, not_isConstant_of_copied isRouting wellFormed topMember above here member
        constant different⟩
  · apply List.Nodup.of_map Prod.snd
    rw [List.map_map]
    exact (single _ calleeMember).gates
  · intro upper isUpper lower isLower same
    obtain ⟨pairing, _, rfl⟩ := List.mem_map.1 isUpper
    obtain ⟨gate, _, rfl⟩ := List.mem_map.1 isLower
    have samePaths := congrArg Prod.fst same
    rw [samePath] at samePaths
    exact List.cons_ne_self place path samePaths.symm

/-- Two occurrences have no site in common. -/
theorem path_eq_of_mem_occurrenceSites {one other : Occurrence} (oneOccurs : design.Occurs top one)
    (otherOccurs : design.Occurs top other) {site : Site}
    (inOne : site ∈ design.occurrenceSites route one)
    (inOther : site ∈ design.occurrenceSites route other) : one.path = other.path := by
  have notBoth : ∀ {upper lower : Occurrence} {pairing : Pairing} {gate : Gate},
      design.Occurs top upper → design.Occurs top lower → pairing ∈ upper.inner.outputs →
        gate ∈ lower.callee.gates →
          (upper.path.tail, pairing.caller) ≠ (lower.path, gate.output) := by
    rintro upper lower pairing gate ⟨place, path, caller, samePath, above, here, _⟩ lowerOccurs
      isOutput isGate same
    obtain ⟨sameAt, sameWire⟩ := Prod.mk.inj same
    rw [samePath, List.tail_cons] at sameAt
    have again := lowerOccurs.at
    rw [← sameAt] at again
    obtain rfl := above.unique again
    exact (single _ (above.mem topMember)).caller_ne_gate _ (List.mem_of_getElem? here) _ isOutput
      _ isGate sameWire.symm
  rcases mem_occurrenceSites_iff.1 inOne with
    ⟨onePairing, oneMember, oneConstant, oneOutput, oneDifferent, rfl⟩ | ⟨oneGate, oneMember, rfl⟩
  · rcases mem_occurrenceSites_iff.1 inOther with
      ⟨otherPairing, _, _, otherOutput, _, same⟩ | ⟨otherGate, otherMember, same⟩
    · obtain ⟨onePlace, onePath, caller, oneSame, oneAbove, oneHere, _⟩ := oneOccurs
      obtain ⟨otherPlace, otherPath, otherCaller, otherSame, otherAbove, otherHere, _⟩ :=
        otherOccurs
      rw [oneSame, otherSame, List.tail_cons, List.tail_cons] at same
      obtain ⟨rfl, sameWire⟩ := Prod.mk.inj same
      rw [oneSame, List.tail_cons] at oneDifferent
      have inconstant := not_isConstant_of_copied isRouting wellFormed topMember oneAbove oneHere
        oneMember oneConstant oneDifferent
      obtain ⟨rfl, _⟩ := eq_of_caller wellFormed topMember single oneAbove otherAbove oneHere
        otherHere oneOutput otherOutput sameWire.symm inconstant
      rw [oneSame, otherSame]
    · exact absurd same.symm (notBoth oneOccurs otherOccurs oneOutput otherMember)
  · rcases mem_occurrenceSites_iff.1 inOther with
      ⟨otherPairing, _, _, otherOutput, _, same⟩ | ⟨otherGate, otherMember, same⟩
    · exact absurd same (notBoth otherOccurs oneOccurs otherOutput oneMember)
    · exact (Prod.mk.inj same).1.symm

/-- What an occurrence drives in the top is neither an input of it nor the output of one
of its gates. -/
theorem notMem_inputs_of_mem_occurrenceSites {occurrence : Occurrence}
    (occurs : design.Occurs top occurrence) {wire : Wire}
    (inSites : ([], wire) ∈ design.occurrenceSites route occurrence) :
    wire ∉ top.inputs ∧ ∀ gate ∈ top.gates, gate.output ≠ wire := by
  rcases mem_occurrenceSites_iff.1 inSites with
    ⟨pairing, member, constant, isOutput, different, same⟩ | ⟨gate, _, same⟩
  · obtain ⟨place, path, caller, samePath, above, here, _⟩ := occurs
    rw [samePath, List.tail_cons] at same different
    obtain ⟨rfl, rfl⟩ := Prod.mk.inj same
    obtain rfl := above.unique At.top
    have inconstant := not_isConstant_of_copied isRouting wellFormed topMember above here member
      constant different
    rw [← wellFormed.uniform caller topMember] at inconstant
    have drivers := single caller topMember
    have innerMember := List.mem_of_getElem? here
    exact ⟨drivers.caller_ne_input _ innerMember pairing isOutput inconstant,
      drivers.caller_ne_gate _ innerMember pairing isOutput⟩
  · exact absurd (Prod.mk.inj same).1 occurs.path_ne_nil

include unfolds

/-- No two drivers of the flat circuit stand at one site. -/
theorem nodup_driverSites : (design.driverSites top route).Nodup := by
  have drivers := single top topMember
  have domain := wellFormed.uniform top topMember
  have occurs : ∀ {occurrence}, occurrence ∈ design.occurrencesBelow top →
      design.Occurs top occurrence := (mem_occurrencesBelow_iff unfolds).1
  apply List.nodup_append.2
  refine ⟨?ofTop, ?ofOccurrences, ?apart⟩
  case ofTop =>
    apply List.nodup_append.2
    refine ⟨?_, ?_, ?_⟩
    · apply List.Nodup.of_map Prod.snd
      rw [List.map_map, Function.comp_def, List.map_id', ← domain]
      exact drivers.inputs
    · apply List.Nodup.of_map Prod.snd
      rw [List.map_map]
      exact drivers.gates
    · rintro _ isInput _ isGate rfl
      obtain ⟨wire, kept, rfl⟩ := List.mem_map.1 isInput
      obtain ⟨gate, member, same⟩ := List.mem_map.1 isGate
      have isInput := (List.mem_filter.1 kept).1
      rw [← (Prod.mk.inj same).2] at isInput
      exact drivers.gate_ne_input gate member isInput
  case ofOccurrences =>
    apply List.nodup_flatMap.2
    constructor
    · exact fun occurrence member => nodup_occurrenceSites isRouting wellFormed topMember single
        (occurs member)
    · have paths := List.pairwise_map.1 (nodup_paths unfolds [] 0)
      refine paths.imp_of_mem ?_
      intro one other oneMember otherMember different site inOne inOther
      exact different (path_eq_of_mem_occurrenceSites isRouting wellFormed topMember single
        (occurs oneMember) (occurs otherMember) inOne inOther)
  case apart =>
    rintro _ inTop site inOccurrences rfl
    obtain ⟨occurrence, member, inSites⟩ := List.mem_flatMap.1 inOccurrences
    rcases List.mem_append.1 inTop with isInput | isGate
    · obtain ⟨wire, kept, rfl⟩ := List.mem_map.1 isInput
      exact (notMem_inputs_of_mem_occurrenceSites isRouting wellFormed topMember single
        (occurs member) inSites).1 (List.mem_filter.1 kept).1
    · obtain ⟨gate, gateMember, rfl⟩ := List.mem_map.1 isGate
      exact (notMem_inputs_of_mem_occurrenceSites isRouting wellFormed topMember single
        (occurs member) inSites).2 gate gateMember rfl

/-- Sites whose flat wires are no constants have flat wires of their own. -/
theorem nodup_inconstant_drivers :
    ((top.inputs.filter (fun wire => ¬ design.domain.IsConstant wire) ++
      (design.routedGates top route).map Gate.output).filter
        fun wire => ¬ design.domain.IsConstant wire).Nodup := by
  have settled : ∀ {site}, site ∈ design.driverSites top route → design.IsSettled top site :=
    isSettled_of_mem_driverSites isRouting wellFormed topMember unfolds
  rw [← map_driverSites isRouting, List.filter_map]
  refine List.Nodup.map_on ?_
    ((nodup_driverSites isRouting wellFormed topMember unfolds single).filter _)
  intro one oneMember other otherMember same
  obtain ⟨oneMember, inconstant⟩ := List.mem_filter.1 oneMember
  exact eq_of_route isRouting wellFormed topMember single (Or.inl (settled oneMember))
    (Or.inl (settled (List.mem_filter.1 otherMember).1)) same (of_decide_eq_true inconstant)

/-- Only constants can have two drivers in the flat circuit. -/
theorem isConstant_of_mem_multiplyDriven {wire : Wire}
    (driven : wire ∈ (design.routedCircuit top route).toModule.multiplyDriven) :
    design.domain.IsConstant wire := by
  by_contra inconstant
  have twice := of_decide_eq_true (List.mem_filter.1 driven).2
  have once := List.nodup_iff_count_le_one.1
    (nodup_inconstant_drivers isRouting wellFormed topMember unfolds single) wire
  rw [List.count_filter (by simpa using inconstant)] at once
  rw [drivers_routedCircuit wellFormed topMember, List.count_append, List.count_eq_zero_of_not_mem
    (fun inRange => inconstant (List.mem_range.1 inRange)), Nat.zero_add] at twice
  exact absurd twice (Nat.not_lt_of_le once)

/-- The flat circuit has no wire with two drivers exactly if no gate drives a constant. -/
theorem nodup_drivers_iff :
    (design.routedCircuit top route).toModule.drivers.Nodup ↔
      ∀ gate ∈ design.routedGates top route, ¬ design.domain.IsConstant gate.output := by
  rw [drivers_routedCircuit wellFormed topMember, List.nodup_append]
  constructor
  · rintro ⟨_, _, apart⟩ gate member constant
    exact apart _ (List.mem_range.2 constant) _
      (List.mem_append_right _ (List.mem_map.2 ⟨gate, member, rfl⟩)) rfl
  · intro gates
    have inconstant : ∀ wire ∈ top.inputs.filter (fun wire => ¬ design.domain.IsConstant wire) ++
        (design.routedGates top route).map Gate.output, ¬ design.domain.IsConstant wire := by
      intro wire member
      rcases List.mem_append.1 member with isInput | isOutput
      · exact of_decide_eq_true (List.mem_filter.1 isInput).2
      · obtain ⟨gate, gateMember, rfl⟩ := List.mem_map.1 isOutput
        exact gates gate gateMember
    refine ⟨List.nodup_range, ?_, ?_⟩
    · have nodup := nodup_inconstant_drivers isRouting wellFormed topMember unfolds single
      rw [List.filter_eq_self.2 fun wire member => decide_eq_true (inconstant wire member)]
        at nodup
      exact nodup
    · rintro wire inRange _ member rfl
      exact inconstant wire member (List.mem_range.1 inRange)

end

/-! ### Ports that yield constants -/

/-- The wire gets its value from the constant, through ports of instances only. -/
inductive Yields (design : Design) (constant : Wire) : Module → Wire → Prop where
  | constant {module : Module} : Yields design constant module constant
  | port {module callee : Module} {inner : Instance} {pairing : Pairing} :
    inner ∈ module.instances → design.find? inner.callee = some callee →
      pairing ∈ inner.outputs → ¬ design.domain.IsConstant pairing.caller →
        Yields design constant callee pairing.callee →
          Yields design constant module pairing.caller

/-- Where an instance binds a constant to an output port, the port yields that
constant. -/
def YieldsConstants (design : Design) (top : Module) : Prop :=
  ∀ occurrence, design.Occurs top occurrence → ∀ pairing ∈ occurrence.inner.outputs,
    design.domain.IsConstant pairing.caller →
      design.Yields pairing.caller occurrence.callee pairing.callee

/-- A constant yields itself only. -/
theorem Yields.eq_of_isConstant {design : Design} {module : Module} {constant wire : Wire}
    (yields : design.Yields constant module wire) (isConstant : design.domain.IsConstant wire) :
    wire = constant := by
  cases yields with
  | constant => rfl
  | port _ _ _ inconstant _ => exact absurd isConstant inconstant

section

variable {design : Design} {top : Module} {route : Route} (isRouting : design.IsRouting top route)
  (wellFormed : design.IsWellFormed) (topMember : top ∈ design.modules)
  (single : ∀ module ∈ design.modules, module.SingleDrivers)

include wellFormed topMember single

/-- The port that a wire comes from yields what the wire does. -/
theorem Yields.of_caller {path : InstancePath} {module callee : Module} {place : Nat}
    {inner : Instance} {pairing : Pairing} {constant : Wire} (reached : design.At top path module)
    (here : module.instances[place]? = some inner)
    (found : design.find? inner.callee = some callee) (isOutput : pairing ∈ inner.outputs)
    (inconstant : ¬ design.domain.IsConstant pairing.caller)
    (isConstant : design.domain.IsConstant constant)
    (yields : design.Yields constant module pairing.caller) :
    design.Yields constant callee pairing.callee := by
  generalize sameCaller : pairing.caller = wire at yields
  cases yields with
  | constant =>
    rw [sameCaller] at inconstant
    exact absurd isConstant inconstant
  | port otherMember otherFound otherOutput _ below =>
    obtain ⟨other, there⟩ := List.mem_iff_getElem?.1 otherMember
    obtain ⟨_, rfl, rfl⟩ := eq_of_caller wellFormed topMember single reached reached here there
      isOutput otherOutput sameCaller inconstant
    rw [found] at otherFound
    cases otherFound
    exact below

/-- A wire that a gate drives yields no constant. -/
theorem Yields.not_gate {path : InstancePath} {module : Module} {constant : Wire} {gate : Gate}
    (reached : design.At top path module) (isConstant : design.domain.IsConstant constant)
    (yields : design.Yields constant module gate.output) : gate ∉ module.gates := by
  intro isGate
  have drivers := single module (reached.mem topMember)
  generalize sameOutput : gate.output = wire at yields
  cases yields with
  | constant =>
    have inconstant := drivers.gate_ne_constant gate isGate
    rw [wellFormed.uniform module (reached.mem topMember), sameOutput] at inconstant
    exact inconstant isConstant
  | port member _ isOutput _ _ =>
    exact drivers.caller_ne_gate _ member _ isOutput gate isGate sameOutput

include isRouting

/-- A supplied wire whose flat wire is a constant yields it. From the top down: the
wire is a port, and if its caller's wire is no constant, that one yields it. -/
theorem IsSupplied.yields (ports : design.YieldsConstants top) {path : InstancePath}
    {module : Module} (reached : design.At top path module) {wire : Wire}
    (supplied : design.IsSupplied top (path, wire)) (inconstant : ¬ design.domain.IsConstant wire)
    (constant : design.domain.IsConstant (route path wire)) :
    design.Yields (route path wire) module wire := by
  induction reached generalizing wire with
  | top =>
    rw [isRouting.top_wire] at constant
    exact absurd constant inconstant
  | @inner path caller callee place inner above here found ih =>
    have occurs : design.Occurs top ⟨place :: path, inner, callee⟩ :=
      ⟨place, path, caller, rfl, above, here, found⟩
    cases bound : source? inner.pairings wire with
    | none =>
      have fresh := isRouting.fresh occurs ⟨inconstant, bound⟩
      exact absurd (Allocator.lt_next_of_constant constant) (Nat.not_lt_of_le fresh)
    | some source =>
      have same :=
        route_of_source isRouting wellFormed topMember above here inconstant bound
      rw [same] at constant ⊢
      obtain ⟨pairing, isOutput, rfl, rfl⟩ :=
        supplied.exists_output wellFormed topMember single above here found bound
      by_cases callerConstant : design.domain.IsConstant pairing.caller
      · rw [isRouting.constant _ callerConstant]
        exact ports _ occurs pairing isOutput callerConstant
      · have draws : design.Draws top (path, pairing.caller) (place :: path, pairing.callee) :=
          ⟨place, caller, inner, above, here, rfl, isOutput, callerConstant, inconstant, bound⟩
        have yields := ih (Or.inr (Or.inr ⟨_, draws⟩)) callerConstant constant
        exact yields.of_caller wellFormed topMember single above here found isOutput callerConstant
          constant

/-- No gate of the flat circuit drives a constant if all ports yield the constants that
they are bound to. -/
theorem YieldsConstants.inconstant_of_gate (ports : design.YieldsConstants top)
    (unfolds : design.Unfolds [top.name] top.instances) {gate : Gate}
    (member : gate ∈ design.routedGates top route) : ¬ design.domain.IsConstant gate.output := by
  intro constant
  rcases (mem_routedGates_iff unfolds isRouting).1 member with
    ⟨path, module, original, reached, isGate, rfl⟩ | ⟨occurrence, occurs, isCopy⟩
  · have inconstant := (single module (reached.mem topMember)).gate_ne_constant original isGate
    rw [wellFormed.uniform module (reached.mem topMember)] at inconstant
    have supplied : design.IsSupplied top (path, original.output) :=
      Or.inl (IsSettled.gate reached isGate)
    have yields := supplied.yields isRouting wellFormed topMember single ports reached inconstant
      constant
    exact yields.not_gate wellFormed topMember single reached constant isGate
  · obtain ⟨pairing, pairingMember, constantPort, isOutput, different, rfl⟩ :=
      mem_portCopies_iff.1 isCopy
    obtain ⟨place, path, caller, samePath, above, here, found⟩ := occurs
    rw [samePath, List.tail_cons] at different constant
    have inconstant := not_isConstant_of_copied isRouting wellFormed topMember above here
      pairingMember constantPort different
    have supplied : design.IsSupplied top (path, pairing.caller) :=
      Or.inl (IsSettled.port above here isOutput constantPort inconstant)
    have yields := supplied.yields isRouting wellFormed topMember single ports above inconstant
      constant
    have below := yields.of_caller wellFormed topMember single above here found isOutput inconstant
      constant
    exact different (below.eq_of_isConstant constantPort).symm

end

section

variable {design : Design} {top : Module} {route : Route} (isRouting : design.IsRouting top route)
  (wellFormed : design.IsWellFormed) (bindsOnce : design.BindsOnce)
  (topMember : top ∈ design.modules) (unfolds : design.Unfolds [top.name] top.instances)
  (orderly : ∀ module ∈ design.modules, module.IsOrderly)

include isRouting wellFormed bindsOnce topMember unfolds orderly

/-- What a module drives yields the constant that its flat wire is, if no gate drives
a constant. From the leaves up. -/
theorem yields_of_inconstant
    (gates : ∀ gate ∈ design.routedGates top route, ¬ design.domain.IsConstant gate.output)
    {path : InstancePath} {module : Module} (reached : design.At top path module) :
    ∀ wire, wire ∈ module.gateOutputs ∨ wire ∈ module.subcircuitOutputs →
      ¬ design.domain.IsConstant wire → design.domain.IsConstant (route path wire) →
        design.Yields (route path wire) module wire := by
  refine At.leavesFirst unfolds ?_ reached
  intro path module reached ih wire supplied inconstant constant
  rcases supplied with isGate | isCaller
  · obtain ⟨gate, member, rfl⟩ := Gate.mem_allOutputs_iff.1 isGate
    exact absurd constant (gates _ ((mem_routedGates_iff unfolds isRouting).2
      (Or.inl ⟨path, module, gate, reached, member, rfl⟩)))
  · obtain ⟨inner, innerMember, pairing, isOutput, rfl⟩ :=
      Module.mem_subcircuitOutputs_iff.1 isCaller
    obtain ⟨place, here⟩ := List.mem_iff_getElem?.1 innerMember
    obtain ⟨callee, found, directions⟩ :=
      wellFormed.resolved module (reached.mem topMember) inner innerMember
    obtain ⟨member, isPort⟩ := directions.mem_outputs_iff.1 isOutput
    apply Yields.port innerMember found isOutput inconstant
    by_cases constantPort : design.domain.IsConstant pairing.callee
    · by_cases same : route path pairing.caller = pairing.callee
      · rw [same]
        exact Yields.constant
      · -- the port is copied, and the copy drives a constant
        have isCopy := mem_portCopies_iff.2 ⟨pairing, member, constantPort, isOutput, same, rfl⟩
        exact absurd constant (gates _ ((mem_routedGates_iff unfolds isRouting).2
          (Or.inr ⟨⟨place :: path, inner, callee⟩,
            ⟨place, path, module, rfl, reached, here, found⟩, isCopy⟩)))
    · have calleeMember := mem_of_find? found
      have bound := source?_of_nodup
        (bindsOnce module (reached.mem topMember) inner innerMember) member
      have same := route_of_source isRouting wellFormed topMember reached here constantPort bound
      rw [← same] at constant ⊢
      apply ih place inner callee here found _ _ constantPort constant
      rw [← wellFormed.uniform callee calleeMember] at constantPort
      exact (orderly callee calleeMember).drives isPort constantPort

/-- No gate of the flat circuit drives a constant exactly if all ports yield the
constants that they are bound to. -/
theorem forall_inconstant_iff :
    (∀ gate ∈ design.routedGates top route, ¬ design.domain.IsConstant gate.output) ↔
      design.YieldsConstants top := by
  have single : ∀ module ∈ design.modules, module.SingleDrivers :=
    fun module member => (orderly module member).singleDrivers
  constructor
  · rintro gates occurrence occurs pairing isOutput constant
    have calleeReached := occurs.at
    obtain ⟨place, path, caller, samePath, above, here, found⟩ := occurs
    have callerMember := above.mem topMember
    have innerMember := List.mem_of_getElem? here
    have calleeMember := mem_of_find? found
    have directions := wellFormed.resolved.directions callerMember innerMember found
    obtain ⟨member, isPort⟩ := directions.mem_outputs_iff.1 isOutput
    by_cases constantPort : design.domain.IsConstant pairing.callee
    · rcases directions.constantPort pairing member constantPort with same | ⟨_, inconstant⟩
      · rw [same]
        exact Yields.constant
      · exact absurd constant inconstant
    · have bound := source?_of_nodup (bindsOnce caller callerMember _ innerMember) member
      have same : route occurrence.path pairing.callee = pairing.caller := by
        rw [samePath, route_of_source isRouting wellFormed topMember above here constantPort bound]
        exact isRouting.constant _ constant
      rw [← same] at constant ⊢
      apply yields_of_inconstant isRouting wellFormed bindsOnce topMember unfolds orderly gates
        calleeReached _ _ constantPort constant
      rw [← wellFormed.uniform _ calleeMember] at constantPort
      exact (orderly _ calleeMember).drives isPort constantPort
  · exact fun ports gate member =>
      ports.inconstant_of_gate isRouting wellFormed topMember single unfolds member

end

/-- In the flat circuit of a clean design that binds each port once, only constants can
have two drivers, and no wire at all has exactly if all ports yield the constants that
they are bound to. -/
theorem multiplyDriven_flatten_eq_nil_iff {design : Design} (wellFormed : design.IsWellFormed)
    (bindsOnce : design.BindsOnce) (clean : ∀ module ∈ design.modules, module.isClean = true)
    {top : Module} (isTop : design.topModule = .ok top) {flat : Circuit}
    (flattened : design.flatten.result = .ok flat) :
    (∀ wire ∈ flat.toModule.multiplyDriven, design.domain.IsConstant wire) ∧
      (flat.toModule.multiplyDriven = [] ↔ design.YieldsConstants top) := by
  obtain ⟨found, topFlattened⟩ := flatten_eq_ok isTop flattened
  obtain ⟨route, unfolds, isRouting, rfl⟩ := exists_routing found topFlattened
  have topMember := mem_of_find? found
  have orderly : ∀ module ∈ design.modules, module.IsOrderly :=
    fun module member => Module.isClean_iff_isOrderly.1 (clean module member)
  have single : ∀ module ∈ design.modules, module.SingleDrivers :=
    fun module member => (orderly module member).singleDrivers
  constructor
  · exact fun wire =>
      isConstant_of_mem_multiplyDriven isRouting wellFormed topMember unfolds single
  · rw [Module.multiplyDriven_eq_nil_iff,
      nodup_drivers_iff isRouting wellFormed topMember unfolds single]
    exact forall_inconstant_iff isRouting wellFormed bindsOnce topMember unfolds orderly

end Netlist.Design

namespace Netlist.Blif

/-- In the flat circuit of a clean design that was read from BLIF, only constants can
have two drivers, and the linter finds no wire that has exactly if all ports yield the
constants that they are bound to. -/
theorem flatten_singleDriver_iff {allocator : Allocator} {name : Option String}
    {texts : List String} {design : Design} (read : readTexts allocator name texts = .ok design)
    (clean : ∀ module ∈ design.modules, module.isClean = true) {top : Module}
    (isTop : design.topModule = .ok top) {flat : Circuit}
    (flattened : design.flatten.result = .ok flat) :
    (∀ wire ∈ flat.toModule.multiplyDriven, design.domain.IsConstant wire) ∧
      ((∀ diagnostic ∈ Linter.diagnose design.allocator flat.toModule,
          diagnostic.check ≠ .multiplyDriven) ↔
        design.YieldsConstants top) := by
  obtain ⟨wellFormed, bindsOnce, _⟩ := isWellFormed_of_readTexts read
  obtain ⟨onlyConstants, none⟩ :=
    Design.multiplyDriven_flatten_eq_nil_iff wellFormed bindsOnce clean isTop flattened
  rw [Linter.forall_diagnose_ne_iff]
  exact ⟨onlyConstants, none⟩

/-- A netlist whose top binds the output of an inverter to the constant true. -/
def drivenConstant : String :=
  ".model top\n" ++
  ".inputs a\n" ++
  ".outputs y\n" ++
  ".subckt leaf i=a o=$true\n" ++
  ".gate BUF A=$true Y=y\n" ++
  ".end\n" ++
  ".model leaf\n" ++
  ".inputs i\n" ++
  ".outputs o\n" ++
  ".gate INV A=i Y=o\n" ++
  ".end\n"

/-- The top of the netlist with a driven constant. -/
def drivenConstantTop : Module :=
  ⟨"top", .boolean, [2], [3], [⟨.buf, [1], 3⟩],
    [⟨"leaf", [⟨2, 4⟩, ⟨1, 5⟩], [⟨2, 4⟩], [⟨1, 5⟩]⟩]⟩

/-- The design that the netlist with a driven constant describes. -/
def drivenConstantDesign : Design :=
  ⟨⟨.boolean, ["a", "y", "i", "o"], by decide, by decide⟩,
    [drivenConstantTop, ⟨"leaf", .boolean, [4], [5], [⟨.inv, [4], 5⟩], []⟩], some "top", true⟩

theorem readTexts_drivenConstant :
    readTexts (Allocator.empty .boolean) none [drivenConstant] = .ok drivenConstantDesign := by
  cbv

theorem flatten_drivenConstantDesign :
    drivenConstantDesign.flatten.result =
      .ok ⟨"top", .boolean, [2], [3], [⟨.buf, [1], 3⟩, ⟨.inv, [2], 1⟩]⟩ := by
  cbv

theorem flatten_singleDriver_iff_drivenConstant :
    (∀ module ∈ drivenConstantDesign.modules, module.isClean = true) ∧
      drivenConstantDesign.topModule = .ok drivenConstantTop ∧
      (∀ wire ∈ Module.multiplyDriven
          (Circuit.toModule ⟨"top", .boolean, [2], [3], [⟨.buf, [1], 3⟩, ⟨.inv, [2], 1⟩]⟩),
        drivenConstantDesign.domain.IsConstant wire) ∧
      ((∀ diagnostic ∈ Linter.diagnose drivenConstantDesign.allocator
            (Circuit.toModule ⟨"top", .boolean, [2], [3], [⟨.buf, [1], 3⟩, ⟨.inv, [2], 1⟩]⟩),
          diagnostic.check ≠ .multiplyDriven) ↔
        drivenConstantDesign.YieldsConstants drivenConstantTop) := by
  have clean : ∀ module ∈ drivenConstantDesign.modules, module.isClean = true := by decide
  exact ⟨clean, rfl,
    flatten_singleDriver_iff readTexts_drivenConstant clean rfl flatten_drivenConstantDesign⟩

/-- That modules are clean is not enough. -/
theorem exists_clean_multiplyDriven :
    ∃ design flat,
      readTexts (Allocator.empty .boolean) none [drivenConstant] = .ok design ∧
        (∀ module ∈ design.modules, module.isClean = true) ∧
        design.flatten.result = .ok flat ∧
        (⟨.multiplyDriven, "top", ["$true"]⟩ : Diagnostic) ∈
          Linter.diagnose design.allocator flat.toModule := by
  refine ⟨drivenConstantDesign, _, readTexts_drivenConstant, by decide,
    flatten_drivenConstantDesign, ?_⟩
  decide

end Netlist.Blif
