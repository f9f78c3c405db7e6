import Mathlib.Logic.Relation
import Netlist.Proofs.Drivers
import Netlist.Proofs.Extension

/-!
# Sources of flat wires

A wire of a caller that an instance drives draws its value from a port of the callee
(`Design.Draws`), and both have the same flat wire. Where drawing ends, there is a gate,
an input of the top or a constant port (`Design.IsSettled`), or a pairing that counts
for nothing because a later one binds the same port (`Design.IsDisplaced`). If no module
has multiply driven wires, then each flat wire has one such source at most
(`Design.eq_of_route`).
-/

namespace Netlist.Design

/-- A wire at a path. -/
abbrev Site := InstancePath × Wire

/-- The upper wire draws its value from the lower one: a port of an instance binds
it. -/
def Draws (design : Design) (top : Module) (upper lower : Site) : Prop :=
  ∃ place caller inner, design.At top upper.1 caller ∧
    caller.instances[place]? = some inner ∧ lower.1 = place :: upper.1 ∧
    ⟨upper.2, lower.2⟩ ∈ inner.outputs ∧ ¬ design.domain.IsConstant upper.2 ∧
    ¬ design.domain.IsConstant lower.2 ∧ source? inner.pairings lower.2 = some upper.2

/-- A gate, an input of the top or a constant port drives the wire. -/
inductive IsSettled (design : Design) (top : Module) : Site → Prop where
  | input {wire : Wire} : wire ∈ top.inputs → ¬ design.domain.IsConstant wire →
    IsSettled design top ([], wire)
  | gate {path : InstancePath} {module : Module} {gate : Gate} :
    design.At top path module → gate ∈ module.gates → IsSettled design top (path, gate.output)
  | port {path : InstancePath} {module : Module} {place : Nat} {inner : Instance}
    {pairing : Pairing} : design.At top path module → module.instances[place]? = some inner →
      pairing ∈ inner.outputs → design.domain.IsConstant pairing.callee →
        ¬ design.domain.IsConstant pairing.caller → IsSettled design top (path, pairing.caller)

/-- The wire is bound to an output port that takes the flat wire of another one. -/
inductive IsDisplaced (design : Design) (top : Module) : Site → Prop where
  | mk {path : InstancePath} {module : Module} {place : Nat} {inner : Instance}
    {pairing : Pairing} : design.At top path module → module.instances[place]? = some inner →
      pairing ∈ inner.outputs → ¬ design.domain.IsConstant pairing.callee →
        ¬ design.domain.IsConstant pairing.caller →
          source? inner.pairings pairing.callee ≠ some pairing.caller →
            IsDisplaced design top (path, pairing.caller)

/-- The wire gets its value inside the module at its path or below. -/
def IsSupplied (design : Design) (top : Module) (site : Site) : Prop :=
  design.IsSettled top site ∨ design.IsDisplaced top site ∨ ∃ lower, design.Draws top site lower

/-- The flat wire belongs to the wire itself: it is a wire of the top, or no pairing
binds it. -/
def IsRoot (design : Design) (top : Module) (site : Site) : Prop :=
  site.1 = [] ∨ ∃ inner callee, design.Occurs top ⟨site.1, inner, callee⟩ ∧
    Occurrence.IsOwn design.domain ⟨site.1, inner, callee⟩ site.2

section

variable {design : Design} {top : Module} (wellFormed : design.IsWellFormed)
  (topMember : top ∈ design.modules)

include wellFormed topMember

theorem mem_pairings_of_mem_outputs {path : InstancePath} {module : Module} {place : Nat}
    {inner : Instance} {pairing : Pairing} (reached : design.At top path module)
    (here : module.instances[place]? = some inner) (member : pairing ∈ inner.outputs) :
    pairing ∈ inner.pairings := by
  obtain ⟨callee, _, directions⟩ :=
    wellFormed.resolved module (reached.mem topMember) inner (List.mem_of_getElem? here)
  exact (directions.mem_outputs_iff.1 member).1

/-- A supplied wire is one that the module names. -/
theorem IsSupplied.exists_mem_ownWires {path : InstancePath} {wire : Wire}
    (supplied : design.IsSupplied top (path, wire)) :
    ∃ module, design.At top path module ∧ wire ∈ module.ownWires := by
  have byInstance : ∀ {caller : Module} {place : Nat} {inner : Instance} {pairing : Pairing},
      design.At top path caller → caller.instances[place]? = some inner →
        pairing ∈ inner.outputs → pairing.caller ∈ caller.ownWires := by
    intro caller place inner pairing reached here member
    refine List.mem_append_right _ (List.mem_flatMap.2 ⟨inner, List.mem_of_getElem? here, ?_⟩)
    exact List.mem_map.2
      ⟨pairing, mem_pairings_of_mem_outputs wellFormed topMember reached here member, rfl⟩
  have inWires : ∀ {module : Module} {wire : Wire},
      wire ∈ module.inputs ++ module.outputs ++ module.gates.flatMap Gate.wires →
        wire ∈ module.ownWires :=
    fun member => List.mem_append_left _ (Wire.mem_ascending_iff.2 member)
  rcases supplied with settled | displaced | ⟨lower, place, caller, inner, again, here, _, member,
    _⟩
  · cases settled with
    | input isInput _ =>
      exact ⟨top, At.top, inWires (List.mem_append_left _ (List.mem_append_left _ isInput))⟩
    | @gate path module gate reached isGate =>
      refine ⟨module, reached, inWires (List.mem_append_right _ (List.mem_flatMap.2 ?_))⟩
      exact ⟨gate, isGate, Gate.mem_wires_iff.2 (Or.inr rfl)⟩
    | port reached here member _ _ => exact ⟨_, reached, byInstance reached here member⟩
  · cases displaced with
    | mk reached here member _ _ _ => exact ⟨_, reached, byInstance reached here member⟩
  · exact ⟨caller, again, byInstance again here member⟩

end

section

variable {design : Design} {top : Module} (wellFormed : design.IsWellFormed)
  (topMember : top ∈ design.modules) (single : ∀ module ∈ design.modules, module.SingleDrivers)

include wellFormed topMember single

/-- A wire of a module comes out of one instance, by one pairing. -/
theorem eq_of_caller {path : InstancePath} {first second : Module} {place other : Nat}
    {inner outer : Instance} {one two : Pairing} (reached : design.At top path first)
    (again : design.At top path second) (here : first.instances[place]? = some inner)
    (there : second.instances[other]? = some outer) (oneMember : one ∈ inner.outputs)
    (twoMember : two ∈ outer.outputs) (same : one.caller = two.caller)
    (inconstant : ¬ design.domain.IsConstant one.caller) :
    place = other ∧ inner = outer ∧ one = two := by
  obtain rfl := reached.unique again
  have member := reached.mem topMember
  rw [← wellFormed.uniform first member] at inconstant
  obtain ⟨rfl, samePairing⟩ :=
    (single first member).eq_of_caller here there oneMember twoMember same inconstant
  rw [here] at there
  cases there
  exact ⟨rfl, rfl, samePairing⟩

theorem draws_rightUnique : Relator.RightUnique (design.Draws top) := by
  rintro ⟨path, wire⟩ ⟨firstPath, first⟩ ⟨secondPath, second⟩
    ⟨place, caller, inner, reached, here, firstSame, firstMember, inconstant, _⟩
    ⟨other, _, outer, again, there, secondSame, secondMember, _⟩
  dsimp only at firstSame secondSame
  obtain ⟨rfl, rfl, same⟩ := eq_of_caller wellFormed topMember single reached again here there
    firstMember secondMember rfl inconstant
  cases same
  rw [firstSame, secondSame]

/-- Where a wire is settled, nothing is drawn from below. -/
theorem IsSettled.not_draws {site lower : Site} (settled : design.IsSettled top site) :
    ¬ design.Draws top site lower := by
  rintro ⟨place, caller, inner, reached, here, _, member, inconstant, inconstantPort, _⟩
  have moduleMember := reached.mem topMember
  have callerInconstant := inconstant
  rw [← wellFormed.uniform caller moduleMember] at callerInconstant
  have drivers := single caller moduleMember
  cases settled with
  | input isInput _ =>
    obtain rfl := reached.unique At.top
    exact drivers.caller_ne_input inner (List.mem_of_getElem? here) _ member callerInconstant
      isInput
  | gate again isGate =>
    obtain rfl := reached.unique again
    exact drivers.caller_ne_gate inner (List.mem_of_getElem? here) _ member _ isGate rfl
  | port again there isPort constant _ =>
    obtain ⟨_, _, same⟩ := eq_of_caller wellFormed topMember single reached again here there
      member isPort rfl inconstant
    rw [← same] at constant
    exact inconstantPort constant

theorem IsDisplaced.not_draws {site lower : Site} (displaced : design.IsDisplaced top site) :
    ¬ design.Draws top site lower := by
  rintro ⟨place, caller, inner, reached, here, _, member, inconstant, _, bound⟩
  cases displaced with
  | mk again there isPort _ _ unbound =>
    obtain ⟨_, rfl, same⟩ := eq_of_caller wellFormed topMember single reached again here there
      member isPort rfl inconstant
    rw [← same] at unbound
    exact unbound bound

/-- What is displaced is driven by nothing else. -/
theorem IsDisplaced.not_isSettled {site : Site} (displaced : design.IsDisplaced top site) :
    ¬ design.IsSettled top site := by
  intro settled
  cases displaced with
  | @mk path module place inner pairing reached here isPort inconstantPort inconstant _ =>
    have moduleMember := reached.mem topMember
    have drivers := single module moduleMember
    have innerMember := List.mem_of_getElem? here
    generalize sameWire : pairing.caller = wire at settled
    cases settled with
    | input isInput _ =>
      obtain rfl := reached.unique At.top
      rw [← wellFormed.uniform module moduleMember] at inconstant
      exact drivers.caller_ne_input inner innerMember _ isPort inconstant (sameWire ▸ isInput)
    | gate again isGate =>
      obtain rfl := reached.unique again
      exact drivers.caller_ne_gate inner innerMember _ isPort _ isGate sameWire.symm
    | port again there otherPort constant _ =>
      obtain ⟨_, _, same⟩ := eq_of_caller wellFormed topMember single reached again here there
        isPort otherPort sameWire inconstant
      exact inconstantPort (same ▸ constant)

/-- What a module supplies to itself is no input of it, below the top. -/
theorem IsSupplied.notMem_inputs {path : InstancePath} {module : Module} {wire : Wire}
    (supplied : design.IsSupplied top (path, wire)) (reached : design.At top path module)
    (below : path ≠ []) : wire ∉ module.inputs := by
  have byInstance : ∀ {caller : Module} {place : Nat} {inner : Instance} {pairing : Pairing},
      design.At top path caller → caller.instances[place]? = some inner →
        pairing ∈ inner.outputs → ¬ design.domain.IsConstant pairing.caller →
          pairing.caller ∉ module.inputs := by
    intro caller place inner pairing again here member inconstant
    obtain rfl := reached.unique again
    have moduleMember := reached.mem topMember
    rw [← wellFormed.uniform module moduleMember] at inconstant
    exact (single module moduleMember).caller_ne_input inner (List.mem_of_getElem? here) pairing
      member inconstant
  rcases supplied with settled | displaced | ⟨lower, place, caller, inner, again, here, _, member,
    inconstant, _⟩
  · cases settled with
    | input _ _ => exact absurd rfl below
    | gate again isGate =>
      obtain rfl := reached.unique again
      exact (single module (reached.mem topMember)).gate_ne_input _ isGate
    | port again here member _ inconstant => exact byInstance again here member inconstant
  · cases displaced with
    | mk again here member _ inconstant _ => exact byInstance again here member inconstant
  · exact byInstance again here member inconstant

/-- A supplied wire that a pairing binds is an output of the instance. -/
theorem IsSupplied.exists_output {path : InstancePath} {caller callee : Module} {place : Nat}
    {inner : Instance} {wire source : Wire} (supplied : design.IsSupplied top (place :: path, wire))
    (above : design.At top path caller) (here : caller.instances[place]? = some inner)
    (found : design.find? inner.callee = some callee)
    (bound : source? inner.pairings wire = some source) :
    ∃ pairing ∈ inner.outputs, pairing.callee = wire ∧ pairing.caller = source := by
  have noInput := supplied.notMem_inputs wellFormed topMember single (At.inner above here found)
    (List.cons_ne_nil _ _)
  obtain ⟨pairing, member, rfl, rfl⟩ := exists_pairing_of_source? bound
  have directions := wellFormed.resolved.directions (above.mem topMember)
    (List.mem_of_getElem? here) found
  have isOutput := (directions.isPort pairing member).resolve_left noInput
  exact ⟨pairing, directions.mem_outputs_iff.2 ⟨member, isOutput⟩, rfl, rfl⟩

end

/-! ### Flat wires of sources -/

section Routed

variable {design : Design} {top : Module} {route : Route} (isRouting : design.IsRouting top route)
  (wellFormed : design.IsWellFormed) (topMember : top ∈ design.modules)

include isRouting wellFormed topMember

/-- A bound port has the flat wire of its source. -/
theorem route_of_source {path : InstancePath} {module : Module} {place : Nat} {inner : Instance}
    (reached : design.At top path module) (here : module.instances[place]? = some inner)
    {wire source : Wire} (inconstant : ¬ design.domain.IsConstant wire)
    (bound : source? inner.pairings wire = some source) :
    route (place :: path) wire = route path source := by
  obtain ⟨callee, found, _⟩ :=
    wellFormed.resolved module (reached.mem topMember) inner (List.mem_of_getElem? here)
  have occurs : design.Occurs top ⟨place :: path, inner, callee⟩ :=
    ⟨place, path, module, rfl, reached, here, found⟩
  exact isRouting.bound occurs inconstant bound

/-- Drawing is invisible in the flat circuit. -/
theorem Draws.route_eq {upper lower : Site} (draws : design.Draws top upper lower) :
    route lower.1 lower.2 = route upper.1 upper.2 := by
  obtain ⟨place, caller, inner, reached, here, samePath, _, _, inconstant, bound⟩ := draws
  rw [samePath]
  exact route_of_source isRouting wellFormed topMember reached here inconstant bound

theorem route_eq_of_draws {upper lower : Site}
    (chain : Relation.ReflTransGen (design.Draws top) upper lower) :
    route lower.1 lower.2 = route upper.1 upper.2 := by
  induction chain with
  | refl => rfl
  | tail _ draws ih =>
    rw [← ih]
    exact draws.route_eq isRouting wellFormed topMember

variable (single : ∀ module ∈ design.modules, module.SingleDrivers)

include single

/-- A supplied wire lies below one to which its flat wire belongs. -/
theorem exists_root {path : InstancePath} {module : Module} (reached : design.At top path module)
    {wire : Wire} (supplied : design.IsSupplied top (path, wire))
    (inconstant : ¬ design.domain.IsConstant (route path wire)) :
    ∃ root, Relation.ReflTransGen (design.Draws top) root (path, wire) ∧
      design.IsRoot top root ∧ design.IsSupplied top root := by
  induction reached generalizing wire with
  | top => exact ⟨_, Relation.ReflTransGen.refl, Or.inl rfl, supplied⟩
  | @inner path caller callee place inner above here found ih =>
    have reached : design.At top (place :: path) callee := At.inner above here found
    have occurs : design.Occurs top ⟨place :: path, inner, callee⟩ :=
      ⟨place, path, caller, rfl, above, here, found⟩
    have wireInconstant : ¬ design.domain.IsConstant wire := by
      intro constant
      rw [isRouting.constant _ constant] at inconstant
      exact inconstant constant
    cases bound : source? inner.pairings wire with
    | none =>
      exact ⟨_, Relation.ReflTransGen.refl, Or.inr ⟨inner, callee, occurs, wireInconstant, bound⟩,
        supplied⟩
    | some source =>
      rw [route_of_source isRouting wellFormed topMember above here wireInconstant bound]
        at inconstant
      have sourceInconstant : ¬ design.domain.IsConstant source := by
        intro constant
        rw [isRouting.constant _ constant] at inconstant
        exact inconstant constant
      obtain ⟨pairing, isOutput, rfl, rfl⟩ :=
        supplied.exists_output wellFormed topMember single above here found bound
      have draws : design.Draws top (path, pairing.caller) (place :: path, pairing.callee) :=
        ⟨place, caller, inner, above, here, rfl, isOutput, sourceInconstant, wireInconstant,
          bound⟩
      obtain ⟨root, chain, isRoot, rootSupplied⟩ :=
        ih (Or.inr (Or.inr ⟨_, draws⟩)) inconstant
      exact ⟨root, chain.tail draws, isRoot, rootSupplied⟩

omit single in
/-- Wires to which their flat wires belong share none. -/
theorem IsRoot.eq_of_route {first second : Site} (firstRoot : design.IsRoot top first)
    (secondRoot : design.IsRoot top second) (firstSupplied : design.IsSupplied top first)
    (secondSupplied : design.IsSupplied top second)
    (same : route first.1 first.2 = route second.1 second.2) : first = second := by
  have lowWire : ∀ {wire}, design.IsSupplied top ([], wire) → wire < design.allocator.next := by
    intro wire supplied
    obtain ⟨module, reached, own⟩ :=
      IsSupplied.exists_mem_ownWires wellFormed topMember supplied
    exact wellFormed.numbered.lt_of_mem_ownWires (reached.mem topMember) own
  obtain ⟨firstPath, firstWire⟩ := first
  obtain ⟨secondPath, secondWire⟩ := second
  dsimp only at same
  rcases firstRoot with firstTop | ⟨inner, callee, occurs, own⟩
  · obtain rfl : firstPath = [] := firstTop
    rw [isRouting.top_wire] at same
    rcases secondRoot with secondTop | ⟨inner, callee, occurs, own⟩
    · obtain rfl : secondPath = [] := secondTop
      rw [isRouting.top_wire] at same
      rw [same]
    · have high := isRouting.fresh occurs own
      rw [← same] at high
      exact absurd (lowWire firstSupplied) (Nat.not_lt_of_le high)
  · rcases secondRoot with secondTop | ⟨otherInner, otherCallee, otherOccurs, otherOwn⟩
    · obtain rfl : secondPath = [] := secondTop
      rw [isRouting.top_wire] at same
      have high := isRouting.fresh occurs own
      rw [same] at high
      exact absurd (lowWire secondSupplied) (Nat.not_lt_of_le high)
    · obtain ⟨samePath, sameWire⟩ := isRouting.distinct occurs otherOccurs own otherOwn same
      exact Prod.ext samePath sameWire

/-- A flat wire that is no constant has one source at most. -/
theorem eq_of_route {first second : Site}
    (firstSource : design.IsSettled top first ∨ design.IsDisplaced top first)
    (secondSource : design.IsSettled top second ∨ design.IsDisplaced top second)
    (same : route first.1 first.2 = route second.1 second.2)
    (inconstant : ¬ design.domain.IsConstant (route first.1 first.2)) : first = second := by
  have supplied : ∀ {site}, design.IsSettled top site ∨ design.IsDisplaced top site →
      design.IsSupplied top site := by
    rintro site (settled | displaced)
    · exact Or.inl settled
    · exact Or.inr (Or.inl displaced)
  have ends : ∀ {site lower}, design.IsSettled top site ∨ design.IsDisplaced top site →
      ¬ design.Draws top site lower := by
    rintro site lower (settled | displaced)
    · exact settled.not_draws wellFormed topMember single
    · exact displaced.not_draws wellFormed topMember single
  have reached : ∀ {site : Site}, design.IsSettled top site ∨ design.IsDisplaced top site →
      ∃ module, design.At top site.1 module := by
    rintro ⟨path, wire⟩ source
    obtain ⟨module, reached, _⟩ :=
      IsSupplied.exists_mem_ownWires wellFormed topMember (supplied source)
    exact ⟨module, reached⟩
  obtain ⟨_, firstReached⟩ := reached firstSource
  obtain ⟨_, secondReached⟩ := reached secondSource
  obtain ⟨firstRoot, firstChain, isFirstRoot, firstSupplied⟩ := exists_root isRouting wellFormed
    topMember single firstReached (supplied firstSource) inconstant
  obtain ⟨secondRoot, secondChain, isSecondRoot, secondSupplied⟩ := exists_root isRouting
    wellFormed topMember single secondReached (supplied secondSource) (same ▸ inconstant)
  have firstSame := route_eq_of_draws isRouting wellFormed topMember firstChain
  have secondSame := route_eq_of_draws isRouting wellFormed topMember secondChain
  have sameRoot : firstRoot = secondRoot := by
    apply isFirstRoot.eq_of_route isRouting wellFormed topMember isSecondRoot firstSupplied
      secondSupplied
    rw [← firstSame, ← secondSame, same]
  rw [← sameRoot] at secondChain
  -- both lie on one way down, at the end of which nothing is drawn
  rcases firstChain.total_of_right_unique (draws_rightUnique wellFormed topMember single)
    secondChain with down | up
  · rcases down.cases_head with sameSite | ⟨lower, draws, _⟩
    · exact sameSite
    · exact absurd draws (ends firstSource)
  · rcases up.cases_head with sameSite | ⟨lower, draws, _⟩
    · exact sameSite.symm
    · exact absurd draws (ends secondSource)

end Routed

/-! ### Drivers of the flat circuit -/

section Flat

variable {design : Design} {top : Module} {route : Route} (isRouting : design.IsRouting top route)
  (wellFormed : design.IsWellFormed) (topMember : top ∈ design.modules)
  (unfolds : design.Unfolds [top.name] top.instances)

include isRouting wellFormed topMember unfolds

/-- The output of a flat gate is the flat wire of a settled one. -/
theorem exists_isSettled_of_gate {gate : Gate} (member : gate ∈ design.routedGates top route) :
    ∃ site, design.IsSettled top site ∧ route site.1 site.2 = gate.output := by
  rcases (mem_routedGates_iff unfolds isRouting).1 member with
    ⟨path, module, original, reached, originalMember, rfl⟩ | ⟨occurrence, occurs, isCopy⟩
  · exact ⟨_, IsSettled.gate reached originalMember, rfl⟩
  · obtain ⟨pairing, pairingMember, constant, isOutput, different, rfl⟩ :=
      mem_portCopies_iff.1 isCopy
    obtain ⟨place, path, caller, samePath, above, here, found⟩ := occurs
    rw [samePath, List.tail_cons] at different ⊢
    obtain ⟨callee, _, directions⟩ :=
      wellFormed.resolved caller (above.mem topMember) _ (List.mem_of_getElem? here)
    rcases directions.constantPort pairing pairingMember constant with same | ⟨_, inconstant⟩
    · rw [same, isRouting.constant _ constant] at different
      exact absurd rfl different
    · exact ⟨_, IsSettled.port above here isOutput constant inconstant, rfl⟩

/-- The flat wires of settled wires are driven in the flat circuit, and no others but the
constants. -/
theorem isDriven_routedCircuit_iff {wire : Wire} :
    (design.routedCircuit top route).toModule.IsDriven wire ↔
      design.domain.IsConstant wire ∨
        ∃ site, design.IsSettled top site ∧ route site.1 site.2 = wire := by
  have sameDomain : (design.routedCircuit top route).toModule.domain = design.domain :=
    wellFormed.uniform top topMember
  have outputs : wire ∈ (design.routedCircuit top route).toModule.gateOutputs ↔
      ∃ gate ∈ design.routedGates top route, gate.output = wire :=
    Gate.mem_allOutputs_iff
  rw [Module.IsDriven, sameDomain, outputs]
  constructor
  · rintro (constant | ⟨gate, member, rfl⟩ | inSubcircuits | isInput)
    · exact Or.inl constant
    · exact Or.inr (exists_isSettled_of_gate isRouting wellFormed topMember unfolds member)
    · cases inSubcircuits
    · by_cases constant : design.domain.IsConstant wire
      · exact Or.inl constant
      · exact Or.inr ⟨_, IsSettled.input isInput constant, isRouting.top_wire wire⟩
  · rintro (constant | ⟨site, settled, rfl⟩)
    · exact Or.inl constant
    · cases settled with
      | input isInput _ =>
        rw [isRouting.top_wire]
        exact Or.inr (Or.inr (Or.inr isInput))
      | gate reached member =>
        refine Or.inr (Or.inl ⟨_, (mem_routedGates_iff unfolds isRouting).2 (Or.inl
          ⟨_, _, _, reached, member, rfl⟩), rfl⟩)
      | @port path module place inner pairing reached here member constant _ =>
        by_cases same : route path pairing.caller = pairing.callee
        · rw [same]
          exact Or.inl constant
        · obtain ⟨callee, found, _⟩ :=
            wellFormed.resolved module (reached.mem topMember) inner (List.mem_of_getElem? here)
          have occurs : design.Occurs top ⟨place :: path, inner, callee⟩ :=
            ⟨place, path, module, rfl, reached, here, found⟩
          have isCopy : Gate.copy pairing.callee (route path pairing.caller) ∈
              portCopies design.domain inner.outputs (route path) inner.pairings :=
            mem_portCopies_iff.2 ⟨pairing, mem_pairings_of_mem_outputs wellFormed topMember
              reached here member, constant, member, same, rfl⟩
          exact Or.inr (Or.inl ⟨_, (mem_routedGates_iff unfolds isRouting).2
            (Or.inr ⟨_, occurs, isCopy⟩), rfl⟩)

end Flat

end Netlist.Design
