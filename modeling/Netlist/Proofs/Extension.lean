import Mathlib
import Netlist.Proofs.Resolution
import Netlist.Proofs.Routing

/-!
# Flat and hierarchical valuations

Along a routing, a valuation of the flat circuit and one of the hierarchy carry the
same values: the value of a wire at a path is that of its flat wire. So flattening
neither adds constraints on the wires of the top nor loses any
(`exists_flat_iff_exists_hierarchical`).

From the hierarchy to the circuit this needs that own wires have flat wires to
themselves. In the other direction it needs that every pairing is kept: that no
other pairing takes its port, and that constant ports are used as resolution
demands.

Mathlib is imported whole, here and where netlists are arranged or resolved from JSON, for its
equations of library functions: the runs on fixed inputs are evaluated by `cbv`, which would make
its own otherwise.
-/

namespace Netlist

universe u

variable {α : Type u}

/-- The wires of a module's ports, gates and pairings. -/
def Module.ownWires (module : Module) : List Wire :=
  module.wires ++ module.instances.flatMap fun inner => inner.pairings.map Pairing.caller

theorem Allocator.lt_next_of_constant {allocator : Allocator} {wire : Wire}
    (constant : allocator.domain.IsConstant wire) : wire < allocator.next := by
  refine Nat.lt_of_lt_of_le constant ?_
  rw [← Domain.length_constantNames, next, names, List.length_append]
  exact Nat.le_add_right _ _

/-! ### Sources of ports -/

/-- The source of a port is the caller's wire in one of the pairings. -/
theorem exists_pairing_of_source? {pairings : List Pairing} {wire source : Wire}
    (bound : source? pairings wire = some source) :
    ∃ pairing ∈ pairings, pairing.callee = wire ∧ pairing.caller = source := by
  obtain ⟨pairing, found, same⟩ := Option.map_eq_some_iff.1 bound
  exact ⟨pairing, List.mem_reverse.1 (List.mem_of_find?_eq_some found),
    by simpa using List.find?_some found, same⟩

/-- A port that is bound by one pairing has the caller's wire in it for a source. -/
theorem source?_of_nodup {pairings : List Pairing}
    (nodup : (pairings.map Pairing.callee).Nodup) {pairing : Pairing}
    (member : pairing ∈ pairings) : source? pairings pairing.callee = some pairing.caller := by
  have found : ∃ other, pairings.reverse.find? (fun other => other.callee = pairing.callee) =
      some other := by
    rw [← Option.isSome_iff_exists, List.find?_isSome]
    exact ⟨pairing, List.mem_reverse.2 member, by simp⟩
  obtain ⟨other, found⟩ := found
  have sameCallee : other.callee = pairing.callee := by simpa using List.find?_some found
  have otherMember := List.mem_reverse.1 (List.mem_of_find?_eq_some found)
  have same := List.inj_on_of_nodup_map nodup otherMember member sameCallee
  rw [source?, found, same]
  rfl

namespace Design

variable {design : Design} {top : Module} {route : Route} {meaning : Interpretation α}

theorem At.mem {path : InstancePath} {module : Module} (topMember : top ∈ design.modules)
    (reached : design.At top path module) : module ∈ design.modules := by
  cases reached with
  | top => exact topMember
  | inner _ _ found => exact mem_of_find? found

theorem IsNumbered.lt_of_mem_ownWires (numbered : design.IsNumbered) {module : Module}
    (member : module ∈ design.modules) {wire : Wire} (own : wire ∈ module.ownWires) :
    wire < design.allocator.next := by
  obtain ⟨wires, pairings⟩ := numbered module member
  rcases List.mem_append.1 own with inWires | inPairings
  · exact wires wire inWires
  · obtain ⟨inner, innerMember, inInner⟩ := List.mem_flatMap.1 inPairings
    obtain ⟨pairing, pairingMember, rfl⟩ := List.mem_map.1 inInner
    exact (pairings inner innerMember pairing pairingMember).1

/-- The flat circuit lies in the domain of the design. -/
theorem IsUniform.domain_of_flatten {design : Design} (uniform : design.IsUniform)
    {circuit : Circuit} (flattened : design.flatten.result = .ok circuit) :
    circuit.domain = design.domain := by
  cases isTop : design.topModule with
  | error error =>
    unfold flatten at flattened
    rw [isTop] at flattened
    cases flattened
  | ok top =>
    obtain ⟨found, topFlattened⟩ := flatten_eq_ok isTop flattened
    obtain ⟨expansion, _, rfl⟩ := flattenModule_eq_ok found topFlattened
    exact uniform top (mem_of_find? found)

/-! ### From the hierarchy to the flat circuit -/

open Classical in
/-- The value of a flat wire: that of the top's wire, or that of the own wire which
is routed to it. -/
noncomputable def flatValuation (design : Design) (top : Module) (route : Route)
    (values : InstancePath → Valuation α) : Valuation α := fun flat =>
  if flat < design.allocator.next then values [] flat
  else if owner : ∃ place : Occurrence × Wire, design.Occurs top place.1 ∧
      place.1.IsOwn design.domain place.2 ∧ route place.1.path place.2 = flat then
    values owner.choose.1.path owner.choose.2
  else values [] flat

section Flat

variable {values : InstancePath → Valuation α} (isRouting : design.IsRouting top route)

theorem flatValuation_of_lt {wire : Wire} (inUse : wire < design.allocator.next) :
    flatValuation design top route values wire = values [] wire :=
  if_pos inUse

include isRouting

theorem flatValuation_of_isOwn {occurrence : Occurrence} (occurs : design.Occurs top occurrence)
    {wire : Wire} (own : occurrence.IsOwn design.domain wire) :
    flatValuation design top route values (route occurrence.path wire) =
      values occurrence.path wire := by
  have above := Nat.not_lt_of_le (isRouting.fresh occurs own)
  have owner : ∃ place : Occurrence × Wire, design.Occurs top place.1 ∧
      place.1.IsOwn design.domain place.2 ∧
        route place.1.path place.2 = route occurrence.path wire :=
    ⟨(occurrence, wire), occurs, own, rfl⟩
  rw [flatValuation, if_neg above, dif_pos owner]
  obtain ⟨otherOccurs, otherOwn, shared⟩ := owner.choose_spec
  obtain ⟨samePath, sameWire⟩ := isRouting.distinct otherOccurs occurs otherOwn own shared
  rw [samePath, sameWire]

/-- The flat wire of a wire has its value. -/
theorem flatValuation_route (topMember : top ∈ design.modules) (numbered : design.IsNumbered)
    (holds : design.HoldsBelow meaning top values) {path : InstancePath} {module : Module}
    (reached : design.At top path module) {wire : Wire}
    (inUse : path = [] → wire < design.allocator.next) :
    flatValuation design top route values (route path wire) = values path wire := by
  induction reached generalizing wire with
  | top =>
    rw [isRouting.top_wire]
    exact flatValuation_of_lt (inUse rfl)
  | @inner path caller callee place inner above here found ih =>
    have below : design.At top (place :: path) callee := At.inner above here found
    have occurs : design.Occurs top ⟨place :: path, inner, callee⟩ :=
      ⟨place, path, caller, rfl, above, here, found⟩
    by_cases constant : design.domain.IsConstant wire
    · rw [isRouting.constant _ constant,
        flatValuation_of_lt (Allocator.lt_next_of_constant constant)]
      exact (holds [] top At.top).1.eq_of_constant (holds _ _ below).1 constant
    · cases bound : source? inner.pairings wire with
      | none => exact flatValuation_of_isOwn isRouting occurs ⟨constant, bound⟩
      | some source =>
        obtain ⟨pairing, pairingMember, rfl, rfl⟩ := exists_pairing_of_source? bound
        have routed := isRouting.bound occurs constant bound
        dsimp only [List.tail_cons] at routed
        rw [routed, ih]
        · exact (holds path caller above).2.2 place inner here pairing pairingMember
        · intro _
          have innerMember := List.mem_of_getElem? here
          exact ((numbered caller (above.mem topMember)).2 inner innerMember pairing
            pairingMember).1

/-- The copies for constant ports hold. -/
theorem flatValuation_holds_copy (topMember : top ∈ design.modules)
    (numbered : design.IsNumbered) (holds : design.HoldsBelow meaning top values)
    {occurrence : Occurrence} (occurs : design.Occurs top occurrence) {gate : Gate}
    (member : gate ∈ portCopies design.domain occurrence.inner.outputs
      (route occurrence.path.tail) occurrence.inner.pairings) :
    gate.Holds meaning (flatValuation design top route values) := by
  obtain ⟨pairing, pairingMember, constant, _, _, rfl⟩ := mem_portCopies_iff.1 member
  have below := occurs.at
  obtain ⟨place, path, caller, samePath, above, here, found⟩ := occurs
  have inUse := ((numbered caller (above.mem topMember)).2 _ (List.mem_of_getElem? here)
    pairing pairingMember).1
  have callerValue : flatValuation design top route values (route path pairing.caller) =
      values path pairing.caller :=
    flatValuation_route isRouting topMember numbered holds above fun _ => inUse
  rw [Gate.holds_copy_iff, samePath, List.tail_cons, callerValue,
    flatValuation_of_lt (Allocator.lt_next_of_constant constant),
    (holds path caller above).2.2 place _ here pairing pairingMember, ← samePath]
  exact (holds [] top At.top).1.eq_of_constant (holds _ _ below).1 constant

/-- All gates of the flat circuit hold. -/
theorem flatValuation_holds (topMember : top ∈ design.modules) (numbered : design.IsNumbered)
    (unfolds : design.Unfolds [top.name] top.instances)
    (holds : design.HoldsBelow meaning top values) {gate : Gate}
    (member : gate ∈ design.routedGates top route) :
    gate.Holds meaning (flatValuation design top route values) := by
  rcases (mem_routedGates_iff unfolds isRouting).1 member with
    ⟨path, module, original, reached, originalMember, rfl⟩ | ⟨occurrence, occurs, isCopy⟩
  · rw [Gate.holds_rename_iff]
    refine (Gate.holds_congr ?_).2 ((holds path module reached).2.1 original originalMember)
    intro wire wireMember
    apply flatValuation_route isRouting topMember numbered holds reached
    intro _
    apply (numbered module (reached.mem topMember)).1 wire
    rw [Module.wires, Wire.mem_ascending_iff]
    exact List.mem_append_right _ (List.mem_flatMap.2 ⟨original, originalMember, wireMember⟩)
  · exact flatValuation_holds_copy isRouting topMember numbered holds occurs isCopy

end Flat

/-! ### From the flat circuit to the hierarchy -/

/-- Along a routing, both wires of a pairing have the same value in a flat circuit
that holds. -/
theorem eq_of_pairing (isRouting : design.IsRouting top route) (bindsOnce : design.BindsOnce)
    (topMember : top ∈ design.modules) {flat : Valuation α} {occurrence : Occurrence}
    (occurs : design.Occurs top occurrence)
    (resolved : occurrence.inner.IsResolved design.domain occurrence.callee)
    (copies : ∀ gate ∈ portCopies design.domain occurrence.inner.outputs
      (route occurrence.path.tail) occurrence.inner.pairings, gate.Holds meaning flat)
    {pairing : Pairing} (member : pairing ∈ occurrence.inner.pairings) :
    flat (route occurrence.path.tail pairing.caller) =
      flat (route occurrence.path pairing.callee) := by
  by_cases constant : design.domain.IsConstant pairing.callee
  · rw [isRouting.constant _ constant]
    by_cases same : route occurrence.path.tail pairing.caller = pairing.callee
    · rw [same]
    · rcases resolved.constantPort pairing member constant with equal | ⟨noInput, _⟩
      · rw [equal] at same
        exact absurd (isRouting.constant _ constant) same
      · -- the port is an output, so its value is copied
        have isOutput : pairing ∈ occurrence.inner.outputs :=
          resolved.mem_outputs_iff.2
            ⟨member, (resolved.isPort pairing member).resolve_left noInput⟩
        have copied := copies _ (mem_portCopies_iff.2
          ⟨pairing, member, constant, isOutput, same, rfl⟩)
        exact (Gate.holds_copy_iff.1 copied).symm
  · have innerMember : ∃ module ∈ design.modules, occurrence.inner ∈ module.instances := by
      obtain ⟨place, path, caller, _, above, here, _⟩ := occurs
      exact ⟨caller, above.mem topMember, List.mem_of_getElem? here⟩
    obtain ⟨module, moduleMember, innerMember⟩ := innerMember
    have bound := source?_of_nodup (bindsOnce module moduleMember _ innerMember) member
    rw [isRouting.bound occurs constant bound]

/-- The values of flat wires make up a valuation of the hierarchy. -/
theorem holdsBelow_of_flat (isRouting : design.IsRouting top route)
    (resolved : design.IsResolved) (bindsOnce : design.BindsOnce)
    (topMember : top ∈ design.modules) (unfolds : design.Unfolds [top.name] top.instances)
    {flat : Valuation α} (fixes : design.domain.Fixes meaning flat)
    (gates : ∀ gate ∈ design.routedGates top route, gate.Holds meaning flat) :
    design.HoldsBelow meaning top fun path => flat ∘ route path := by
  intro path module reached
  refine ⟨?_, ?_, ?_⟩
  · exact fixes.congr fun wire constant => congrArg flat (isRouting.constant path constant)
  · intro gate member
    rw [← Gate.holds_rename_iff]
    apply gates
    exact (mem_routedGates_iff unfolds isRouting).2
      (Or.inl ⟨path, module, gate, reached, member, rfl⟩)
  · intro place inner here pairing pairingMember
    obtain ⟨callee, found, directions⟩ :=
      resolved module (reached.mem topMember) inner (List.mem_of_getElem? here)
    have occurs : design.Occurs top ⟨place :: path, inner, callee⟩ :=
      ⟨place, path, module, rfl, reached, here, found⟩
    have copies : ∀ gate ∈ portCopies design.domain inner.outputs (route path) inner.pairings,
        gate.Holds meaning flat := by
      intro gate isCopy
      apply gates
      exact (mem_routedGates_iff unfolds isRouting).2 (Or.inr ⟨_, occurs, isCopy⟩)
    exact eq_of_pairing isRouting bindsOnce topMember occurs directions copies pairingMember

/-- Wherever the hierarchy holds, so do the gates of the flat circuit, with the same
values at the top. -/
theorem exists_flat_of_holdsBelow (numbered : design.IsNumbered) {name : String}
    {circuit : Circuit} (found : design.find? name = some top)
    (flattened : (design.flattenModule name).result = .ok circuit)
    {values : InstancePath → Valuation α} (holds : design.HoldsBelow meaning top values) :
    ∃ flat, (∀ wire ∈ top.ownWires, flat wire = values [] wire) ∧
      design.domain.Fixes meaning flat ∧ ∀ gate ∈ circuit.gates, gate.Holds meaning flat := by
  obtain ⟨route, unfolds, isRouting, rfl⟩ := exists_routing found flattened
  have topMember := mem_of_find? found
  refine ⟨flatValuation design top route values, ?_, ?_, fun gate member =>
    flatValuation_holds isRouting topMember numbered unfolds holds member⟩
  · intro wire own
    exact flatValuation_of_lt (numbered.lt_of_mem_ownWires topMember own)
  · exact (holds [] top At.top).1.congr fun wire constant =>
      flatValuation_of_lt (Allocator.lt_next_of_constant constant)

/-- An assignment to the wires of the top extends to a valuation in which all gates of
the flat circuit hold exactly if it extends to one of the whole hierarchy. -/
theorem exists_flat_iff_exists_hierarchical (resolved : design.IsResolved)
    (numbered : design.IsNumbered) (bindsOnce : design.BindsOnce) {name : String}
    {circuit : Circuit} (found : design.find? name = some top)
    (flattened : (design.flattenModule name).result = .ok circuit)
    (meaning : Interpretation α) (assignment : Valuation α) :
    (∃ flat, (∀ wire ∈ top.ownWires, flat wire = assignment wire) ∧
        design.domain.Fixes meaning flat ∧ ∀ gate ∈ circuit.gates, gate.Holds meaning flat) ↔
      ∃ values, (∀ wire ∈ top.ownWires, values [] wire = assignment wire) ∧
        design.HoldsBelow meaning top values := by
  constructor
  · rintro ⟨flat, extending, fixes, gates⟩
    obtain ⟨route, unfolds, isRouting, rfl⟩ := exists_routing found flattened
    have topMember := mem_of_find? found
    refine ⟨fun path => flat ∘ route path, ?_,
      holdsBelow_of_flat isRouting resolved bindsOnce topMember unfolds fixes gates⟩
    intro wire own
    dsimp only [Function.comp_apply]
    rw [isRouting.top_wire]
    exact extending wire own
  · rintro ⟨values, extending, holds⟩
    obtain ⟨flat, same, fixes, gates⟩ := exists_flat_of_holdsBelow numbered found flattened holds
    exact ⟨flat, fun wire own => (same wire own).trans (extending wire own), fixes, gates⟩

/-- A module around an instance of the next one. -/
def doubleInverterTop : Module :=
  ⟨"top", .boolean, [2], [3], [],
    [⟨"twice", [⟨2, 4⟩, ⟨3, 5⟩], [⟨2, 4⟩], [⟨3, 5⟩]⟩]⟩

/-- A design that inverts its input twice, in an instance with a wire of its own. -/
def doubleInverter : Design :=
  ⟨⟨.boolean, ["a", "y", "i", "o", "m"], by decide, by decide⟩,
    [doubleInverterTop,
      ⟨"twice", .boolean, [4], [5], [⟨.inv, [4], 6⟩, ⟨.inv, [6], 5⟩], []⟩],
    some "top", true⟩

theorem exists_flat_iff_exists_hierarchical_doubleInverter :
    doubleInverter.IsResolved ∧ doubleInverter.IsNumbered ∧ doubleInverter.BindsOnce ∧
      ((∃ flat, (∀ wire ∈ doubleInverterTop.ownWires, flat wire = decide (wire ≠ falseWire)) ∧
          doubleInverter.domain.Fixes .boolean flat ∧
          ∀ gate ∈ ([⟨.inv, [2], 7⟩, ⟨.inv, [7], 3⟩] : List Gate), gate.Holds .boolean flat) ↔
        ∃ values, (∀ wire ∈ doubleInverterTop.ownWires,
            values [] wire = decide (wire ≠ falseWire)) ∧
          doubleInverter.HoldsBelow .boolean doubleInverterTop values) := by
  have resolved : doubleInverter.IsResolved := by decide
  have numbered : doubleInverter.IsNumbered := by decide
  have bindsOnce : doubleInverter.BindsOnce := by decide
  have flattened : (doubleInverter.flattenModule "top").result =
      .ok ⟨"top", .boolean, [2], [3], [⟨.inv, [2], 7⟩, ⟨.inv, [7], 3⟩]⟩ := by cbv
  exact ⟨resolved, numbered, bindsOnce,
    exists_flat_iff_exists_hierarchical resolved numbered bindsOnce rfl flattened _ _⟩

end Design

end Netlist
