import Netlist.Proofs.Resolution
import Netlist.Proofs.Routing

/-!
# Inlining

Naive inlining keeps the wires of all instances apart by their paths, and writes down the
gates of the hierarchy depth first: those of an instance, then those of the instances
below it, then those of the instances behind it (`Design.Inlines`). Flattening, which
only keeps the scopes of active instances, yields the same gates under a routing of all
wires at all paths (`Design.exists_route_inlines`).
-/

namespace Netlist

/-- The copies that drive wires of the caller from constant output ports: one for each
output whose port is a constant other than the flat wire of the caller. -/
def Instance.constantCopies (domain : Domain) (relabel : Wire → Wire) (inner : Instance) :
    List Gate :=
  (inner.outputs.filter fun pairing => domain.IsConstant pairing.callee ∧
      relabel pairing.caller ≠ pairing.callee).map
    fun pairing => Gate.copy pairing.callee (relabel pairing.caller)

/-- With known directions, the outputs are the pairings that flattening copies. -/
theorem Instance.IsResolved.portCopies_eq {domain : Domain} {callee : Module} {inner : Instance}
    (resolved : inner.IsResolved domain callee) (relabel : Wire → Wire) :
    portCopies domain inner.outputs relabel inner.pairings =
      inner.constantCopies domain relabel := by
  have same : inner.pairings.filter (fun pairing => domain.IsConstant pairing.callee ∧
      pairing ∈ inner.outputs ∧ relabel pairing.caller ≠ pairing.callee) =
        inner.outputs.filter fun pairing => domain.IsConstant pairing.callee ∧
          relabel pairing.caller ≠ pairing.callee := by
    conv_rhs => rw [resolved.outputs, List.filter_filter]
    apply List.filter_congr
    intro pairing member
    rw [Bool.eq_iff_iff, Bool.and_eq_true, decide_eq_true_iff, decide_eq_true_iff,
      decide_eq_true_iff, resolved.mem_outputs_iff]
    constructor
    · rintro ⟨constant, ⟨_, isOutput⟩, different⟩
      exact ⟨⟨constant, different⟩, isOutput⟩
    · rintro ⟨⟨constant, different⟩, isOutput⟩
      exact ⟨constant, ⟨member, isOutput⟩, different⟩
  rw [portCopies, same, constantCopies]

namespace Design

/-- The gates of some instances of the module at a path, depth first, when all wires are
routed. The first of the instances has the given place in that module. -/
inductive Inlines (design : Design) (route : Route) :
    InstancePath → Nat → List Instance → List Gate → Prop where
  | nil {path : InstancePath} {place : Nat} : Inlines design route path place [] []
  | cons {path : InstancePath} {place : Nat} {inner : Instance} {callee : Module}
    {rest : List Instance} {nested others : List Gate} :
    design.find? inner.callee = some callee →
      Inlines design route (place :: path) 0 callee.instances nested →
      Inlines design route path (place + 1) rest others →
      Inlines design route path place (inner :: rest)
        (inner.constantCopies design.domain (route path) ++
          callee.gates.map (Gate.rename (route (place :: path))) ++ nested ++ others)

/-- The gates of all occurrences are those of the instances, depth first. -/
theorem inlines_occurrences {design : Design} {active : List String} {instances : List Instance}
    (unfolds : design.Unfolds active instances) (route : Route) {path : InstancePath} {place : Nat}
    (resolved : ∀ inner ∈ instances, ∀ callee, design.find? inner.callee = some callee →
      inner.IsResolved design.domain callee)
    (below : ∀ module ∈ design.modules, ∀ inner ∈ module.instances, ∀ callee,
      design.find? inner.callee = some callee → inner.IsResolved design.domain callee) :
    design.Inlines route path place instances
      ((design.occurrences active path place instances).flatMap
        (Occurrence.gates design.domain route)) := by
  induction unfolds generalizing path place with
  | nil =>
    rw [occurrences, List.flatMap_nil]
    exact Inlines.nil
  | cons found inactive _ _ nestedInlines othersInline =>
    have nested := @nestedInlines (place :: path) 0 (below _ (mem_of_find? found))
    have others := @othersInline path (place + 1)
      fun inner member => resolved inner (List.mem_cons_of_mem _ member)
    have whole := Inlines.cons found nested others
    rw [occurrences_cons found inactive, List.flatMap_cons, List.flatMap_append,
      ← List.append_assoc, Occurrence.gates, List.tail_cons,
      (resolved _ List.mem_cons_self _ found).portCopies_eq]
    exact whole

/-- A flat circuit has the ports of its top. Its gates are those of the top, and then the
gates of all instances below it, depth first, under a routing of their wires. -/
theorem exists_route_inlines {design : Design} (resolved : design.IsResolved) {name : String}
    {circuit : Circuit} (flattened : (design.flattenModule name).result = .ok circuit) :
    ∃ top route gates, design.find? name = some top ∧ design.IsRouting top route ∧
      design.Inlines route [] 0 top.instances gates ∧
      circuit = ⟨top.name, top.domain, top.inputs, top.outputs, top.gates ++ gates⟩ := by
  cases found : design.find? name with
  | none =>
    rw [flattenModule, findTop, found] at flattened
    cases flattened
  | some top =>
    obtain ⟨route, unfolds, isRouting, rfl⟩ := exists_routing found flattened
    have directions : ∀ module ∈ design.modules, ∀ inner ∈ module.instances, ∀ callee,
        design.find? inner.callee = some callee → inner.IsResolved design.domain callee :=
      fun module member inner innerMember callee calleeFound =>
        resolved.directions member innerMember calleeFound
    exact ⟨top, route, _, rfl, isRouting,
      inlines_occurrences unfolds route (directions top (mem_of_find? found)) directions, rfl⟩

/-- A module that uses another one twice. -/
def maskedPairTop : Module :=
  ⟨"top", .boolean, [2, 3], [4, 5], [⟨.xor, [2, 3], 4⟩],
    [⟨"mask", [⟨2, 6⟩, ⟨5, 7⟩], [⟨2, 6⟩], [⟨5, 7⟩]⟩,
      ⟨"mask", [⟨3, 6⟩, ⟨8, 7⟩], [⟨3, 6⟩], [⟨8, 7⟩]⟩]⟩

/-- A design with two instances of a module, whose own wire comes out of an instance with
a constant output port. -/
def maskedPair : Design :=
  ⟨⟨.boolean, ["a", "b", "y", "z", "i", "o", "s", "m"], by decide, by decide⟩,
    [maskedPairTop,
      ⟨"mask", .boolean, [6], [7], [⟨.and, [6, 9], 7⟩], [⟨"one", [⟨9, 1⟩], [], [⟨9, 1⟩]⟩]⟩,
      ⟨"one", .boolean, [], [1], [], []⟩],
    some "top", true⟩

/-- Both instances of the mask get a wire of their own, and a copy of the constant. -/
theorem exists_route_inlines_maskedPair :
    maskedPair.IsResolved ∧
      (maskedPair.flattenModule "top").result = .ok ⟨"top", .boolean, [2, 3], [4, 5],
        [⟨.xor, [2, 3], 4⟩, ⟨.and, [2, 10], 5⟩, ⟨.buf, [1], 10⟩, ⟨.and, [3, 11], 8⟩,
          ⟨.buf, [1], 11⟩]⟩ ∧
      ∃ top route gates, maskedPair.find? "top" = some top ∧ maskedPair.IsRouting top route ∧
        maskedPair.Inlines route [] 0 top.instances gates ∧
        (⟨"top", .boolean, [2, 3], [4, 5], [⟨.xor, [2, 3], 4⟩, ⟨.and, [2, 10], 5⟩,
          ⟨.buf, [1], 10⟩, ⟨.and, [3, 11], 8⟩, ⟨.buf, [1], 11⟩]⟩ : Circuit) =
            ⟨top.name, top.domain, top.inputs, top.outputs, top.gates ++ gates⟩ := by
  have resolved : maskedPair.IsResolved := by decide
  have flattened : (maskedPair.flattenModule "top").result = .ok ⟨"top", .boolean, [2, 3],
      [4, 5], [⟨.xor, [2, 3], 4⟩, ⟨.and, [2, 10], 5⟩, ⟨.buf, [1], 10⟩, ⟨.and, [3, 11], 8⟩,
        ⟨.buf, [1], 11⟩]⟩ := by
    have one {active : List String} {caller : Numbering} (inactive : "one" ∉ active) :
        (maskedPair.expand active caller [⟨"one", [⟨9, 1⟩], [], [⟨9, 1⟩]⟩]).result = .ok _ :=
      expand_cons_eq_ok_of_find? rfl inactive rfl rfl (result_expand_nil ..)
        (result_expand_nil ..)
    have second {caller : Numbering} :
        (maskedPair.expand ["top"] caller maskedPairTop.instances.tail).result = .ok _ :=
      expand_cons_eq_ok_of_find? rfl (by decide) rfl rfl (one (by decide)) (result_expand_nil ..)
    have both : (maskedPair.expand ["top"] ⟨.top, 10⟩ maskedPairTop.instances).result = .ok _ :=
      expand_cons_eq_ok_of_find? rfl (by decide) rfl rfl (one (by decide)) second
    exact (flattenModule_eq_ok_of_expand rfl both).trans rfl
  exact ⟨resolved, flattened, exists_route_inlines resolved flattened⟩

end Design

end Netlist
