import Mathlib.Order.Basic
import Netlist.Proofs.AlikeDesigns
import Netlist.Proofs.Routing

/-!
# Flattening in lockstep

Alike designs are flattened in lockstep. The flat wires that are in use on both sides are
related one to one (`Numbering.Alike`); whenever one side takes a fresh flat wire, so does
the other, and these two are related from then on. So the relation of flat wires only ever
grows, and the gates that come out are alike under the last one
(`Design.Alike.exists_flatten`).
-/

namespace Netlist

open List (Forall₂)

/-- The first wires are related, and so are the second ones. -/
def BoundAlike (relation flat : Wire → Wire → Prop) (binding image : Wire × Wire) : Prop :=
  relation binding.1 image.1 ∧ flat binding.2 image.2

/-- The scopes know flat wires of related wires, and these are related as well. -/
inductive Scope.Alike (relation flat : Wire → Wire → Prop) : Scope → Scope → Prop where
  | top : relation ≤ flat → Alike relation flat .top .top
  | inner {bindings images : List (Wire × Wire)} :
    Forall₂ (BoundAlike relation flat) bindings images →
      Alike relation flat (.inner bindings) (.inner images)

/-- The flat wires in use are related one to one, and the scopes are alike. -/
structure Numbering.Alike (domain : Domain) (relation flat : Wire → Wire → Prop)
    (numbering image : Numbering) : Prop where
  matching : domain.Matching flat
  below : ∀ wire copy, flat wire copy → wire < numbering.next ∧ copy < image.next
  scope : Scope.Alike relation flat numbering.scope image.scope

/-- The callers, the bindings and the copies are alike. -/
structure Binding.Alike (domain : Domain) (relation callees flat : Wire → Wire → Prop)
    (binding image : Binding) : Prop where
  caller : binding.caller.Alike domain relation flat image.caller
  bindings : Forall₂ (BoundAlike callees flat) binding.bindings image.bindings
  copies : Forall₂ (Gate.Alike flat) binding.copies image.copies

variable {domain : Domain} {relation flat later : Wire → Wire → Prop}

theorem forall₂_boundAlike_mono {bindings images : List (Wire × Wire)}
    (alike : Forall₂ (BoundAlike relation flat) bindings images) (grows : flat ≤ later) :
    Forall₂ (BoundAlike relation later) bindings images :=
  alike.imp fun _ _ bound => ⟨bound.1, grows _ _ bound.2⟩

theorem Scope.Alike.mono {scope image : Scope} (alike : Scope.Alike relation flat scope image)
    (grows : flat ≤ later) : Scope.Alike relation later scope image := by
  cases alike with
  | top flatAlready => exact .top (flatAlready.trans grows)
  | inner bindings => exact .inner (forall₂_boundAlike_mono bindings grows)

/-- Related wires have related bindings, or none. -/
theorem lookup_alike {bindings images : List (Wire × Wire)}
    (alike : Forall₂ (BoundAlike relation flat) bindings images)
    (wires : domain.Matching relation) {wire copy : Wire} (related : relation wire copy) :
    Option.Rel flat (bindings.lookup wire) (images.lookup copy) := by
  induction alike with
  | nil => exact .none
  | @cons binding image _ _ head _ ih =>
    rw [show binding = (binding.1, binding.2) from rfl, show image = (image.1, image.2) from rfl,
      List.lookup_cons, List.lookup_cons]
    by_cases same : wire = binding.1
    · rw [beq_iff_eq.2 same, beq_iff_eq.2 ((wires.eq_iff related head.1).1 same)]
      exact .some head.2
    · rw [beq_false_of_ne same, beq_false_of_ne (mt (wires.eq_iff related head.1).2 same)]
      exact ih

namespace Numbering.Alike

variable {numbering image : Numbering}

/-- A fresh flat wire on each side. -/
theorem extend (alike : numbering.Alike domain relation flat image)
    (scope : Scope.Alike relation
      (fun wire copy => flat wire copy ∨ wire = numbering.next ∧ copy = image.next) first second) :
    Numbering.Alike domain relation
      (fun wire copy => flat wire copy ∨ wire = numbering.next ∧ copy = image.next)
      ⟨first, numbering.next + 1⟩ ⟨second, image.next + 1⟩ := by
  refine ⟨⟨?_, ?_, fun constant => Or.inl (alike.matching.constants constant)⟩, ?_, scope⟩
  · rintro one two copy (oldOne | ⟨rfl, rfl⟩) (oldTwo | ⟨rfl, fresh⟩)
    · exact alike.matching.left oldOne oldTwo
    · exact absurd (fresh ▸ (alike.below _ _ oldOne).2) (Nat.lt_irrefl _)
    · exact absurd (alike.below _ _ oldTwo).2 (Nat.lt_irrefl _)
    · rfl
  · rintro wire one two (oldOne | ⟨rfl, rfl⟩) (oldTwo | ⟨fresh, rfl⟩)
    · exact alike.matching.right oldOne oldTwo
    · exact absurd (fresh ▸ (alike.below _ _ oldOne).1) (Nat.lt_irrefl _)
    · exact absurd (alike.below _ _ oldTwo).1 (Nat.lt_irrefl _)
    · rfl
  · rintro wire copy (old | ⟨rfl, rfl⟩)
    · exact (alike.below _ _ old).imp Nat.lt_succ_of_lt Nat.lt_succ_of_lt
    · exact ⟨Nat.lt_succ_self _, Nat.lt_succ_self _⟩

variable (wires : domain.Matching relation)

include wires

theorem flatWire (alike : numbering.Alike domain relation flat image) {wire copy : Wire}
    (related : relation wire copy) :
    ∃ later, flat ≤ later ∧
      (numbering.flatWire domain wire).2.Alike domain relation later
        (image.flatWire domain copy).2 ∧
      later (numbering.flatWire domain wire).1 (image.flatWire domain copy).1 := by
  obtain ⟨scope, next⟩ := numbering
  obtain ⟨otherScope, otherNext⟩ := image
  cases alike.scope with
  | top flatAlready => exact ⟨flat, le_rfl, alike, flatAlready _ _ related⟩
  | @inner bindings images bound =>
    unfold Numbering.flatWire
    by_cases constant : domain.IsConstant wire
    · obtain rfl := wires.eq_of_isConstant related (Or.inl constant)
      simp only [if_pos constant]
      exact ⟨flat, le_rfl, alike, alike.matching.constants constant⟩
    · simp only [if_neg constant, if_neg (mt (wires.isConstant_iff related).2 constant)]
      have found := lookup_alike bound wires related
      cases known : bindings.lookup wire with
      | some target =>
        cases imageKnown : images.lookup copy with
        | none =>
          rw [known, imageKnown] at found
          cases found
        | some imageTarget =>
          rw [known, imageKnown] at found
          cases found with
          | some same => exact ⟨flat, le_rfl, alike, same⟩
      | none =>
        cases imageKnown : images.lookup copy with
        | some imageTarget =>
          rw [known, imageKnown] at found
          cases found
        | none =>
          refine ⟨_, fun _ _ => Or.inl,
            alike.extend (.inner (.cons ⟨related, Or.inr ⟨rfl, rfl⟩⟩ ?_)),
            Or.inr ⟨rfl, rfl⟩⟩
          exact forall₂_boundAlike_mono bound fun _ _ => Or.inl

theorem flatWires (alike : numbering.Alike domain relation flat image) {items copies : List Wire}
    (related : Forall₂ relation items copies) :
    ∃ later, flat ≤ later ∧
      (numbering.flatWires domain items).2.Alike domain relation later
        (image.flatWires domain copies).2 ∧
      Forall₂ later (numbering.flatWires domain items).1 (image.flatWires domain copies).1 := by
  induction related generalizing numbering image flat with
  | nil => exact ⟨flat, le_rfl, alike, .nil⟩
  | cons head _ ih =>
    obtain ⟨middle, grows, middleAlike, same⟩ := alike.flatWire wires head
    obtain ⟨later, growsOn, lastAlike, others⟩ := ih middleAlike
    exact ⟨later, grows.trans growsOn, lastAlike, .cons (growsOn _ _ same) others⟩

theorem flatGate (alike : numbering.Alike domain relation flat image) {gate copy : Gate}
    (related : gate.Alike relation copy) :
    ∃ later, flat ≤ later ∧
      (numbering.flatGate domain gate).2.Alike domain relation later
        (image.flatGate domain copy).2 ∧
      (numbering.flatGate domain gate).1.Alike later (image.flatGate domain copy).1 := by
  obtain ⟨middle, grows, middleAlike, inputs⟩ := alike.flatWires wires related.inputs
  obtain ⟨later, growsOn, lastAlike, output⟩ := middleAlike.flatWire wires related.output
  exact ⟨later, grows.trans growsOn, lastAlike, related.operator, inputs.imp growsOn, output⟩

theorem flatGates (alike : numbering.Alike domain relation flat image) {gates copies : List Gate}
    (related : Forall₂ (Gate.Alike relation) gates copies) :
    ∃ later, flat ≤ later ∧
      (numbering.flatGates domain gates).2.Alike domain relation later
        (image.flatGates domain copies).2 ∧
      Forall₂ (Gate.Alike later) (numbering.flatGates domain gates).1
        (image.flatGates domain copies).1 := by
  induction related generalizing numbering image flat with
  | nil => exact ⟨flat, le_rfl, alike, .nil⟩
  | cons head _ ih =>
    obtain ⟨middle, grows, middleAlike, same⟩ := alike.flatGate wires head
    obtain ⟨later, growsOn, lastAlike, others⟩ := ih middleAlike
    exact ⟨later, grows.trans growsOn, lastAlike, .cons (same.mono growsOn) others⟩

/-- Pairings that are alike bind the ports of alike callees alike. -/
theorem bindPairings {callees : Wire → Wire → Prop} (ports : domain.Matching callees)
    (alike : numbering.Alike domain relation flat image)
    {outputs imageOutputs pairings copies : List Pairing}
    (outputsAlike : Forall₂ (Pairing.Alike relation callees) outputs imageOutputs)
    (related : Forall₂ (Pairing.Alike relation callees) pairings copies)
    {bindings images : List (Wire × Wire)}
    (bound : Forall₂ (BoundAlike callees flat) bindings images) :
    ∃ later, flat ≤ later ∧
      (bindPairings domain outputs bindings numbering pairings).Alike domain relation callees later
        (bindPairings domain imageOutputs images image copies) := by
  induction related generalizing numbering image flat bindings images with
  | nil => exact ⟨flat, le_rfl, alike, bound, .nil⟩
  | @cons pairing copy _ _ head _ ih =>
    obtain ⟨middle, grows, middleAlike, same⟩ := alike.flatWire wires head.caller
    have boundOn := forall₂_boundAlike_mono bound grows
    simp only [Netlist.bindPairings]
    by_cases constant : domain.IsConstant pairing.callee
    · -- A constant port is not bound. Both sides copy its value, or neither does.
      have port := ports.eq_of_isConstant head.callee (Or.inl constant)
      have imageConstant : domain.IsConstant copy.callee := port ▸ constant
      have isOutput : pairing ∈ outputs ↔ copy ∈ imageOutputs :=
        List.rel_mem (Pairing.biUnique_alike wires.biUnique ports.biUnique) head outputsAlike
      have fixed := middleAlike.matching.constants constant
      have moved := not_congr (middleAlike.matching.eq_iff same fixed)
      obtain ⟨later, growsOn, lastAlike, lastBound, copiesAlike⟩ := ih middleAlike boundOn
      rw [if_pos constant, if_pos imageConstant, ← port]
      refine ⟨later, grows.trans growsOn, ?_⟩
      by_cases copied : pairing ∈ outputs ∧
          (numbering.flatWire domain pairing.caller).1 ≠ pairing.callee
      · rw [if_pos copied, if_pos (And.imp isOutput.1 moved.1 copied)]
        have source := Forall₂.cons (growsOn _ _ fixed) Forall₂.nil
        exact ⟨lastAlike, lastBound, .cons ⟨rfl, source, growsOn _ _ same⟩ copiesAlike⟩
      · rw [if_neg copied, if_neg (mt (And.imp isOutput.2 moved.2) copied)]
        exact ⟨lastAlike, lastBound, copiesAlike⟩
    · have imageInconstant := mt (ports.isConstant_iff head.callee).2 constant
      rw [if_neg constant, if_neg imageInconstant]
      have newest : BoundAlike callees middle (pairing.callee, _) (copy.callee, _) :=
        ⟨head.callee, same⟩
      obtain ⟨later, growsOn, result⟩ := ih middleAlike (.cons newest boundOn)
      exact ⟨later, grows.trans growsOn, result⟩

end Numbering.Alike

/-! ### Designs -/

/-- The circuits have alike ports and gates, in order. -/
structure Circuit.Alike (relation : Wire → Wire → Prop) (circuit image : Circuit) : Prop where
  domain : circuit.domain = image.domain
  inputs : Forall₂ relation circuit.inputs image.inputs
  outputs : Forall₂ relation circuit.outputs image.outputs
  gates : Forall₂ (Gate.Alike relation) circuit.gates image.gates

/-- Each wire of a circuit is related to a wire of an alike one. -/
theorem Circuit.Alike.exists_of_mem_wires {circuit image : Circuit}
    (alike : circuit.Alike flat image) {wire : Wire} (member : wire ∈ circuit.wires) :
    ∃ copy, flat wire copy := by
  have wires := List.rel_append (List.rel_append alike.inputs alike.outputs)
    (List.rel_flatMap alike.gates fun _ _ gate =>
      List.rel_append gate.inputs (.cons gate.output .nil))
  obtain ⟨copy, _, related⟩ := exists_of_mem_right wires.flip (Wire.mem_ascending_iff.1 member)
  exact ⟨copy, related⟩

namespace Design

/-- Flattening the top hands out numbers below the limit, and so is the first one that it leaves
unused. -/
def NumbersBelow (design : Design) (limit : Nat) : Prop :=
  ∀ top expansion, design.topModule = .ok top →
    (design.expand [top.name] ⟨.top, design.allocator.next⟩ top.instances).result =
      .ok expansion →
    expansion.caller.next < limit

theorem topModule_eq_ok_iff {design : Design} {top : Module} :
    design.topModule = .ok top ↔ design.find? (design.top.getD "") = some top := by
  unfold topModule findTop
  cases design.find? (design.top.getD "") with
  | none => exact iff_of_false (by rintro ⟨⟩) (by rintro ⟨⟩)
  | some module => rw [Except.ok.injEq, Option.some.injEq]

/-- Flattening succeeds if the instances of the top can be expanded. -/
theorem flatten_eq_ok_of_expand {design : Design} {top : Module}
    (isTop : design.topModule = .ok top) {expansion : Expansion}
    (expanded : (design.expand [top.name] ⟨.top, design.allocator.next⟩ top.instances).result =
      .ok expansion) :
    design.flatten.result =
      .ok ⟨top.name, top.domain, top.inputs, top.outputs, top.gates ++ expansion.gates⟩ := by
  have found := topModule_eq_ok_iff.1 isTop
  rw [← name_of_find? found] at found
  rw [flatten, isTop]
  exact flattenModule_eq_ok_of_expand found expanded

namespace Alike

variable {relation : String → Wire → Wire → Prop} {first second : Design}

variable {flat : Wire → Wire → Prop}

/-- Instances that are alike expand to gates that are alike. The induction follows the
instances as they are entered: the gates of a callee, what is below it, what is behind. -/
theorem exists_expand (alike : first.Alike relation second) {active : List String}
    {instances : List Instance} (unfolds : first.Unfolds active instances) {name : String}
    {caller imageCaller : Numbering} {copies : List Instance}
    (callers : caller.Alike first.domain (relation name) flat imageCaller)
    (instancesAlike : Forall₂ (Instance.Alike relation name) instances copies)
    {expansion : Expansion}
    (expanded : (first.expand active caller instances).result = .ok expansion) :
    ∃ image later, (second.expand active imageCaller copies).result = .ok image ∧ flat ≤ later ∧
      expansion.caller.Alike first.domain (relation name) later image.caller ∧
      Forall₂ (Gate.Alike later) expansion.gates image.gates := by
  induction unfolds generalizing name caller imageCaller copies flat expansion with
  | nil =>
    cases instancesAlike
    rw [expand] at expanded
    cases expanded
    exact ⟨⟨[], imageCaller⟩, flat, by rw [expand]; rfl, le_rfl, callers, .nil⟩
  | @cons _ inner callee _ found inactive _ _ below behind =>
    cases instancesAlike with
    | @cons _ copy _ _ head rest =>
      obtain ⟨other, nested, others, binding, translated, calleeFound, _, rfl, rfl, nestedOk,
        othersOk, rfl⟩ := expand_cons_eq_ok expanded
      rw [found] at calleeFound
      cases calleeFound
      obtain ⟨image, imageFound, same⟩ := alike.exists_image found
      rw [head.callee] at imageFound
      have named := name_of_find? found
      obtain ⟨bound, grows, bindingAlike⟩ := callers.bindPairings (alike.matching name)
        (alike.matching inner.callee) head.outputs head.pairings .nil
      have entered : Numbering.Alike first.domain (relation inner.callee) bound
          ⟨.inner _, _⟩ ⟨.inner _, _⟩ :=
        ⟨bindingAlike.caller.matching, bindingAlike.caller.below, .inner bindingAlike.bindings⟩
      rw [← named] at entered
      obtain ⟨written, growsOn, translatedAlike, gatesAlike⟩ :=
        entered.flatGates (alike.matching callee.name) same.gates
      obtain ⟨imageNested, nestedFlat, imageNestedOk, growsNested, nestedAlike, nestedGates⟩ :=
        below translatedAlike same.instances nestedOk
      have left : Numbering.Alike first.domain (relation name) nestedFlat
          ⟨(bindPairings first.domain inner.outputs [] caller inner.pairings).caller.scope,
            nested.caller.next⟩
          ⟨(bindPairings first.domain copy.outputs [] imageCaller copy.pairings).caller.scope,
            imageNested.caller.next⟩ :=
        ⟨nestedAlike.matching, nestedAlike.below,
          bindingAlike.caller.scope.mono (growsOn.trans growsNested)⟩
      obtain ⟨imageOthers, last, imageOthersOk, growsLast, othersAlike, othersGates⟩ :=
        behind left rest othersOk
      have copiesLast := bindingAlike.copies.imp fun _ _ gate =>
        gate.mono (growsOn.trans (growsNested.trans growsLast))
      have gatesLast := gatesAlike.imp fun _ _ gate => gate.mono (growsNested.trans growsLast)
      have nestedLast := nestedGates.imp fun _ _ gate => gate.mono growsLast
      rw [same.name] at inactive imageNestedOk
      rw [alike.domain] at imageNestedOk imageOthersOk
      refine ⟨_, last, expand_cons_eq_ok_of_find? imageFound inactive rfl rfl imageNestedOk
        imageOthersOk, ?_, othersAlike, ?_⟩
      · exact grows.trans (growsOn.trans (growsNested.trans growsLast))
      · rw [← alike.domain]
        exact List.rel_append (List.rel_append (List.rel_append copiesLast gatesLast) nestedLast)
          othersGates

/-- If the first design can be flattened, so can the second one, and the circuits are alike.
Their wires have been numbered by then, which bounds them. -/
theorem exists_flatten (alike : first.Alike relation second) {circuit : Circuit}
    (flattened : first.flatten.result = .ok circuit) :
    ∃ image flat, second.flatten.result = .ok image ∧ first.domain.Matching flat ∧
      circuit.Alike flat image ∧
      ∀ limit, first.NumbersBelow limit → second.NumbersBelow limit →
        ∀ wire copy, flat wire copy → wire + 1 < limit ∧ copy + 1 < limit := by
  cases isTop : first.topModule with
  | error error =>
    unfold flatten at flattened
    rw [isTop] at flattened
    cases flattened
  | ok top =>
    obtain ⟨found, topFlattened⟩ := flatten_eq_ok isTop flattened
    obtain ⟨expansion, expanded, rfl⟩ := flattenModule_eq_ok found topFlattened
    obtain ⟨image, imageFound, same⟩ := alike.exists_image (topModule_eq_ok_iff.1 isTop)
    rw [alike.top] at imageFound
    have start : Numbering.Alike first.domain (relation top.name) (relation top.name)
        ⟨.top, first.allocator.next⟩ ⟨.top, second.allocator.next⟩ :=
      ⟨alike.matching _, alike.below _, .top le_rfl⟩
    obtain ⟨imageExpansion, flat, imageExpanded, grows, callers, gates⟩ :=
      alike.exists_expand (unfolds_of_expand expanded) start same.instances expanded
    rw [same.name] at imageExpanded
    have imageTop := topModule_eq_ok_iff.2 imageFound
    have circuitGates := List.rel_append (same.gates.imp fun _ _ gate => gate.mono grows) gates
    refine ⟨_, flat, flatten_eq_ok_of_expand imageTop imageExpanded, callers.matching,
      ⟨same.domain, same.inputs.imp grows, same.outputs.imp grows, circuitGates⟩, ?_⟩
    intro limit below imageBelow wire copy related
    obtain ⟨inUse, imageInUse⟩ := callers.below wire copy related
    exact ⟨Nat.lt_of_le_of_lt inUse (below top expansion isTop expanded),
      Nat.lt_of_le_of_lt imageInUse (imageBelow _ imageExpansion imageTop imageExpanded)⟩

end Alike

end Design

end Netlist
