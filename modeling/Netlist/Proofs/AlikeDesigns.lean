import Netlist.Proofs.Likeness
import Netlist.Proofs.Resolvability

/-!
# Alike designs

Designs are alike if their modules are, in order, with a relation of wires for each name of
a module (`Design.Alike`). The directions of instances follow from ports and constants, so
alike designs can both be resolved or neither can (`Design.Alike.isResolvable`), and they
are alike afterwards, with directions (`Design.Alike.of_resolved?`).
-/

namespace Netlist

open List (Forall₂)

theorem exists_of_rel_some {α β : Type} {relation : α → β → Prop} {value : α} {other : Option β}
    (related : Option.Rel relation (some value) other) :
    ∃ image, other = some image ∧ relation value image := by
  cases related with
  | some same => exact ⟨_, rfl, same⟩

/-- Lists whose items are related stay so through steps that keep related items related. -/
theorem forall₂_step {α β γ δ : Type} {before : α → β → Prop} {step : α → γ → Prop}
    {imageStep : β → δ → Prop} {after : γ → δ → Prop} {items : List α} {images : List β}
    (related : Forall₂ before items images) {results : List γ} {imageResults : List δ}
    (steps : Forall₂ step items results) (imageSteps : Forall₂ imageStep images imageResults)
    (keeps : ∀ item image result imageResult, before item image → step item result →
      imageStep image imageResult → after result imageResult) :
    Forall₂ after results imageResults := by
  induction related generalizing results imageResults with
  | nil =>
    cases steps
    cases imageSteps
    exact .nil
  | cons head _ ih =>
    cases steps with
    | cons first rest =>
      cases imageSteps with
      | cons imageFirst imageRest =>
        exact .cons (keeps _ _ _ _ head first imageFirst) (ih rest imageRest)

/-- The first items of related lists for which related conditions hold are related. -/
theorem find?_alike {α β : Type} {relation : α → β → Prop} {items : List α} {images : List β}
    (alike : Forall₂ relation items images) {first : α → Bool} {second : β → Bool}
    (same : ∀ item image, relation item image → first item = second image) :
    Option.Rel relation (items.find? first) (images.find? second) := by
  induction alike with
  | nil => exact .none
  | cons head _ ih =>
    rw [List.find?_cons, List.find?_cons, same _ _ head]
    split
    · exact .some head
    · exact ih

namespace Design

/-- The designs have one top, and modules that are alike, in order. Each name of a module
has a relation of its wires, which are all numbered. -/
structure Alike (relation : String → Wire → Wire → Prop) (first second : Design) : Prop where
  domain : first.domain = second.domain
  matching : ∀ name, first.domain.Matching (relation name)
  below : ∀ name wire image, relation name wire image →
    wire < first.allocator.next ∧ image < second.allocator.next
  modules : Forall₂ (Module.Alike relation) first.modules second.modules
  top : first.top = second.top

namespace Alike

variable {relation : String → Wire → Wire → Prop} {first second : Design}

theorem flip (alike : first.Alike relation second) :
    second.Alike (fun name wire copy => relation name copy wire) first :=
  ⟨alike.domain.symm, fun name => alike.domain ▸ (alike.matching name).flip,
    fun name wire image related => (alike.below name image wire related).symm,
    alike.modules.flip.imp fun _ _ same => same.flip, alike.top.symm⟩

/-- Names lead to modules that are alike, or to none. -/
theorem find? (alike : first.Alike relation second) (name : String) :
    Option.Rel (Module.Alike relation) (first.find? name) (second.find? name) :=
  find?_alike alike.modules fun _ _ same => by rw [same.name]

theorem exists_image (alike : first.Alike relation second) {name : String} {module : Module}
    (found : first.find? name = some module) :
    ∃ image, second.find? name = some image ∧ module.Alike relation image := by
  have related := alike.find? name
  rw [found] at related
  exact exists_of_rel_some related

/-! ### Directions -/

/-- Alike callees admit pairings that are alike. -/
theorem admits (alike : first.Alike relation second) {caller name : String}
    {callee image : Module} (inputs : Forall₂ (relation name) callee.inputs image.inputs)
    (outputs : Forall₂ (relation name) callee.outputs image.outputs) {pairing copy : Pairing}
    (same : pairing.Alike (relation caller) (relation name) copy)
    (admits : callee.Admits first.domain pairing) : image.Admits second.domain copy := by
  have ports := alike.matching name
  have wires := alike.matching caller
  have isInput := ports.mem_iff inputs same.callee
  have isOutput := ports.mem_iff outputs same.callee
  rw [← alike.domain]
  constructor
  · exact admits.isPort.imp isInput.1 isOutput.1
  · intro constant
    have unmoved := ports.eq_of_isConstant same.callee (Or.inr constant)
    rw [← ports.isConstant_iff same.callee] at constant
    refine (admits.constantPort constant).imp ?_ ?_
    · intro equal
      rw [← unmoved, ← equal]
      exact (wires.eq_of_isConstant same.caller (Or.inl (equal ▸ constant))).symm
    · exact And.imp (mt isInput.2) (mt (wires.isConstant_iff same.caller).2)

/-- If the first design can be resolved, so can the second one. -/
theorem isResolvable (alike : first.Alike relation second) (resolvable : first.IsResolvable) :
    second.IsResolvable := by
  intro image isImage copy isCopy
  obtain ⟨module, isModule, same⟩ := exists_of_mem_right alike.modules isImage
  obtain ⟨inner, isInner, matched⟩ := exists_of_mem_right same.instances isCopy
  obtain ⟨callee, found, admits⟩ := resolvable module isModule inner isInner
  obtain ⟨calleeImage, imageFound, calleeSame⟩ := alike.exists_image found
  rw [matched.callee] at imageFound
  refine ⟨calleeImage, imageFound, fun pairing isPairing => ?_⟩
  obtain ⟨original, isOriginal, pairingSame⟩ := exists_of_mem_right matched.pairings isPairing
  rw [← name_of_find? found] at pairingSame
  exact alike.admits calleeSame.inputs calleeSame.outputs pairingSame (admits original isOriginal)

/-- Pairings that are alike are bound to ports that are alike, or to none. -/
theorem filter_callee (alike : first.Alike relation second) {caller name : String}
    {ports images : List Wire} (same : Forall₂ (relation name) ports images)
    {pairings copies : List Pairing}
    (related : Forall₂ (Pairing.Alike (relation caller) (relation name)) pairings copies) :
    Forall₂ (Pairing.Alike (relation caller) (relation name))
      (pairings.filter fun pairing => pairing.callee ∈ ports)
      (copies.filter fun pairing => pairing.callee ∈ images) := by
  refine List.rel_filter (fun pairing copy pairingSame => ?_) related
  change decide _ = true ↔ decide _ = true
  rw [decide_eq_true_iff, decide_eq_true_iff]
  exact (alike.matching name).mem_iff same pairingSame.callee

/-- Instances of alike modules are alike with directions, if they were without. -/
theorem alike_of_isResolved (alike : first.Alike relation second) {caller : String}
    {inner image : Instance} (callees : inner.callee = image.callee)
    (pairings : Forall₂ (Pairing.Alike (relation caller) (relation inner.callee)) inner.pairings
      image.pairings)
    {callee calleeImage : Module} (found : first.find? inner.callee = some callee)
    (resolved : inner.IsResolved first.domain callee)
    (imageFound : second.find? image.callee = some calleeImage)
    (imageResolved : image.IsResolved second.domain calleeImage) :
    inner.Alike relation caller image := by
  obtain ⟨other, otherFound, same⟩ := alike.exists_image found
  rw [callees, imageFound] at otherFound
  cases otherFound
  have inputs := same.inputs
  have outputs := same.outputs
  rw [name_of_find? found] at inputs outputs
  refine ⟨callees, pairings, ?_, ?_⟩
  · rw [resolved.inputs, imageResolved.inputs]
    exact alike.filter_callee inputs pairings
  · rw [resolved.outputs, imageResolved.outputs]
    exact alike.filter_callee outputs pairings

/-- Modules are alike with directions, if they were without. -/
theorem alike_of_resolvesTo (alike : first.Alike relation second) {module image : Module}
    (same : module.Alike relation image) {resolved imageResolved : Module}
    (resolves : first.ResolvesTo module resolved)
    (imageResolves : second.ResolvesTo image imageResolved) :
    resolved.Alike relation imageResolved := by
  have left := resolves.same
  have right := imageResolves.same
  have instances : Forall₂ (fun inner copy => inner.callee = copy.callee ∧
      Forall₂ (Pairing.Alike (relation module.name) (relation inner.callee)) inner.pairings
        copy.pairings) resolved.instances imageResolved.instances := by
    have before : Forall₂ (fun inner copy => inner.1 = copy.1 ∧
        Forall₂ (Pairing.Alike (relation module.name) (relation inner.1)) inner.2 copy.2)
          (module.instances.map fun inner => (inner.callee, inner.pairings))
          (image.instances.map fun inner => (inner.callee, inner.pairings)) := by
      rw [List.forall₂_map_left_iff, List.forall₂_map_right_iff]
      exact same.instances.imp fun _ _ inner => ⟨inner.callee, inner.pairings⟩
    rwa [← left.instances, ← right.instances, List.forall₂_map_left_iff,
      List.forall₂_map_right_iff] at before
  constructor
  · rw [left.name, right.name, same.name]
  · rw [left.domain, right.domain, same.domain]
  · rw [left.name, left.inputs, right.inputs]
    exact same.inputs
  · rw [left.name, left.outputs, right.outputs]
    exact same.outputs
  · rw [left.name, left.gates, right.gates]
    exact same.gates
  · rw [left.name]
    refine forall₂_imp_of_mem instances fun inner isInner copy isCopy matched => ?_
    obtain ⟨callee, found, directions⟩ := resolves.directions inner isInner
    obtain ⟨calleeImage, imageFound, imageDirections⟩ := imageResolves.directions copy isCopy
    exact alike.alike_of_isResolved matched.1 matched.2 found directions imageFound
      imageDirections

/-- The resolved designs are alike as well. -/
theorem of_resolved? (alike : first.Alike relation second) {resolved imageResolved : Design}
    (resolves : first.resolved? = .ok resolved)
    (imageResolves : second.resolved? = .ok imageResolved) :
    resolved.Alike relation imageResolved := by
  obtain ⟨allocator, top, modules⟩ := resolved?_eq_ok resolves
  obtain ⟨imageAllocator, imageTop, imageModules⟩ := resolved?_eq_ok imageResolves
  have domain : resolved.domain = first.domain := congrArg Allocator.domain allocator
  have imageDomain : imageResolved.domain = second.domain :=
    congrArg Allocator.domain imageAllocator
  constructor
  · rw [domain, imageDomain, alike.domain]
  · rw [domain]
    exact alike.matching
  · rw [allocator, imageAllocator]
    exact alike.below
  · exact forall₂_step alike.modules modules imageModules
      fun _ _ _ _ same => alike.alike_of_resolvesTo same
  · rw [top, imageTop, alike.top]

end Alike

end Design

end Netlist
