import Netlist.Proofs.Translation

/-!
# Resolvability

Whether the instances of a design can be resolved depends on ports and constants alone
(`Design.exists_resolved?_iff`). So designs with corresponding modules can both be
resolved or neither can (`Design.Corresponds.isResolvable`), and their modules correspond
afterwards, with directions (`Design.Corresponds.of_resolved?`).
-/

namespace Netlist

/-- The pairing binds a port of the callee, and one that is a constant there as it may. -/
structure Module.Admits (domain : Domain) (callee : Module) (pairing : Pairing) : Prop where
  isPort : pairing.callee ∈ callee.inputs ∨ pairing.callee ∈ callee.outputs
  constantPort : domain.IsConstant pairing.callee → pairing.caller = pairing.callee ∨
    pairing.callee ∉ callee.inputs ∧ ¬ domain.IsConstant pairing.caller

/-! ### When steps succeed -/

theorem exists_bind_iff {α β : Type} {first : Except Error α} {next : α → Except Error β} :
    (∃ result, (first >>= next) = .ok result) ↔
      ∃ value, first = .ok value ∧ ∃ result, next value = .ok result := by
  cases first with
  | error error => exact iff_of_false (by rintro ⟨_, ⟨⟩⟩) (by rintro ⟨_, ⟨⟩, _⟩)
  | ok value =>
    constructor
    · exact fun succeeded => ⟨value, rfl, succeeded⟩
    · rintro ⟨_, ⟨⟩, succeeded⟩
      exact succeeded

theorem exists_pure_iff {α : Type} {value : α} :
    (∃ result, (pure value : Except Error α) = .ok result) ↔ True :=
  iff_true_intro ⟨value, rfl⟩

/-- All items of a list succeed together if each of them does. -/
theorem exists_mapM_iff {α β : Type} {step : α → Except Error β} {items : List α} :
    (∃ results, items.mapM step = .ok results) ↔
      ∀ item ∈ items, ∃ result, step item = .ok result := by
  induction items with
  | nil => exact iff_of_true ⟨[], rfl⟩ (List.forall_mem_nil _)
  | cons item rest ih =>
    rw [List.forall_mem_cons, ← ih, List.mapM_cons]
    simp only [exists_bind_iff, exists_pure_iff, and_true, exists_and_right]

theorem forall₂_imp_of_mem {α β : Type} {relation stronger : α → β → Prop} {items : List α}
    {results : List β} (related : List.Forall₂ relation items results)
    (implies : ∀ item ∈ items, ∀ result ∈ results, relation item result → stronger item result) :
    List.Forall₂ stronger items results := by
  induction related with
  | nil => exact .nil
  | cons head _ ih =>
    refine .cons (implies _ List.mem_cons_self _ List.mem_cons_self head) (ih ?_)
    intro item isItem result isResult
    exact implies item (List.mem_cons_of_mem _ isItem) result (List.mem_cons_of_mem _ isResult)

/-- Pairings that correspond are bound to corresponding ports, or to none. -/
theorem Allocator.forall₂_filter_callee {first second : Allocator} {ports images : List Wire}
    (same : List.Forall₂ (first.Matches second) ports images) {pairings copies : List Pairing}
    (matched : List.Forall₂ (first.MatchesPairing second) pairings copies) :
    List.Forall₂ (first.MatchesPairing second)
      (pairings.filter fun pairing => pairing.callee ∈ ports)
      (copies.filter fun pairing => pairing.callee ∈ images) := by
  refine List.rel_filter (fun pairing copy alike => ?_) matched
  change decide _ = true ↔ decide _ = true
  rw [decide_eq_true_iff, decide_eq_true_iff]
  exact Matches.mem_iff same alike.callee

namespace Design

variable {design : Design}

theorem exists_direction_iff {module callee : Module} {pairing : Pairing} :
    (∃ direction, design.direction module callee pairing = .ok direction) ↔
      callee.Admits design.domain pairing := by
  constructor
  · rintro ⟨direction, directed⟩
    obtain ⟨_, _, isPort, constantPort⟩ := direction_eq_ok directed
    exact ⟨isPort, constantPort⟩
  · rintro ⟨isPort, constantPort⟩
    have noMismatch : ¬ ((!decide (pairing.callee ∈ callee.inputs) &&
        !decide (pairing.callee ∈ callee.outputs)) = true) := by
      rw [Bool.and_eq_true, Bool.not_eq_true', Bool.not_eq_true', decide_eq_false_iff_not,
        decide_eq_false_iff_not, not_and_or, not_not, not_not]
      exact isPort
    have noConflict : ¬ (design.domain.IsConstant pairing.callee ∧
        pairing.caller ≠ pairing.callee ∧ (decide (pairing.callee ∈ callee.inputs) = true ∨
          design.domain.IsConstant pairing.caller)) := by
      rintro ⟨constant, different, forbidden⟩
      obtain ⟨noInput, inconstant⟩ := (constantPort constant).resolve_left different
      exact forbidden.elim (fun isInput => noInput (of_decide_eq_true isInput)) inconstant
    exact ⟨_, (if_neg noMismatch).trans (if_neg noConflict)⟩

theorem exists_splitPairings_iff {module callee : Module} {pairings : List Pairing} :
    (∃ parts, design.splitPairings module callee pairings = .ok parts) ↔
      ∀ pairing ∈ pairings, callee.Admits design.domain pairing := by
  induction pairings with
  | nil => exact iff_of_true ⟨_, rfl⟩ (List.forall_mem_nil _)
  | cons pairing rest ih =>
    rw [List.forall_mem_cons, ← ih, ← @exists_direction_iff design module, splitPairings]
    simp only [exists_bind_iff, exists_pure_iff, and_true, exists_and_right]

/-- The instance has a callee, which admits all of its pairings. -/
def IsResolvableInstance (design : Design) (inner : Instance) : Prop :=
  ∃ callee, design.find? inner.callee = some callee ∧
    ∀ pairing ∈ inner.pairings, callee.Admits design.domain pairing

/-- All instances of all modules can be resolved. -/
def IsResolvable (design : Design) : Prop :=
  ∀ module ∈ design.modules, ∀ inner ∈ module.instances, design.IsResolvableInstance inner

theorem exists_resolveInstance_iff {module : Module} {inner : Instance} :
    (∃ resolved, design.resolveInstance module inner = .ok resolved) ↔
      design.IsResolvableInstance inner := by
  unfold resolveInstance IsResolvableInstance
  cases design.find? inner.callee with
  | none => simp
  | some callee =>
    simp only [exists_bind_iff, exists_pure_iff, and_true, exists_splitPairings_iff]
    simp

theorem exists_resolveModule_iff {module : Module} :
    (∃ resolved, design.resolveModule module = .ok resolved) ↔
      ∀ inner ∈ module.instances, design.IsResolvableInstance inner := by
  simp only [resolveModule, exists_bind_iff, exists_pure_iff, and_true, exists_mapM_iff,
    exists_resolveInstance_iff]

theorem resolveModules_snd_eq_ok_iff {modules : List Module} :
    (design.resolveModules modules).2 = .ok () ↔
      ∀ module ∈ modules, ∀ inner ∈ module.instances, design.IsResolvableInstance inner := by
  induction modules with
  | nil => exact iff_of_true rfl (List.forall_mem_nil _)
  | cons module rest ih =>
    rw [List.forall_mem_cons, ← ih, ← exists_resolveModule_iff, resolveModules]
    cases design.resolveModule module with
    | error error => simp
    | ok resolved => simp

/-- A design can be resolved exactly if each of its instances can. -/
theorem exists_resolved?_iff :
    (∃ resolved, design.resolved? = .ok resolved) ↔ design.IsResolvable := by
  rw [IsResolvable, ← resolveModules_snd_eq_ok_iff, resolved?, resolve]
  rcases design.resolveModules design.modules with ⟨modules, error | _⟩
  · simp
  · simp

/-- Resolution keeps the names of the modules. -/
theorem names_of_resolvesTo {modules resolved : List Module}
    (resolves : List.Forall₂ design.ResolvesTo modules resolved) :
    resolved.map Module.name = modules.map Module.name := by
  rw [← List.forall₂_eq_eq_eq, List.forall₂_map_left_iff, List.forall₂_map_right_iff]
  exact resolves.flip.imp fun _ _ step => step.same.name

/-! ### Designs with corresponding modules -/

/-- The designs are the same but for the order of modules and the numbers of wires. The
modules of one name have the same ports, gates and instances, in the same order and with
the same directions, and instances read and drive the same wires in them. -/
structure AgreesByName (first second : Design) : Prop where
  domain : first.domain = second.domain
  top : first.top = second.top
  names : (first.modules.map Module.name).Perm (second.modules.map Module.name)
  modules : ∀ name, Option.Rel (fun module image =>
    first.allocator.MatchesModule second.allocator module image ∧
      first.allocator.MatchesSet second.allocator module.subcircuitInputs
        image.subcircuitInputs ∧
      first.allocator.MatchesSet second.allocator module.subcircuitOutputs
        image.subcircuitOutputs) (first.find? name) (second.find? name)

/-- The modules of both designs correspond, each to the one of its name. -/
structure Corresponds (first second : Design) : Prop where
  domain : first.domain = second.domain
  distinct : (first.modules.map Module.name).Nodup
  imageDistinct : (second.modules.map Module.name).Nodup
  forth : ∀ module ∈ first.modules, ∃ image ∈ second.modules,
    first.allocator.MatchesModule second.allocator module image
  back : ∀ image ∈ second.modules, ∃ module ∈ first.modules,
    first.allocator.MatchesModule second.allocator module image

/-- With distinct names, a module is found by its name. -/
theorem find?_name_of_mem (distinct : (design.modules.map Module.name).Nodup) {module : Module}
    (member : module ∈ design.modules) : design.find? module.name = some module := by
  cases found : design.find? module.name with
  | none =>
    have absent := List.find?_eq_none.1 found module member
    exact absurd (decide_eq_true rfl) absent
  | some other =>
    have same := List.inj_on_of_nodup_map distinct (mem_of_find? found) member
      (name_of_find? found)
    rw [same]

namespace Corresponds

variable {first second : Design}

/-- Names lead to modules that correspond, or to none. -/
theorem find? (corresponds : first.Corresponds second) (name : String) :
    Option.Rel (first.allocator.MatchesModule second.allocator) (first.find? name)
      (second.find? name) := by
  cases found : first.find? name with
  | some module =>
    obtain ⟨image, isImage, same⟩ := corresponds.forth module (mem_of_find? found)
    have imageFound := find?_name_of_mem corresponds.imageDistinct isImage
    rw [← same.name, name_of_find? found] at imageFound
    rw [imageFound]
    exact .some same
  | none =>
    cases imageFound : second.find? name with
    | none => exact .none
    | some image =>
      obtain ⟨module, isModule, same⟩ := corresponds.back image (mem_of_find? imageFound)
      have moduleFound := find?_name_of_mem corresponds.distinct isModule
      rw [same.name, name_of_find? imageFound, found] at moduleFound
      cases moduleFound

theorem exists_image (corresponds : first.Corresponds second) {name : String} {module : Module}
    (found : first.find? name = some module) :
    ∃ image, second.find? name = some image ∧
      first.allocator.MatchesModule second.allocator module image := by
  have related := corresponds.find? name
  rw [found] at related
  cases imageFound : second.find? name with
  | none =>
    rw [imageFound] at related
    cases related
  | some image =>
    rw [imageFound] at related
    cases related with
    | some same => exact ⟨image, rfl, same⟩

/-- Callees that correspond admit pairings that correspond. -/
theorem admits (corresponds : first.Corresponds second) {callee image : Module}
    (same : first.allocator.MatchesModule second.allocator callee image)
    {pairing copy : Pairing}
    (matched : first.allocator.MatchesPairing second.allocator pairing copy)
    (admits : callee.Admits first.domain pairing) : image.Admits second.domain copy := by
  have inputs := Allocator.Matches.mem_iff same.inputs matched.callee
  have outputs := Allocator.Matches.mem_iff same.outputs matched.callee
  have constantCallee := matched.callee.isConstant_iff corresponds.domain
  have constantCaller := matched.caller.isConstant_iff corresponds.domain
  constructor
  · exact admits.isPort.imp inputs.1 outputs.1
  · intro constant
    refine (admits.constantPort (constantCallee.2 constant)).imp ?_ ?_
    · exact (matched.caller.eq_iff matched.callee).1
    · exact And.imp (mt inputs.2) (mt constantCaller.2)

/-- If the first design can be resolved, so can the second one. -/
theorem isResolvable (corresponds : first.Corresponds second) (resolvable : first.IsResolvable) :
    second.IsResolvable := by
  intro image isImage copy isCopy
  obtain ⟨module, isModule, same⟩ := corresponds.back image isImage
  obtain ⟨inner, isInner, matched⟩ := exists_of_mem_right same.instances isCopy
  obtain ⟨callee, found, admits⟩ := resolvable module isModule inner isInner
  obtain ⟨calleeImage, imageFound, calleeSame⟩ := corresponds.exists_image found
  rw [matched.callee] at imageFound
  refine ⟨calleeImage, imageFound, fun pairing isPairing => ?_⟩
  obtain ⟨original, isOriginal, pairingMatched⟩ := exists_of_mem_right matched.pairings isPairing
  exact corresponds.admits calleeSame pairingMatched (admits original isOriginal)

/-- Instances with directions correspond if they did without. -/
theorem matchesInstance (corresponds : first.Corresponds second) {inner image : Instance}
    (callees : inner.callee = image.callee)
    (pairings : List.Forall₂ (first.allocator.MatchesPairing second.allocator) inner.pairings
      image.pairings)
    {callee calleeImage : Module} (found : first.find? inner.callee = some callee)
    (resolved : inner.IsResolved first.domain callee)
    (imageFound : second.find? image.callee = some calleeImage)
    (imageResolved : image.IsResolved second.domain calleeImage) :
    first.allocator.MatchesInstance second.allocator inner image := by
  obtain ⟨other, otherFound, same⟩ := corresponds.exists_image found
  rw [callees, imageFound] at otherFound
  cases otherFound
  refine ⟨callees, pairings, ?_, ?_⟩
  · rw [resolved.inputs, imageResolved.inputs]
    exact Allocator.forall₂_filter_callee same.inputs pairings
  · rw [resolved.outputs, imageResolved.outputs]
    exact Allocator.forall₂_filter_callee same.outputs pairings

/-- Modules correspond once their directions are known, if they did before. -/
theorem matchesModule (corresponds : first.Corresponds second) {module image : Module}
    (same : first.allocator.MatchesModule second.allocator module image)
    {resolved imageResolved : Module} (resolves : first.ResolvesTo module resolved)
    (imageResolves : second.ResolvesTo image imageResolved) :
    first.allocator.MatchesModule second.allocator resolved imageResolved := by
  have left := resolves.same
  have right := imageResolves.same
  have instances : List.Forall₂ (fun inner copy => inner.callee = copy.callee ∧
      List.Forall₂ (first.allocator.MatchesPairing second.allocator) inner.pairings copy.pairings)
        resolved.instances imageResolved.instances := by
    have before : List.Forall₂ (fun inner copy => inner.1 = copy.1 ∧
        List.Forall₂ (first.allocator.MatchesPairing second.allocator) inner.2 copy.2)
          (module.instances.map fun inner => (inner.callee, inner.pairings))
          (image.instances.map fun inner => (inner.callee, inner.pairings)) := by
      rw [List.forall₂_map_left_iff, List.forall₂_map_right_iff]
      exact same.instances.imp fun _ _ matched => ⟨matched.callee, matched.pairings⟩
    rwa [← left.instances, ← right.instances, List.forall₂_map_left_iff,
      List.forall₂_map_right_iff] at before
  refine ⟨?_, ?_, ?_, ?_, ?_, ?_⟩
  · rw [left.name, right.name, same.name]
  · rw [left.domain, right.domain, same.domain]
  · rw [left.inputs, right.inputs]
    exact same.inputs
  · rw [left.outputs, right.outputs]
    exact same.outputs
  · rw [left.gates, right.gates]
    exact same.gates
  · refine forall₂_imp_of_mem instances fun inner isInner copy isCopy matched => ?_
    obtain ⟨callee, found, directions⟩ := resolves.directions inner isInner
    obtain ⟨calleeImage, imageFound, imageDirections⟩ := imageResolves.directions copy isCopy
    exact corresponds.matchesInstance matched.1 matched.2 found directions imageFound
      imageDirections

/-- The resolved designs correspond as well. -/
theorem of_resolved? (corresponds : first.Corresponds second) {resolved imageResolved : Design}
    (resolves : first.resolved? = .ok resolved)
    (imageResolves : second.resolved? = .ok imageResolved) :
    resolved.Corresponds imageResolved := by
  obtain ⟨allocator, _, modules⟩ := resolved?_eq_ok resolves
  obtain ⟨imageAllocator, _, imageModules⟩ := resolved?_eq_ok imageResolves
  constructor
  · rw [Design.domain, Design.domain, allocator, imageAllocator]
    exact corresponds.domain
  · rw [names_of_resolvesTo modules]
    exact corresponds.distinct
  · rw [names_of_resolvesTo imageModules]
    exact corresponds.imageDistinct
  · rw [allocator, imageAllocator]
    intro module isModule
    obtain ⟨before, isBefore, step⟩ := exists_of_mem_right modules isModule
    obtain ⟨imageBefore, isImageBefore, same⟩ := corresponds.forth before isBefore
    obtain ⟨image, isImage, imageStep⟩ := exists_of_mem_right imageModules.flip isImageBefore
    exact ⟨image, isImage, corresponds.matchesModule same step imageStep⟩
  · rw [allocator, imageAllocator]
    intro image isImage
    obtain ⟨imageBefore, isImageBefore, imageStep⟩ := exists_of_mem_right imageModules isImage
    obtain ⟨before, isBefore, same⟩ := corresponds.back imageBefore isImageBefore
    obtain ⟨module, isModule, step⟩ := exists_of_mem_right modules.flip isBefore
    exact ⟨module, isModule, corresponds.matchesModule same step imageStep⟩

/-- Only modules matter. -/
theorem withTop (corresponds : first.Corresponds second) (top other : Option String) :
    Corresponds { first with top } { second with top := other } :=
  ⟨corresponds.domain, corresponds.distinct, corresponds.imageDistinct, corresponds.forth,
    corresponds.back⟩

/-- Designs agree if their modules correspond. -/
theorem agreesByName (corresponds : first.Corresponds second) (top : first.top = second.top) :
    first.AgreesByName second := by
  refine ⟨corresponds.domain, top, ?_, fun name => ?_⟩
  · rw [List.perm_ext_iff_of_nodup corresponds.distinct corresponds.imageDistinct]
    intro name
    rw [List.mem_map, List.mem_map]
    constructor
    · rintro ⟨module, member, rfl⟩
      obtain ⟨image, isImage, same⟩ := corresponds.forth module member
      exact ⟨image, isImage, same.name.symm⟩
    · rintro ⟨image, member, rfl⟩
      obtain ⟨module, isModule, same⟩ := corresponds.back image member
      exact ⟨module, isModule, same.name⟩
  · exact rel_imp (corresponds.find? name) fun _ _ same =>
      ⟨same, same.subcircuitInputs, same.subcircuitOutputs⟩

end Corresponds

end Design

end Netlist
