import Mathlib.Data.List.Forall2
import Netlist.Design.Hierarchy
import Netlist.Outcome

/-!
# Resolved designs

A design is resolved if the directions of every instance are those that the
ports of its callee give. Resolving a design that succeeds leaves it resolved
(`isResolved_of_resolved?`) and changes nothing but directions: ports, gates and
pairings stay as they were.
-/

namespace Netlist

/-- The directions of an instance are those of its callee's ports. A port that is
a constant inside the callee meets the same constant, or is read by a wire that
is none. -/
structure Instance.IsResolved (domain : Domain) (callee : Module) (inner : Instance) : Prop where
  inputs : inner.inputs = inner.pairings.filter fun pairing => pairing.callee ∈ callee.inputs
  outputs : inner.outputs = inner.pairings.filter fun pairing => pairing.callee ∈ callee.outputs
  isPort : ∀ pairing ∈ inner.pairings,
    pairing.callee ∈ callee.inputs ∨ pairing.callee ∈ callee.outputs
  constantPort : ∀ pairing ∈ inner.pairings, domain.IsConstant pairing.callee →
    pairing.caller = pairing.callee ∨
      pairing.callee ∉ callee.inputs ∧ ¬ domain.IsConstant pairing.caller

instance (domain : Domain) (callee : Module) (inner : Instance) :
    Decidable (inner.IsResolved domain callee) :=
  decidable_of_iff
    (inner.inputs = inner.pairings.filter (fun pairing => pairing.callee ∈ callee.inputs) ∧
      inner.outputs = inner.pairings.filter (fun pairing => pairing.callee ∈ callee.outputs) ∧
      (∀ pairing ∈ inner.pairings,
        pairing.callee ∈ callee.inputs ∨ pairing.callee ∈ callee.outputs) ∧
      ∀ pairing ∈ inner.pairings, domain.IsConstant pairing.callee →
        pairing.caller = pairing.callee ∨
          pairing.callee ∉ callee.inputs ∧ ¬ domain.IsConstant pairing.caller)
    ⟨fun ⟨inputs, outputs, isPort, constantPort⟩ => ⟨inputs, outputs, isPort, constantPort⟩,
      fun resolved =>
        ⟨resolved.inputs, resolved.outputs, resolved.isPort, resolved.constantPort⟩⟩

/-- Some modules are the same but for the directions of their instances. -/
structure Module.SameButDirections (first second : Module) : Prop where
  name : second.name = first.name
  domain : second.domain = first.domain
  inputs : second.inputs = first.inputs
  outputs : second.outputs = first.outputs
  gates : second.gates = first.gates
  instances : second.instances.map (fun inner => (inner.callee, inner.pairings)) =
    first.instances.map fun inner => (inner.callee, inner.pairings)

/-! ### Lists that are related member by member -/

theorem exists_of_mem_right {α β : Type} {relation : α → β → Prop} {first : List α}
    {second : List β} (related : List.Forall₂ relation first second) {result : β}
    (member : result ∈ second) : ∃ item ∈ first, relation item result := by
  induction related with
  | nil => cases member
  | cons head _ ih =>
    rcases List.mem_cons.1 member with rfl | inRest
    · exact ⟨_, List.mem_cons_self, head⟩
    · obtain ⟨item, itemMember, holds⟩ := ih inRest
      exact ⟨item, List.mem_cons_of_mem _ itemMember, holds⟩

theorem mapM_eq_ok {α β : Type} {step : α → Except Error β} {items : List α} {results : List β}
    (succeeded : items.mapM step = .ok results) :
    List.Forall₂ (fun item result => step item = .ok result) items results := by
  induction items generalizing results with
  | nil =>
    cases succeeded
    exact List.Forall₂.nil
  | cons item rest ih =>
    rw [List.mapM_cons] at succeeded
    obtain ⟨result, first, succeeded⟩ := eq_ok_of_bind succeeded
    obtain ⟨remaining, others, succeeded⟩ := eq_ok_of_bind succeeded
    cases succeeded
    exact List.Forall₂.cons first (ih others)

/-- How lookups change if a key gets a value, in its place or behind all others. -/
theorem lookup_of_replaces {κ ν : Type} [BEq κ] [LawfulBEq κ] [DecidableEq κ] {key : κ} {value : ν}
    (replace : List (κ × ν) → List (κ × ν)) (nil : replace [] = [(key, value)])
    (cons : ∀ first old rest, replace ((first, old) :: rest) =
      if first = key then (first, value) :: rest else (first, old) :: replace rest)
    (other : κ) (entries : List (κ × ν)) :
    (replace entries).lookup other = if other = key then some value else entries.lookup other := by
  induction entries with
  | nil =>
    rw [nil, List.lookup_cons]
    by_cases here : other = key
    · rw [here, beq_self_eq_true, if_pos rfl]
    · rw [beq_false_of_ne here, if_neg here]
  | cons entry rest ih =>
    obtain ⟨first, old⟩ := entry
    rw [cons]
    by_cases same : first = key
    · rw [if_pos same, same, List.lookup_cons, List.lookup_cons]
      by_cases here : other = key
      · rw [here, beq_self_eq_true, if_pos rfl]
      · rw [beq_false_of_ne here, if_neg here]
    · rw [if_neg same, List.lookup_cons, List.lookup_cons, ih]
      by_cases here : other = first
      · rw [here, beq_self_eq_true]
        exact (if_neg same).symm
      · rw [beq_false_of_ne here]

namespace Instance.IsResolved

variable {domain : Domain} {callee : Module} {inner : Instance} {pairing : Pairing}

theorem mem_inputs_iff (resolved : inner.IsResolved domain callee) :
    pairing ∈ inner.inputs ↔ pairing ∈ inner.pairings ∧ pairing.callee ∈ callee.inputs := by
  rw [resolved.inputs, List.mem_filter, decide_eq_true_iff]

theorem mem_outputs_iff (resolved : inner.IsResolved domain callee) :
    pairing ∈ inner.outputs ↔ pairing ∈ inner.pairings ∧ pairing.callee ∈ callee.outputs := by
  rw [resolved.outputs, List.mem_filter, decide_eq_true_iff]

/-- Only the ports of a callee matter. -/
theorem congr_ports {first second : Module} (resolved : inner.IsResolved domain first)
    (inputs : second.inputs = first.inputs) (outputs : second.outputs = first.outputs) :
    inner.IsResolved domain second := by
  constructor
  · rw [inputs, resolved.inputs]
  · rw [outputs, resolved.outputs]
  · rw [inputs, outputs]
    exact resolved.isPort
  · rw [inputs]
    exact resolved.constantPort

end Instance.IsResolved

namespace Design

/-- Every instance of every module has a callee and its directions. -/
def IsResolved (design : Design) : Prop :=
  ∀ module ∈ design.modules, ∀ inner ∈ module.instances,
    ∃ callee, design.find? inner.callee = some callee ∧ inner.IsResolved design.domain callee

/-- An instance of a resolved design has the directions of its callee's ports. -/
theorem IsResolved.directions {design : Design} (resolved : design.IsResolved)
    {module callee : Module} (member : module ∈ design.modules) {inner : Instance}
    (innerMember : inner ∈ module.instances) (found : design.find? inner.callee = some callee) :
    inner.IsResolved design.domain callee := by
  obtain ⟨other, otherFound, directions⟩ := resolved module member inner innerMember
  rw [found] at otherFound
  cases otherFound
  exact directions

/-- All modules lie in the domain of the design. -/
def IsUniform (design : Design) : Prop :=
  ∀ module ∈ design.modules, module.domain = design.domain

/-- No instance binds a wire of its callee in two pairings. -/
def BindsOnce (design : Design) : Prop :=
  ∀ module ∈ design.modules, ∀ inner ∈ module.instances,
    (inner.pairings.map Pairing.callee).Nodup

/-- What readers guarantee: directions are known, and all modules lie in the domain of
the design and name no wires but those in use. -/
structure IsWellFormed (design : Design) : Prop where
  resolved : design.IsResolved
  uniform : design.IsUniform
  numbered : design.IsNumbered

instance (design : Design) : Decidable design.IsResolved :=
  decidable_of_iff (∀ module ∈ design.modules, ∀ inner ∈ module.instances,
    ∃ callee ∈ design.find? inner.callee, inner.IsResolved design.domain callee) Iff.rfl

instance (design : Design) : Decidable design.IsUniform :=
  inferInstanceAs (Decidable (∀ module ∈ design.modules, module.domain = design.domain))

instance (design : Design) : Decidable design.BindsOnce :=
  inferInstanceAs (Decidable (∀ module ∈ design.modules, ∀ inner ∈ module.instances,
    (inner.pairings.map Pairing.callee).Nodup))

/-! ### Resolving an instance -/

/-- A pairing with a direction is a port, and a constant port is used as it may
be. -/
theorem direction_eq_ok {design : Design} {module callee : Module} {pairing : Pairing}
    {direction : Direction}
    (directed : design.direction module callee pairing = .ok direction) :
    direction.isInput = decide (pairing.callee ∈ callee.inputs) ∧
      direction.isOutput = decide (pairing.callee ∈ callee.outputs) ∧
      (pairing.callee ∈ callee.inputs ∨ pairing.callee ∈ callee.outputs) ∧
      (design.domain.IsConstant pairing.callee → pairing.caller = pairing.callee ∨
        pairing.callee ∉ callee.inputs ∧ ¬ design.domain.IsConstant pairing.caller) := by
  simp only [Design.direction] at directed
  split at directed
  · cases directed
  · rename_i port
    split at directed
    · cases directed
    · rename_i allowed
      cases directed
      refine ⟨rfl, rfl, ?_, ?_⟩
      · rw [Bool.and_eq_true, Bool.not_eq_true', Bool.not_eq_true', decide_eq_false_iff_not,
          decide_eq_false_iff_not, not_and_or, not_not, not_not] at port
        exact port
      · intro constant
        by_cases same : pairing.caller = pairing.callee
        · exact Or.inl same
        · simp only [constant, same, decide_eq_true_eq, ne_eq, not_false_eq_true, true_and,
            not_or] at allowed
          exact Or.inr allowed

theorem splitPairings_eq_ok {design : Design} {module callee : Module}
    {pairings inputs outputs : List Pairing}
    (split : design.splitPairings module callee pairings = .ok (inputs, outputs)) :
    (⟨callee.name, pairings, inputs, outputs⟩ : Instance).IsResolved design.domain callee := by
  induction pairings generalizing inputs outputs with
  | nil =>
    cases split
    exact ⟨rfl, rfl, by simp, by simp⟩
  | cons pairing rest ih =>
    simp only [splitPairings] at split
    cases directed : design.direction module callee pairing with
    | error error =>
      rw [directed] at split
      cases split
    | ok direction =>
      rw [directed] at split
      cases splitRest : design.splitPairings module callee rest with
      | error error =>
        rw [splitRest] at split
        cases split
      | ok parts =>
        rw [splitRest] at split
        cases split
        obtain ⟨isInput, isOutput, port, constant⟩ := direction_eq_ok directed
        have others := ih splitRest
        constructor
        · have inputs := others.inputs
          dsimp only at inputs ⊢
          rw [isInput, List.filter_cons, inputs]
        · have outputs := others.outputs
          dsimp only at outputs ⊢
          rw [isOutput, List.filter_cons, outputs]
        · intro other member
          rcases List.mem_cons.1 member with rfl | inRest
          · exact port
          · exact others.isPort other inRest
        · intro other member
          rcases List.mem_cons.1 member with rfl | inRest
          · exact constant
          · exact others.constantPort other inRest

theorem resolveInstance_eq_ok {design : Design} {module : Module} {inner resolved : Instance}
    (outcome : design.resolveInstance module inner = .ok resolved) :
    resolved.callee = inner.callee ∧ resolved.pairings = inner.pairings ∧
      ∃ callee, design.find? inner.callee = some callee ∧
        resolved.IsResolved design.domain callee := by
  unfold resolveInstance at outcome
  split at outcome
  · cases outcome
  · rename_i callee found
    cases split : design.splitPairings module callee inner.pairings with
    | error error =>
      rw [split] at outcome
      cases outcome
    | ok parts =>
      rw [split] at outcome
      cases outcome
      have directions := splitPairings_eq_ok split
      exact ⟨rfl, rfl, callee, found, directions.inputs, directions.outputs, directions.isPort,
        directions.constantPort⟩

/-! ### Resolving all modules -/

/-- The second module is the first one, with directions. -/
structure ResolvesTo (design : Design) (first second : Module) : Prop where
  same : first.SameButDirections second
  directions : ∀ inner ∈ second.instances, ∃ callee,
    design.find? inner.callee = some callee ∧ inner.IsResolved design.domain callee

theorem resolveModule_eq_ok {design : Design} {module resolved : Module}
    (outcome : design.resolveModule module = .ok resolved) :
    design.ResolvesTo module resolved := by
  unfold resolveModule at outcome
  cases instances : module.instances.mapM (design.resolveInstance module) with
  | error error =>
    rw [instances] at outcome
    cases outcome
  | ok inners =>
    rw [instances] at outcome
    cases outcome
    have each := (mapM_eq_ok instances).imp fun _ _ => resolveInstance_eq_ok
    refine ⟨⟨rfl, rfl, rfl, rfl, rfl, ?_⟩, ?_⟩
    · dsimp only
      rw [← List.forall₂_eq_eq_eq, List.forall₂_map_left_iff, List.forall₂_map_right_iff]
      refine each.flip.imp ?_
      rintro second first ⟨callee, pairings, _⟩
      rw [callee, pairings]
    · intro inner member
      obtain ⟨original, _, callee, _, found⟩ := exists_of_mem_right each member
      rwa [callee]

theorem resolveModules_eq_ok {design : Design} {modules resolved : List Module}
    (outcome : design.resolveModules modules = (resolved, .ok ())) :
    List.Forall₂ design.ResolvesTo modules resolved := by
  induction modules generalizing resolved with
  | nil =>
    cases outcome
    exact List.Forall₂.nil
  | cons module rest ih =>
    rw [resolveModules] at outcome
    cases first : design.resolveModule module with
    | error error =>
      rw [first] at outcome
      cases outcome
    | ok head =>
      rw [first] at outcome
      obtain ⟨sameList, succeeded⟩ := Prod.mk.inj outcome
      subst sameList
      exact List.Forall₂.cons (resolveModule_eq_ok first)
        (ih (Prod.ext rfl succeeded))

/-- What a successful resolution does to a design. -/
theorem resolved?_eq_ok {source design : Design} (resolved : source.resolved? = .ok design) :
    design.allocator = source.allocator ∧ design.top = source.top ∧
      List.Forall₂ source.ResolvesTo source.modules design.modules := by
  unfold resolved? resolve at resolved
  cases outcome : source.resolveModules source.modules with
  | mk modules result =>
    cases result with
    | error error =>
      rw [outcome] at resolved
      cases resolved
    | ok done =>
      rw [outcome] at resolved
      cases resolved
      exact ⟨rfl, rfl, resolveModules_eq_ok outcome⟩

/-- Names lead to the same modules before and after resolution, but for
directions. -/
theorem find?_of_resolvesTo {design : Design} {first second : List Module}
    (modules : List.Forall₂ design.ResolvesTo first second) {name : String} {module : Module}
    (found : first.find? (fun module => module.name = name) = some module) :
    ∃ resolved, second.find? (fun module => module.name = name) = some resolved ∧
      module.SameButDirections resolved := by
  induction modules with
  | nil => cases found
  | cons head _ ih =>
    rw [List.find?_cons] at found ⊢
    rw [head.same.name]
    split at found
    · cases found
      exact ⟨_, rfl, head.same⟩
    · exact ih found

theorem isResolved_of_resolved? {source design : Design}
    (resolved : source.resolved? = .ok design) : design.IsResolved := by
  obtain ⟨allocator, _, modules⟩ := resolved?_eq_ok resolved
  intro module member inner innerMember
  obtain ⟨original, _, step⟩ := exists_of_mem_right modules member
  obtain ⟨callee, found, directions⟩ := step.directions inner innerMember
  obtain ⟨resolvedCallee, resolvedFound, same⟩ := find?_of_resolvesTo modules found
  refine ⟨resolvedCallee, resolvedFound, ?_⟩
  rw [domain, allocator]
  exact directions.congr_ports same.inputs same.outputs

end Design

end Netlist
