import Netlist.Proofs.Allocation
import Netlist.Proofs.Bookkeeping

/-!
# Histories of designs

A design changes by three calls: a module is inserted, another top is asked for, or the
directions of all instances are resolved. Calls may fail, and a module may arrive with
directions and sets of wires of an earlier life. A ledger follows the sets through such a
history, along with an index of the modules by name, by which names are looked up. What one call
does to a name, to the top and to the entry of a module is said by a lemma for each call; the
history follows by induction (`Ledger.exact_afterAll`).
-/

namespace Netlist

/-- The module as it was declared, without the directions of its instances. -/
def Module.declared (module : Module) : Module :=
  { module with
    instances := module.instances.map fun inner => .unresolved inner.callee inner.pairings }

theorem Module.SameButDirections.declared_eq {first second : Module}
    (same : first.SameButDirections second) : second.declared = first.declared := by
  have instances := congrArg (List.map fun (callee, pairings) =>
    Instance.unresolved callee pairings) same.instances
  rw [List.map_map, List.map_map] at instances
  unfold Module.declared
  rw [same.name, same.domain, same.inputs, same.outputs, same.gates]
  exact congrArg (Module.mk _ _ _ _ _) instances

namespace Design

/-! ### What resolving changes -/

theorem declared_resolveModules (design : Design) (modules : List Module) :
    (design.resolveModules modules).1.map Module.declared = modules.map Module.declared := by
  induction modules with
  | nil => rfl
  | cons module rest ih =>
    rw [resolveModules]
    cases resolved : design.resolveModule module with
    | error error => rfl
    | ok head =>
      dsimp only
      rw [List.map_cons, List.map_cons, ih, (resolveModule_eq_ok resolved).same.declared_eq]

theorem modules_resolve (design : Design) :
    design.resolve.1.modules = (design.resolveModules design.modules).1 := by
  unfold resolve
  split <;> rename_i outcome <;> rw [outcome]

theorem allocator_resolve (design : Design) : design.resolve.1.allocator = design.allocator := by
  unfold resolve
  split <;> rfl

theorem top_resolve (design : Design) : design.resolve.1.top = design.top := by
  unfold resolve
  split <;> rfl

/-- A design is resolved after a call if it was before, or if the call succeeds. -/
theorem resolved_resolve {design : Design} (resolved : design.resolve.1.resolved = true) :
    design.resolved = true ∨ (design.resolveModules design.modules).2 = .ok () := by
  unfold resolve at resolved
  split at resolved
  · rename_i outcome
    rw [outcome]
    exact Or.inr rfl
  · exact Or.inl resolved

/-- Names lead to the modules that were declared under them. -/
theorem declared_find? (design : Design) (name : String) :
    (design.find? name).map Module.declared =
      (design.modules.map Module.declared).find? fun module => module.name = name := by
  rw [List.find?_map]
  rfl

theorem declared_find?_resolve (design : Design) (name : String) :
    (design.resolve.1.find? name).map Module.declared =
      (design.find? name).map Module.declared := by
  rw [declared_find?, declared_find?, modules_resolve, declared_resolveModules]

theorem name_resolve (design : Design) :
    design.resolve.1.modules.map Module.name = design.modules.map Module.name := by
  have names : ∀ modules : List Module,
      modules.map Module.name = (modules.map Module.declared).map Module.name := by
    intro modules
    rw [List.map_map]
    rfl
  rw [names, modules_resolve, declared_resolveModules, ← names]

/-- A module that is found has, also in the other design, a module of its name with the
same ports. -/
theorem exists_find?_of_declared {first second : Design} {name : String} {module : Module}
    (same : (second.find? name).map Module.declared = (first.find? name).map Module.declared)
    (found : first.find? name = some module) :
    ∃ other, second.find? name = some other ∧ other.inputs = module.inputs ∧
      other.outputs = module.outputs := by
  rw [found] at same
  obtain ⟨other, isOther, declared⟩ := Option.map_eq_some_iff.1 same
  have inputs : other.declared.inputs = module.declared.inputs := congrArg _ declared
  have outputs : other.declared.outputs = module.declared.outputs := congrArg _ declared
  exact ⟨other, isOther, inputs, outputs⟩

/-! ### What inserting changes -/

theorem find?_eq_none_iff {design : Design} {name : String} :
    design.find? name = none ↔ design.contains name = false := by
  simp [find?, contains]

theorem isSome_find?_iff {design : Design} {name : String} :
    (design.find? name).isSome ↔ design.contains name = true := by
  rw [Option.isSome_iff_ne_none, ne_eq, find?_eq_none_iff, Bool.not_eq_false]

/-- A name that is taken keeps its module. -/
theorem find?_insert (design : Design) (module : Module) (name : String) :
    (design.insert module).find? name =
      (design.find? name).or (if module.name = name then some module else none) := by
  cases taken : design.contains module.name with
  | false =>
    rw [find?, modules_insert taken, List.find?_append, List.find?_singleton, find?]
    simp only [decide_eq_true_eq]
  | true =>
    rw [insert, taken, if_pos rfl]
    split
    · rename_i same
      obtain ⟨other, found⟩ := Option.isSome_iff_exists.1 (isSome_find?_iff.2 taken)
      rw [← same, found, Option.some_or]
    · rw [Option.or_none]

/-! ### What asking for a top changes -/

theorem setTop_of_contains {design : Design} {name : String}
    (known : design.contains name = true) :
    design.setTop name = .ok { design with top := some name } := by
  obtain ⟨module, found⟩ := Option.isSome_iff_exists.1 (isSome_find?_iff.2 known)
  rw [setTop, findTop, found]
  rfl

/-- A name that no module has is refused. -/
theorem setTop_of_not_contains {design : Design} {name : String}
    (unknown : design.contains name = false) :
    design.setTop name = .error (.unresolvedSubcircuit name topParent) := by
  rw [setTop, findTop, find?_eq_none_iff.2 unknown]
  rfl

end Design

/-- A design with an index of its modules, and with the sets of wires that are kept for them, in
their order. -/
structure Ledger where
  design : Design
  /-- The names of modules with their places, the latest first. -/
  index : List (String × Nat)
  sets : List WireSets

namespace Ledger

/-- A call that changes a design. -/
inductive Call where
  /-- Insert a module that arrives with some sets of wires. -/
  | insert (module : Module) (sets : WireSets)
  /-- Make another module the top. -/
  | setTop (name : String)
  /-- Give all instances their directions. -/
  | resolve

/-- A design without modules. -/
def empty (allocator : Allocator) : Ledger :=
  ⟨Design.empty allocator, [], []⟩

/-- The name is in the index. -/
def contains (ledger : Ledger) (name : String) : Bool :=
  (ledger.index.lookup name).isSome

/-- The module at the place that the index has for the name. -/
def get? (ledger : Ledger) (name : String) : Option Module :=
  (ledger.index.lookup name).bind fun place => ledger.design.modules[place]?

/-- The sets of modules that are resolved in order, up to the first that fails: those of a
module are collected anew once its instances have their directions. -/
def collectSets (design : Design) : List Module → List WireSets → List WireSets
  | [], sets => sets
  | _ :: _, [] => []
  | module :: rest, sets :: others =>
    match design.resolveModule module with
    | .error _ => sets :: others
    | .ok resolved => sets.collect resolved.instances :: collectSets design rest others

/-- What is left of a ledger by a call, whether or not the call fails. Names are looked up in the
index. -/
def after (ledger : Ledger) : Call → Ledger
  | .insert module sets =>
    if ledger.contains module.name then ledger
    else
      { design :=
          { ledger.design with
            modules := ledger.design.modules ++ [module]
            top := ledger.design.top.or (some module.name)
            resolved := false }
        index := (module.name, ledger.design.modules.length) :: ledger.index
        sets := ledger.sets ++ [sets] }
  | .setTop name =>
    if ledger.contains name then
      { ledger with design := { ledger.design with top := some name } }
    else ledger
  | .resolve =>
    { ledger with
      design := ledger.design.resolve.1
      sets := collectSets ledger.design ledger.design.modules ledger.sets }

/-- What is left of a ledger by some calls. -/
def afterAll (ledger : Ledger) (calls : List Call) : Ledger :=
  calls.foldl after ledger

/-- What is left of a design by a call. -/
def designAfter (design : Design) : Call → Design
  | .insert module _ => design.insert module
  | .setTop name => (design.setTop name).toOption.getD design
  | .resolve => design.resolve.1

/-- The modules that some calls insert, in order, those that are refused included. -/
def inserted (calls : List Call) : List Module :=
  calls.filterMap fun
    | .insert module _ => some module
    | _ => none

/-- The instances of a module have their directions, and the sets that are kept for it are
those of its instances. -/
structure IsExact (design : Design) (entry : Module × WireSets) : Prop where
  directions : ∀ inner ∈ entry.1.instances, ∃ callee,
    design.find? inner.callee = some callee ∧ inner.IsResolved design.domain callee
  sets : entry.2.Matches entry.1

/-- What holds of a ledger at every point of its history. -/
structure IsConsistent (ledger : Ledger) : Prop where
  index : ∀ name, ledger.index.lookup name =
    ledger.design.modules.findIdx? fun module => module.name = name
  names : (ledger.design.modules.map Module.name).Nodup
  top : ledger.design.top.isSome ↔ ledger.design.modules ≠ []
  topNamed : ∀ name ∈ ledger.design.top, name ∈ ledger.design.modules.map Module.name
  length : ledger.sets.length = ledger.design.modules.length
  exact : ledger.design.resolved = true →
    ∀ entry ∈ ledger.design.modules.zip ledger.sets, IsExact ledger.design entry

/-- Looking up a name finds the first module that has it. -/
theorem IsConsistent.get?_eq {ledger : Ledger} (consistent : ledger.IsConsistent)
    (name : String) : ledger.get? name = ledger.design.find? name := by
  rw [get?, consistent.index, Design.find?, List.find?_eq_bind_findIdx?_getElem?]

theorem IsConsistent.contains_eq {ledger : Ledger} (consistent : ledger.IsConsistent)
    (name : String) : ledger.contains name = ledger.design.contains name := by
  rw [contains, consistent.index, List.findIdx?_isSome, Design.contains]

/-- The index decides about calls as a search for names would. -/
theorem IsConsistent.design_after {ledger : Ledger} (consistent : ledger.IsConsistent)
    (call : Call) : (ledger.after call).design = designAfter ledger.design call := by
  cases call with
  | insert module sets =>
    rw [after, consistent.contains_eq, designAfter, Design.insert]
    split <;> rfl
  | setTop name =>
    rw [after, consistent.contains_eq, designAfter]
    split
    · rename_i known
      rw [Design.setTop_of_contains known]
      rfl
    · rename_i unknown
      rw [Design.setTop_of_not_contains (Bool.eq_false_of_not_eq_true unknown)]
      rfl
  | resolve => rfl

/-- Exactness only asks for the ports of callees. -/
theorem IsExact.congr {first second : Design} {entry : Module × WireSets}
    (exact : IsExact first entry) (domain : second.domain = first.domain)
    (same : ∀ name, (second.find? name).map Module.declared =
      (first.find? name).map Module.declared) : IsExact second entry := by
  refine ⟨fun inner member => ?_, exact.sets⟩
  obtain ⟨callee, found, directions⟩ := exact.directions inner member
  obtain ⟨other, otherFound, inputs, outputs⟩ :=
    Design.exists_find?_of_declared (same inner.callee) found
  refine ⟨other, otherFound, ?_⟩
  rw [domain]
  exact directions.congr_ports inputs outputs

/-! ### Resolving -/

theorem length_collectSets (design : Design) (modules : List Module) (sets : List WireSets) :
    (collectSets design modules sets).length = sets.length := by
  induction modules generalizing sets with
  | nil => rfl
  | cons module rest ih =>
    cases sets with
    | nil => rfl
    | cons first others =>
      unfold collectSets
      split
      · rfl
      · rw [List.length_cons, ih, List.length_cons]

/-- Each entry either stays as it was, which happens only if resolving fails, or gets its
directions and the sets that belong to them. -/
theorem mem_zip_collectSets {design : Design} {modules : List Module} {sets : List WireSets}
    {entry : Module × WireSets}
    (member : entry ∈ (design.resolveModules modules).1.zip (collectSets design modules sets)) :
    entry ∈ modules.zip sets ∧ (design.resolveModules modules).2 ≠ .ok () ∨
      IsExact design entry := by
  induction modules generalizing sets with
  | nil => cases member
  | cons module rest ih =>
    cases sets with
    | nil =>
      rw [collectSets, List.zip_nil_right] at member
      cases member
    | cons first others =>
      rw [Design.resolveModules, collectSets] at member
      rw [Design.resolveModules]
      cases resolved : design.resolveModule module with
      | error error =>
        rw [resolved] at member
        exact Or.inl ⟨member, fun succeeded => by cases succeeded⟩
      | ok head =>
        rw [resolved] at member
        dsimp only at member ⊢
        rcases List.mem_cons.1 member with rfl | inRest
        · exact Or.inr ⟨(Design.resolveModule_eq_ok resolved).directions,
            WireSets.matches_collect first head⟩
        · rcases ih inRest with ⟨old, failed⟩ | exact
          · exact Or.inl ⟨List.mem_cons_of_mem _ old, failed⟩
          · exact Or.inr exact

theorem IsConsistent.resolve {ledger : Ledger} (consistent : ledger.IsConsistent) :
    (ledger.after .resolve).IsConsistent := by
  have modules : (ledger.after .resolve).design.modules =
      (ledger.design.resolveModules ledger.design.modules).1 := Design.modules_resolve _
  have names : (ledger.after .resolve).design.modules.map Module.name =
      ledger.design.modules.map Module.name := Design.name_resolve _
  have top : (ledger.after .resolve).design.top = ledger.design.top := Design.top_resolve _
  have sameLength := congrArg List.length names
  rw [List.length_map, List.length_map] at sameLength
  constructor
  · intro name
    have places := congrArg (List.findIdx? fun other => other = name) names
    rw [List.findIdx?_map, List.findIdx?_map] at places
    exact (consistent.index name).trans places.symm
  · rw [names]
    exact consistent.names
  · rw [top, consistent.top, ne_eq, ne_eq, ← List.length_eq_zero_iff, ← sameLength,
      List.length_eq_zero_iff]
  · rw [top, names]
    exact consistent.topNamed
  · rw [sameLength]
    exact (length_collectSets _ _ _).trans consistent.length
  · intro resolved entry member
    have domain : (ledger.after .resolve).design.domain = ledger.design.domain :=
      congrArg Allocator.domain (Design.allocator_resolve _)
    have exactBefore : IsExact ledger.design entry := by
      rw [modules] at member
      rcases mem_zip_collectSets member with ⟨old, failed⟩ | exact
      · rcases Design.resolved_resolve resolved with before | succeeded
        · exact consistent.exact before entry old
        · exact absurd succeeded failed
      · exact exact
    exact exactBefore.congr domain (Design.declared_find?_resolve _)

/-! ### Inserting and asking for a top -/

theorem IsConsistent.after_insert {ledger : Ledger} (consistent : ledger.IsConsistent)
    {module : Module} (isNew : ledger.design.contains module.name = false) (sets : WireSets) :
    ledger.after (.insert module sets) = ⟨ledger.design.insert module,
      (module.name, ledger.design.modules.length) :: ledger.index, ledger.sets ++ [sets]⟩ := by
  rw [after, consistent.contains_eq, isNew, Design.insert, isNew]
  rfl

theorem IsConsistent.insert {ledger : Ledger} (consistent : ledger.IsConsistent)
    (module : Module) (sets : WireSets) : (ledger.after (.insert module sets)).IsConsistent := by
  cases taken : ledger.design.contains module.name with
  | true =>
    have unchanged : ledger.after (.insert module sets) = ledger := by
      rw [after, consistent.contains_eq, taken, if_pos rfl]
    rw [unchanged]
    exact consistent
  | false =>
    have modules := Design.modules_insert taken
    have top : (ledger.design.insert module).top = ledger.design.top.or (some module.name) := by
      rw [Design.insert, taken]
      rfl
    have isOpen : (ledger.design.insert module).resolved = false := by
      rw [Design.insert, taken]
      rfl
    rw [consistent.after_insert taken]
    constructor
    · intro name
      rw [modules, List.findIdx?_append, List.findIdx?_singleton, List.lookup_cons,
        consistent.index]
      by_cases same : name = module.name
      · -- the new entry hides none, as no module had the name before
        have absent : ledger.design.modules.findIdx? (fun other => other.name = name) = none := by
          rw [← Option.not_isSome_iff_eq_none, List.findIdx?_isSome, same, Bool.not_eq_true]
          exact taken
        rw [absent, same]
        simp
      · rw [beq_false_of_ne same]
        simp [Ne.symm same]
    · rw [modules]
      exact Design.nodup_names_append consistent.names taken
    · rw [modules, top]
      simp
    · rw [modules, top, List.map_append]
      intro name isTop
      rcases Option.or_eq_some_iff.1 isTop with old | ⟨_, new⟩
      · exact List.mem_append_left _ (consistent.topNamed name old)
      · exact List.mem_append_right _ (List.mem_singleton.2 (Option.some.inj new).symm)
    · rw [modules, List.length_append, List.length_append, consistent.length]
      rfl
    · intro resolved
      exact absurd (isOpen.symm.trans resolved) Bool.false_ne_true

theorem IsConsistent.setTop {ledger : Ledger} (consistent : ledger.IsConsistent) (name : String) :
    (ledger.after (.setTop name)).IsConsistent := by
  rw [after, consistent.contains_eq]
  split
  · rename_i known
    obtain ⟨module, member, named⟩ := Design.contains_eq_true_iff.1 known
    constructor
    · exact consistent.index
    · exact consistent.names
    · exact iff_of_true rfl (List.ne_nil_of_mem member)
    · rintro _ ⟨⟩
      exact List.mem_map.2 ⟨module, member, named⟩
    · exact consistent.length
    · exact fun resolved entry isEntry => (consistent.exact resolved entry isEntry).congr rfl
        fun _ => rfl
  · exact consistent

/-! ### Histories -/

theorem isConsistent_empty (allocator : Allocator) : (empty allocator).IsConsistent := by
  constructor
  · exact fun _ => rfl
  · exact List.nodup_nil
  · exact iff_of_false nofun (not_not.2 rfl)
  · rintro _ ⟨⟩
  · rfl
  · exact fun resolved => absurd resolved nofun

theorem IsConsistent.after {ledger : Ledger} (consistent : ledger.IsConsistent) (call : Call) :
    (ledger.after call).IsConsistent := by
  cases call with
  | insert module sets => exact consistent.insert module sets
  | setTop name => exact consistent.setTop name
  | resolve => exact consistent.resolve

theorem IsConsistent.afterAll {ledger : Ledger} (consistent : ledger.IsConsistent)
    (calls : List Call) : (ledger.afterAll calls).IsConsistent := by
  induction calls generalizing ledger with
  | nil => exact consistent
  | cons call rest ih => exact ih (consistent.after call)

/-- The design of a ledger changes as designs do. -/
theorem IsConsistent.design_afterAll {ledger : Ledger} (consistent : ledger.IsConsistent)
    (calls : List Call) :
    (ledger.afterAll calls).design = calls.foldl designAfter ledger.design := by
  induction calls generalizing ledger with
  | nil => rfl
  | cons call rest ih =>
    rw [List.foldl_cons, ← consistent.design_after call]
    exact ih (consistent.after call)

/-- Only an insertion changes which module was declared under a name, and only if the name
was new. -/
theorem declared_find?_designAfter (design : Design) (call : Call) (name : String) :
    ((designAfter design call).find? name).map Module.declared =
      ((design.find? name).or
        ((inserted [call]).find? fun module => module.name = name)).map Module.declared := by
  cases call with
  | insert module sets =>
    rw [designAfter, Design.find?_insert]
    simp [inserted]
  | setTop other =>
    rw [designAfter, inserted]
    cases changed : design.setTop other with
    | ok last =>
      rw [Except.toOption, Option.getD_some, Design.find?, (Design.setTop_eq_ok changed).2]
      simp [Design.find?]
    | error error => simp [Except.toOption]
  | resolve =>
    rw [designAfter, Design.declared_find?_resolve]
    simp [inserted]

theorem declared_find?_foldl (allocator : Allocator) (calls : List Call) (name : String) :
    ((calls.foldl designAfter (.empty allocator)).find? name).map Module.declared =
      ((inserted calls).find? fun module => module.name = name).map Module.declared := by
  induction calls using List.reverseRecOn with
  | nil => rfl
  | append_singleton calls call ih =>
    have all : inserted (calls ++ [call]) = inserted calls ++ inserted [call] :=
      List.filterMap_append
    rw [List.foldl_append, List.foldl_cons, List.foldl_nil, declared_find?_designAfter, all,
      List.find?_append, Option.map_or, Option.map_or, ih]

/-- After any calls, also calls that fail, the index leads where a search for names would, and
the design is what the calls make of it without an index. Names are unique and lead to the module
that was inserted first, there is a top exactly if there are modules, and it is one of them. While
the design counts as resolved, every instance has a callee and the directions of its ports, and
the sets that are kept for a module are the callers' wires of these. -/
theorem exact_afterAll (allocator : Allocator) (calls : List Call) :
    let last := (empty allocator).afterAll calls
    last.design = calls.foldl designAfter (.empty allocator) ∧
    (∀ name, last.get? name = last.design.find? name) ∧
    (last.design.modules.map Module.name).Nodup ∧
    (∀ name, (last.design.find? name).map Module.declared =
      ((inserted calls).find? fun module => module.name = name).map Module.declared) ∧
    (last.design.top.isSome ↔ last.design.modules ≠ []) ∧
    (∀ name, last.design.top = some name → ∃ module, last.design.find? name = some module) ∧
    last.sets.length = last.design.modules.length ∧
    (last.design.resolved = true → ∀ entry ∈ last.design.modules.zip last.sets,
      (∀ inner ∈ entry.1.instances, ∃ callee, last.design.find? inner.callee = some callee ∧
        inner.inputs = inner.pairings.filter (fun pairing => pairing.callee ∈ callee.inputs) ∧
        inner.outputs = inner.pairings.filter (fun pairing => pairing.callee ∈ callee.outputs) ∧
        ∀ pairing ∈ inner.pairings, pairing ∈ inner.inputs ∨ pairing ∈ inner.outputs) ∧
      entry.2.subcircuitInputs = entry.1.subcircuitInputs ∧
      entry.2.subcircuitOutputs = entry.1.subcircuitOutputs ∧
      ∀ wire, (wire ∈ entry.2.subcircuitInputs ↔
          ∃ inner ∈ entry.1.instances, ∃ pairing ∈ inner.inputs, pairing.caller = wire) ∧
        (wire ∈ entry.2.subcircuitOutputs ↔
          ∃ inner ∈ entry.1.instances, ∃ pairing ∈ inner.outputs, pairing.caller = wire)) := by
  intro last
  have consistent : last.IsConsistent := (isConsistent_empty allocator).afterAll calls
  have design : last.design = calls.foldl designAfter (.empty allocator) :=
    (isConsistent_empty allocator).design_afterAll calls
  refine ⟨design, consistent.get?_eq, consistent.names, fun name => ?_, consistent.top, ?_,
    consistent.length, ?_⟩
  · rw [design]
    exact declared_find?_foldl allocator calls name
  · intro name isTop
    exact Option.isSome_iff_exists.1 (Design.isSome_find?_iff.2
      (Design.contains_eq_true_iff.2 (List.mem_map.1 (consistent.topNamed name isTop))))
  · intro resolved entry member
    have exact := consistent.exact resolved entry member
    refine ⟨fun inner innerMember => ?_, exact.sets.subcircuitInputs, exact.sets.subcircuitOutputs,
      fun wire => ⟨?_, ?_⟩⟩
    · obtain ⟨callee, found, directions⟩ := exact.directions inner innerMember
      refine ⟨callee, found, directions.inputs, directions.outputs, fun pairing isPairing => ?_⟩
      rcases directions.isPort pairing isPairing with isInput | isOutput
      · exact Or.inl (directions.mem_inputs_iff.2 ⟨isPairing, isInput⟩)
      · exact Or.inr (directions.mem_outputs_iff.2 ⟨isPairing, isOutput⟩)
    · rw [exact.sets.subcircuitInputs, Module.mem_subcircuitInputs_iff]
    · rw [exact.sets.subcircuitOutputs, Module.mem_subcircuitOutputs_iff]

/-- A module that arrives with sets of an earlier life, before the module that it
instantiates. -/
def earlyCaller : Module :=
  ⟨"caller", .boolean, [2], [3], [], [.unresolved "leaf" [⟨2, 4⟩, ⟨3, 5⟩]]⟩

/-- An inverter. -/
def lateLeaf : Module :=
  ⟨"leaf", .boolean, [4], [5], [⟨.inv, [4], 5⟩], []⟩

/-- Resolving fails while the leaf is missing, and succeeds in the end; a second module
named like the first one is refused. -/
def lateHistory : List Call :=
  [.insert earlyCaller ⟨[], [], [7], [8]⟩, .resolve, .setTop "leaf",
    .insert lateLeaf (WireSets.empty.addGate ⟨.inv, [4], 5⟩), .resolve,
    .insert (Module.empty "caller" .boolean) WireSets.empty]

/-- In the end of `lateHistory` the sets that the caller arrived with are gone. -/
theorem exact_afterAll_lateHistory :
    ((empty (.empty .boolean)).afterAll (lateHistory.take 4)).design.resolved = false ∧
    ((empty (.empty .boolean)).afterAll lateHistory).design.resolved = true ∧
    ((empty (.empty .boolean)).afterAll lateHistory).design.top = some "caller" ∧
    ((empty (.empty .boolean)).afterAll lateHistory).index = [("leaf", 1), ("caller", 0)] ∧
    ((empty (.empty .boolean)).afterAll lateHistory).sets =
      [⟨[], [], [2], [3]⟩, ⟨[4], [5], [], []⟩] ∧
    ((empty (.empty .boolean)).afterAll lateHistory).get? "leaf" =
      ((empty (.empty .boolean)).afterAll lateHistory).design.find? "leaf" ∧
    ∀ entry ∈ ((empty (.empty .boolean)).afterAll lateHistory).design.modules.zip
        ((empty (.empty .boolean)).afterAll lateHistory).sets,
      entry.2.subcircuitInputs = entry.1.subcircuitInputs ∧
        entry.2.subcircuitOutputs = entry.1.subcircuitOutputs := by
  have resolved : ((empty (.empty .boolean)).afterAll lateHistory).design.resolved = true := by
    decide
  obtain ⟨_, looked, _, _, _, _, _, exact⟩ := exact_afterAll (.empty .boolean) lateHistory
  refine ⟨by decide, resolved, by decide, by decide, by decide, looked "leaf",
    fun entry member => ?_⟩
  obtain ⟨_, inputs, outputs, _⟩ := exact resolved entry member
  exact ⟨inputs, outputs⟩

end Ledger

end Netlist
