import Mathlib.Data.List.Nodup
import Mathlib.Data.List.Chain
import Netlist.Proofs.Occurrences
import Netlist.Proofs.Resolution

/-!
# Recursive designs

Expanding instances keeps the names of the active modules on a stack, which is a chain of
instantiations that never holds a name twice (`Design.IsStack`). If all callees are there, an
expansion fails only where an instance leads back to the stack, and then the error holds the
whole circle (`Design.closesCircle_of_expand`). Where it succeeds, no chain of instantiations
leads back to the stack (`Design.Unfolds.notMem_of_reaches`). So flattening a module fails
exactly if a recursive module can be reached from it, and succeeds if none can
(`Design.flattenModule_recursiveInstance_iff`).
-/

namespace Netlist

namespace Design

variable {design : Design}

/-! ### Chains of instantiations -/

/-- A chain of instantiations from the top that comes back, with its last step, to a module
that it has entered before. It enters no other module twice. -/
structure ClosesCircle (design : Design) (top : String) (path : List String) (module : String) :
    Prop where
  chain : path.IsChain design.Calls
  starts : path.head? = some top
  closes : ∃ entered, path = entered ++ [module] ∧ module ∈ entered ∧ entered.Nodup

/-- The active modules, the innermost first: each is instantiated by the next one, the last is
the top, and no name occurs twice. -/
structure IsStack (design : Design) (top : String) (active : List String) : Prop where
  chain : active.reverse.IsChain design.Calls
  starts : active.getLast? = some top
  nodup : active.Nodup

theorem calls_of_mem {caller : Module} {inner : Instance}
    (found : design.find? caller.name = some caller) (member : inner ∈ caller.instances) :
    design.Calls caller.name inner.callee :=
  ⟨caller, inner, found, member, rfl⟩

/-- All modules of a chain can be reached from its first one. -/
theorem reaches_of_isChain {first last : String} {rest : List String}
    (chain : (first :: rest).IsChain design.Calls) (member : last ∈ first :: rest) :
    design.Reaches first last := by
  induction rest generalizing first with
  | nil =>
    rw [List.mem_singleton.1 member]
    exact Reaches.refl first
  | cons next others ih =>
    obtain ⟨call, chain⟩ := List.isChain_cons_cons.1 chain
    rcases List.mem_cons.1 member with rfl | inRest
    · exact Reaches.refl _
    · exact Reaches.step call (ih chain inRest)

/-- A chain that closes a circle comes to a recursive module. -/
theorem ClosesCircle.isRecursiveBelow {top module : String} {path : List String}
    (circle : design.ClosesCircle top path module) : design.IsRecursiveBelow top := by
  obtain ⟨entered, rfl, isEntered, _⟩ := circle.closes
  obtain ⟨before, after, rfl⟩ := List.append_of_mem isEntered
  have chain := circle.chain
  rw [List.append_assoc, List.cons_append] at chain
  -- one part of the chain leads to the module, and the other from there back to it
  obtain ⟨toModule, around⟩ := List.isChain_split.1 chain
  obtain ⟨next, rest, same⟩ := List.exists_cons_of_ne_nil
    (List.append_ne_nil_of_right_ne_nil after (List.cons_ne_nil module []))
  have returns : module ∈ next :: rest := by
    rw [← same]
    exact List.mem_append_right _ (List.mem_singleton_self module)
  rw [same, List.isChain_cons_cons] at around
  refine ⟨module, next, ?_, around.1, reaches_of_isChain around.2 returns⟩
  have starts := circle.starts
  cases before with
  | nil =>
    cases starts
    exact Reaches.refl _
  | cons first others =>
    cases starts
    exact reaches_of_isChain toModule (List.mem_append_right (_ :: others) List.mem_cons_self)

namespace IsStack

variable {top caller callee : String} {others : List String}

theorem singleton (top : String) : design.IsStack top [top] :=
  ⟨List.isChain_singleton top, rfl, List.nodup_singleton top⟩

/-- The chain of active modules with one more step. -/
theorem chain_concat (stack : design.IsStack top (caller :: others))
    (call : design.Calls caller callee) :
    ((caller :: others).reverse ++ [callee]).IsChain design.Calls := by
  refine List.isChain_append.2 ⟨stack.chain, List.isChain_singleton callee, ?_⟩
  intro last isLast next isNext
  rw [List.getLast?_reverse] at isLast
  cases isLast
  cases isNext
  exact call

/-- A module that is not active is entered. -/
theorem push (stack : design.IsStack top (caller :: others)) (call : design.Calls caller callee)
    (inactive : callee ∉ caller :: others) : design.IsStack top (callee :: caller :: others) := by
  constructor
  · rw [List.reverse_cons]
    exact stack.chain_concat call
  · rw [List.getLast?_cons_cons]
    exact stack.starts
  · exact List.nodup_cons.2 ⟨inactive, stack.nodup⟩

/-- An instance of a module that is active closes a circle. -/
theorem closesCircle (stack : design.IsStack top (caller :: others))
    (call : design.Calls caller callee) (isActive : callee ∈ caller :: others) :
    design.ClosesCircle top ((caller :: others).reverse ++ [callee]) callee := by
  refine ⟨stack.chain_concat call, ?_, _, rfl, List.mem_reverse.2 isActive,
    List.nodup_reverse.2 stack.nodup⟩
  rw [List.head?_append, List.head?_reverse, stack.starts]
  rfl

end IsStack

/-! ### Expansions that fail -/

/-- Every instance has a callee. -/
def IsClosed (design : Design) : Prop :=
  ∀ module ∈ design.modules, ∀ inner ∈ module.instances,
    ∃ callee, design.find? inner.callee = some callee

theorem IsResolved.isClosed (resolved : design.IsResolved) : design.IsClosed := by
  intro module member inner innerMember
  obtain ⟨callee, found, _⟩ := resolved module member inner innerMember
  exact ⟨callee, found⟩

/-- The error of an expansion is that of its first part which fails: the instance leads back
to an active module, or what is below it fails, or what is behind it. -/
theorem expand_cons_eq_error {active : List String} {caller : Numbering} {inner : Instance}
    {rest : List Instance} {callee : Module} {error : Error}
    (found : design.find? inner.callee = some callee)
    (failed : (design.expand active caller (inner :: rest)).result = .error error) :
    callee.name ∈ active ∧
        error = .recursiveInstance callee.name (active.reverse ++ [callee.name]) ∨
      callee.name ∉ active ∧ ∃ numbering,
        (design.expand (callee.name :: active) numbering callee.instances).result = .error error ∨
          (design.expand active numbering rest).result = .error error := by
  by_cases isActive : callee.name ∈ active
  · rw [result_expand_cons_of_mem found isActive] at failed
    cases failed
    exact Or.inl ⟨isActive, rfl⟩
  · refine Or.inr ⟨isActive, ?_⟩
    rw [result_expand_cons found isActive rfl rfl] at failed
    rcases bind_eq_error failed with below | ⟨nested, _, failed⟩
    · exact ⟨_, Or.inl below⟩
    · rcases bind_eq_error failed with behind | ⟨_, _, ⟨⟩⟩
      exact ⟨_, Or.inr behind⟩

/-- If all callees are there, an expansion fails only because an instance closes a circle. -/
theorem closesCircle_of_expand (closed : design.IsClosed) {top : String} {caller : Module}
    {others : List String} {instances : List Instance}
    (callerFound : design.find? caller.name = some caller)
    (subset : instances ⊆ caller.instances)
    (stack : design.IsStack top (caller.name :: others)) {numbering : Numbering} {error : Error}
    (failed : (design.expand (caller.name :: others) numbering instances).result =
      .error error) :
    ∃ module path, error = .recursiveInstance module path ∧
      design.ClosesCircle top path module := by
  generalize same : caller.name :: others = active at failed
  -- along the instances that are expanded, those below a callee before those behind it
  fun_induction design.occurrences active [] 0 instances
    generalizing numbering caller others with
  | case1 =>
    rw [expand] at failed
    cases failed
  | case2 active _ _ inner rest missing =>
    obtain ⟨callee, found⟩ := closed caller (mem_of_find? callerFound) inner
      (subset List.mem_cons_self)
    rw [missing] at found
    cases found
  | case3 active _ _ inner rest callee found isActive behind =>
    subst same
    have call := calls_of_mem callerFound (subset List.mem_cons_self)
    rw [← name_of_find? found] at call
    rcases expand_cons_eq_error found failed with ⟨_, rfl⟩ | ⟨inactive, _⟩
    · exact ⟨_, _, rfl, stack.closesCircle call isActive⟩
    · exact absurd isActive inactive
  | case4 active _ _ inner rest callee found inactive _ below behind =>
    subst same
    have call := calls_of_mem callerFound (subset List.mem_cons_self)
    rw [← name_of_find? found] at call
    rcases expand_cons_eq_error found failed with ⟨isActive, _⟩ | ⟨_, _, nested | others⟩
    · exact absurd isActive inactive
    · have calleeFound : design.find? callee.name = some callee := by
        rw [name_of_find? found, found]
      exact below calleeFound (List.Subset.refl _) (stack.push call inactive) rfl nested
    · exact behind callerFound (fun _ member => subset (List.mem_cons_of_mem _ member)) stack rfl
        others

/-! ### Expansions that succeed -/

/-- The callee of an instance that unfolds is not active, and unfolds once it is. -/
theorem Unfolds.of_mem {active : List String} {instances : List Instance}
    (unfolds : design.Unfolds active instances) {inner : Instance}
    (member : inner ∈ instances) :
    ∃ callee, design.find? inner.callee = some callee ∧ callee.name ∉ active ∧
      design.Unfolds (callee.name :: active) callee.instances := by
  induction unfolds with
  | nil => cases member
  | cons found inactive below _ _ ih =>
    rcases List.mem_cons.1 member with rfl | inRest
    · exact ⟨_, found, inactive, below⟩
    · exact ih inRest

/-- Where a module unfolds, each module that it instantiates is inactive, and so are all that
can be reached from there. -/
theorem Unfolds.notMem_of_reaches {active : List String} {module : Module} {callee last : String}
    (unfolds : design.Unfolds active module.instances)
    (found : design.find? module.name = some module)
    (call : design.Calls module.name callee) (reaches : design.Reaches callee last) :
    last ∉ active := by
  induction reaches generalizing active module with
  | refl callee =>
    obtain ⟨caller, inner, callerFound, member, rfl⟩ := call
    rw [found] at callerFound
    cases callerFound
    obtain ⟨next, nextFound, inactive, _⟩ := unfolds.of_mem member
    rwa [name_of_find? nextFound] at inactive
  | step nextCall _ ih =>
    obtain ⟨caller, inner, callerFound, member, rfl⟩ := call
    rw [found] at callerFound
    cases callerFound
    obtain ⟨next, nextFound, _, below⟩ := unfolds.of_mem member
    have same := name_of_find? nextFound
    have absent := ih below (by rw [same, nextFound]) (by rwa [same])
    exact fun isActive => absent (List.mem_cons_of_mem _ isActive)

/-- Whatever a module that unfolds reaches unfolds too, on top of more active modules. -/
theorem Unfolds.exists_of_reaches {active : List String} {first last : String} {module : Module}
    (found : design.find? first = some module)
    (unfolds : design.Unfolds (first :: active) module.instances)
    (reaches : design.Reaches first last) :
    ∃ others reached, design.find? last = some reached ∧
      design.Unfolds (last :: others) reached.instances := by
  induction reaches generalizing active module with
  | refl name => exact ⟨active, module, found, unfolds⟩
  | step call _ ih =>
    obtain ⟨caller, inner, callerFound, member, rfl⟩ := call
    rw [found] at callerFound
    cases callerFound
    obtain ⟨next, nextFound, _, below⟩ := unfolds.of_mem member
    rw [name_of_find? nextFound] at below
    exact ih nextFound below

/-- A module that unfolds reaches no recursive one. -/
theorem Unfolds.not_isRecursiveBelow {name : String} {module : Module}
    (found : design.find? name = some module) (unfolds : design.Unfolds [name] module.instances) :
    ¬ design.IsRecursiveBelow name := by
  rintro ⟨recursive, next, reaches, call, returns⟩
  obtain ⟨others, reached, reachedFound, below⟩ := unfolds.exists_of_reaches found reaches
  have same := name_of_find? reachedFound
  rw [← same] at call
  have absent := below.notMem_of_reaches (by rw [same, reachedFound]) call returns
  exact absent List.mem_cons_self

/-! ### Flattening -/

/-- The result of flattening a module is that of expanding its instances. -/
theorem flattenModule_of_find? {name : String} {top : Module}
    (found : design.find? name = some top) :
    (∀ error, (design.flattenModule name).result = .error error ↔
      (design.expand [name] ⟨.top, design.allocator.next⟩ top.instances).result = .error error) ∧
    ∀ circuit, (design.flattenModule name).result = .ok circuit →
      design.Unfolds [name] top.instances := by
  have same := name_of_find? found
  rw [flattenModule, findTop, found, ← same]
  constructor
  · intro error
    rw [Report.result_bind_eq_error_iff]
    refine ⟨fun failed => failed.resolve_right ?_, Or.inl⟩
    rintro ⟨_, _, ⟨⟩⟩
  · intro circuit flattened
    obtain ⟨_, expanded, _⟩ := Report.result_bind_eq_ok_iff.1 flattened
    exact unfolds_of_expand expanded

/-- A module of a resolved design is refused as recursive exactly if a module that can be
reached from it instantiates itself, directly or through others, and is flattened otherwise.
The error tells a chain of instantiations from the module on, which ends with the module that
it names and has come through it before. -/
theorem flattenModule_recursiveInstance_iff (resolved : design.IsResolved) {name : String}
    (contained : design.contains name = true) :
    ((∃ module path, (design.flattenModule name).result =
        .error (.recursiveInstance module path)) ↔ design.IsRecursiveBelow name) ∧
      (¬ design.IsRecursiveBelow name →
        ∃ circuit, (design.flattenModule name).result = .ok circuit) ∧
      ∀ module path,
        (design.flattenModule name).result = .error (.recursiveInstance module path) →
          design.ClosesCircle name path module := by
  obtain ⟨top, found⟩ : ∃ top, design.find? name = some top := by
    rw [← Option.isSome_iff_exists, find?, List.find?_isSome]
    simpa [contains] using contained
  have same := name_of_find? found
  obtain ⟨errors, unfolds⟩ := flattenModule_of_find? found
  have circles : ∀ error, (design.flattenModule name).result = .error error →
      ∃ module path, error = .recursiveInstance module path ∧
        design.ClosesCircle name path module := by
    intro error failed
    have expansionFailed := (errors error).1 failed
    rw [← same] at expansionFailed found ⊢
    exact closesCircle_of_expand resolved.isClosed found (List.Subset.refl _)
      (IsStack.singleton top.name) expansionFailed
  have succeeds : ¬ design.IsRecursiveBelow name →
      ∃ circuit, (design.flattenModule name).result = .ok circuit := by
    intro acyclic
    cases outcome : (design.flattenModule name).result with
    | ok circuit => exact ⟨circuit, rfl⟩
    | error error =>
      obtain ⟨_, _, _, circle⟩ := circles error outcome
      exact absurd circle.isRecursiveBelow acyclic
  have closes : ∀ module path,
      (design.flattenModule name).result = .error (.recursiveInstance module path) →
        design.ClosesCircle name path module := by
    intro module path failed
    obtain ⟨_, _, sameError, circle⟩ := circles _ failed
    cases sameError
    exact circle
  refine ⟨⟨?_, ?_⟩, succeeds, closes⟩
  · rintro ⟨module, path, failed⟩
    exact (closes module path failed).isRecursiveBelow
  · intro recursive
    cases outcome : (design.flattenModule name).result with
    | ok circuit =>
      exact absurd recursive (Unfolds.not_isRecursiveBelow found (unfolds circuit outcome))
    | error error =>
      obtain ⟨module, path, rfl, _⟩ := circles error outcome
      exact ⟨module, path, rfl⟩

/-- A design whose top uses a leaf twice, by itself and within a word. The word also uses a
frame, and the frame a word again. -/
def nestedWords : Design :=
  ⟨⟨.boolean, ["entry", "exit", "lead", "tail"], by decide, by decide⟩,
    [⟨"top", .boolean, [2], [3], [],
      [⟨"leaf", [⟨2, 4⟩], [⟨2, 4⟩], []⟩, ⟨"word", [⟨2, 4⟩, ⟨3, 5⟩], [⟨2, 4⟩], [⟨3, 5⟩]⟩]⟩,
      ⟨"word", .boolean, [4], [5], [],
        [⟨"leaf", [⟨4, 4⟩], [⟨4, 4⟩], []⟩, ⟨"frame", [⟨4, 4⟩], [⟨4, 4⟩], []⟩]⟩,
      ⟨"frame", .boolean, [4], [], [], [⟨"leaf", [], [], []⟩, ⟨"word", [⟨4, 4⟩], [⟨4, 4⟩], []⟩]⟩,
      ⟨"leaf", .boolean, [4], [5], [⟨.inv, [4], 5⟩], []⟩],
    some "top", true⟩

/-- The top is refused, although it is not recursive itself: a word leads to itself. The leaf,
which is used more than once, is flattened. -/
theorem flattenModule_recursiveInstance_iff_nestedWords :
    nestedWords.IsResolved ∧
      (nestedWords.flattenModule "top").result =
        .error (.recursiveInstance "word" ["top", "word", "frame", "word"]) ∧
      nestedWords.ClosesCircle "top" ["top", "word", "frame", "word"] "word" ∧
      nestedWords.IsRecursiveBelow "top" ∧ ¬ nestedWords.IsRecursiveBelow "leaf" := by
  have resolved : nestedWords.IsResolved := by decide
  -- a leaf succeeds, and the frame meets the active word behind it, whatever wires are in use
  have behindLeaf : ∀ {active pairings inputs outputs rest error} (caller : Numbering),
      "leaf" ∉ active →
        (∀ numbering, (nestedWords.expand active numbering rest).result = .error error) →
          (nestedWords.expand active caller
            (⟨"leaf", pairings, inputs, outputs⟩ :: rest)).result = .error error := by
    intro active pairings inputs outputs rest error caller inactive behind
    rw [result_expand_cons rfl inactive rfl rfl, result_expand_nil, Except.bind, behind]
    rfl
  have atFrame : ∀ numbering, (nestedWords.expand ["frame", "word", "top"] numbering
      [⟨"leaf", [], [], []⟩, ⟨"word", [⟨4, 4⟩], [⟨4, 4⟩], []⟩]).result =
        .error (.recursiveInstance "word" ["top", "word", "frame", "word"]) := by
    refine fun numbering => behindLeaf numbering (by decide) fun next => ?_
    refine (result_expand_cons_of_mem rfl ?isActive).trans ?same
    case isActive => decide
    case same => rfl
  have atWord : ∀ numbering, (nestedWords.expand ["word", "top"] numbering
      [⟨"leaf", [⟨4, 4⟩], [⟨4, 4⟩], []⟩, ⟨"frame", [⟨4, 4⟩], [⟨4, 4⟩], []⟩]).result =
        .error (.recursiveInstance "word" ["top", "word", "frame", "word"]) := by
    refine fun numbering => behindLeaf numbering (by decide) fun next => ?_
    rw [result_expand_cons rfl (by decide) rfl rfl, atFrame]
    rfl
  have failed : (nestedWords.flattenModule "top").result =
      .error (.recursiveInstance "word" ["top", "word", "frame", "word"]) := by
    refine ((flattenModule_of_find? rfl).1 _).2 (behindLeaf _ (by decide) fun next => ?_)
    rw [result_expand_cons rfl (by decide) rfl rfl, atWord]
    rfl
  obtain ⟨refused, _, closes⟩ :=
    flattenModule_recursiveInstance_iff resolved (show nestedWords.contains "top" = true by decide)
  obtain ⟨leafRefused, _⟩ :=
    flattenModule_recursiveInstance_iff resolved (show nestedWords.contains "leaf" = true by decide)
  refine ⟨resolved, failed, closes _ _ failed, refused.1 ⟨_, _, failed⟩, fun recursive => ?_⟩
  -- a leaf has no instances that could fail
  obtain ⟨_, _, leafFailed⟩ := leafRefused.2 recursive
  have expansionFailed := ((flattenModule_of_find? rfl).1 _).1 leafFailed
  rw [result_expand_nil] at expansionFailed
  cases expansionFailed

end Design

end Netlist
