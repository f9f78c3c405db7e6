import Netlist.Blif.Reader
import Netlist.Proofs.Allocation
import Netlist.Proofs.Bookkeeping

/-!
# Designs read from BLIF

A sound reader (`Reader.IsSound`) numbers all wires that its modules name, gives gates
as many inputs as their operators take, binds no pin of an instance twice, and only ever
adds to a module. Every record leaves a sound reader sound, whether or not it is refused
(`Reader.Keeps`). So the design that is read in the end is well formed, and its instances
bind each wire of a callee once (`isWellFormed_of_readTexts`).
-/

namespace Netlist.Blif

/-- What a reader sees to in every module and in the sets that it keeps beside it. -/
structure IsSoundModule (allocator : Allocator) (module : Module) (sets : WireSets) : Prop where
  numbered : module.IsNumberedBy allocator
  arity : ∀ gate ∈ module.gates, ∀ arity ∈ gate.operator.arity?, gate.inputs.length = arity
  bindsOnce : ∀ inner ∈ module.instances, (inner.pairings.map Pairing.callee).Nodup
  grows : module.Grows sets

namespace IsSoundModule

variable {allocator last : Allocator} {module : Module} {sets : WireSets}

theorem empty (allocator : Allocator) (name : String) :
    IsSoundModule allocator (Module.empty name allocator.domain) .empty := by
  constructor
  · exact Module.IsNumberedBy.empty allocator name
  · exact List.forall_mem_nil _
  · exact List.forall_mem_nil _
  · exact .empty name allocator.domain

theorem of_extends (sound : IsSoundModule allocator module sets)
    (extension : allocator.Extends last) : IsSoundModule last module sets :=
  ⟨sound.numbered.of_extends extension, sound.arity, sound.bindsOnce, sound.grows⟩

theorem addInput (sound : IsSoundModule allocator module sets) {wire : Wire}
    (allocated : wire < allocator.next) : IsSoundModule allocator (module.addInput wire) sets :=
  ⟨sound.numbered.addInput allocated, sound.arity, sound.bindsOnce, sound.grows.addInput wire⟩

theorem addOutput (sound : IsSoundModule allocator module sets) {wire : Wire}
    (allocated : wire < allocator.next) : IsSoundModule allocator (module.addOutput wire) sets :=
  ⟨sound.numbered.addOutput allocated, sound.arity, sound.bindsOnce, sound.grows.addOutput wire⟩

theorem addGate (sound : IsSoundModule allocator module sets) {gate : Gate}
    (allocated : allocator.Covers gate.wires)
    (arity : ∀ arity ∈ gate.operator.arity?, gate.inputs.length = arity) :
    IsSoundModule allocator (module.addGate gate) (sets.addGate gate) := by
  constructor
  · exact sound.numbered.addGate allocated
  · intro other member
    rcases List.mem_append.1 member with old | new
    · exact sound.arity other old
    · rw [List.mem_singleton.1 new]
      exact arity
  · exact sound.bindsOnce
  · exact sound.grows.addGate gate

theorem addInstance (sound : IsSoundModule allocator module sets) {inner : Instance}
    (allocated : allocator.CoversPairings inner.pairings)
    (once : (inner.pairings.map Pairing.callee).Nodup) :
    IsSoundModule allocator (module.addInstance inner) sets := by
  constructor
  · exact sound.numbered.addInstance allocated
  · exact sound.arity
  · intro other member
    rcases List.mem_append.1 member with old | new
    · exact sound.bindsOnce other old
    · rw [List.mem_singleton.1 new]
      exact once
  · exact sound.grows.addInstance inner

end IsSoundModule

namespace Reader

/-- The allocator that numbers the wires. -/
def allocator (reader : Reader) : Allocator :=
  reader.design.allocator

/-- All modules are sound, the one that is open included, and no two of them have one
name. -/
structure IsSound (reader : Reader) : Prop where
  modules : List.Forall₂ (IsSoundModule reader.allocator) reader.design.modules reader.sets
  current : ∀ module ∈ reader.current, IsSoundModule reader.allocator module reader.openSets
  names : (reader.design.modules.map Module.name).Nodup
  isNew : ∀ module ∈ reader.current, reader.design.contains module.name = false

theorem isSound_start (allocator : Allocator) : (start allocator).IsSound := by
  constructor
  · exact .nil
  · intro module isCurrent
    cases isCurrent
  · exact List.nodup_nil
  · intro module isCurrent
    cases isCurrent

theorem IsSound.exists_isSoundModule {reader : Reader} (sound : reader.IsSound) {module : Module}
    (member : module ∈ reader.design.modules) :
    ∃ sets, IsSoundModule reader.allocator module sets := by
  obtain ⟨sets, _, isSound⟩ := exists_of_mem_right sound.modules.flip member
  exact ⟨sets, isSound⟩

/-! ### Steps one after the other -/

section

variable {α β : Type}

theorem bind_of_ok {step : Step α} {next : α → Step β} {first middle : Reader} {value : α}
    (stepped : step first = (.ok value, middle)) : (step >>= next) first = next value middle := by
  change (match step first with
    | (result, middle) => ExceptT.bindCont next result middle) = _
  rw [stepped]
  rfl

theorem bind_of_error {step : Step α} {next : α → Step β} {first last : Reader} {error : Error}
    (stepped : step first = (.error error, last)) :
    (step >>= next) first = (.error error, last) := by
  change (match step first with
    | (result, middle) => ExceptT.bindCont next result middle) = _
  rw [stepped]
  rfl

/-- Steps succeed one after the other if each of them does. -/
theorem bind_eq_ok_iff {step : Step α} {next : α → Step β} {first last : Reader} {result : β} :
    (step >>= next) first = (.ok result, last) ↔
      ∃ value middle, step first = (.ok value, middle) ∧
        next value middle = (.ok result, last) := by
  constructor
  · intro done
    cases stepped : step first with
    | mk outcome middle =>
      cases outcome with
      | error error =>
        rw [bind_of_error stepped] at done
        cases done
      | ok value => exact ⟨value, middle, rfl, (bind_of_ok stepped).symm.trans done⟩
  · rintro ⟨value, middle, stepped, done⟩
    rw [bind_of_ok stepped, done]

theorem forM_append_eq_ok_iff {step : α → Step PUnit} {items others : List α}
    {first last : Reader} :
    (items ++ others).forM step first = (.ok ⟨⟩, last) ↔
      ∃ middle, items.forM step first = (.ok ⟨⟩, middle) ∧
        others.forM step middle = (.ok ⟨⟩, last) := by
  rw [List.forM_eq_forM, List.forM_append, bind_eq_ok_iff]
  constructor
  · rintro ⟨_, middle, stepped, done⟩
    exact ⟨middle, stepped, done⟩
  · rintro ⟨middle, stepped, done⟩
    exact ⟨⟨⟩, middle, stepped, done⟩

end

/-! ### Steps that keep readers sound -/

/-- From a sound reader the step leads to a sound one, and never forgets a wire, even if
it fails. The value of a step that succeeds is good for the reader it ends with. -/
def Keeps {α : Type} (first : Reader) (step : Step α) (good : Reader → α → Prop) : Prop :=
  first.IsSound → ∀ outcome last, step first = (outcome, last) →
    first.allocator.Extends last.allocator ∧ last.IsSound ∧
      ∀ value, outcome = .ok value → good last value

namespace Keeps

variable {α β : Type} {first : Reader}

/-- A step that leaves the reader as it is. -/
theorem unchanged {step : Step α} {outcome : Except Error α} {good : Reader → α → Prop}
    (same : step first = (outcome, first))
    (isGood : first.IsSound → ∀ value, outcome = .ok value → good first value) :
    Keeps first step good := by
  intro sound other last done
  cases same.symm.trans done
  exact ⟨Allocator.Extends.refl _, sound, isGood sound⟩

theorem setting {last : Reader} {good : Reader → PUnit → Prop}
    (extension : first.allocator.Extends last.allocator)
    (keeps : first.IsSound → last.IsSound) (isGood : good last ⟨⟩) :
    Keeps first (set last : Step PUnit) good := by
  intro sound outcome other done
  cases done
  exact ⟨extension, keeps sound, fun _ _ => isGood⟩

theorem modifying {change : Reader → Reader} {good : Reader → PUnit → Prop}
    (extension : first.allocator.Extends (change first).allocator)
    (keeps : first.IsSound → (change first).IsSound) (isGood : good (change first) ⟨⟩) :
    Keeps first (modify change : Step PUnit) good :=
  setting extension keeps isGood

theorem pure {good : Reader → α → Prop} {value : α}
    (isGood : first.IsSound → good first value) :
    Keeps first (Pure.pure value : Step α) good := by
  apply unchanged rfl
  rintro sound _ ⟨⟩
  exact isGood sound

theorem bind {step : Step α} {next : α → Step β} {good : Reader → α → Prop}
    {good' : Reader → β → Prop} (start : Keeps first step good)
    (rest : ∀ middle value, first.allocator.Extends middle.allocator → good middle value →
      Keeps middle (next value) good') :
    Keeps first (step >>= next) good' := by
  intro sound outcome last done
  cases stepped : step first with
  | mk result middle =>
    obtain ⟨toMiddle, middleSound, isGood⟩ := start sound result middle stepped
    cases result with
    | error error =>
      cases (bind_of_error stepped).symm.trans done
      exact ⟨toMiddle, middleSound, nofun⟩
    | ok value =>
      rw [bind_of_ok stepped] at done
      obtain ⟨toLast, lastSound, resultGood⟩ :=
        rest middle value toMiddle (isGood value rfl) middleSound outcome last done
      exact ⟨toMiddle.trans toLast, lastSound, resultGood⟩

theorem mono {step : Step α} {good good' : Reader → α → Prop} (keeps : Keeps first step good)
    (weaker : ∀ last value, good last value → good' last value) : Keeps first step good' := by
  intro sound outcome last done
  obtain ⟨extension, lastSound, isGood⟩ := keeps sound outcome last done
  exact ⟨extension, lastSound, fun value same => weaker last value (isGood value same)⟩

theorem fail {error : Error} {good : Reader → α → Prop} :
    Keeps first (throw error : Step α) good := by
  apply unchanged rfl
  rintro _ _ ⟨⟩

/-- What does not read or change the reader. -/
theorem lift {outcome : Except Error α} :
    Keeps first (liftM outcome : Step α) fun last value => last = first ∧ outcome = .ok value := by
  apply unchanged
  · cases outcome <;> rfl
  · exact fun _ _ same => ⟨rfl, same⟩

theorem get : Keeps first (MonadState.get : Step Reader) fun last value =>
    last = first ∧ value = first := by
  apply unchanged rfl
  rintro _ _ ⟨⟩
  exact ⟨rfl, rfl⟩

/-- There is one value for each item, and each of them stays good while the next ones
are made. -/
theorem mapM {items : List α} {step : α → Step β} {good : Reader → β → Prop}
    (stays : ∀ middle last value, middle.allocator.Extends last.allocator →
      good middle value → good last value)
    (each : ∀ middle, ∀ item ∈ items, Keeps middle (step item) good) :
    Keeps first (items.mapM step) fun last values =>
      values.length = items.length ∧ ∀ value ∈ values, good last value := by
  induction items generalizing first with
  | nil =>
    rw [List.mapM_nil]
    exact pure fun _ => ⟨rfl, List.forall_mem_nil _⟩
  | cons item rest ih =>
    rw [List.mapM_cons]
    apply bind (each first item List.mem_cons_self)
    intro middle value _ isGood
    apply bind (ih fun later other member => each later other (List.mem_cons_of_mem _ member))
    rintro last values toLast ⟨length, allGood⟩
    apply pure
    intro _
    constructor
    · rw [List.length_cons, length, List.length_cons]
    · exact List.forall_mem_cons.2 ⟨stays middle last value toLast isGood, allGood⟩

theorem forM {items : List α} {step : α → Step PUnit}
    (each : ∀ middle, ∀ item ∈ items, Keeps middle (step item) fun _ _ => True) :
    Keeps first (items.forM step) fun _ _ => True := by
  induction items generalizing first with
  | nil => exact pure fun _ => trivial
  | cons item rest ih =>
    apply bind (each first item List.mem_cons_self)
    intro middle _ _ _
    exact ih fun later other member => each later other (List.mem_cons_of_mem _ member)

end Keeps

/-- The expected line of a truth table and the line number do not matter. -/
theorem IsSound.congr {first last : Reader} (sound : first.IsSound)
    (design : last.design = first.design) (current : last.current = first.current)
    (sets : last.sets = first.sets) (openSets : last.openSets = first.openSets) :
    last.IsSound := by
  have sameAllocator : last.allocator = first.allocator := congrArg Design.allocator design
  constructor
  · rw [sameAllocator, design, sets]
    exact sound.modules
  · rw [sameAllocator, current, openSets]
    exact sound.current
  · rw [design]
    exact sound.names
  · rw [current, design]
    exact sound.isNew

/-- A sound reader stays sound while wires are numbered. -/
theorem IsSound.of_extends {reader : Reader} (sound : reader.IsSound) {allocator : Allocator}
    (extension : reader.allocator.Extends allocator) :
    IsSound { reader with design := { reader.design with allocator } } := by
  constructor
  · exact sound.modules.imp fun _ _ isSound => isSound.of_extends extension
  · exact fun module isCurrent => (sound.current module isCurrent).of_extends extension
  · exact sound.names
  · exact sound.isNew

/-- A sound reader stays sound when a sound module of a new name is the open one. -/
theorem IsSound.setCurrent {reader : Reader} (sound : reader.IsSound) {module : Module}
    {openSets : WireSets} (moduleSound : IsSoundModule reader.allocator module openSets)
    (isNew : reader.design.contains module.name = false) :
    IsSound { reader with current := some module, openSets } := by
  constructor
  · exact sound.modules
  · rintro _ ⟨⟩
    exact moduleSound
  · exact sound.names
  · rintro _ ⟨⟩
    exact isNew

variable {first : Reader}

theorem keeps_setAllocator {allocator : Allocator}
    (extension : first.allocator.Extends allocator) :
    Keeps first (set { first with design := { first.design with allocator } } : Step PUnit)
      fun last _ => last.allocator = allocator :=
  Keeps.setting extension (fun sound => sound.of_extends extension) rfl

theorem keeps_wireOf (name : String) :
    Keeps first (wireOf name) fun last wire => last.allocator.nameOf wire = some name := by
  apply Keeps.bind Keeps.get
  rintro _ reader - ⟨rfl, rfl⟩
  apply Keeps.bind Keeps.lift
  rintro _ ⟨wire, allocator⟩ - ⟨rfl, allocated⟩
  obtain ⟨extension, named⟩ := Allocator.allocate_eq_ok allocated
  apply Keeps.bind (keeps_setAllocator extension)
  rintro last - - rfl
  exact Keeps.pure fun _ => named

theorem keeps_refuse {α : Type} {good : Reader → α → Prop} (line : Nat) (fault : Fault) :
    Keeps first (refuse line fault : Step α) good :=
  Keeps.fail

theorem keeps_refuse_bind {α β : Type} {good : Reader → β → Prop} (line : Nat) (fault : Fault)
    (next : α → Step β) : Keeps first (refuse line fault >>= next) good :=
  Keeps.fail

theorem keeps_openModule (line : Nat) :
    Keeps first (openModule line) fun last module =>
      last = first ∧ first.current = some module := by
  apply Keeps.bind Keeps.get
  rintro _ reader - ⟨rfl, rfl⟩
  split
  · rename_i module isOpen
    exact Keeps.pure fun _ => ⟨rfl, isOpen⟩
  · exact keeps_refuse _ _

/-- A change of the open model and its sets that keeps them sound, and the name. -/
theorem keeps_updateModule (line : Nat) {change : Module → Module} {keep : WireSets → WireSets}
    (keeps : ∀ module sets, IsSoundModule first.allocator module sets →
      IsSoundModule first.allocator (change module) (keep sets))
    (names : ∀ module, (change module).name = module.name) :
    Keeps first (updateModule line change keep) fun _ _ => True := by
  apply Keeps.bind (keeps_openModule line)
  rintro _ module - ⟨rfl, isOpen⟩
  apply Keeps.modifying (Allocator.Extends.refl _) _ trivial
  intro sound
  apply sound.setCurrent (keeps module _ (sound.current module isOpen))
  rw [names]
  exact sound.isNew module isOpen

/-- A gate whose wires have been allocated joins the open model. -/
theorem keeps_appendGate (line : Nat) {gate : Gate} (allocated : first.allocator.Covers gate.wires)
    (arity : ∀ arity ∈ gate.operator.arity?, gate.inputs.length = arity) :
    Keeps first (appendGate line gate) fun _ _ => True :=
  keeps_updateModule line (fun _ _ sound => sound.addGate allocated arity) fun _ => rfl

theorem keeps_expectCover (cover : Option String) :
    Keeps first (expectCover cover) fun _ _ => True :=
  Keeps.modifying (Allocator.Extends.refl _) (fun sound => sound.congr rfl rfl rfl rfl) trivial

theorem keeps_setLine (line : Nat) :
    Keeps first (modify fun reader => { reader with lastLine := line } : Step PUnit)
      fun _ _ => True :=
  Keeps.modifying (Allocator.Extends.refl _) (fun sound => sound.congr rfl rfl rfl rfl) trivial

theorem keeps_beginModel (line : Nat) (args : List String) :
    Keeps first (beginModel line args) fun _ _ => True := by
  apply Keeps.bind Keeps.get
  rintro _ reader - ⟨rfl, rfl⟩
  split
  · exact keeps_refuse _ _
  · rename_i name _
    split
    · exact keeps_refuse _ _
    · rename_i isNew
      apply Keeps.setting
      · exact Allocator.Extends.refl _
      · intro sound
        exact sound.setCurrent (IsSoundModule.empty _ name) (Bool.eq_false_iff.2 isNew)
      · trivial
  · exact keeps_refuse _ _

/-- Ports are added one after the other. -/
theorem isSoundModule_foldl {allocator : Allocator} {add : Module → Wire → Module}
    {sets : WireSets} (keeps : ∀ module wire, IsSoundModule allocator module sets →
      wire < allocator.next → IsSoundModule allocator (add module wire) sets) {wires : List Wire}
    (covered : allocator.Covers wires) {module : Module}
    (sound : IsSoundModule allocator module sets) :
    IsSoundModule allocator (wires.foldl add module) sets := by
  induction wires generalizing module with
  | nil => exact sound
  | cons wire rest ih =>
    obtain ⟨allocated, others⟩ := List.forall_mem_cons.1 covered
    exact ih others (keeps module wire sound allocated)

theorem name_foldl {add : Module → Wire → Module}
    (names : ∀ module wire, (add module wire).name = module.name) (wires : List Wire)
    (module : Module) : (wires.foldl add module).name = module.name := by
  induction wires generalizing module with
  | nil => rfl
  | cons wire rest ih => rw [List.foldl_cons, ih, names]

theorem keeps_wireOf_lt (name : String) :
    Keeps first (wireOf name) fun last wire => wire < last.allocator.next := by
  apply (keeps_wireOf name).mono
  exact fun _ _ named => Allocator.lt_next_of_nameOf named

theorem lt_next_of_extends (middle last : Reader) (wire : Wire)
    (extension : middle.allocator.Extends last.allocator)
    (allocated : wire < middle.allocator.next) : wire < last.allocator.next :=
  Nat.lt_of_lt_of_le allocated extension.next_le

theorem keeps_wires (names : List String) :
    Keeps first (names.mapM wireOf) fun last wires => last.allocator.Covers wires := by
  apply (Keeps.mapM lt_next_of_extends fun _ name _ => keeps_wireOf_lt name).mono
  exact fun _ _ good => good.2

theorem keeps_declarePorts (line : Nat) {add : Module → Wire → Module}
    (keeps : ∀ allocator sets module wire, IsSoundModule allocator module sets →
      wire < allocator.next → IsSoundModule allocator (add module wire) sets)
    (names : ∀ module wire, (add module wire).name = module.name) (args : List String) :
    Keeps first (declarePorts line add args) fun _ _ => True := by
  apply Keeps.bind (keeps_wires _)
  intro middle wires _ covered
  apply keeps_updateModule
  · exact fun module sets sound => isSoundModule_foldl (keeps _ sets) covered sound
  · exact name_foldl names wires

theorem keeps_boundWires (line : Nat) (bindings : List String) :
    Keeps first (boundWires line bindings) fun last wires =>
      wires.length = bindings.length ∧ last.allocator.Covers wires := by
  apply Keeps.mapM lt_next_of_extends
  intro middle token _
  apply Keeps.bind Keeps.lift
  rintro _ ⟨pin, name⟩ - -
  exact keeps_wireOf_lt name

/-- The last of the wires of a gate is its output. -/
theorem covers_gate {allocator : Allocator} {wires : List Wire}
    (covered : allocator.Covers wires) (nonempty : wires ≠ []) (operator : Operator) :
    allocator.Covers (Gate.wires ⟨operator, wires.dropLast, wires.getLastD 0⟩) := by
  rw [Gate.wires, List.getLastD_eq_getLast?, List.getLast?_eq_some_getLast nonempty,
    Option.getD_some, List.dropLast_append_getLast nonempty]
  exact covered

theorem keeps_addGate (line : Nat) (args : List String) :
    Keeps first (addGate line args) fun _ _ => True := by
  unfold addGate
  split
  · rename_i operatorName token rest
    apply Keeps.bind (keeps_boundWires line _)
    rintro middle wires _ ⟨length, covered⟩
    have gateCovered := covers_gate covered
      (List.ne_nil_of_length_pos (length ▸ Nat.succ_pos _)) (Operator.ofName operatorName)
    simp only
    split
    · rename_i arity takes
      split
      · exact keeps_refuse_bind _ _ _
      · rename_i enough
        apply keeps_appendGate line gateCovered
        intro other isArity
        rw [Option.mem_def, takes] at isArity
        cases isArity
        exact not_not.1 enough
    · rename_i takes
      apply keeps_appendGate line gateCovered
      intro other isArity
      rw [Option.mem_def, takes] at isArity
      cases isArity
  · exact keeps_refuse _ _

/-- The pins of the pairings are new, and none of them is bound twice. -/
theorem keeps_pairings (line : Nat) (seen tokens : List String) :
    Keeps first (pairings line seen tokens) fun last pairings =>
      last.allocator.CoversPairings pairings ∧ (pairings.map Pairing.callee).Nodup ∧
        ∀ pairing ∈ pairings, ∃ pin, last.allocator.nameOf pairing.callee = some pin ∧
          pin ∉ seen := by
  induction tokens generalizing first seen with
  | nil =>
    apply Keeps.pure
    exact fun _ => ⟨List.forall_mem_nil _, List.nodup_nil, List.forall_mem_nil _⟩
  | cons token rest ih =>
    apply Keeps.bind Keeps.lift
    rintro _ ⟨pin, name⟩ - -
    dsimp only
    split
    · exact keeps_refuse_bind _ _ _
    · rename_i isNew
      apply Keeps.bind (keeps_wireOf pin)
      intro second callee _ calleeNamed
      apply Keeps.bind (keeps_wireOf_lt name)
      intro third caller toThird callerAllocated
      apply Keeps.bind (ih (pin :: seen))
      rintro last others toLast ⟨covered, once, names⟩
      have calleeNamed := toLast.nameOf (toThird.nameOf calleeNamed)
      apply Keeps.pure
      intro _
      refine ⟨?_, ?_, ?_⟩
      · exact Allocator.coversPairings_cons_iff.2
          ⟨⟨lt_next_of_extends _ _ _ toLast callerAllocated,
            Allocator.lt_next_of_nameOf calleeNamed⟩, covered⟩
      · rw [List.map_cons, List.nodup_cons]
        refine ⟨?_, once⟩
        intro member
        obtain ⟨other, otherMember, same⟩ := List.mem_map.1 member
        obtain ⟨otherPin, otherNamed, notSeen⟩ := names other otherMember
        rw [same, calleeNamed] at otherNamed
        cases otherNamed
        exact notSeen List.mem_cons_self
      · intro other member
        rcases List.mem_cons.1 member with rfl | inRest
        · exact ⟨pin, calleeNamed, isNew⟩
        · obtain ⟨otherPin, otherNamed, notSeen⟩ := names other inRest
          exact ⟨otherPin, otherNamed, fun isSeen => notSeen (List.mem_cons_of_mem _ isSeen)⟩

theorem keeps_addInstance (line : Nat) (args : List String) :
    Keeps first (addInstance line args) fun _ _ => True := by
  unfold addInstance
  split
  · exact keeps_refuse _ _
  · apply Keeps.bind (keeps_pairings line [] _)
    rintro middle pairings _ ⟨covered, once, _⟩
    apply keeps_updateModule
    · exact fun module sets sound => sound.addInstance covered once
    · exact fun _ => rfl

theorem keeps_addBuffer (line : Nat) (source target : String) :
    Keeps first (addBuffer line source target) fun _ _ => True := by
  apply Keeps.bind (keeps_wireOf_lt source)
  intro middle sourceWire _ sourceAllocated
  apply Keeps.bind (keeps_wireOf_lt target)
  intro last targetWire extension targetAllocated
  apply keeps_appendGate
  · exact Allocator.covers_cons_iff.2 ⟨lt_next_of_extends _ _ _ extension sourceAllocated,
      Allocator.covers_cons_iff.2 ⟨targetAllocated, List.forall_mem_nil _⟩⟩
  · rintro _ ⟨⟩
    rfl

theorem keeps_addNames (line : Nat) (args : List String) :
    Keeps first (addNames line args) fun _ _ => True := by
  unfold addNames
  split
  · apply Keeps.bind (keeps_addBuffer line _ _)
    exact fun _ _ _ _ => keeps_expectCover _
  · split
    · apply Keeps.bind (keeps_openModule line)
      rintro _ module - -
      split
      · exact keeps_expectCover _
      · exact Keeps.pure fun _ => trivial
    · exact keeps_refuse _ _
  · exact keeps_refuse _ _

theorem keeps_addConnection (line : Nat) (args : List String) :
    Keeps first (addConnection line args) fun _ _ => True := by
  unfold addConnection
  split
  · exact keeps_addBuffer line _ _
  · exact keeps_refuse _ _

/-- The allocator stays when a model is added. -/
theorem allocator_commit (reader : Reader) (module : Module) :
    (reader.commit module).allocator = reader.allocator :=
  Design.allocator_insert _ _

theorem sets_commit {reader : Reader} {module : Module}
    (isNew : reader.design.contains module.name = false) :
    (reader.commit module).sets = reader.sets ++ [reader.openSets] :=
  if_neg (Bool.eq_false_iff.1 isNew)

/-- The open model joins the others, and its sets join theirs. -/
theorem IsSound.commit {reader : Reader} (sound : reader.IsSound) {module : Module}
    (isOpen : reader.current = some module) : (reader.commit module).IsSound := by
  have isNew := sound.isNew module isOpen
  have modules : (reader.commit module).design.modules = reader.design.modules ++ [module] :=
    Design.modules_insert isNew
  constructor
  · rw [allocator_commit, modules, sets_commit isNew]
    exact List.rel_append sound.modules (.cons (sound.current module isOpen) .nil)
  · rintro _ ⟨⟩
  · rw [modules]
    exact Design.nodup_names_append sound.names isNew
  · rintro _ ⟨⟩

theorem keeps_endModel (line : Nat) : Keeps first (endModel line) fun _ _ => True := by
  apply Keeps.bind Keeps.get
  rintro _ reader - ⟨rfl, rfl⟩
  split
  · rename_i module isOpen
    apply Keeps.setting _ (fun sound => sound.commit isOpen) trivial
    rw [allocator_commit]
    exact Allocator.Extends.refl _
  · exact keeps_refuse _ _

theorem keeps_takeCover (line : Nat) (cover : String) :
    Keeps first (takeCover line cover) fun _ _ => True := by
  apply Keeps.bind Keeps.get
  rintro _ reader - -
  split
  · exact keeps_expectCover _
  · exact keeps_refuse _ _

theorem keeps_takeKeyword (line : Nat) (keyword : String) (args : List String) :
    Keeps first (takeKeyword line keyword args) fun _ _ => True := by
  unfold takeKeyword
  split
  · exact keeps_beginModel line args
  · exact keeps_declarePorts line (fun _ _ _ _ sound => sound.addInput) (fun _ _ => rfl) args
  · exact keeps_declarePorts line (fun _ _ _ _ sound => sound.addOutput) (fun _ _ => rfl) args
  · exact keeps_addGate line args
  · exact keeps_addInstance line args
  · exact keeps_addNames line args
  · exact keeps_addConnection line args
  · exact keeps_endModel line
  · exact keeps_refuse _ _

/-- A record leaves a sound reader sound, also if it is refused. -/
theorem keeps_take (record : Record) : Keeps first (take record) fun _ _ => True := by
  apply Keeps.bind (keeps_setLine record.line)
  intro _ _ _ _
  split
  · apply Keeps.bind (keeps_expectCover none)
    exact fun _ _ _ _ => keeps_takeKeyword _ _ _
  · exact keeps_takeCover _ _

theorem keeps_endText : Keeps first endText fun _ _ => True := by
  apply Keeps.bind Keeps.get
  rintro _ reader - -
  split
  · exact keeps_refuse _ _
  · exact keeps_expectCover none

theorem keeps_takeText (text : String) : Keeps first (takeText text) fun _ _ => True := by
  apply Keeps.bind (Keeps.forM fun _ record _ => keeps_take record)
  exact fun _ _ _ _ => keeps_endText

theorem keeps_finish : Keeps first finish fun last design => design = last.design := by
  apply Keeps.bind keeps_endText
  intro middle _ _ _
  apply Keeps.bind Keeps.get
  rintro _ reader - ⟨rfl, rfl⟩
  exact Keeps.pure fun _ => rfl

theorem keeps_texts (texts : List String) :
    Keeps first (do texts.forM takeText; finish) fun last design => design = last.design := by
  apply Keeps.bind (Keeps.forM fun _ text _ => keeps_takeText text)
  exact fun _ _ _ _ => keeps_finish

end Reader

/-- A design that was read was collected from the texts, perhaps asked for another top, and
resolved. -/
theorem exists_run_of_readTexts {allocator : Allocator} {top : Option String}
    {texts : List String} {design : Design}
    (read : readTexts allocator top texts = .ok design) :
    ∃ source last, (do texts.forM Reader.takeText; Reader.finish : Reader.Step Design)
        (Reader.start allocator) = (.ok source, last) ∧
      ∃ asked : Design, asked.allocator = source.allocator ∧
        asked.modules = source.modules ∧ asked.resolved? = .ok design := by
  unfold readTexts at read
  dsimp only at read
  cases done : ExceptT.run (do texts.forM Reader.takeText; Reader.finish)
    (Reader.start allocator) with
  | mk outcome last =>
    rw [done] at read
    cases outcome with
    | error error => cases read
    | ok source =>
      refine ⟨source, last, done, ?_⟩
      cases top with
      | none => exact ⟨source, rfl, rfl, read⟩
      | some name => exact Design.exists_resolved?_of_setTop read

/-- Behind a design that was read stands a sound reader with the same modules, but for
directions. -/
theorem exists_reader_of_readTexts {allocator : Allocator} {top : Option String}
    {texts : List String} {design : Design}
    (read : readTexts allocator top texts = .ok design) :
    ∃ last : Reader, allocator.Extends last.allocator ∧ last.IsSound ∧
      ∃ asked : Design, asked.allocator = last.allocator ∧
        asked.modules = last.design.modules ∧ asked.resolved? = .ok design := by
  obtain ⟨source, last, done, asked⟩ := exists_run_of_readTexts read
  obtain ⟨extension, sound, isDesign⟩ :=
    Reader.keeps_texts texts (Reader.isSound_start allocator) _ _ done
  obtain rfl := isDesign source rfl
  exact ⟨last, extension, sound, asked⟩

/-- A design that was read from BLIF is well formed, binds each wire of a callee once in
every instance, and lies in the domain of the allocator that was given. -/
theorem isWellFormed_of_readTexts {allocator : Allocator} {top : Option String}
    {texts : List String} {design : Design}
    (read : readTexts allocator top texts = .ok design) :
    design.IsWellFormed ∧ design.BindsOnce ∧ design.domain = allocator.domain := by
  obtain ⟨last, extension, sound, asked, sameAllocator, sameModules, resolved⟩ :=
    exists_reader_of_readTexts read
  have each : ∀ module ∈ asked.modules, ∃ sets, IsSoundModule asked.allocator module sets := by
    rw [sameModules, sameAllocator]
    exact fun module => sound.exists_isSoundModule
  refine ⟨?_, ?_, ?_⟩
  · exact Design.isWellFormed_of_resolved? (fun module member =>
      (each module member).elim fun _ isSound => isSound.numbered) resolved
  · exact Design.bindsOnce_of_resolved? (fun module member =>
      (each module member).elim fun _ isSound => isSound.bindsOnce) resolved
  · rw [Design.domain, (Design.resolved?_eq_ok resolved).1, sameAllocator]
    exact extension.domain

end Netlist.Blif
