import Netlist.Proofs.Allocation
import Netlist.Yosys.Reader

/-!
# Designs read from JSON

Every step of reading a JSON netlist only adds to the allocator, and what it makes
refers to allocated wires only (`Numbered.Makes`). A module that was built stays
numbered while the next ones are built, so the design that is read in the end is well
formed (`isWellFormed_of_readText`).
-/

namespace Netlist.Yosys

/-- An action that succeeds only adds to the allocator it starts with, and its value is
good for the allocator it ends with. -/
def Numbered.Makes {α : Type} (first : Allocator) (action : Numbered α)
    (good : Allocator → α → Prop) : Prop :=
  ∀ value last, action first = .ok (value, last) → first.Extends last ∧ good last value

namespace Numbered.Makes

variable {α β : Type} {first : Allocator}

theorem pure {good : Allocator → α → Prop} {value : α} (isGood : good first value) :
    Makes first (Pure.pure value : Numbered α) good := by
  intro other last succeeded
  cases succeeded
  exact ⟨Allocator.Extends.refl _, isGood⟩

theorem bind {action : Numbered α} {next : α → Numbered β} {good : Allocator → α → Prop}
    {good' : Allocator → β → Prop} (start : Makes first action good)
    (rest : ∀ middle value, first.Extends middle → good middle value →
      Makes middle (next value) good') :
    Makes first (action >>= next) good' := by
  intro result last succeeded
  change (action first >>= fun (value, middle) => next value middle) = _ at succeeded
  cases outcome : action first with
  | error error =>
    rw [outcome] at succeeded
    cases succeeded
  | ok pair =>
    obtain ⟨value, middle⟩ := pair
    rw [outcome] at succeeded
    obtain ⟨toMiddle, isGood⟩ := start value middle outcome
    obtain ⟨toLast, resultGood⟩ := rest middle value toMiddle isGood result last succeeded
    exact ⟨toMiddle.trans toLast, resultGood⟩

theorem refuse {fault : Fault} {good : Allocator → α → Prop} :
    Makes first (Yosys.refuse fault : Numbered α) good := by
  intro value last succeeded
  cases succeeded

theorem refuse_bind {fault : Fault} {next : α → Numbered β} {good : Allocator → β → Prop} :
    Makes first (Yosys.refuse fault >>= next) good := by
  intro value last succeeded
  cases succeeded

/-- What does not number wires changes no allocator. -/
theorem lift {outcome : Except Error α} :
    Makes first (liftM outcome : Numbered α) fun last _ => last = first := by
  intro value last succeeded
  cases outcome with
  | error error => cases succeeded
  | ok result =>
    cases succeeded
    exact ⟨Allocator.Extends.refl _, rfl⟩

theorem get : Makes first (MonadState.get : Numbered Allocator) fun last value =>
    last = first ∧ value = first := by
  intro value last succeeded
  cases succeeded
  exact ⟨Allocator.Extends.refl _, rfl, rfl⟩

/-- Each of the values stays good while the next ones are made. -/
theorem mapM {items : List α} {step : α → Numbered β} {good : Allocator → β → Prop}
    (stays : ∀ middle last value, middle.Extends last → good middle value → good last value)
    (each : ∀ middle, ∀ item ∈ items, first.Extends middle → Makes middle (step item) good) :
    Makes first (items.mapM step) fun last values => ∀ value ∈ values, good last value := by
  induction items generalizing first with
  | nil =>
    rw [List.mapM_nil]
    apply pure
    intro value member
    cases member
  | cons item rest ih =>
    rw [List.mapM_cons]
    apply bind (each first item List.mem_cons_self (Allocator.Extends.refl _))
    intro middle value toMiddle isGood
    apply bind (ih fun later other member toLater =>
      each later other (List.mem_cons_of_mem _ member) (toMiddle.trans toLater))
    intro last values toLast allGood
    apply pure
    intro other member
    rcases List.mem_cons.1 member with rfl | inRest
    · exact stays middle last other toLast isGood
    · exact allGood other inRest

/-- Each step keeps the state good. -/
theorem foldlM {items : List α} {step : β → α → Numbered β} {state : β}
    {good : Allocator → β → Prop} (start : good first state)
    (each : ∀ middle state, ∀ item ∈ items, good middle state →
      Makes middle (step state item) good) :
    Makes first (items.foldlM step state) good := by
  induction items generalizing first state with
  | nil =>
    rw [List.foldlM_nil]
    exact pure start
  | cons item rest ih =>
    rw [List.foldlM_cons]
    apply bind (each first state item List.mem_cons_self start)
    intro middle next _ isGood
    exact ih isGood fun later state other member => each later state other
      (List.mem_cons_of_mem _ member)

end Numbered.Makes

open Numbered (Makes)

variable {first : Allocator}

theorem makes_wireNamed (name : String) :
    Makes first (wireNamed name) fun last wire => wire < last.next := by
  intro wire last allocated
  obtain ⟨extension, named⟩ := Allocator.allocate_eq_ok allocated
  exact ⟨extension, Allocator.lt_next_of_nameOf named⟩

theorem makes_wireOf (bit : Bit) :
    Makes first (wireOf bit) fun last wire => wire < last.next := by
  unfold wireOf
  split
  · exact makes_wireNamed _
  · exact makes_wireNamed _
  · exact makes_wireNamed _
  · exact Makes.refuse

theorem makes_wires (bits : List Bit) :
    Makes first (bits.mapM wireOf) Allocator.Covers := by
  apply Makes.mapM
  · intro middle last wire extension allocated
    exact Nat.lt_of_lt_of_le allocated extension.next_le
  · exact fun middle bit _ _ => makes_wireOf bit

theorem makes_declareBit (name direction : String) {module : Module} (bit : Bit)
    (numbered : module.IsNumberedBy first) :
    Makes first (declareBit name direction module bit) fun last module =>
      module.IsNumberedBy last := by
  apply Makes.bind (makes_wireOf bit)
  intro middle wire extension allocated
  have numbered := numbered.of_extends extension
  split
  · exact Makes.pure (numbered.addInput allocated)
  · exact Makes.pure (numbered.addOutput allocated)
  · exact Makes.pure ((numbered.addInput allocated).addOutput allocated)
  · exact Makes.refuse

theorem makes_declarePort {module : Module} (port : String × Port)
    (numbered : module.IsNumberedBy first) :
    Makes first (declarePort module port) fun last module => module.IsNumberedBy last := by
  apply Makes.foldlM numbered
  exact fun middle module bit _ numbered => makes_declareBit _ _ bit numbered

theorem makes_connectionPairings (cell : String) (callee : ModuleSource)
    (connection : String × List Bit) :
    Makes first (connectionPairings cell callee connection) Allocator.CoversPairings := by
  obtain ⟨name, bits⟩ := connection
  simp only [connectionPairings]
  split
  · exact Makes.refuse
  · rename_i port _
    split
    · exact Makes.refuse_bind
    · apply Makes.mapM
      · intro middle last pairing extension paired
        have le := extension.next_le
        exact ⟨Nat.lt_of_lt_of_le paired.1 le, Nat.lt_of_lt_of_le paired.2 le⟩
      · intro middle bits _ _
        apply Makes.bind (makes_wireOf bits.1)
        intro later caller _ callerAllocated
        apply Makes.bind (makes_wireOf bits.2)
        intro last callee extension calleeAllocated
        apply Makes.pure
        exact ⟨Nat.lt_of_lt_of_le callerAllocated extension.next_le, calleeAllocated⟩

theorem makes_addInstance (cell : String) (callee : ModuleSource)
    (connections : List (String × List Bit)) {module : Module}
    (numbered : module.IsNumberedBy first) :
    Makes first (addInstance cell callee connections module) fun last module =>
      module.IsNumberedBy last := by
  apply Makes.bind (Makes.mapM (fun _ _ _ extension paired => paired.of_extends extension)
    fun middle connection _ _ => makes_connectionPairings cell callee connection)
  intro middle pairings extension paired
  apply Makes.pure
  apply (numbered.of_extends extension).addInstance
  intro pairing member
  obtain ⟨some, isSome, inside⟩ := List.mem_flatten.1 member
  exact paired some isSome pairing inside

theorem makes_cellWires (cell : String) (directions : List (String × String))
    (connections : List (String × List Bit)) :
    Makes first (cellWires cell directions connections) fun last wires =>
      last.Covers wires.1 ∧ last.Covers wires.2 := by
  induction connections generalizing first with
  | nil =>
    apply Makes.pure
    constructor <;> exact List.forall_mem_nil _
  | cons connection rest ih =>
    obtain ⟨name, bits⟩ := connection
    simp only [cellWires]
    apply Makes.bind (makes_wires bits)
    intro middle wires _ covered
    split
    · apply Makes.bind ih
      intro last others extension others
      apply Makes.pure
      exact ⟨others.1, Allocator.covers_append_iff.2 ⟨covered.of_extends extension, others.2⟩⟩
    · apply Makes.bind ih
      intro last others extension others
      apply Makes.pure
      exact ⟨Allocator.covers_append_iff.2 ⟨covered.of_extends extension, others.1⟩, others.2⟩
    · exact Makes.refuse

/-- Gates with one operator and the same inputs, one for each output. -/
theorem isNumberedBy_foldl_addGate {allocator : Allocator} {module : Module}
    (numbered : module.IsNumberedBy allocator) (operator : Operator) {inputs outputs : List Wire}
    (inputsCovered : allocator.Covers inputs) (outputsCovered : allocator.Covers outputs) :
    (outputs.foldl (fun module output => module.addGate ⟨operator, inputs, output⟩)
      module).IsNumberedBy allocator := by
  induction outputs generalizing module with
  | nil => exact numbered
  | cons output rest ih =>
    obtain ⟨isAllocated, restCovered⟩ := List.forall_mem_cons.1 outputsCovered
    apply ih _ restCovered
    apply numbered.addGate
    intro wire member
    rcases Gate.mem_wires_iff.1 member with isInput | isOutput
    · exact inputsCovered wire isInput
    · rw [isOutput]
      exact isAllocated

theorem makes_addGates (name : String) (cell : Cell) (connections : List (String × List Bit))
    {module : Module} (numbered : module.IsNumberedBy first) :
    Makes first (addGates name cell connections module) fun last module =>
      module.IsNumberedBy last := by
  apply Makes.bind Makes.lift
  rintro _ directions - rfl
  apply Makes.bind (makes_cellWires name directions connections)
  rintro last ⟨inputs, outputs⟩ extension ⟨inputsCovered, outputsCovered⟩
  have added := isNumberedBy_foldl_addGate (numbered.of_extends extension)
    (Operator.ofName cell.kind) inputsCovered outputsCovered
  simp only
  split
  · split
    · exact Makes.refuse_bind
    · exact Makes.pure added
  · exact Makes.pure added

theorem makes_addCell (sources : List ModuleSource) {module : Module} (entry : String × Cell)
    (numbered : module.IsNumberedBy first) :
    Makes first (addCell sources module entry) fun last module => module.IsNumberedBy last := by
  apply Makes.bind Makes.lift
  rintro _ connections - rfl
  split
  · exact makes_addInstance _ _ connections numbered
  · exact makes_addGates _ _ connections numbered

theorem makes_buildModule (sources : List ModuleSource) (source : ModuleSource) :
    Makes first (buildModule sources source) fun last module => module.IsNumberedBy last := by
  apply Makes.bind Makes.get
  rintro _ allocator - ⟨rfl, rfl⟩
  apply Makes.bind (Makes.foldlM (Module.IsNumberedBy.empty _ source.name)
    fun middle module port _ numbered => makes_declarePort port numbered)
  intro middle declared _ numbered
  exact Makes.foldlM numbered fun later module entry _ numbered =>
    makes_addCell sources entry numbered

theorem makes_buildModules (sources : List ModuleSource) :
    Makes first (buildModules sources) fun last modules =>
      ∀ module ∈ modules, module.IsNumberedBy last := by
  apply Makes.mapM
  · exact fun _ _ _ extension numbered => numbered.of_extends extension
  · exact fun _ source _ _ => makes_buildModule sources source

theorem isNumberedBy_of_mem_foldl_insert {allocator : Allocator} {design : Design}
    {modules : List Module} (numbered : ∀ module ∈ modules, module.IsNumberedBy allocator)
    (before : ∀ module ∈ design.modules, module.IsNumberedBy allocator) :
    ∀ module ∈ (modules.foldl Design.insert design).modules, module.IsNumberedBy allocator := by
  induction modules generalizing design with
  | nil => exact before
  | cons module rest ih =>
    obtain ⟨first, others⟩ := List.forall_mem_cons.1 numbered
    apply ih others
    intro other member
    rcases Design.mem_insert member with old | rfl
    · exact before other old
    · exact first

theorem allocator_foldl_insert (modules : List Module) (design : Design) :
    (modules.foldl Design.insert design).allocator = design.allocator := by
  induction modules generalizing design with
  | nil => rfl
  | cons module rest ih =>
    rw [List.foldl_cons, ih, Design.allocator_insert]

/-- A design that was read from JSON is well formed, and lies in the domain of the
allocator that was given. -/
theorem isWellFormed_of_readText {allocator : Allocator} {top : Option String} {source : String}
    {design : Design} (read : readText allocator top source = .ok design) :
    design.IsWellFormed ∧ design.domain = allocator.domain := by
  obtain ⟨root, _, read⟩ := eq_ok_of_bind read
  obtain ⟨sources, _, read⟩ := eq_ok_of_bind read
  obtain ⟨⟨modules, last⟩, built, read⟩ := eq_ok_of_bind read
  obtain ⟨extension, numbered⟩ := makes_buildModules sources modules last built
  obtain ⟨asked, sameAllocator, sameModules, resolved⟩ : ∃ asked : Design,
      asked.allocator = (modules.foldl Design.insert (Design.empty last)).allocator ∧
        asked.modules = (modules.foldl Design.insert (Design.empty last)).modules ∧
          asked.resolved? = .ok design := by
    dsimp only at read
    split at read
    · exact Design.exists_resolved?_of_setTop read
    · exact ⟨_, rfl, rfl, read⟩
  rw [allocator_foldl_insert] at sameAllocator
  have allNumbered : ∀ module ∈ asked.modules, module.IsNumberedBy asked.allocator := by
    rw [sameAllocator, sameModules]
    exact isNumberedBy_of_mem_foldl_insert numbered (List.forall_mem_nil _)
  constructor
  · exact Design.isWellFormed_of_resolved? allNumbered resolved
  · rw [Design.domain, (Design.resolved?_eq_ok resolved).1, sameAllocator]
    exact extension.domain

end Netlist.Yosys
