import Netlist.Proofs.DistinctNames
import Netlist.Proofs.YosysReading

/-!
# Instances that were built from JSON

A wire that was numbered for a bit stays the wire of this bit, whatever is numbered later
(`Bit.wire?_of_extends`). So it does not matter which of two modules is built first: an instance
binds the wires of the bits of its callee's ports, and the callee has these wires as its ports
(`IsBuilt`, `makes_buildModules_isBuilt`). A connection has one pairing for each of its bits
(`ModuleSource.Binds`), and each pairing is to a port of the callee (`isPort_of_isBuilt`).
-/

namespace Netlist.Yosys

open Numbered (Makes)

/-! ### Bits -/

/-- The name of the wire of a bit, unless the bit is refused. -/
def Bit.name? : Bit → Option String
  | .net number => some (toString number)
  | .constant "0" => some falseName
  | .constant "1" => some trueName
  | .constant _ => none

/-- The wire of a bit, if it was numbered. -/
def Bit.wire? (allocator : Allocator) (bit : Bit) : Option Wire :=
  bit.name?.bind allocator.lookup

variable {first last : Allocator}

theorem Bit.wire?_of_nameOf {bit : Bit} {name : String} (named : bit.name? = some name)
    {wire : Wire} (isName : last.nameOf wire = some name) : bit.wire? last = some wire := by
  rw [wire?, named]
  exact Allocator.lookup_eq_some_iff.2 isName

/-- A bit keeps its wire. -/
theorem Bit.wire?_of_extends (extension : first.Extends last) {bit : Bit} {wire : Wire}
    (numbered : bit.wire? first = some wire) : bit.wire? last = some wire := by
  obtain ⟨name, named, found⟩ := Option.bind_eq_some_iff.1 numbered
  exact wire?_of_nameOf named (extension.nameOf (Allocator.lookup_eq_some_iff.1 found))

theorem makes_wireOf_wire? (bit : Bit) :
    Makes first (wireOf bit) fun last wire => bit.wire? last = some wire := by
  have each {name : String} (named : bit.name? = some name) :
      Makes first (wireNamed name) fun last wire => bit.wire? last = some wire := by
    intro wire last allocated
    obtain ⟨extension, isName⟩ := Allocator.allocate_eq_ok allocated
    exact ⟨extension, Bit.wire?_of_nameOf named isName⟩
  unfold wireOf
  split
  · exact each rfl
  · exact each rfl
  · exact each rfl
  · exact Makes.refuse

/-! ### Steps over lists -/

/-- Each value is good for its item, and stays so while the next ones are made. -/
theorem Numbered.Makes.forall₂ {α β : Type} {items : List α} {step : α → Numbered β}
    {good : Allocator → α → β → Prop}
    (stays : ∀ middle last item value, middle.Extends last → good middle item value →
      good last item value)
    (each : ∀ middle, ∀ item ∈ items, Makes middle (step item) fun last => good last item) :
    Makes first (items.mapM step) fun last => List.Forall₂ (good last) items := by
  induction items generalizing first with
  | nil =>
    rw [List.mapM_nil]
    exact Makes.pure .nil
  | cons item rest ih =>
    rw [List.mapM_cons]
    apply Makes.bind (each first item List.mem_cons_self)
    intro middle value _ isGood
    apply Makes.bind (ih fun later other member => each later other (List.mem_cons_of_mem _ member))
    intro last values toLast areGood
    exact Makes.pure (.cons (stays middle last item value toLast isGood) areGood)

/-- A state that is good for the items that are done becomes good for one more with each
step. -/
theorem Numbered.Makes.foldlM_done {α β : Type} {items done : List α} {step : β → α → Numbered β}
    {state : β} (good : Allocator → List α → β → Prop) (start : good first done state)
    (each : ∀ middle done state, ∀ item ∈ items, good middle done state →
      Makes middle (step state item) fun last => good last (done ++ [item])) :
    Makes first (items.foldlM step state) fun last => good last (done ++ items) := by
  induction items generalizing first done state with
  | nil =>
    rw [List.foldlM_nil, List.append_nil]
    exact Makes.pure start
  | cons item rest ih =>
    rw [List.foldlM_cons, ← List.singleton_append, ← List.append_assoc]
    apply Makes.bind (each first done state item List.mem_cons_self start)
    exact fun middle next _ isGood => ih isGood fun later before other next member =>
      each later before other next (List.mem_cons_of_mem _ member)

/-- What does not number wires is known to have succeeded. -/
theorem Numbered.Makes.lift_eq {α : Type} {outcome : Except Error α} :
    Makes first (liftM outcome : Numbered α) fun last value =>
      last = first ∧ outcome = .ok value := by
  intro value last succeeded
  cases outcome with
  | error error => cases succeeded
  | ok result =>
    cases succeeded
    exact ⟨Allocator.Extends.refl _, rfl, rfl⟩

/-! ### Ports -/

/-- The module has the given name, no instances yet, and the wires of some bits as ports. -/
structure Declares (allocator : Allocator) (name : String) (bits : List Bit) (module : Module) :
    Prop where
  name : module.name = name
  instances : module.instances = []
  isPort : ∀ bit ∈ bits, ∃ wire, bit.wire? allocator = some wire ∧
    (wire ∈ module.inputs ∨ wire ∈ module.outputs)

/-- A module with more ports that include the wire of a bit. -/
theorem Declares.concat {name : String} {bits : List Bit} {module next : Module}
    (declares : Declares first name bits module) (extension : first.Extends last) {bit : Bit}
    {wire : Wire} (isWire : bit.wire? last = some wire) (sameName : next.name = module.name)
    (sameInstances : next.instances = module.instances) (inputs : module.inputs ⊆ next.inputs)
    (outputs : module.outputs ⊆ next.outputs) (isNew : wire ∈ next.inputs ∨ wire ∈ next.outputs) :
    Declares last name (bits ++ [bit]) next := by
  refine ⟨sameName.trans declares.name, sameInstances.trans declares.instances, ?_⟩
  intro other member
  rcases List.mem_append.1 member with old | isBit
  · obtain ⟨otherWire, numbered, isPort⟩ := declares.isPort other old
    exact ⟨otherWire, Bit.wire?_of_extends extension numbered,
      isPort.imp (fun isInput => inputs isInput) fun isOutput => outputs isOutput⟩
  · rw [List.mem_singleton.1 isBit]
    exact ⟨wire, isWire, isNew⟩

theorem subset_addPort (wire : Wire) (ports : List Wire) : ports ⊆ addPort wire ports :=
  fun _ member => mem_addPort_iff.2 (Or.inr member)

theorem mem_addPort_self (wire : Wire) (ports : List Wire) : wire ∈ addPort wire ports :=
  mem_addPort_iff.2 (Or.inl rfl)

/-- A bit of a port, whatever its direction, has a port's wire. -/
theorem makes_declareBit_declares (name direction : String) {owner : String} {bits : List Bit}
    {module : Module} (bit : Bit) (declares : Declares first owner bits module) :
    Makes first (declareBit name direction module bit) fun last next =>
      Declares last owner (bits ++ [bit]) next := by
  apply Makes.bind (makes_wireOf_wire? bit)
  intro middle wire extension isWire
  split
  · exact Makes.pure (declares.concat extension isWire rfl rfl (subset_addPort _ _)
      (List.Subset.refl _) (Or.inl (mem_addPort_self _ _)))
  · exact Makes.pure (declares.concat extension isWire rfl rfl (List.Subset.refl _)
      (subset_addPort _ _) (Or.inr (mem_addPort_self _ _)))
  · exact Makes.pure (declares.concat extension isWire rfl rfl (subset_addPort _ _)
      (subset_addPort _ _) (Or.inl (mem_addPort_self _ _)))
  · exact Makes.refuse

theorem makes_declarePort_declares {owner : String} {bits : List Bit} {module : Module}
    (port : String × Port) (declares : Declares first owner bits module) :
    Makes first (declarePort module port) fun last next =>
      Declares last owner (bits ++ port.2.bits.reverse) next :=
  Makes.foldlM_done (fun last done => Declares last owner (bits ++ done))
    (by rwa [List.append_nil]) fun _ _ _ bit _ declared => by
      rw [← List.append_assoc]
      exact makes_declareBit_declares port.1 port.2.direction bit declared

/-- All bits of all ports have wires of ports. -/
theorem makes_ports (owner : String) (ports : List (String × Port)) :
    Makes first (ports.foldlM declarePort (Module.empty owner first.domain)) fun last module =>
      Declares last owner (ports.flatMap fun port => port.2.bits.reverse) module := by
  have start : Declares first owner (List.flatMap (fun port : String × Port =>
      port.2.bits.reverse) []) (Module.empty owner first.domain) :=
    ⟨rfl, rfl, List.forall_mem_nil _⟩
  refine Makes.foldlM_done (fun last done => Declares last owner
    (done.flatMap fun port : String × Port => port.2.bits.reverse)) start ?_
  intro middle done module port _ declares
  rw [List.flatMap_append, List.flatMap_singleton]
  exact makes_declarePort_declares port declares

/-! ### Instances -/

/-- The module that a cell stands for, if it stands for one. -/
def Cell.callee? (sources : List ModuleSource) (cell : Cell) : Option ModuleSource :=
  sources.find? fun source => source.name = cell.kind

/-- The pairings bind each bit of a connection to the bit of the callee's port in its place. -/
def ModuleSource.Binds (callee : ModuleSource) (allocator : Allocator)
    (connection : String × List Bit) (pairings : List Pairing) : Prop :=
  ∃ port, callee.ports.lookup connection.1 = some port ∧
    List.Forall₂ (fun bit pairing => bit.wire? allocator = some pairing.caller)
      connection.2 pairings ∧
    List.Forall₂ (fun bit pairing => bit.wire? allocator = some pairing.callee)
      port.bits pairings

/-- The instance uses the module that the cell stands for, and has the pairings of its
connections, one connection after the other and none twice. -/
def Cell.IsInstance (sources : List ModuleSource) (allocator : Allocator) (cell : Cell)
    (inner : Instance) : Prop :=
  ∃ callee connections segments, cell.callee? sources = some callee ∧
    entries bits .connection cell.connections = .ok connections ∧
    (connections.map Prod.fst).Nodup ∧
    inner.callee = callee.name ∧ inner.pairings = segments.flatten ∧
    List.Forall₂ (callee.Binds allocator) connections segments

theorem ModuleSource.Binds.of_extends {callee : ModuleSource} {connection : String × List Bit}
    {pairings : List Pairing} (binds : callee.Binds first connection pairings)
    (extension : first.Extends last) : callee.Binds last connection pairings := by
  obtain ⟨port, isPort, callers, callees⟩ := binds
  exact ⟨port, isPort, callers.imp fun _ _ => Bit.wire?_of_extends extension,
    callees.imp fun _ _ => Bit.wire?_of_extends extension⟩

theorem Cell.IsInstance.of_extends {sources : List ModuleSource} {cell : Cell} {inner : Instance}
    (isInstance : cell.IsInstance sources first inner) (extension : first.Extends last) :
    cell.IsInstance sources last inner := by
  obtain ⟨callee, connections, segments, found, decoded, distinct, named, pairings, each⟩ :=
    isInstance
  exact ⟨callee, connections, segments, found, decoded, distinct, named, pairings,
    each.imp fun _ _ binds => binds.of_extends extension⟩

theorem makes_connectionPairings_binds (cell : String) (callee : ModuleSource)
    (connection : String × List Bit) :
    Makes first (connectionPairings cell callee connection) fun last =>
      callee.Binds last connection := by
  obtain ⟨name, bits⟩ := connection
  simp only [connectionPairings]
  split
  · exact Makes.refuse
  · rename_i port isPort
    split
    · exact Makes.refuse_bind
    · rename_i sameWidth
      have width : port.bits.length = bits.length := not_not.1 sameWidth
      intro pairings last done
      have each : Makes first ((bits.zip port.bits).mapM fun pair => do
          let caller ← wireOf pair.1
          let callee ← wireOf pair.2
          return (⟨caller, callee⟩ : Pairing)) fun last => List.Forall₂ (fun pair pairing =>
            pair.1.wire? last = some pairing.caller ∧ pair.2.wire? last = some pairing.callee)
              (bits.zip port.bits) := by
        apply Makes.forall₂
        · exact fun _ _ _ _ extension both => ⟨Bit.wire?_of_extends extension both.1,
            Bit.wire?_of_extends extension both.2⟩
        · intro middle pair _
          apply Makes.bind (makes_wireOf_wire? pair.1)
          intro later caller _ isCaller
          apply Makes.bind (makes_wireOf_wire? pair.2)
          intro final callee extension isCallee
          exact Makes.pure ⟨Bit.wire?_of_extends extension isCaller, isCallee⟩
      obtain ⟨extension, related⟩ := each pairings last done
      refine ⟨extension, port, isPort, ?_, ?_⟩
      · have callers : bits = (bits.zip port.bits).map Prod.fst :=
          (List.map_fst_zip (Nat.le_of_eq width.symm)).symm
        dsimp only
        rw [callers, List.forall₂_map_left_iff]
        exact related.imp fun _ _ both => both.1
      · have callees : port.bits = (bits.zip port.bits).map Prod.snd :=
          (List.map_snd_zip (Nat.le_of_eq width)).symm
        rw [callees, List.forall₂_map_left_iff]
        exact related.imp fun _ _ both => both.2

theorem makes_addInstance_isInstance {sources : List ModuleSource} (name : String) {cell : Cell}
    {callee : ModuleSource} (found : cell.callee? sources = some callee)
    {connections : List (String × List Bit)}
    (decoded : entries bits .connection cell.connections = .ok connections)
    (distinct : cell.connections.HasDistinctNames) (module : Module) :
    Makes first (addInstance name callee connections module) fun last next =>
      ∃ inner, next = module.addInstance inner ∧ cell.IsInstance sources last inner := by
  apply Makes.bind (Makes.forall₂ (fun _ _ _ _ extension binds => binds.of_extends extension)
    fun middle connection _ => makes_connectionPairings_binds name callee connection)
  intro last segments _ each
  exact Makes.pure ⟨_, rfl, callee, connections, segments, found, decoded,
    nodup_of_entries decoded distinct, rfl, rfl, each⟩

/-- Two modules have the same name, ports and instances. -/
structure SameButGates (first second : Module) : Prop where
  name : second.name = first.name
  inputs : second.inputs = first.inputs
  outputs : second.outputs = first.outputs
  instances : second.instances = first.instances

theorem sameButGates_foldl_addGate (operator : Operator) (inputs outputs : List Wire)
    (module : Module) :
    SameButGates module
      (outputs.foldl (fun module output => module.addGate ⟨operator, inputs, output⟩) module) := by
  induction outputs generalizing module with
  | nil => exact ⟨rfl, rfl, rfl, rfl⟩
  | cons output rest ih =>
    obtain ⟨name, inputs, outputs, instances⟩ := ih (module.addGate ⟨operator, inputs, output⟩)
    exact ⟨name, inputs, outputs, instances⟩

theorem makes_addGates_sameButGates (name : String) (cell : Cell)
    (connections : List (String × List Bit)) (module : Module) :
    Makes first (addGates name cell connections module) fun _ next => SameButGates module next := by
  apply Makes.bind Makes.lift
  intro _ directions _ _
  apply Makes.bind (makes_cellWires name directions connections)
  rintro _ ⟨inputs, outputs⟩ _ _
  have same := sameButGates_foldl_addGate (Operator.ofName cell.kind) inputs outputs module
  simp only
  split
  · split
    · exact Makes.refuse_bind
    · exact Makes.pure same
  · exact Makes.pure same

/-! ### Modules -/

/-- The module has the name of its source, the wires of all bits of the source's ports as ports,
and an instance for each cell that stands for a module. -/
structure IsBuilt (sources : List ModuleSource) (allocator : Allocator) (source : ModuleSource)
    (module : Module) : Prop where
  name : module.name = source.name
  isPort : ∀ port ∈ source.ports, ∀ bit ∈ port.2.bits, ∃ wire,
    bit.wire? allocator = some wire ∧ (wire ∈ module.inputs ∨ wire ∈ module.outputs)
  instances : List.Forall₂ (fun entry => entry.2.IsInstance sources allocator)
    (source.cells.filter fun entry => (entry.2.callee? sources).isSome) module.instances

namespace IsBuilt

variable {sources : List ModuleSource} {source : ModuleSource} {module : Module}

theorem of_extends (built : IsBuilt sources first source module) (extension : first.Extends last) :
    IsBuilt sources last source module := by
  refine ⟨built.name, fun port isPort bit isBit => ?_, ?_⟩
  · obtain ⟨wire, isWire, isModulePort⟩ := built.isPort port isPort bit isBit
    exact ⟨wire, Bit.wire?_of_extends extension isWire, isModulePort⟩
  · exact built.instances.imp fun _ _ isInstance => isInstance.of_extends extension

variable {name : String} {ports : List (String × Port)} {done : List (String × Cell)}

/-- A cell is added to what was built of others. -/
theorem makes_addCell {entry : String × Cell}
    (distinct : entry.2.connections.HasDistinctNames)
    (built : IsBuilt sources first ⟨name, ports, done⟩ module) :
    Makes first (addCell sources module entry) fun last next =>
      IsBuilt sources last ⟨name, ports, done ++ [entry]⟩ next := by
  obtain ⟨label, cell⟩ := entry
  apply Makes.bind Makes.lift_eq
  rintro _ connections - ⟨rfl, decoded⟩
  split
  · rename_i callee isCallee
    have found : cell.callee? sources = some callee := isCallee
    intro next last added
    obtain ⟨extension, inner, rfl, isInstance⟩ :=
      makes_addInstance_isInstance label found decoded distinct module next last added
    have before := built.of_extends extension
    refine ⟨extension, before.name, before.isPort, ?_⟩
    rw [List.filter_append, List.filter_cons_of_pos (by rw [found]; rfl)]
    exact List.rel_append before.instances (.cons isInstance .nil)
  · rename_i isGate
    have found : cell.callee? sources = none := isGate
    intro next last added
    obtain ⟨extension, same⟩ := makes_addGates_sameButGates label cell connections module next last
      added
    have before := built.of_extends extension
    refine ⟨extension, same.name.trans before.name, ?_, ?_⟩
    · rw [same.inputs, same.outputs]
      exact before.isPort
    · rw [same.instances, List.filter_append,
        List.filter_cons_of_neg (by rw [found]; exact Bool.false_ne_true), List.filter_nil,
        List.append_nil]
      exact before.instances

theorem makes_cells {cells : List (String × Cell)}
    (distinct : ∀ entry ∈ cells, entry.2.connections.HasDistinctNames)
    (built : IsBuilt sources first ⟨name, ports, []⟩ module) :
    Makes first (cells.foldlM (addCell sources) module) fun last next =>
      IsBuilt sources last ⟨name, ports, cells⟩ next :=
  Makes.foldlM_done (fun last done => IsBuilt sources last ⟨name, ports, done⟩) built
    fun _ _ _ entry isCell built => built.makes_addCell (distinct entry isCell)

end IsBuilt

theorem makes_buildModule_isBuilt (sources : List ModuleSource) {source : ModuleSource}
    (distinct : source.HasDistinctNames) :
    Makes first (buildModule sources source) fun last => IsBuilt sources last source := by
  apply Makes.bind Makes.get
  rintro _ allocator - ⟨rfl, rfl⟩
  apply Makes.bind (makes_ports source.name source.ports)
  intro middle declared _ declares
  apply IsBuilt.makes_cells distinct.connections
  refine ⟨declares.name, fun port isPort bit isBit => declares.isPort bit ?_, ?_⟩
  · exact List.mem_flatMap.2 ⟨port, isPort, List.mem_reverse.2 isBit⟩
  · rw [declares.instances]
    exact .nil

/-- All modules are built, and bits have the wires that they have in the end. -/
theorem makes_buildModules_isBuilt {sources : List ModuleSource}
    (distinct : ∀ source ∈ sources, source.HasDistinctNames) :
    Makes first (buildModules sources) fun last =>
      List.Forall₂ (IsBuilt sources last) sources :=
  Makes.forall₂ (fun _ _ _ _ extension built => built.of_extends extension)
    fun _ source isSource => makes_buildModule_isBuilt sources (distinct source isSource)

/-- An instance of a module that was built is of one that was built, and each of its pairings is
to a port of this one, in whatever order they were built. -/
theorem exists_callee_of_isBuilt {sources : List ModuleSource} {allocator : Allocator}
    {modules : List Module} (built : List.Forall₂ (IsBuilt sources allocator) sources modules)
    {module : Module} (isModule : module ∈ modules) {inner : Instance}
    (isInner : inner ∈ module.instances) :
    ∃ callee ∈ modules, callee.name = inner.callee ∧
      ∀ pairing ∈ inner.pairings,
        pairing.callee ∈ callee.inputs ∨ pairing.callee ∈ callee.outputs := by
  obtain ⟨source, _, ofSource⟩ := exists_of_mem_right built isModule
  obtain ⟨entry, _, calleeSource, connections, segments, found, _, _, named, pairings, each⟩ :=
    exists_of_mem_right ofSource.instances isInner
  have isSource : calleeSource ∈ sources := List.mem_of_find?_eq_some found
  obtain ⟨callee, isCallee, ofCallee⟩ := exists_of_mem_right built.flip isSource
  refine ⟨callee, isCallee, ofCallee.name.trans named.symm, fun pairing member => ?_⟩
  rw [pairings] at member
  obtain ⟨segment, isSegment, inSegment⟩ := List.mem_flatten.1 member
  obtain ⟨connection, _, port, isPort, _, callees⟩ := exists_of_mem_right each isSegment
  obtain ⟨bit, isBit, isWire⟩ := exists_of_mem_right callees inSegment
  obtain ⟨before, after, same, _⟩ := List.lookup_eq_some_iff.1 isPort
  have member : (connection.1, port) ∈ calleeSource.ports := by
    rw [same]
    exact List.mem_append_right _ List.mem_cons_self
  obtain ⟨wire, numbered, isModulePort⟩ := ofCallee.isPort _ member bit isBit
  rw [isWire] at numbered
  rwa [Option.some.inj numbered]

end Netlist.Yosys
