import Netlist.Proofs.Realization
import Netlist.Proofs.YosysReading

/-!
# Reading blueprints in JSON

An action that numbers wires reads something if its value is what a template makes of the
wires of names, whatever names are numbered before and after (`Numbered.Reads`). Templates
are put together like the actions, so that a blueprint that was written in JSON is read as
a design that realizes it, provided that its gates have as many inputs as they take
(`Yosys.isReadAs_readText`).
-/

namespace Netlist.Yosys

open Blueprint (Signal Part Plan Flow)
open Json (Value)

/-! ### Decoding -/

/-- A signal as a bit that was decoded. -/
def bitOf : Signal → Bit
  | .net number => .net number
  | .constant true => .constant "1"
  | .constant false => .constant "0"

theorem bits_bitsValue (signals : List Signal) :
    bits (Blueprint.bitsValue signals) = .ok (signals.map bitOf) := by
  unfold bits Blueprint.bitsValue
  dsimp only
  rw [List.mapM_map]
  refine mapM_eq_ok_of_forall fun signal _ => ?_
  cases signal with
  | net number => rfl
  | constant bit => cases bit <;> rfl

/-- A port that was decoded. -/
def portOf (port : Blueprint.Port) : Port :=
  ⟨port.flow.word, port.nets.map .net⟩

/-- A gate or a use that was decoded as a cell. -/
def cellOf (part : Part) : Cell :=
  ⟨part.kind, .object (part.directions.map fun (pin, word) => (pin, .string word)),
    .object (part.connections.map fun (pin, signals) => (pin, Blueprint.bitsValue signals))⟩

/-- A module that was decoded. -/
def sourceOf (plan : Plan) : ModuleSource :=
  ⟨plan.name, plan.ports.map fun written => (written.name, portOf written),
    plan.parts.map fun part => (part.label, cellOf part)⟩

theorem entries_object {α β : Type} {decode : Decoder α} (listing : Section) {items : List β}
    {name : β → String} {value : β → Value} {decoded : β → α}
    (each : ∀ item ∈ items, decode (value item) = .ok (decoded item)) :
    entries decode listing (.object (items.map fun item => (name item, value item))) =
      .ok (items.map fun item => (name item, decoded item)) := by
  unfold entries
  dsimp only
  rw [List.mapM_map]
  refine mapM_eq_ok_of_forall fun item isItem => ?_
  dsimp only [Function.comp_apply]
  rw [each item isItem]

theorem port_value (written : Blueprint.Port) : port written.value = .ok (portOf written) := by
  have decoded := bits_bitsValue (written.nets.map .net)
  rw [List.map_map] at decoded
  unfold port Blueprint.Port.value portOfMembers
  dsimp only
  rw [if_pos (show comesFirst "direction" "bits" _ = true by simp [comesFirst])]
  have nets : field? bits "bits" [("direction", .string written.flow.word),
      ("bits", Blueprint.bitsValue (written.nets.map .net))] = .ok (some (written.nets.map .net)) :=
    congrArg (Except.map some) decoded
  rw [nets]
  rfl

theorem cell_value (part : Part) : cell part.value = .ok (cellOf part) :=
  rfl

theorem moduleSources_value (blueprint : Blueprint) :
    moduleSources blueprint.value = .ok (blueprint.map sourceOf) := by
  have bodies := @entries_object _ _ Except.ok .module blueprint Plan.name Plan.value Plan.value
    fun _ _ => rfl
  have decoded : ∀ plan ∈ blueprint, moduleSource plan.name plan.value = .ok (sourceOf plan) := by
    intro plan _
    have ports := @entries_object _ _ port .port plan.ports Blueprint.Port.name
      Blueprint.Port.value portOf fun written _ => port_value written
    have cells := @entries_object _ _ cell .cell plan.parts Part.label Part.value cellOf
      fun part _ => cell_value part
    unfold moduleSource
    have portsMember : memberOrNull "ports" plan.value =
        .object (plan.ports.map fun written => (written.name, written.value)) := rfl
    have cellsMember : memberOrNull "cells" plan.value =
        .object (plan.parts.map fun part => (part.label, part.value)) := rfl
    rw [portsMember, ports, cellsMember, cells]
    rfl
  unfold moduleSources
  have modules : blueprint.value.member? "modules" =
      some (.object (blueprint.map fun plan => (plan.name, plan.value))) := rfl
  rw [modules]
  dsimp only
  rw [bodies]
  change (blueprint.map fun plan => (plan.name, plan.value)).mapM _ = _
  rw [List.mapM_map]
  exact mapM_eq_ok_of_forall decoded

/-! ### Reading by a template -/

/-- In the Boolean domain the action succeeds exactly under the condition, and its value is
what the template makes of the wires of names. These may be looked up in any allocator that
has all names that were numbered by then. -/
def Numbered.Reads {α : Type} (action : Numbered α) (condition : Prop)
    (template : (String → Wire) → α) : Prop :=
  ∀ first : Allocator, first.domain = .boolean →
    (condition → ∃ value last, action first = .ok (value, last)) ∧
      ∀ value last, action first = .ok (value, last) →
        condition ∧ first.Extends last ∧
          ∀ final, last.Extends final → value = template final.wireOf

namespace Numbered.Reads

variable {α β : Type}

theorem pure (value : α) : Reads (Pure.pure value : Numbered α) True fun _ => value := by
  intro first _
  refine ⟨fun _ => ⟨value, first, rfl⟩, ?_⟩
  rintro _ _ ⟨⟩
  exact ⟨trivial, .refl _, fun _ _ => rfl⟩

theorem bind {action : Numbered α} {next : α → Numbered β} {condition rest : Prop}
    {template : (String → Wire) → α} (start : Reads action condition template)
    (following : α → (String → Wire) → β)
    (then_ : ∀ value number, value = template number →
      Reads (next value) rest (following value)) :
    Reads (action >>= next) (condition ∧ rest) fun number =>
      following (template number) number := by
  intro first isBoolean
  have outcome : (action >>= next) first =
      (action first >>= fun (value, middle) => next value middle) := rfl
  obtain ⟨succeeds, reads⟩ := start first isBoolean
  constructor
  · rintro ⟨holds, restHolds⟩
    obtain ⟨value, middle, done⟩ := succeeds holds
    obtain ⟨_, extension, isValue⟩ := reads value middle done
    rw [outcome, done]
    exact (then_ value _ (isValue middle (.refl _)) middle (extension.domain.trans isBoolean)).1
      restHolds
  · intro result last done
    rw [outcome] at done
    cases begun : action first with
    | error error =>
      rw [begun] at done
      cases done
    | ok pair =>
      obtain ⟨value, middle⟩ := pair
      rw [begun] at done
      obtain ⟨holds, toMiddle, isValue⟩ := reads value middle begun
      obtain ⟨restHolds, toLast, isResult⟩ :=
        (then_ value _ (isValue middle (.refl _)) middle (toMiddle.domain.trans isBoolean)).2 result
          last done
      refine ⟨⟨holds, restHolds⟩, toMiddle.trans toLast, fun final toFinal => ?_⟩
      rw [isResult final toFinal, isValue final (toLast.trans toFinal)]

theorem get_bind {next : Allocator → Numbered β} {condition : Prop}
    {template : (String → Wire) → β}
    (each : ∀ allocator : Allocator, allocator.domain = .boolean →
      Reads (next allocator) condition template) :
    Reads (MonadState.get >>= next) condition template :=
  fun first isBoolean => each first isBoolean first isBoolean

theorem refuse_bind {fault : Fault} {next : α → Numbered β} {template : (String → Wire) → β} :
    Reads (refuse fault >>= next) False template := by
  intro first _
  refine ⟨False.elim, ?_⟩
  rintro _ _ ⟨⟩

/-- Other words for a condition and a template. -/
theorem congr {action : Numbered α} {condition other : Prop}
    {template following : (String → Wire) → α} (reads : Reads action condition template)
    (same : condition ↔ other) (equal : ∀ number, template number = following number) :
    Reads action other following := by
  intro first isBoolean
  obtain ⟨succeeds, isRead⟩ := reads first isBoolean
  refine ⟨fun holds => succeeds (same.2 holds), fun value last done => ?_⟩
  obtain ⟨holds, extension, isValue⟩ := isRead value last done
  exact ⟨same.1 holds, extension, fun final toFinal => (isValue final toFinal).trans (equal _)⟩

/-- Something is made of what was read. -/
theorem map {action : Numbered α} {condition : Prop} {template : (String → Wire) → α}
    (reads : Reads action condition template) (change : α → β) :
    Reads (action >>= fun value => Pure.pure (change value)) condition fun number =>
      change (template number) :=
  (reads.bind _ fun value _ _ => pure (change value)).congr (and_iff_left trivial) fun _ => rfl

theorem mapM {items : List α} {step : α → Numbered β} {condition : α → Prop}
    {template : α → (String → Wire) → β}
    (each : ∀ item ∈ items, Reads (step item) (condition item) (template item)) :
    Reads (items.mapM step) (∀ item ∈ items, condition item) fun number =>
      items.map fun item => template item number := by
  induction items with
  | nil =>
    rw [List.mapM_nil]
    exact (pure []).congr (iff_of_true trivial (List.forall_mem_nil _)) fun _ => rfl
  | cons item rest ih =>
    obtain ⟨head, others⟩ := List.forall_mem_cons.1 each
    rw [List.mapM_cons]
    refine (head.bind _ fun value _ _ =>
      (ih others).bind _ fun values _ _ => pure (value :: values)).congr ?_
      fun _ => rfl
    rw [and_true, List.forall_mem_cons]

theorem foldlM {items : List α} {step : β → α → Numbered β} {condition : α → Prop}
    {template : β → α → (String → Wire) → β}
    (each : ∀ state, ∀ item ∈ items, Reads (step state item) (condition item) (template state item))
    (state : β) :
    Reads (items.foldlM step state) (∀ item ∈ items, condition item) fun number =>
      items.foldl (fun state item => template state item number) state := by
  induction items generalizing state with
  | nil => exact (pure state).congr (iff_of_true trivial (List.forall_mem_nil _)) fun _ => rfl
  | cons item rest ih =>
    rw [List.foldlM_cons]
    have others := ih fun later other member => each later other (List.mem_cons_of_mem _ member)
    refine ((each state item List.mem_cons_self).bind _ fun next _ _ => others next).congr ?_
      fun _ => rfl
    rw [List.forall_mem_cons]

end Numbered.Reads

open Numbered (Reads)

theorem reads_wireNamed (name : String) :
    Reads (wireNamed name) True fun number => number name := by
  intro first isBoolean
  refine ⟨fun _ => Allocator.exists_allocate isBoolean name, fun wire last done => ?_⟩
  obtain ⟨extension, named⟩ := Allocator.allocate_eq_ok done
  exact ⟨trivial, extension, fun _ toFinal =>
    (Allocator.wireOf_of_nameOf (toFinal.nameOf named)).symm⟩

theorem reads_wireOf (signal : Signal) :
    Reads (wireOf (bitOf signal)) True fun number => number (Blueprint.jsonName signal) := by
  rcases signal with number | _ | _ <;> exact reads_wireNamed _

/-- The wire of a signal. -/
abbrev numberOf (number : String → Wire) (_ : Plan) (signal : Signal) : Wire :=
  number (Blueprint.jsonName signal)

theorem reads_wires (signals : List Signal) :
    Reads ((signals.map bitOf).mapM wireOf) True fun number =>
      signals.map fun signal => number (Blueprint.jsonName signal) := by
  rw [List.mapM_map]
  exact (Reads.mapM fun signal _ => reads_wireOf signal).congr
    (iff_true_intro fun _ _ => trivial) fun _ => rfl

/-! ### Ports -/

theorem reads_declareBit (name : String) (flow : Flow) (module : Module) (net : Nat) :
    Reads (declareBit name flow.word module (.net net)) True fun number =>
      flow.declare module (number (toString net)) := by
  cases flow
  · exact (reads_wireOf (.net net)).map module.addInput
  · exact (reads_wireOf (.net net)).map module.addOutput
  · exact (reads_wireOf (.net net)).map fun wire => (module.addInput wire).addOutput wire

theorem reads_declarePort (module : Module) (port : Blueprint.Port) :
    Reads (declarePort module (port.name, portOf port)) True fun number =>
      (port.nets.reverse.map fun net => number (toString net)).foldl port.flow.declare module := by
  unfold declarePort portOf
  dsimp only
  rw [← List.map_reverse, List.foldlM_map]
  refine (Reads.foldlM (fun state net _ => reads_declareBit port.name port.flow state net)
    module).congr (iff_true_intro fun _ _ => trivial) fun number => ?_
  rw [List.foldl_map]

/-! ### Gates -/

/-- The pins of a gate, all of which have directions, are read as its inputs and its output. -/
theorem reads_cellWires (cell : String) {directions : List (String × String)}
    {inputs : List (String × Signal)} {output : String × Signal}
    (enters : ∀ pin ∈ inputs, directions.lookup pin.1 = some "input")
    (leaves : directions.lookup output.1 = some "output") :
    Reads (cellWires cell directions
        ((inputs ++ [output]).map fun pin => (pin.1, [bitOf pin.2]))) True fun number =>
      (inputs.map fun pin => number (Blueprint.jsonName pin.2),
        [number (Blueprint.jsonName output.2)]) := by
  induction inputs with
  | nil =>
    have rest (wires : List Wire) := (Reads.pure (([], []) : List Wire × List Wire)).map
      fun others => (others.1, wires ++ others.2)
    refine ((reads_wires [output.2]).bind (fun wires _ => ([], wires ++ []))
      fun wires _ _ => ?_).congr
      (and_iff_left trivial) fun _ => rfl
    rw [leaves]
    exact rest wires
  | cons pin rest ih =>
    have entersRest := List.forall_mem_cons.1 enters
    have others (wires : List Wire) := (ih entersRest.2).map fun others : List Wire × List Wire =>
      (wires ++ others.1, others.2)
    refine ((reads_wires [pin.2]).bind (fun wires number =>
      (wires ++ rest.map fun pin => number (Blueprint.jsonName pin.2),
        [number (Blueprint.jsonName output.2)])) fun wires _ _ => ?_).congr
      (and_iff_left trivial) fun _ => rfl
    rw [entersRest.1]
    exact others wires

/-- The pins of a gate have directions of their own. -/
theorem lookup_directions {label kind : String} {inputs : List (String × Signal)}
    {output : String × Signal} (distinct : ((inputs ++ [output]).map Prod.fst).Nodup) :
    (∀ pin ∈ inputs, (Part.gate label kind inputs output).directions.lookup pin.1 = some "input") ∧
      (Part.gate label kind inputs output).directions.lookup output.1 = some "output" := by
  have names : ((Part.gate label kind inputs output).directions.map Prod.fst).Nodup := by
    simpa [Part.directions, Function.comp_def] using distinct
  constructor
  · intro pin isInput
    refine lookup_eq_some_of_mem names (List.mem_append_left _ ?_)
    exact List.mem_map.2 ⟨pin, isInput, rfl⟩
  · exact lookup_eq_some_of_mem names (List.mem_append_right _ (List.mem_singleton.2 rfl))

/-- A gate is read if it has as many inputs as its operator takes. -/
theorem reads_addGates {label kind : String} {inputs : List (String × Signal)}
    {output : String × Signal} (isPrimitive : (Operator.ofName kind).IsPrimitive)
    (distinct : ((inputs ++ [output]).map Prod.fst).Nodup) (blueprint : Blueprint) (plan : Plan)
    (module : Module) :
    Reads (addGates label (cellOf (.gate label kind inputs output))
      ((inputs ++ [output]).map fun pin => (pin.1, [bitOf pin.2])) module)
      (Part.gate label kind inputs output).HasArity fun number =>
        (Part.gate label kind inputs output).add blueprint (numberOf number) plan module := by
  have decoded : entries text .portDirection (cellOf (.gate label kind inputs output)).directions =
      .ok (Part.gate label kind inputs output).directions := by
    have read :=
      @entries_object _ _ text .portDirection (Part.gate label kind inputs output).directions
      Prod.fst (fun entry => .string entry.2) Prod.snd fun _ _ => rfl
    exact read.trans (congrArg Except.ok (List.map_id _))
  obtain ⟨enters, leaves⟩ := @lookup_directions label kind inputs output distinct
  obtain ⟨arity, isArity⟩ := Option.isSome_iff_exists.1 isPrimitive
  have lifted :
      (liftM (Except.ok (Part.gate label kind inputs output).directions : Except Error _) :
        Numbered _) = pure (Part.gate label kind inputs output).directions := rfl
  unfold addGates
  rw [decoded, lifted, pure_bind]
  refine (@Reads.bind _ _ _ _ _ (inputs.length = arity) _ (reads_cellWires label enters leaves)
    (fun wires _ => wires.2.foldl
      (fun module output => module.addGate ⟨Operator.ofName kind, wires.1, output⟩) module)
    ?_).congr ?_ fun _ => ?_
  · rintro ⟨inputWires, outputWires⟩ number same
    have counted : inputWires.length = inputs.length := by
      rw [(Prod.mk.inj same).1, List.length_map]
    dsimp only [cellOf, Part.kind]
    rw [isArity]
    dsimp only
    rw [counted]
    split
    · rename_i wrong
      exact Reads.refuse_bind.congr (iff_of_false id wrong) fun _ => rfl
    · rename_i right
      rw [not_not] at right
      exact (Reads.pure _).congr (iff_of_true trivial right) fun _ => rfl
  · rw [true_and, Part.HasArity, isArity, Option.some.injEq, eq_comm]
  · simp [Part.add, Part.gate?, Part.instance?, Module.addGate]

/-! ### Uses -/

theorem lookup_ports (callee : Plan) (name : String) :
    (sourceOf callee).ports.lookup name = (callee.port? name).map portOf :=
  lookup_map Blueprint.Port.name portOf name callee.ports

theorem reads_connectionPairings (cell : String) {callee : Plan} {connection : String × List Signal}
    (connects : callee.Connects connection) :
    Reads (connectionPairings cell (sourceOf callee) (connection.1, connection.2.map bitOf)) True
      fun number => (callee.joints [connection]).map fun joint =>
        ⟨number (Blueprint.jsonName joint.1), number (toString joint.2)⟩ := by
  obtain ⟨port, found, width⟩ := connects
  unfold connectionPairings
  dsimp only
  rw [lookup_ports, found]
  have sameWidth : ¬ (portOf port).bits.length ≠ (connection.2.map bitOf).length := by
    rw [not_not, portOf, List.length_map, List.length_map, width]
  dsimp only [Option.map_some]
  rw [if_neg sameWidth, portOf, List.zip_map, List.mapM_map]
  refine (Reads.mapM fun joint _ => (reads_wireOf joint.1).bind
    (fun caller number => (⟨caller, number (toString joint.2)⟩ : Pairing)) fun caller _ _ =>
      (reads_wireOf (.net joint.2)).map fun callee => (⟨caller, callee⟩ : Pairing)).congr ?_
        fun number => ?_
  · simp
  · simp [Plan.joints, Option.mem_def.1 found]

/-- A use is read if the callee has the ports that it connects. -/
theorem reads_addInstance (label : String) {blueprint : Blueprint} {name : String} {callee : Plan}
    (found : blueprint.find? name = some callee) {connections : List (String × List Signal)}
    (connects : ∀ connection ∈ connections, callee.Connects connection) (plan : Plan)
    (module : Module) :
    Reads (addInstance label (sourceOf callee)
      (connections.map fun connection => (connection.1, connection.2.map bitOf)) module) True
      fun number =>
        (Part.use label name connections).add blueprint (numberOf number) plan module := by
  obtain ⟨_, rfl⟩ := Blueprint.plan_of_find? found
  unfold addInstance
  rw [List.mapM_map]
  have pairings := Reads.mapM fun connection isConnection =>
    reads_connectionPairings label (connects connection isConnection)
  refine (pairings.map fun pairings =>
    module.addInstance (.unresolved callee.name pairings.flatten)).congr ?_ fun number => ?_
  · exact iff_true_intro fun _ _ => trivial
  · simp [Part.add, Part.gate?, Part.instance?, Module.addInstance, found, Plan.joints,
      List.flatMap, Function.comp_def, numberOf, Blueprint.jsonName]

/-! ### Modules -/

/-- A part of a valid plan is read if it has the right number of inputs. -/
theorem reads_addCell {blueprint : Blueprint} {part : Part} (valid : part.IsValid blueprint)
    (plan : Plan) (module : Module) :
    Reads (addCell (blueprint.map sourceOf) module (part.label, cellOf part)) part.HasArity
      fun number => part.add blueprint (numberOf number) plan module := by
  have read := @entries_object _ _ bits .connection part.connections Prod.fst
    (fun connection => Blueprint.bitsValue connection.2)
    (fun connection => connection.2.map bitOf) fun connection _ => bits_bitsValue connection.2
  have decoded : entries bits .connection (cellOf part).connections =
      .ok (part.connections.map fun connection => (connection.1, connection.2.map bitOf)) := read
  have lifted : ∀ {α : Type} (value : α),
      (liftM (Except.ok value : Except Error α) : Numbered α) = pure value := fun _ => rfl
  have callee : (blueprint.map sourceOf).find? (fun source => source.name = (cellOf part).kind) =
      (blueprint.find? part.kind).map sourceOf := List.find?_map ..
  unfold addCell
  dsimp only
  rw [decoded, lifted, pure_bind, callee]
  cases part with
  | gate label kind inputs output =>
    obtain ⟨noModule, isPrimitive, distinct, _⟩ := valid
    rw [Part.kind, Option.isNone_iff_eq_none.1 noModule]
    have pins : ((Part.gate label kind inputs output).connections.map fun connection =>
        (connection.1, connection.2.map bitOf)) =
          (inputs ++ [output]).map fun pin => (pin.1, [bitOf pin.2]) := by
      simp [Part.connections]
    rw [pins]
    exact reads_addGates isPrimitive distinct blueprint plan module
  | use label name connections =>
    obtain ⟨_, target, found, connects⟩ := valid
    rw [Part.kind, found]
    exact (reads_addInstance label found (fun connection isConnection =>
      (connects connection isConnection).1) plan module).congr Iff.rfl fun _ => rfl

theorem reads_buildModule {blueprint : Blueprint} {plan : Plan} (valid : plan.IsValid blueprint) :
    Reads (buildModule (blueprint.map sourceOf) (sourceOf plan))
      (∀ part ∈ plan.parts, part.HasArity) fun number =>
        blueprint.realize (numberOf number) plan := by
  unfold buildModule
  refine Reads.get_bind fun allocator isBoolean => ?_
  rw [isBoolean]
  have ports := Reads.foldlM
    (fun state port (_ : port ∈ plan.ports) => reads_declarePort state port)
    (Module.empty plan.name .boolean)
  have parts (declared : Module) := Reads.foldlM (fun state part (isPart : part ∈ plan.parts) =>
    reads_addCell (valid.parts part isPart) plan state) declared
  unfold sourceOf
  dsimp only
  rw [List.foldlM_map]
  simp only [List.foldlM_map]
  refine ((ports.bind _ fun declared _ _ => parts declared)).congr ?_ fun number => ?_
  · exact and_iff_right fun _ _ => trivial
  · rw [Blueprint.foldl_ports, Blueprint.foldl_parts]
    simp [Blueprint.realize, Module.empty, Blueprint.collect, Plan.declared, numberOf,
      Blueprint.jsonName]

theorem reads_buildModules {blueprint : Blueprint} (valid : blueprint.IsValid) :
    Reads (buildModules (blueprint.map sourceOf)) blueprint.HasArities fun number =>
      blueprint.map (blueprint.realize (numberOf number)) := by
  unfold buildModules
  rw [List.mapM_map]
  exact Reads.mapM fun plan isPlan => reads_buildModule (valid.plans plan isPlan)

/-- Modules of new names are all added. -/
theorem modules_foldl_insert {modules : List Module} {design : Design}
    (distinct : (design.modules.map Module.name ++ modules.map Module.name).Nodup) :
    (modules.foldl Design.insert design).modules = design.modules ++ modules := by
  induction modules generalizing design with
  | nil => exact (List.append_nil _).symm
  | cons module rest ih =>
    have isNew : design.contains module.name = false := by
      rw [Design.contains_eq_false_iff]
      exact fun taken => List.disjoint_of_nodup_append distinct taken List.mem_cons_self
    have added := Design.modules_insert isNew
    rw [List.foldl_cons, ih, added, List.append_assoc]
    · rfl
    · rw [added, List.map_append, List.append_assoc]
      exact distinct

/-- A blueprint that was written in JSON is read as a design that realizes it. -/
theorem isReadAs_readText {blueprint : Blueprint} (valid : blueprint.IsValid)
    {allocator : Allocator} (isBoolean : allocator.domain = .boolean) {text : String}
    (written : Json.read text = .ok blueprint.value) (top : String) :
    blueprint.IsReadAs (fun _ => Blueprint.jsonName) top (readText allocator (some top) text) := by
  obtain ⟨succeeds, reads⟩ := reads_buildModules valid allocator isBoolean
  unfold readText
  rw [written]
  change blueprint.IsReadAs _ top (moduleSources blueprint.value >>= _)
  rw [moduleSources_value]
  change blueprint.IsReadAs _ top ((buildModules (blueprint.map sourceOf)).run allocator >>= _)
  cases built : (buildModules (blueprint.map sourceOf)).run allocator with
  | error error =>
    refine ⟨fun arities _ => ?_, ?_, ?_⟩
    · obtain ⟨_, _, done⟩ := succeeds arities
      cases built.symm.trans done
    · rintro _ ⟨⟩
    · rintro _ ⟨⟩
  | ok pair =>
    obtain ⟨modules, last⟩ := pair
    obtain ⟨arities, extension, isRead⟩ := reads modules last built
    obtain ⟨_, numbered⟩ := makes_buildModules _ modules last built
    have names : modules.map Module.name = blueprint.map Plan.name := by
      rw [isRead last (.refl _), List.map_map]
      rfl
    have distinct :
        ((Design.empty last).modules.map Module.name ++ modules.map Module.name).Nodup := by
      rw [names]
      exact valid.names
    have sameAllocator := allocator_foldl_insert modules (Design.empty last)
    have sameModules := modules_foldl_insert distinct
    have realizes : (modules.foldl Design.insert (Design.empty last)).Realizes
        (fun _ => Blueprint.jsonName) blueprint := by
      refine ⟨?_, ?_, ?_⟩
      · rw [Design.domain, sameAllocator]
        exact extension.domain.trans isBoolean
      · rw [sameModules]
        unfold Design.numbering
        rw [sameAllocator]
        exact isRead last (.refl _)
      · rw [sameAllocator]
        exact isNumberedBy_of_mem_foldl_insert numbered (List.forall_mem_nil _)
    exact Blueprint.isReadAs_of_realizes realizes arities top

end Netlist.Yosys
