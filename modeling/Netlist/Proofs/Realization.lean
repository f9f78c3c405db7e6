import Netlist.Blueprint
import Netlist.Proofs.AlikeDesigns

/-!
# Realized blueprints

A design realizes a blueprint if its modules are those of the blueprint, with each signal
on the wire of the name that it is spelled with (`Design.Realizes`). Designs that realize
one blueprint are alike, however its signals are spelled and wires are numbered
(`Design.Realizes.exists_alike`).
-/

namespace Netlist

open List (Forall₂)

namespace Allocator

/-- The wire of a name that is in use. -/
def wireOf (allocator : Allocator) (name : String) : Wire :=
  allocator.names.idxOf name

variable {allocator : Allocator} {name other : String} {wire : Wire}

theorem wireOf_of_nameOf (named : allocator.nameOf wire = some name) :
    allocator.wireOf name = wire := by
  obtain ⟨inRange, rfl⟩ := List.getElem?_eq_some_iff.1 named
  exact allocator.nodup_names.idxOf_getElem wire inRange

theorem nameOf_wireOf (inUse : allocator.wireOf name < allocator.next) :
    allocator.nameOf (allocator.wireOf name) = some name :=
  List.getElem?_eq_some_iff.2 ⟨inUse, List.getElem_idxOf inUse⟩

/-- Different names in use have different wires. -/
theorem eq_of_wireOf (inUse : allocator.wireOf name < allocator.next)
    (same : allocator.wireOf name = allocator.wireOf other) : name = other := by
  have first := nameOf_wireOf inUse
  rw [same] at inUse first
  exact Option.some.inj (first.symm.trans (nameOf_wireOf inUse))

theorem nameOf_of_isConstant (isBoolean : allocator.domain = .boolean)
    (constant : Domain.boolean.IsConstant wire) :
    ∃ name, allocator.nameOf wire = some name ∧ IsConstantName name := by
  unfold nameOf names
  rw [isBoolean]
  have cases : wire = 0 ∨ wire = 1 :=
    Nat.le_one_iff_eq_zero_or_eq_one.1 (Nat.le_of_lt_succ constant)
  rcases cases with rfl | rfl
  · exact ⟨falseName, rfl, Or.inl rfl⟩
  · exact ⟨trueName, rfl, Or.inr rfl⟩

/-- No other name leads to a constant. -/
theorem not_isConstant_wireOf (isBoolean : allocator.domain = .boolean)
    (inconstant : ¬ IsConstantName name) :
    ¬ Domain.boolean.IsConstant (allocator.wireOf name) := by
  intro constant
  obtain ⟨found, named, isConstant⟩ := nameOf_of_isConstant isBoolean constant
  have inUse := lt_next_of_nameOf named
  cases (nameOf_wireOf inUse).symm.trans named
  exact inconstant isConstant

theorem wireOf_constantName (isBoolean : allocator.domain = .boolean) (bit : Bool) :
    allocator.wireOf (Blueprint.constantName bit) = if bit then trueWire else falseWire := by
  apply wireOf_of_nameOf
  unfold nameOf names
  rw [isBoolean]
  cases bit <;> rfl

/-- All names have a meaning in the Boolean domain. -/
theorem exists_allocate (isBoolean : allocator.domain = .boolean) (name : String) :
    ∃ wire last, allocator.allocate name = .ok (wire, last) := by
  cases found : allocator.lookup name with
  | some wire => exact ⟨wire, allocator, allocate_of_lookup found⟩
  | none =>
    have inconstant : ¬ IsConstantName name := by
      intro constant
      have isArithmetic := domain_eq_of_isConstantName found constant
      rw [isBoolean] at isArithmetic
      cases isArithmetic
    obtain ⟨last, allocated, -⟩ := allocate_of_isNew found inconstant
    exact ⟨allocator.next, last, allocated⟩

end Allocator

/-- Looking up a key in a list of pairs is finding the item that it comes from. -/
theorem lookup_map {α β κ : Type} [DecidableEq κ] (key : α → κ) (value : α → β) (wanted : κ)
    (items : List α) :
    (items.map fun item => (key item, value item)).lookup wanted =
      (items.find? fun item => key item = wanted).map value := by
  induction items with
  | nil => rfl
  | cons item rest ih =>
    rw [List.map_cons, List.lookup_cons, List.find?_cons, ih]
    by_cases same : key item = wanted
    · rw [decide_eq_true same, beq_iff_eq.2 same.symm]
      rfl
    · rw [decide_eq_false same, beq_false_of_ne (Ne.symm same)]

/-- With distinct keys, each pair is found by its key. -/
theorem lookup_eq_some_of_mem {κ ν : Type} [DecidableEq κ] {entries : List (κ × ν)} {key : κ}
    {value : ν} (distinct : (entries.map Prod.fst).Nodup) (member : (key, value) ∈ entries) :
    entries.lookup key = some value := by
  induction entries with
  | nil => cases member
  | cons entry rest ih =>
    obtain ⟨first, other⟩ := entry
    obtain ⟨isNew, restDistinct⟩ := List.nodup_cons.1 distinct
    rw [List.lookup_cons]
    rcases List.mem_cons.1 member with same | inRest
    · cases same
      rw [beq_self_eq_true]
    · have different : key ≠ first := by
        rintro rfl
        exact isNew (List.mem_map.2 ⟨_, inRest, rfl⟩)
      rw [beq_false_of_ne different]
      exact ih restDistinct inRest

namespace Blueprint

/-! ### The modules of a blueprint -/

/-- Ports in the order in which their wires are declared, each once. -/
def collect (wires : List Wire) : List Wire :=
  wires.foldl (fun ports wire => addPort wire ports) []

/-- The nets of the ports of some directions, in the order in which they are numbered: the
highest bit of each port comes first. -/
def Plan.declared (plan : Plan) (flows : Flow → Bool) : List Nat :=
  (plan.ports.filter fun port => flows port.flow).flatMap fun port => port.nets.reverse

/-- What a use joins: signals of the caller to nets of the callee. -/
def Plan.joints (callee : Plan) (connections : List (String × List Signal)) :
    List (Signal × Nat) :=
  connections.flatMap fun connection =>
    connection.2.zip ((callee.port? connection.1).elim [] Port.nets)

/-- The gate that a part is. -/
def Part.gate? (numbering : Signal → Wire) : Part → Option Gate
  | gate _ kind inputs output =>
    some ⟨Operator.ofName kind, inputs.map fun pin => numbering pin.2, numbering output.2⟩
  | use .. => none

/-- The instance that a part is. -/
def Part.instance? (blueprint : Blueprint) (numbering : Plan → Signal → Wire) (caller : Plan) :
    Part → Option Instance
  | gate .. => none
  | use _ callee connections =>
    some (.unresolved callee ((blueprint.find? callee).elim [] fun plan =>
      (plan.joints connections).map fun joint =>
        ⟨numbering caller joint.1, numbering plan (.net joint.2)⟩))

/-- The module that a plan describes, with some numbering of its signals. -/
def realize (blueprint : Blueprint) (numbering : Plan → Signal → Wire) (plan : Plan) : Module where
  name := plan.name
  domain := .boolean
  inputs := collect ((plan.declared Flow.enters).map fun net => numbering plan (.net net))
  outputs := collect ((plan.declared Flow.leaves).map fun net => numbering plan (.net net))
  gates := plan.parts.filterMap (Part.gate? (numbering plan))
  instances := plan.parts.filterMap (Part.instance? blueprint numbering plan)

/-- A gate has as many inputs as its operator takes. -/
def Part.HasArity : Part → Prop
  | gate _ kind inputs _ => (Operator.ofName kind).arity? = some inputs.length
  | use .. => True

/-- All gates have as many inputs as their operators take. -/
def HasArities (blueprint : Blueprint) : Prop :=
  ∀ plan ∈ blueprint, ∀ part ∈ plan.parts, part.HasArity

/-- Declare a wire as a port. -/
def Flow.declare (flow : Flow) (module : Module) (wire : Wire) : Module :=
  match flow with
  | input => module.addInput wire
  | output => module.addOutput wire
  | both => (module.addInput wire).addOutput wire

/-- Add what a part is. -/
def Part.add (blueprint : Blueprint) (numbering : Plan → Signal → Wire) (plan : Plan)
    (module : Module) (part : Part) : Module :=
  { module with
    gates := module.gates ++ (part.gate? (numbering plan)).toList
    instances := module.instances ++ (part.instance? blueprint numbering plan).toList }

theorem foldl_declare (flow : Flow) (wires : List Wire) (module : Module) :
    wires.foldl flow.declare module =
      { module with
        inputs :=
          if flow.enters then wires.foldl (fun ports wire => addPort wire ports) module.inputs
          else module.inputs
        outputs :=
          if flow.leaves then wires.foldl (fun ports wire => addPort wire ports) module.outputs
          else module.outputs } := by
  induction wires generalizing module with
  | nil => cases flow <;> rfl
  | cons wire rest ih =>
    rw [List.foldl_cons, ih]
    cases flow <;> rfl

/-- Declaring the ports of a plan, one after the other. -/
theorem foldl_ports (ports : List Port) (number : Nat → Wire) (module : Module) :
    ports.foldl (fun module port => (port.nets.reverse.map number).foldl port.flow.declare module)
        module =
      { module with
        inputs := (((ports.filter fun port => port.flow.enters).flatMap
          fun port => port.nets.reverse).map number).foldl
            (fun ports wire => addPort wire ports) module.inputs
        outputs := (((ports.filter fun port => port.flow.leaves).flatMap
          fun port => port.nets.reverse).map number).foldl
            (fun ports wire => addPort wire ports) module.outputs } := by
  induction ports generalizing module with
  | nil => rfl
  | cons port rest ih =>
    rw [List.foldl_cons, ih, foldl_declare]
    cases enters : port.flow.enters <;> cases leaves : port.flow.leaves <;>
      simp [enters, leaves, List.foldl_append]

/-- Adding the parts of a plan, one after the other. -/
theorem foldl_parts (blueprint : Blueprint) (numbering : Plan → Signal → Wire) (plan : Plan)
    (parts : List Part) (module : Module) :
    parts.foldl (Part.add blueprint numbering plan) module =
      { module with
        gates := module.gates ++ parts.filterMap (Part.gate? (numbering plan))
        instances := module.instances ++
          parts.filterMap (Part.instance? blueprint numbering plan) } := by
  induction parts generalizing module with
  | nil => simp
  | cons part rest ih =>
    rw [List.foldl_cons, ih, Part.add, List.filterMap_cons, List.filterMap_cons]
    cases part <;> simp [Part.gate?, Part.instance?]

/-- Names for the signals of each module: those of constants, and different other ones for
different nets. -/
structure IsSpelling (blueprint : Blueprint) (spell : Plan → Signal → String) : Prop where
  constant : ∀ plan bit, spell plan (.constant bit) = constantName bit
  injective : ∀ plan ∈ blueprint, ∀ one ∈ plan.nets, ∀ other ∈ plan.nets,
    spell plan (.net one) = spell plan (.net other) → one = other
  inconstant : ∀ plan ∈ blueprint, ∀ net ∈ plan.nets, ¬ IsConstantName (spell plan (.net net))

theorem foldl_addPort_alike {domain : Domain} {relation : Wire → Wire → Prop}
    (matching : domain.Matching relation) {wires images : List Wire}
    (alike : Forall₂ relation wires images) {ports copies : List Wire}
    (start : Forall₂ relation ports copies) :
    Forall₂ relation (wires.foldl (fun ports wire => addPort wire ports) ports)
      (images.foldl (fun ports wire => addPort wire ports) copies) := by
  induction alike generalizing ports copies with
  | nil => exact start
  | cons head _ ih =>
    refine ih ?_
    change Forall₂ relation (addPort _ ports) (addPort _ copies)
    unfold addPort
    have known := matching.mem_iff start head
    split
    · rename_i isPort
      rwa [if_pos (known.1 isPort)]
    · rename_i isNew
      rw [if_neg (mt known.2 isNew)]
      exact List.rel_append start (.cons head .nil)

theorem mem_foldl_addPort {wires ports : List Wire} {wire : Wire} :
    wire ∈ wires.foldl (fun ports wire => addPort wire ports) ports ↔
      wire ∈ ports ∨ wire ∈ wires := by
  induction wires generalizing ports with
  | nil => simp
  | cons head rest ih =>
    rw [List.foldl_cons, ih, mem_addPort_iff, List.mem_cons, or_assoc, or_left_comm]

theorem mem_collect_iff {wires : List Wire} {wire : Wire} :
    wire ∈ collect wires ↔ wire ∈ wires := by
  rw [collect, mem_foldl_addPort]
  exact or_iff_right (List.not_mem_nil)

/-- What becomes of related items is related, where there is anything. -/
theorem forall₂_filterMap_self {α β γ : Type} {relation : β → γ → Prop} {items : List α}
    {first : α → Option β} {second : α → Option γ}
    (same : ∀ item ∈ items, Option.Rel relation (first item) (second item)) :
    Forall₂ relation (items.filterMap first) (items.filterMap second) := by
  have itself : Forall₂ (fun item image => item = image ∧ item ∈ items) items items :=
    List.forall₂_same.2 fun _ isItem => ⟨rfl, isItem⟩
  refine List.rel_filterMap ?_ itself
  rintro item _ ⟨rfl, isItem⟩
  exact same item isItem

theorem plan_of_find? {blueprint : Blueprint} {name : String} {plan : Plan}
    (found : blueprint.find? name = some plan) : plan ∈ blueprint ∧ plan.name = name := by
  have named := List.find?_some found
  exact ⟨List.mem_of_find?_eq_some found, by simpa using named⟩

/-! ### Where nets occur -/

theorem mem_nets_of_declared {plan : Plan} {flows : Flow → Bool} {net : Nat}
    (member : net ∈ plan.declared flows) : net ∈ plan.nets := by
  obtain ⟨port, isPort, isBit⟩ := List.mem_flatMap.1 member
  refine List.mem_append_left _ (List.mem_flatMap.2 ⟨port, ?_, List.mem_reverse.1 isBit⟩)
  exact List.mem_of_mem_filter isPort

theorem mem_nets_of_part {plan : Plan} {part : Part} (isPart : part ∈ plan.parts) {net : Nat}
    (member : .net net ∈ part.signals) : net ∈ plan.nets :=
  List.mem_append_right _ (List.mem_filterMap.2 ⟨_, List.mem_flatMap.2 ⟨part, isPart, member⟩, rfl⟩)

theorem mem_of_mem_joints {callee : Plan} {connections : List (String × List Signal)}
    {joint : Signal × Nat} (member : joint ∈ callee.joints connections) :
    joint.1 ∈ connections.flatMap Prod.snd ∧ joint.2 ∈ callee.nets := by
  obtain ⟨connection, isConnection, zipped⟩ := List.mem_flatMap.1 member
  obtain ⟨signal, net⟩ := joint
  obtain ⟨isSignal, isNet⟩ := List.of_mem_zip zipped
  refine ⟨List.mem_flatMap.2 ⟨connection, isConnection, isSignal⟩, ?_⟩
  cases found : callee.port? connection.1 with
  | none =>
    rw [found] at isNet
    cases isNet
  | some port =>
    rw [found] at isNet
    refine List.mem_append_left _ (List.mem_flatMap.2 ⟨port, ?_, isNet⟩)
    exact List.mem_of_find?_eq_some found

end Blueprint

/-! ### Designs that realize a blueprint -/

open Blueprint

/-- The wires of signals in a design that spells them in some way. -/
def Design.numbering (design : Design) (spell : Plan → Signal → String) (plan : Plan)
    (signal : Signal) : Wire :=
  design.allocator.wireOf (spell plan signal)

/-- The modules of the design are those of the blueprint. -/
structure Design.Realizes (design : Design) (spell : Plan → Signal → String)
    (blueprint : Blueprint) : Prop where
  domain : design.domain = .boolean
  modules : design.modules = blueprint.map (blueprint.realize (design.numbering spell))
  numbered : ∀ module ∈ design.modules, module.IsNumberedBy design.allocator

namespace Blueprint

variable {blueprint : Blueprint} {spell imageSpell : Plan → Signal → String}
  {first second : Design}

/-- The wires of one net of a module, or of a constant, in two designs. -/
def Shares (blueprint : Blueprint) (first second : Design)
    (spell imageSpell : Plan → Signal → String) (name : String) (wire image : Wire) : Prop :=
  (Domain.boolean.IsConstant wire ∧ wire = image) ∨
    ∃ plan ∈ blueprint, plan.name = name ∧ ∃ net ∈ plan.nets,
      (first.numbering spell plan (.net net) = wire ∧ wire < first.allocator.next) ∧
        second.numbering imageSpell plan (.net net) = image ∧ image < second.allocator.next

/-- The relation of two designs that spell the signals of a blueprint, and number them. -/
structure Spelled (blueprint : Blueprint) (first second : Design)
    (spell imageSpell : Plan → Signal → String) : Prop where
  names : (blueprint.map Plan.name).Nodup
  spelling : blueprint.IsSpelling spell
  imageSpelling : blueprint.IsSpelling imageSpell
  domain : first.allocator.domain = .boolean
  imageDomain : second.allocator.domain = .boolean

namespace Spelled

theorem flip (spelled : blueprint.Spelled first second spell imageSpell) :
    blueprint.Spelled second first imageSpell spell :=
  ⟨spelled.names, spelled.imageSpelling, spelled.spelling, spelled.imageDomain, spelled.domain⟩

theorem eq_of_shares (spelled : blueprint.Spelled first second spell imageSpell) {name : String}
    {wire one two : Wire} (oneShared : blueprint.Shares first second spell imageSpell name wire one)
    (twoShared : blueprint.Shares first second spell imageSpell name wire two) : one = two := by
  have inconstant : ∀ plan ∈ blueprint, ∀ net ∈ plan.nets,
      ¬ Domain.boolean.IsConstant (first.numbering spell plan (.net net)) :=
    fun plan isPlan net isNet => Allocator.not_isConstant_wireOf spelled.domain
      (spelled.spelling.inconstant plan isPlan net isNet)
  rcases oneShared with ⟨constant, rfl⟩ | ⟨plan, isPlan, named, net, isNet, ⟨rfl, inUse⟩, rfl, _⟩
  · rcases twoShared with ⟨_, rfl⟩ | ⟨plan, isPlan, _, net, isNet, ⟨rfl, _⟩, _⟩
    · rfl
    · exact absurd constant (inconstant plan isPlan net isNet)
  · rcases twoShared with ⟨constant, _⟩ |
      ⟨other, isOther, otherNamed, otherNet, isOtherNet, ⟨same, _⟩, rfl, _⟩
    · exact absurd constant (inconstant plan isPlan net isNet)
    · obtain rfl := List.inj_on_of_nodup_map spelled.names isPlan isOther
        (named.trans otherNamed.symm)
      have spelledAlike := Allocator.eq_of_wireOf inUse same.symm
      rw [spelled.spelling.injective plan isPlan net isNet otherNet isOtherNet spelledAlike]

theorem matching (spelled : blueprint.Spelled first second spell imageSpell) (name : String) :
    Domain.boolean.Matching (blueprint.Shares first second spell imageSpell name) := by
  have turned : ∀ {wire image : Wire},
      blueprint.Shares first second spell imageSpell name wire image →
      blueprint.Shares second first imageSpell spell name image wire := by
    rintro wire image (⟨constant, rfl⟩ | ⟨plan, isPlan, named, net, isNet, one, two⟩)
    · exact Or.inl ⟨constant, rfl⟩
    · exact Or.inr ⟨plan, isPlan, named, net, isNet, two, one⟩
  exact ⟨fun one two => spelled.flip.eq_of_shares (turned one) (turned two),
    fun one two => spelled.eq_of_shares one two, fun constant => Or.inl ⟨constant, rfl⟩⟩

/-- The wires of one signal are shared, if they are in use. -/
theorem shares (spelled : blueprint.Spelled first second spell imageSpell) {plan : Plan}
    (isPlan : plan ∈ blueprint) {signal : Signal}
    (isNet : ∀ net, signal = .net net → net ∈ plan.nets)
    (inUse : first.numbering spell plan signal < first.allocator.next)
    (imageInUse : second.numbering imageSpell plan signal < second.allocator.next) :
    blueprint.Shares first second spell imageSpell plan.name (first.numbering spell plan signal)
      (second.numbering imageSpell plan signal) := by
  cases signal with
  | net net => exact Or.inr ⟨plan, isPlan, rfl, net, isNet net rfl, ⟨rfl, inUse⟩, rfl, imageInUse⟩
  | constant bit =>
    unfold Design.numbering
    rw [spelled.spelling.constant, spelled.imageSpelling.constant,
      Allocator.wireOf_constantName spelled.domain,
      Allocator.wireOf_constantName spelled.imageDomain]
    refine Or.inl ⟨?_, rfl⟩
    cases bit <;> decide

variable {plan : Plan}

/-- Ports of one plan are alike. -/
theorem collect_alike (spelled : blueprint.Spelled first second spell imageSpell)
    (isPlan : plan ∈ blueprint) (flows : Flow → Bool)
    (covered : first.allocator.Covers
      (collect ((plan.declared flows).map fun net => first.numbering spell plan (.net net))))
    (imageCovered : second.allocator.Covers
      (collect ((plan.declared flows).map fun net =>
        second.numbering imageSpell plan (.net net)))) :
    Forall₂ (blueprint.Shares first second spell imageSpell plan.name)
      (collect ((plan.declared flows).map fun net => first.numbering spell plan (.net net)))
      (collect ((plan.declared flows).map fun net =>
        second.numbering imageSpell plan (.net net))) := by
  refine foldl_addPort_alike (spelled.matching plan.name) ?_ .nil
  rw [List.forall₂_map_left_iff, List.forall₂_map_right_iff, List.forall₂_same]
  intro net isDeclared
  refine spelled.shares isPlan (fun _ same => ?_) ?_ ?_
  · cases same
    exact mem_nets_of_declared isDeclared
  · exact covered _ (mem_collect_iff.2 (List.mem_map_of_mem isDeclared))
  · exact imageCovered _ (mem_collect_iff.2 (List.mem_map_of_mem isDeclared))

/-- The gates that a part is are alike. -/
theorem gate?_alike (spelled : blueprint.Spelled first second spell imageSpell)
    (isPlan : plan ∈ blueprint) {part : Part} (isPart : part ∈ plan.parts)
    (covered : ∀ gate ∈ part.gate? (first.numbering spell plan), first.allocator.Covers gate.wires)
    (imageCovered : ∀ gate ∈ part.gate? (second.numbering imageSpell plan),
      second.allocator.Covers gate.wires) :
    Option.Rel (Gate.Alike (blueprint.Shares first second spell imageSpell plan.name))
      (part.gate? (first.numbering spell plan))
      (part.gate? (second.numbering imageSpell plan)) := by
  cases part with
  | use => exact .none
  | gate label kind inputs output =>
    have wires := covered _ rfl
    have imageWires := imageCovered _ rfl
    have isSignal : ∀ pin ∈ inputs ++ [output],
        pin.2 ∈ (Part.gate label kind inputs output).signals := fun pin isPin =>
      List.mem_flatMap.2
        ⟨(pin.1, [pin.2]), List.mem_map.2 ⟨pin, isPin, rfl⟩, List.mem_singleton.2 rfl⟩
    have isNet : ∀ pin ∈ inputs ++ [output], ∀ net, pin.2 = .net net → net ∈ plan.nets :=
      fun pin isPin net same => mem_nets_of_part isPart (same ▸ isSignal pin isPin)
    refine .some ⟨rfl, ?_, ?_⟩
    · rw [List.forall₂_map_left_iff, List.forall₂_map_right_iff, List.forall₂_same]
      intro pin isInput
      refine spelled.shares isPlan (isNet pin (List.mem_append_left _ isInput)) ?_ ?_
      · exact wires _ (Gate.mem_wires_iff.2 (Or.inl (List.mem_map.2 ⟨pin, isInput, rfl⟩)))
      · exact imageWires _ (Gate.mem_wires_iff.2 (Or.inl (List.mem_map.2 ⟨pin, isInput, rfl⟩)))
    · refine spelled.shares isPlan (isNet output (by simp)) ?_ ?_
      · exact wires _ (Gate.mem_wires_iff.2 (Or.inr rfl))
      · exact imageWires _ (Gate.mem_wires_iff.2 (Or.inr rfl))

/-- The instances that a part is are alike. -/
theorem instance?_alike (spelled : blueprint.Spelled first second spell imageSpell)
    (isPlan : plan ∈ blueprint) {part : Part} (isPart : part ∈ plan.parts)
    (covered : ∀ inner ∈ part.instance? blueprint (first.numbering spell) plan,
      first.allocator.CoversPairings inner.pairings)
    (imageCovered : ∀ inner ∈ part.instance? blueprint (second.numbering imageSpell) plan,
      second.allocator.CoversPairings inner.pairings) :
    Option.Rel (Instance.Alike (blueprint.Shares first second spell imageSpell) plan.name)
      (part.instance? blueprint (first.numbering spell) plan)
      (part.instance? blueprint (second.numbering imageSpell) plan) := by
  cases part with
  | gate => exact .none
  | use label callee connections =>
    have paired := covered _ rfl
    have imagePaired := imageCovered _ rfl
    refine .some ⟨rfl, ?_, .nil, .nil⟩
    dsimp only [Instance.unresolved] at paired imagePaired ⊢
    cases found : blueprint.find? callee with
    | none => exact .nil
    | some target =>
      rw [found] at paired imagePaired
      obtain ⟨isTarget, rfl⟩ := plan_of_find? found
      dsimp only [Option.elim_some] at paired imagePaired ⊢
      rw [List.forall₂_map_left_iff, List.forall₂_map_right_iff, List.forall₂_same]
      intro joint isJoint
      obtain ⟨isSignal, isNet⟩ := mem_of_mem_joints isJoint
      obtain ⟨caller, callee⟩ := paired _ (List.mem_map_of_mem isJoint)
      obtain ⟨imageCaller, imageCallee⟩ := imagePaired _ (List.mem_map_of_mem isJoint)
      constructor
      · exact spelled.shares isPlan
          (fun net same => mem_nets_of_part isPart (same ▸ isSignal)) caller imageCaller
      · refine spelled.shares isTarget (fun net same => ?_) callee imageCallee
        cases same
        exact isNet

end Spelled

end Blueprint

/-- The outcome of reading a blueprint that was written in some format: a design that
realizes it, as far as this can be resolved, or an error where a gate does not have as many
inputs as it takes, or the top is missing. -/
structure Blueprint.IsReadAs (blueprint : Blueprint) (spell : Plan → Signal → String) (top : String)
    (outcome : Except Error Design) : Prop where
  realizes : blueprint.HasArities → top ∈ blueprint.map Plan.name →
    ∃ source : Design, source.Realizes spell blueprint ∧ source.top = some top ∧
      outcome = source.resolved?
  hasArities : ∀ design, outcome = .ok design → blueprint.HasArities
  hasTop : ∀ design, outcome = .ok design → top ∈ blueprint.map Plan.name

/-- The modules of a blueprint under another top, once they were read. -/
theorem Blueprint.isReadAs_of_realizes {blueprint : Blueprint} {spell : Plan → Signal → String}
    {source : Design} (realizes : source.Realizes spell blueprint) (arities : blueprint.HasArities)
    (top : String) :
    blueprint.IsReadAs spell top (source.setTop top >>= Design.resolved?) := by
  have names : source.modules.map Module.name = blueprint.map Plan.name := by
    rw [realizes.modules, List.map_map]
    rfl
  cases found : source.find? top with
  | none =>
    have missing : source.setTop top = .error (.unresolvedSubcircuit top Design.topParent) := by
      rw [Design.setTop, Design.findTop, found]
      rfl
    rw [missing]
    refine ⟨fun _ isTop => ?_, ?_, ?_⟩
    · rw [← names] at isTop
      obtain ⟨module, member, named⟩ := List.mem_map.1 isTop
      exact absurd (decide_eq_true named) (List.find?_eq_none.1 found module member)
    · rintro _ ⟨⟩
    · rintro _ ⟨⟩
  | some module =>
    have changed : source.setTop top = .ok { source with top := some top } := by
      rw [Design.setTop, Design.findTop, found]
      rfl
    have isTop : top ∈ blueprint.map Plan.name := by
      rw [← names, ← Design.name_of_find? found]
      exact List.mem_map_of_mem (Design.mem_of_find? found)
    rw [changed]
    exact ⟨fun _ _ => ⟨{ source with top := some top },
        ⟨realizes.domain, realizes.modules, realizes.numbered⟩, rfl, rfl⟩,
      fun _ _ => arities, fun _ _ => isTop⟩

/-- Designs that realize a blueprint are alike. -/
theorem Design.Realizes.exists_alike {blueprint : Blueprint}
    {spell imageSpell : Plan → Signal → String}
    {first second : Design} (realizes : first.Realizes spell blueprint)
    (imageRealizes : second.Realizes imageSpell blueprint)
    (names : (blueprint.map Plan.name).Nodup) (spelling : blueprint.IsSpelling spell)
    (imageSpelling : blueprint.IsSpelling imageSpell) (top : first.top = second.top) :
    ∃ relation, first.Alike relation second := by
  have spelled : blueprint.Spelled first second spell imageSpell :=
    ⟨names, spelling, imageSpelling, realizes.domain, imageRealizes.domain⟩
  have numbered : ∀ plan ∈ blueprint,
      (blueprint.realize (first.numbering spell) plan).IsNumberedBy first.allocator :=
    fun plan isPlan => realizes.numbered _ (realizes.modules ▸ List.mem_map_of_mem isPlan)
  have imageNumbered : ∀ plan ∈ blueprint,
      (blueprint.realize (second.numbering imageSpell) plan).IsNumberedBy second.allocator :=
    fun plan isPlan =>
      imageRealizes.numbered _ (imageRealizes.modules ▸ List.mem_map_of_mem isPlan)
  refine ⟨blueprint.Shares first second spell imageSpell, ?_, ?_, ?_, ?_, top⟩
  · rw [realizes.domain, imageRealizes.domain]
  · rw [realizes.domain]
    exact spelled.matching
  · rintro name wire image (⟨constant, rfl⟩ | ⟨_, _, _, _, _, ⟨_, inUse⟩, _, imageInUse⟩)
    · obtain ⟨_, named, _⟩ := Allocator.nameOf_of_isConstant realizes.domain constant
      obtain ⟨_, imageNamed, _⟩ := Allocator.nameOf_of_isConstant imageRealizes.domain constant
      exact ⟨Allocator.lt_next_of_nameOf named, Allocator.lt_next_of_nameOf imageNamed⟩
    · exact ⟨inUse, imageInUse⟩
  · rw [realizes.modules, imageRealizes.modules, List.forall₂_map_left_iff,
      List.forall₂_map_right_iff, List.forall₂_same]
    intro plan isPlan
    have left := numbered plan isPlan
    have right := imageNumbered plan isPlan
    refine ⟨rfl, rfl, ?_, ?_, ?_, ?_⟩
    · exact spelled.collect_alike isPlan _ left.inputs right.inputs
    · exact spelled.collect_alike isPlan _ left.outputs right.outputs
    · refine forall₂_filterMap_self fun part isPart => spelled.gate?_alike isPlan isPart ?_ ?_
      · exact fun gate isGate => left.gates gate (List.mem_filterMap.2 ⟨part, isPart, isGate⟩)
      · exact fun gate isGate => right.gates gate (List.mem_filterMap.2 ⟨part, isPart, isGate⟩)
    · refine forall₂_filterMap_self fun part isPart => spelled.instance?_alike isPlan isPart ?_ ?_
      · exact fun inner isInner =>
          left.pairings inner (List.mem_filterMap.2 ⟨part, isPart, isInner⟩)
      · exact fun inner isInner =>
          right.pairings inner (List.mem_filterMap.2 ⟨part, isPart, isInner⟩)

end Netlist
