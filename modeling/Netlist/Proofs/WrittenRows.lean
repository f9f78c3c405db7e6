import Netlist.Proofs.Arrangement
import Netlist.Proofs.WrittenNames

/-!
# Reading blueprints in BLIF

A step builds something if its value, and the change that it makes to the open model, are
what templates make of the wires of names, whatever names are numbered before and after
(`Reader.Builds`). Templates are put together like the steps, so that a blueprint that was
written in BLIF is read as a design that realizes it, provided that its gates have as many
inputs as they take (`isReadAs_readTexts`).
-/

namespace Netlist.Blif

open Blueprint (Signal Part Plan Flow IsPin bindingWord)

namespace Reader

/-! ### Building by a template -/

/-- In an open model of the Boolean domain, the step succeeds exactly under the condition.
Its value and the open model after it are what the templates make of the wires of names.
These may be looked up in any allocator that has all names that were numbered by then. -/
def Builds {α : Type} (step : Step α) (condition : Prop) (template : (String → Wire) → α)
    (change : (String → Wire) → Module → Module) : Prop :=
  ∀ (first : Reader) (module : Module), first.allocator.domain = .boolean →
    first.current = some module →
      (condition → ∃ value last, step first = (.ok value, last)) ∧
        ∀ value last, step first = (.ok value, last) →
          condition ∧ first.Advances last ∧ ∃ changed, last.current = some changed ∧
            ∀ final, last.allocator.Extends final →
              value = template final.wireOf ∧ changed = change final.wireOf module

namespace Builds

variable {α β : Type}

theorem pure (value : α) :
    Builds (Pure.pure value : Step α) True (fun _ => value) fun _ => id := by
  intro first module _ isOpen
  refine ⟨fun _ => ⟨value, first, rfl⟩, ?_⟩
  rintro _ _ ⟨⟩
  exact ⟨trivial, .refl _, module, isOpen, fun _ _ => ⟨rfl, rfl⟩⟩

theorem refuse_bind {line : Nat} {fault : Fault} {next : α → Step β}
    {template : (String → Wire) → β} {change : (String → Wire) → Module → Module} :
    Builds (refuse line fault >>= next) False template change := by
  intro first module _ _
  refine ⟨False.elim, ?_⟩
  rintro _ _ ⟨⟩

theorem bind {step : Step α} {next : α → Step β} {condition rest : Prop}
    {template : (String → Wire) → α} {change : (String → Wire) → Module → Module}
    (start : Builds step condition template change) (following : α → (String → Wire) → β)
    (further : α → (String → Wire) → Module → Module)
    (then_ : ∀ value number, value = template number →
      Builds (next value) rest (following value) (further value)) :
    Builds (step >>= next) (condition ∧ rest)
      (fun number => following (template number) number)
      fun number module => further (template number) number (change number module) := by
  intro first module isBoolean isOpen
  obtain ⟨succeeds, builds⟩ := start first module isBoolean isOpen
  constructor
  · rintro ⟨holds, restHolds⟩
    obtain ⟨value, middle, done⟩ := succeeds holds
    obtain ⟨_, toMiddle, changed, middleOpen, isBuilt⟩ := builds value middle done
    rw [bind_of_ok done]
    exact (then_ value _ (isBuilt middle.allocator (.refl _)).1 middle changed
      (toMiddle.extension.domain.trans isBoolean) middleOpen).1 restHolds
  · intro result last done
    obtain ⟨value, middle, begun, ended⟩ := bind_eq_ok_iff.1 done
    obtain ⟨holds, toMiddle, changed, middleOpen, isBuilt⟩ := builds value middle begun
    obtain ⟨restHolds, toLast, final, lastOpen, isResult⟩ :=
      (then_ value _ (isBuilt middle.allocator (.refl _)).1 middle changed
        (toMiddle.extension.domain.trans isBoolean) middleOpen).2 result last ended
    refine ⟨⟨holds, restHolds⟩, toMiddle.trans toLast, final, lastOpen, fun later toLater => ?_⟩
    obtain ⟨rfl, rfl⟩ := isBuilt later (toLast.extension.trans toLater)
    exact isResult later toLater

/-- Other words for a condition and for templates. -/
theorem congr {step : Step α} {condition other : Prop} {template following : (String → Wire) → α}
    {change further : (String → Wire) → Module → Module}
    (builds : Builds step condition template change) (same : condition ↔ other)
    (equal : ∀ number, template number = following number)
    (equalChange : ∀ number module, change number module = further number module) :
    Builds step other following further := by
  intro first module isBoolean isOpen
  obtain ⟨succeeds, isBuilt⟩ := builds first module isBoolean isOpen
  refine ⟨fun holds => succeeds (same.2 holds), fun value last done => ?_⟩
  obtain ⟨holds, advances, changed, lastOpen, isChanged⟩ := isBuilt value last done
  refine ⟨same.1 holds, advances, changed, lastOpen, fun final toFinal => ?_⟩
  obtain ⟨isValue, isModule⟩ := isChanged final toFinal
  exact ⟨isValue.trans (equal _), isModule.trans (equalChange _ _)⟩

/-- Values that are read one after the other while the model stays as it is. -/
theorem mapM {items : List α} {step : α → Step β} {template : α → (String → Wire) → β}
    (each : ∀ item ∈ items, Builds (step item) True (template item) fun _ => id) :
    Builds (items.mapM step) True (fun number => items.map fun item => template item number)
      fun _ => id := by
  induction items with
  | nil =>
    rw [List.mapM_nil]
    exact pure []
  | cons item rest ih =>
    obtain ⟨head, others⟩ := List.forall_mem_cons.1 each
    rw [List.mapM_cons]
    refine (head.bind (fun value number => value :: rest.map fun item => template item number)
      (fun _ _ => id) fun value _ _ => ?_).congr (and_self_iff) (fun _ => rfl) fun _ _ => rfl
    exact ((ih others).bind (fun values _ => value :: values) (fun _ _ => id) fun values _ _ =>
      pure (value :: values)).congr (and_self_iff) (fun _ => rfl) fun _ _ => rfl

/-- A record that begins with a keyword is taken as the keyword says. -/
theorem take {line : Nat} {keyword : String} {args : List String}
    (isKeyword : keyword.toList.head? = some '.') {condition : Prop}
    {template : (String → Wire) → PUnit} {change : (String → Wire) → Module → Module}
    (builds : Builds (takeKeyword line keyword args) condition template change) :
    Builds (Reader.take ⟨line, keyword, args⟩) condition template change := by
  intro first module isBoolean isOpen
  rw [take_keyword line args isKeyword]
  obtain ⟨succeeds, isBuilt⟩ :=
    builds { first with lastLine := line, cover := none } module isBoolean isOpen
  refine ⟨succeeds, fun value last done => ?_⟩
  obtain ⟨holds, advances, rest⟩ := isBuilt value last done
  exact ⟨holds, ⟨advances.extension, advances.modules, advances.name⟩, rest⟩

/-- Records with the words of some rows are taken one after the other. -/
theorem forM_take {items : List α} {row : α → List String} {condition : α → Prop}
    {change : α → (String → Wire) → Module → Module}
    (each : ∀ item ∈ items, ∀ record : Record, record.words = row item →
      Builds (Reader.take record) (condition item) (fun _ => ⟨⟩) (change item))
    {all : List Record} (words : all.map Record.words = items.map row) :
    Builds (all.forM Reader.take) (∀ item ∈ items, condition item) (fun _ => ⟨⟩)
      fun number module => items.foldl (fun module item => change item number module) module := by
  induction items generalizing all with
  | nil =>
    cases List.map_eq_nil_iff.1 words
    exact (pure PUnit.unit).congr (iff_of_true trivial (List.forall_mem_nil _)) (fun _ => rfl)
      fun _ _ => rfl
  | cons item rest ih =>
    obtain ⟨record, others, rfl, here, after⟩ := List.map_eq_cons_iff.1 words
    obtain ⟨head, tail⟩ := List.forall_mem_cons.1 each
    refine ((head record here).bind (fun _ _ => ⟨⟩) (fun _ number module =>
      rest.foldl (fun module item => change item number module) module)
        fun _ _ _ => ih tail after).congr ?_ (fun _ => rfl) fun _ _ => rfl
    rw [List.forall_mem_cons]

end Builds

theorem builds_wireOf (name : String) :
    Builds (wireOf name) True (fun number => number name) fun _ => id := by
  intro first module isBoolean isOpen
  obtain ⟨wire, allocator, allocated⟩ := Allocator.exists_allocate isBoolean name
  have read : wireOf name first =
      (.ok wire, { first with design := { first.design with allocator } }) := by
    change ((liftM (first.allocator.allocate name) : Step _) >>= _) first = _
    rw [allocated]
    rfl
  refine ⟨fun _ => ⟨_, _, read⟩, fun value last done => ?_⟩
  cases read.symm.trans done
  obtain ⟨extension, named⟩ := Allocator.allocate_eq_ok allocated
  refine ⟨trivial, ⟨extension, rfl, rfl⟩, module, isOpen, fun final toFinal => ⟨?_, rfl⟩⟩
  exact (Allocator.wireOf_of_nameOf (toFinal.nameOf named)).symm

theorem builds_updateModule (line : Nat) {change : Module → Module} {keep : WireSets → WireSets}
    (names : ∀ module, (change module).name = module.name) :
    Builds (updateModule line change keep) True (fun _ => ⟨⟩) fun _ => change := by
  intro first module _ isOpen
  obtain ⟨design, current, cover, lastLine, sets, openSets⟩ := first
  obtain rfl : current = some module := isOpen
  refine ⟨fun _ => ⟨_, _, rfl⟩, ?_⟩
  rintro _ _ ⟨⟩
  exact ⟨trivial, ⟨.refl _, rfl, congrArg some (names module)⟩, change module, rfl,
    fun _ _ => ⟨rfl, rfl⟩⟩

/-! ### Records -/

theorem builds_declarePorts (line : Nat) {add : Module → Wire → Module}
    (names : ∀ module wire, (add module wire).name = module.name) (args : List String) :
    Builds (declarePorts line add args) True (fun _ => ⟨⟩)
      fun number module => ((busOrder args).map number).foldl add module := by
  have wires := Builds.mapM fun name (_ : name ∈ busOrder args) => builds_wireOf name
  exact (wires.bind (fun _ _ => ⟨⟩) (fun wires _ module => wires.foldl add module)
    fun wires _ _ => builds_updateModule line (name_foldl names wires)).congr and_self_iff
      (fun _ => rfl) fun _ _ => rfl

section

variable {spell : Signal → String} {pins : List (String × Signal)}

/-- A pin with a wire is read as what was written. -/
theorem split_bind {β : Type} {pin : String × Signal} (isPin : IsPin pin.1)
    (nonempty : spell pin.2 ≠ "") (line : Nat) (next : String × String → Step β) :
    ((liftM (splitBinding line (bindingWord pin.1 (spell pin.2))) : Step _) >>= next) =
      next (pin.1, spell pin.2) := by
  rw [splitBinding_bindingWord isPin nonempty]
  rfl

theorem builds_boundWires (line : Nat)
    (valid : ∀ pin ∈ pins, IsPin pin.1 ∧ spell pin.2 ≠ "") :
    Builds (boundWires line (pins.map fun pin => bindingWord pin.1 (spell pin.2))) True
      (fun number => pins.map fun pin => number (spell pin.2)) fun _ => id := by
  rw [boundWires, List.mapM_map]
  refine Builds.mapM fun pin member => ?_
  obtain ⟨isPin, nonempty⟩ := valid pin member
  rw [Function.comp_apply, split_bind isPin nonempty]
  exact builds_wireOf (spell pin.2)

/-- Different pins are read as pairings. -/
theorem builds_pairings (line : Nat) {seen : List String}
    (valid : ∀ pin ∈ pins, IsPin pin.1 ∧ spell pin.2 ≠ "")
    (distinct : (pins.map Prod.fst).Nodup) (new : ∀ pin ∈ pins, pin.1 ∉ seen) :
    Builds (pairings line seen (pins.map fun pin => bindingWord pin.1 (spell pin.2))) True
      (fun number => pins.map fun pin => ⟨number (spell pin.2), number pin.1⟩) fun _ => id := by
  induction pins generalizing seen with
  | nil => exact Builds.pure []
  | cons pin rest ih =>
    obtain ⟨⟨isPin, nonempty⟩, restValid⟩ := List.forall_mem_cons.1 valid
    obtain ⟨isNew, restNew⟩ := List.forall_mem_cons.1 new
    obtain ⟨once, restDistinct⟩ := List.nodup_cons.1 distinct
    have others := ih restValid restDistinct fun other member isSeen =>
      (List.mem_cons.1 isSeen).elim (fun same => once (List.mem_map.2 ⟨other, member, same⟩))
        (restNew other member)
    rw [List.map_cons, pairings, split_bind isPin nonempty]
    dsimp only
    rw [if_neg isNew]
    refine ((builds_wireOf pin.1).bind (fun callee number => ⟨number (spell pin.2), callee⟩ ::
      rest.map fun pin => ⟨number (spell pin.2), number pin.1⟩) (fun _ _ => id)
        fun callee _ _ => ?_).congr and_self_iff (fun _ => rfl) fun _ _ => rfl
    refine ((builds_wireOf (spell pin.2)).bind (fun caller number => ⟨caller, callee⟩ ::
      rest.map fun pin => ⟨number (spell pin.2), number pin.1⟩) (fun _ _ => id)
        fun caller _ _ => ?_).congr and_self_iff (fun _ => rfl) fun _ _ => rfl
    exact (others.bind (fun others _ => ⟨caller, callee⟩ :: others) (fun _ _ => id)
      fun others _ _ => Builds.pure (⟨caller, callee⟩ :: others)).congr and_self_iff
        (fun _ => rfl) fun _ _ => rfl

end

/-- The wire of a signal. -/
abbrev numberOf (number : String → Wire) (plan : Plan) (signal : Signal) : Wire :=
  number (plan.blifName signal)

variable {blueprint : Blueprint} {plan : Plan}

/-- A gate is read if it has as many inputs as its operator takes. -/
theorem builds_addGate (line : Nat) (label : String) {kind : String}
    {inputs : List (String × Signal)} {output : String × Signal}
    (isPrimitive : (Operator.ofName kind).IsPrimitive)
    (valid : ∀ pin ∈ inputs ++ [output], IsPin pin.1 ∧ plan.blifName pin.2 ≠ "") :
    Builds (addGate line (kind ::
        (inputs ++ [output]).map fun pin => bindingWord pin.1 (plan.blifName pin.2)))
      (Part.gate label kind inputs output).HasArity (fun _ => ⟨⟩) fun number module =>
        (Part.gate label kind inputs output).add blueprint (numberOf number) plan module := by
  obtain ⟨arity, isArity⟩ := Option.isSome_iff_exists.1 isPrimitive
  have bound := builds_boundWires line valid
  obtain ⟨token, tokens, isCons⟩ : ∃ token tokens, ((inputs ++ [output]).map fun pin =>
      bindingWord pin.1 (plan.blifName pin.2)) = token :: tokens :=
    List.exists_cons_of_ne_nil (by simp)
  rw [isCons] at bound ⊢
  refine (@Builds.bind _ _ _ _ _ (inputs.length = arity) _ _ bound (fun _ _ => ⟨⟩)
    (fun wires _ module => module.addGate ⟨Operator.ofName kind, wires.dropLast, wires.getLastD 0⟩)
    fun wires number same => ?_).congr ?_ (fun _ => rfl) fun number module => ?_
  · have counted : wires.dropLast.length = inputs.length := by simp [same]
    dsimp only
    rw [isArity]
    dsimp only
    rw [counted]
    split
    · rename_i wrong
      exact Builds.refuse_bind.congr (iff_of_false id wrong) (fun _ => rfl) fun _ _ => rfl
    · rename_i right
      rw [not_not] at right
      exact Builds.congr (builds_updateModule line fun _ => rfl) (iff_of_true trivial right)
        (fun _ => rfl) fun _ _ => rfl
  · rw [true_and, Part.HasArity, isArity, Option.some.injEq, eq_comm]
  · rw [List.map_append, List.map_singleton, List.dropLast_concat, List.getLastD_concat]
    simp [Part.add, Part.gate?, Part.instance?, Module.addGate]

/-- A use is read as pairings with the wires that the callee names. -/
theorem builds_addInstance (line : Nat) (label : String) {name : String} {callee : Plan}
    (found : blueprint.find? name = some callee) (calleeValid : callee.IsValid blueprint)
    {connections : List (String × List Signal)}
    (distinct : (connections.map Prod.fst).Nodup)
    (connects : ∀ connection ∈ connections,
      callee.Connects connection ∧ '=' ∉ connection.1.toList)
    (named : ∀ signal ∈ connections.flatMap Prod.snd, plan.blifName signal ≠ "") :
    Builds (addInstance line (name :: (connections.flatMap Blueprint.connectionPins).map
        fun pin => bindingWord pin.1 (plan.blifName pin.2))) True (fun _ => ⟨⟩)
      fun number module =>
        (Part.use label name connections).add blueprint (numberOf number) plan module := by
  have unbracketed : ∀ connection ∈ connections, '[' ∉ connection.1.toList := by
    intro connection member
    obtain ⟨port, isPort, _⟩ := (connects connection member).1
    have portNamed : port.name = connection.1 := by simpa using List.find?_some isPort
    rw [← portNamed]
    exact calleeValid.portNames port (List.mem_of_find?_eq_some isPort)
  have valid : ∀ pin ∈ connections.flatMap Blueprint.connectionPins,
      IsPin pin.1 ∧ plan.blifName pin.2 ≠ "" := by
    intro pin isPin
    obtain ⟨connection, isConnection, inConnection⟩ := List.mem_flatMap.1 isPin
    obtain ⟨bit, isBit, isSignal⟩ := Blueprint.exists_of_mem_connectionPins inConnection
    rw [isBit]
    exact ⟨Blueprint.isPin_bitName (connects connection isConnection).2 bit,
      named pin.2 (List.mem_flatMap.2 ⟨connection, isConnection, isSignal⟩)⟩
  have paired := builds_pairings line valid (Blueprint.nodup_pins distinct unbracketed)
    fun _ _ => List.not_mem_nil
  refine (paired.bind (fun _ _ => ⟨⟩)
    (fun pairings _ module => module.addInstance (.unresolved name pairings))
    fun pairings _ _ => @builds_updateModule line
      (fun module => module.addInstance (.unresolved name pairings)) id fun _ => rfl).congr
        and_self_iff (fun _ => rfl) fun number module => ?_
  rw [Blueprint.flatMap_connectionPins calleeValid fun connection member =>
    (connects connection member).1]
  simp only [Part.add, Part.gate?, Part.instance?, Module.addInstance, found, Option.elim_some,
    Option.toList_none, Option.toList_some, List.append_nil, List.map_map]
  rfl

/-- Signals of parts have names. -/
theorem blifName_ne_empty (valid : plan.IsValid blueprint) {part : Part}
    (isPart : part ∈ plan.parts) : ∀ signal ∈ part.signals, plan.blifName signal ≠ "" := by
  intro signal isSignal
  cases signal with
  | net number => exact (valid.wireNames number (Blueprint.mem_nets_of_part isPart isSignal)).1
  | constant bit => exact (by decide : ∀ bit, Blueprint.constantName bit ≠ "") bit

/-- The record of a part adds it to the model. -/
theorem builds_part (blueprintValid : blueprint.IsValid) (valid : plan.IsValid blueprint)
    {part : Part} (isPart : part ∈ plan.parts) {record : Record}
    (words : record.words = part.row plan.blifName) :
    Builds (take record) part.HasArity (fun _ => ⟨⟩)
      fun number => part.add blueprint (numberOf number) plan := by
  obtain ⟨line, keyword, args⟩ := record
  have partValid := valid.parts part isPart
  have named := blifName_ne_empty valid isPart
  cases part with
  | gate label kind inputs output =>
    obtain ⟨rfl, rfl⟩ := List.cons.inj words
    obtain ⟨_, isPrimitive, _, pins⟩ := partValid
    refine Builds.take (by decide) (builds_addGate line label isPrimitive fun pin isPin =>
      ⟨pins pin isPin, named pin.2 ?_⟩)
    exact List.mem_flatMap.2 ⟨(pin.1, [pin.2]), List.mem_map.2 ⟨pin, isPin, rfl⟩,
      List.mem_singleton.2 rfl⟩
  | use label name connections =>
    obtain ⟨rfl, rfl⟩ := List.cons.inj words
    obtain ⟨distinct, callee, found, connects⟩ := partValid
    have calleeValid := blueprintValid.plans callee (Blueprint.plan_of_find? found).1
    exact Builds.take (by decide)
      (builds_addInstance line label found calleeValid distinct connects named)

/-! ### Models -/

/-- The records between the first and the last one of a model. -/
def bodyRows (plan : Plan) : List (List String) :=
  (".inputs" :: plan.bitNames Flow.enters) :: (".outputs" :: plan.bitNames Flow.leaves) ::
    plan.parts.map (Part.row plan.blifName)

/-- The records of a module as those of a model. -/
def blockOf (plan : Plan) : Block where
  header := [plan.name]
  body := bodyRows plan
  footer := []
  isInner := by
    have inner : ∀ part ∈ plan.parts, (part.row plan.blifName).head? ≠ some ".end" := by
      intro part _
      cases part <;> simp [Part.row]
    simpa [bodyRows] using inner

/-- The record of the ports of some directions declares them. -/
theorem builds_ports (valid : plan.IsValid blueprint) (flows : Flow → Bool) {line : Nat}
    {keyword : String} {add : Module → Wire → Module} (isKeyword : keyword.toList.head? = some '.')
    (names : ∀ module wire, (add module wire).name = module.name)
    (declares : takeKeyword line keyword = declarePorts line add) :
    Builds (take ⟨line, keyword, plan.bitNames flows⟩) True (fun _ => ⟨⟩)
      fun number module => ((plan.declared flows).map fun net =>
        numberOf number plan (.net net)).foldl add module := by
  refine Builds.take isKeyword ?_
  rw [declares]
  refine (builds_declarePorts line names _).congr Iff.rfl (fun _ => rfl) fun number module => ?_
  rw [busOrder_bitNames valid, List.map_map]
  rfl

/-- The ports and the parts of a module are added to the empty model. -/
theorem builds_body (blueprintValid : blueprint.IsValid) (valid : plan.IsValid blueprint)
    {inner : List Record} (words : inner.map Record.words = bodyRows plan) :
    Builds (inner.forM take) (∀ part ∈ plan.parts, part.HasArity) (fun _ => ⟨⟩)
      fun number module => plan.parts.foldl (Part.add blueprint (numberOf number) plan)
        (((plan.declared Flow.leaves).map fun net => numberOf number plan (.net net)).foldl
          Module.addOutput (((plan.declared Flow.enters).map
            fun net => numberOf number plan (.net net)).foldl Module.addInput module)) := by
  obtain ⟨⟨line, keyword, args⟩, rest, rfl, inputs, restWords⟩ := List.map_eq_cons_iff.1 words
  obtain ⟨⟨place, otherKeyword, otherArgs⟩, parts, rfl, outputs, partWords⟩ :=
    List.map_eq_cons_iff.1 restWords
  obtain ⟨rfl, rfl⟩ := List.cons.inj inputs
  obtain ⟨rfl, rfl⟩ := List.cons.inj outputs
  have entering := @builds_ports _ _ valid Flow.enters line ".inputs" Module.addInput (by decide)
    (fun _ _ => rfl) rfl
  have leaving := @builds_ports _ _ valid Flow.leaves place ".outputs" Module.addOutput (by decide)
    (fun _ _ => rfl) rfl
  have others := Builds.forM_take (fun part isPart record words =>
    builds_part blueprintValid valid isPart words) partWords
  exact (entering.bind _ _ fun _ _ _ => leaving.bind _ _ fun _ _ _ => others).congr
    (by rw [true_and, true_and]) (fun _ => rfl) fun _ _ => rfl

/-- What the body adds to the empty model is the whole module. -/
theorem foldl_body (blueprint : Blueprint) (plan : Plan) (numbering : Plan → Signal → Wire) :
    plan.parts.foldl (Part.add blueprint numbering plan)
      (((plan.declared Flow.leaves).map fun net => numbering plan (.net net)).foldl
        Module.addOutput (((plan.declared Flow.enters).map
          fun net => numbering plan (.net net)).foldl Module.addInput
            (Module.empty plan.name .boolean))) = blueprint.realize numbering plan := by
  have entering := Blueprint.foldl_declare .input
    ((plan.declared Flow.enters).map fun net => numbering plan (.net net))
    (Module.empty plan.name .boolean)
  have leaving := Blueprint.foldl_declare .output
    ((plan.declared Flow.leaves).map fun net => numbering plan (.net net))
  change List.foldl _ ((List.foldl (Flow.declare .output)
    (List.foldl (Flow.declare .input) (Module.empty plan.name .boolean) _) _)) _ = _
  rw [Blueprint.foldl_parts, leaving, entering]
  rfl

/-! ### Whole blueprints -/

/-- The reader took some modules of a blueprint, and added them to those before. -/
structure Takes (blueprint : Blueprint) (first : Reader) (plans : List Plan)
    (last : Reader) : Prop where
  arities : ∀ plan ∈ plans, ∀ part ∈ plan.parts, part.HasArity
  extension : first.allocator.Extends last.allocator
  closed : last.current = none
  modules : ∀ final, last.allocator.Extends final → last.design.modules =
    first.design.modules ++ plans.map (blueprint.realize (numberOf final.wireOf))

namespace Takes

variable {first middle last : Reader} {plans others : List Plan}

theorem refl (closed : first.current = none) : Takes blueprint first [] first :=
  ⟨List.forall_mem_nil _, .refl _, closed, fun _ _ => (List.append_nil _).symm⟩

theorem trans (start : Takes blueprint first plans middle)
    (rest : Takes blueprint middle others last) : Takes blueprint first (plans ++ others) last := by
  refine ⟨List.forall_mem_append.2 ⟨start.arities, rest.arities⟩,
    start.extension.trans rest.extension, rest.closed, fun final toFinal => ?_⟩
  rw [rest.modules final toFinal, start.modules final (rest.extension.trans toFinal),
    List.append_assoc, List.map_append]

theorem names (takes : Takes blueprint first plans last) :
    last.design.modules.map Module.name =
      first.design.modules.map Module.name ++ plans.map Plan.name := by
  rw [takes.modules last.allocator (.refl _), List.map_append, List.map_map]
  rfl

end Takes

/-- Between models, the records of a module are taken exactly if its gates have as many
inputs as they take. -/
theorem takes_plan (blueprintValid : blueprint.IsValid) (isPlan : plan ∈ blueprint)
    {first : Reader} (isBoolean : first.allocator.domain = .boolean)
    (closed : first.current = none) (isNew : first.design.contains plan.name = false)
    {all : List Record} (words : all.map Record.words = plan.rows) :
    ((∀ part ∈ plan.parts, part.HasArity) → ∃ last, all.forM take first = (.ok ⟨⟩, last)) ∧
      ∀ last, all.forM take first = (.ok ⟨⟩, last) → Takes blueprint first [plan] last := by
  obtain ⟨line, inner, place, rfl, innerWords⟩ :=
    @exists_of_map_words (blockOf plan) all words
  have begins : take ⟨line, ".model", [plan.name]⟩ first =
      (.ok ⟨⟩, first.opened line plan.name) := by
    rw [take_begin closed]
    exact if_neg (Bool.eq_false_iff.1 isNew)
  have empty : (first.opened line plan.name).current =
      some (Module.empty plan.name .boolean) := by
    rw [← isBoolean]
    rfl
  obtain ⟨succeeds, isBuilt⟩ := builds_body blueprintValid (blueprintValid.plans plan isPlan)
    innerWords (first.opened line plan.name) _ isBoolean empty
  constructor
  · intro arities
    obtain ⟨⟨⟩, middle, done⟩ := succeeds arities
    obtain ⟨_, _, module, isOpen, _⟩ := isBuilt _ _ done
    refine ⟨middle.ended place module, bind_eq_ok_iff.2 ⟨⟨⟩, _, begins, ?_⟩⟩
    exact forM_append_eq_ok_iff.2 ⟨middle, done, bind_of_ok (take_end isOpen place [])⟩
  · intro last taken
    obtain ⟨⟨⟩, start, began, rest⟩ := bind_eq_ok_iff.1 taken
    cases begins.symm.trans began
    obtain ⟨middle, done, ending⟩ := forM_append_eq_ok_iff.1 rest
    obtain ⟨arities, toMiddle, module, isOpen, isModule⟩ := isBuilt _ _ done
    cases (bind_of_ok (take_end isOpen place [])).symm.trans ending
    have adds := (adds_ended isNew toMiddle isOpen place).2
    refine ⟨List.forall_mem_singleton.2 arities, adds.extension, adds.closed,
      fun final toFinal => ?_⟩
    rw [allocator_ended] at toFinal
    have realized := (isModule final toFinal).2.trans (foldl_body blueprint plan _)
    rw [adds.modules, realized, List.map_singleton]

/-- The records of some modules are taken exactly if all gates have as many inputs as they
take. -/
theorem takes_plans (blueprintValid : blueprint.IsValid) {plans : List Plan}
    (arePlans : ∀ plan ∈ plans, plan ∈ blueprint) {first : Reader}
    (isBoolean : first.allocator.domain = .boolean) (closed : first.current = none)
    (distinct : (first.design.modules.map Module.name ++ plans.map Plan.name).Nodup)
    {all : List Record} (words : all.map Record.words = plans.flatMap Plan.rows) :
    ((∀ plan ∈ plans, ∀ part ∈ plan.parts, part.HasArity) →
        ∃ last, all.forM take first = (.ok ⟨⟩, last)) ∧
      ∀ last, all.forM take first = (.ok ⟨⟩, last) → Takes blueprint first plans last := by
  induction plans generalizing first all with
  | nil =>
    cases List.map_eq_nil_iff.1 words
    refine ⟨fun _ => ⟨first, rfl⟩, ?_⟩
    rintro _ ⟨⟩
    exact .refl closed
  | cons plan rest ih =>
    obtain ⟨isPlan, restPlans⟩ := List.forall_mem_cons.1 arePlans
    obtain ⟨here, after, rfl, hereWords, afterWords⟩ := List.map_eq_append_iff.1 words
    have isNew : first.design.contains plan.name = false :=
      Design.contains_eq_false_iff.2 fun taken =>
        List.disjoint_of_nodup_append distinct taken List.mem_cons_self
    obtain ⟨succeeds, takes⟩ := takes_plan blueprintValid isPlan isBoolean closed isNew hereWords
    have stillDistinct : ∀ middle, Takes blueprint first [plan] middle →
        (middle.design.modules.map Module.name ++ rest.map Plan.name).Nodup := by
      intro middle begun
      rw [begun.names, List.append_assoc]
      exact distinct
    constructor
    · intro arities
      obtain ⟨headArities, restArities⟩ := List.forall_mem_cons.1 arities
      obtain ⟨middle, begun⟩ := succeeds headArities
      have start := takes middle begun
      obtain ⟨last, done⟩ := (ih restPlans (start.extension.domain.trans isBoolean) start.closed
        (stillDistinct middle start) afterWords).1 restArities
      exact ⟨last, forM_append_eq_ok_iff.2 ⟨middle, begun, done⟩⟩
    · intro last done
      obtain ⟨middle, begun, ended⟩ := forM_append_eq_ok_iff.1 done
      have start := takes middle begun
      exact start.trans ((ih restPlans (start.extension.domain.trans isBoolean) start.closed
        (stillDistinct middle start) afterWords).2 last ended)

end Reader

/-- A text is read as the records on it. -/
theorem readTexts_of_taken {allocator : Allocator} {text : String} {last : Reader}
    (taken : (records text).forM Reader.take (Reader.start allocator) = (.ok ⟨⟩, last))
    (closed : last.current = none) (top : String) :
    readTexts allocator (some top) [text] = last.design.setTop top >>= Design.resolved? := by
  obtain ⟨design, current, cover, lastLine, sets, openSets⟩ := last
  obtain rfl : current = none := closed
  have took : [text].forM Reader.takeText (Reader.start allocator) =
      (.ok ⟨⟩, ⟨design, none, none, lastLine, sets, openSets⟩) :=
    Reader.bind_eq_ok_iff.2 ⟨⟨⟩, _, Reader.bind_eq_ok_iff.2 ⟨⟨⟩, _, taken, rfl⟩, rfl⟩
  have finished : ExceptT.run (do [text].forM Reader.takeText; Reader.finish)
      (Reader.start allocator) = (.ok design, ⟨design, none, none, lastLine, sets, openSets⟩) :=
    (Reader.bind_of_ok took).trans rfl
  unfold readTexts
  dsimp only
  rw [finished]
  rfl

theorem readTexts_of_refused {allocator : Allocator} {text : String} {last : Reader}
    {error : Error}
    (refused : (records text).forM Reader.take (Reader.start allocator) = (.error error, last))
    (top : String) : readTexts allocator (some top) [text] = .error error := by
  have failed : ExceptT.run (do [text].forM Reader.takeText; Reader.finish)
      (Reader.start allocator) = (.error error, last) :=
    Reader.bind_of_error (Reader.bind_of_error (Reader.bind_of_error refused))
  unfold readTexts
  dsimp only
  rw [failed]
  rfl

/-- Modules that are taken are numbered by the reader. -/
theorem isNumberedBy_of_taken {allocator : Allocator} {all : List Record} {last : Reader}
    (taken : all.forM Reader.take (Reader.start allocator) = (.ok ⟨⟩, last)) :
    ∀ module ∈ last.design.modules, module.IsNumberedBy last.allocator := by
  have keeps : Reader.Keeps (Reader.start allocator) (all.forM Reader.take) fun _ _ => True :=
    Reader.Keeps.forM fun _ record _ => Reader.keeps_take record
  have sound := (keeps (Reader.isSound_start allocator) _ _ taken).2.1
  intro module member
  obtain ⟨_, isSound⟩ := sound.exists_isSoundModule member
  exact isSound.numbered

/-- A blueprint that was written in BLIF is read as a design that realizes it. -/
theorem isReadAs_readTexts {blueprint : Blueprint} (valid : blueprint.IsValid)
    {allocator : Allocator} (isBoolean : allocator.domain = .boolean) {text : String}
    (written : (records text).map Record.words = blueprint.rows) (top : String) :
    blueprint.IsReadAs Plan.blifName top (readTexts allocator (some top) [text]) := by
  obtain ⟨succeeds, takes⟩ := @Reader.takes_plans _ valid blueprint (fun _ => id)
    (Reader.start allocator) isBoolean rfl valid.names _ written
  cases taken : (records text).forM Reader.take (Reader.start allocator) with
  | mk outcome last =>
    cases outcome with
    | error error =>
      rw [readTexts_of_refused taken]
      refine ⟨fun arities _ => ?_, ?_, ?_⟩
      · obtain ⟨_, done⟩ := succeeds arities
        cases taken.symm.trans done
      · rintro _ ⟨⟩
      · rintro _ ⟨⟩
    | ok done =>
      have all := takes last taken
      rw [readTexts_of_taken taken all.closed]
      refine Blueprint.isReadAs_of_realizes ⟨?_, ?_, ?_⟩ all.arities top
      · exact all.extension.domain.trans isBoolean
      · exact all.modules _ (.refl _)
      · exact isNumberedBy_of_taken taken

end Netlist.Blif
