import Netlist.Proofs.Lockstep
import Netlist.Proofs.Progress

/-!
# Alike circuits

Alike circuits are scheduled in lockstep: the first gate that is ready on one side is so on
the other (`Circuit.Alike.exists_schedule`). Their texts are evaluated in lockstep as well,
with equal values on related wires (`Bristol.Evaluator.Alike`), so that both evaluations
fail or both yield the same values (`Circuit.Alike.outputValues?_eq`).
-/

namespace Netlist

open List (Forall₂)

variable {domain : Domain} {flat : Wire → Wire → Prop}

/-! ### Scheduling -/

theorem erase_alike {α β : Type} [DecidableEq α] [DecidableEq β] {relation : α → β → Prop}
    (unique : Relator.BiUnique relation) {items : List α} {images : List β}
    (alike : Forall₂ relation items images) {item : α} {image : β} (related : relation item image) :
    Forall₂ relation (items.erase item) (images.erase image) := by
  induction alike with
  | nil => exact .nil
  | @cons first imageFirst _ _ head rest ih =>
    rw [List.erase_cons, List.erase_cons]
    by_cases same : first = item
    · subst same
      obtain rfl := unique.2 head related
      rw [beq_self_eq_true, beq_self_eq_true]
      exact rest
    · have imageDifferent : imageFirst ≠ image := by
        rintro rfl
        exact same (unique.1 head related)
      rw [beq_false_of_ne same, beq_false_of_ne imageDifferent]
      exact .cons head ih

theorem Gate.Alike.isReady_iff (matching : domain.Matching flat) {gates images : List Gate}
    (alike : Forall₂ (Gate.Alike flat) gates images) {gate image : Gate}
    (related : gate.Alike flat image) : gate.IsReady gates ↔ image.IsReady images :=
  forall_mem_iff_of_forall₂ alike fun _ _ other =>
    not_congr (matching.mem_iff related.inputs other.output)

/-- Alike gates are taken in the same order, and alike gates remain. -/
theorem scheduleGates_alike (matching : domain.Matching flat) {gates images : List Gate}
    (alike : Forall₂ (Gate.Alike flat) gates images) :
    Forall₂ (Gate.Alike flat) (scheduleGates gates).1 (scheduleGates images).1 ∧
      Forall₂ (Gate.Alike flat) (scheduleGates gates).2 (scheduleGates images).2 := by
  have ready : ∀ {gates images : List Gate}, Forall₂ (Gate.Alike flat) gates images →
      Option.Rel (Gate.Alike flat) (gates.find? fun gate => gate.IsReady gates)
        (images.find? fun gate => gate.IsReady images) := fun alike =>
    find?_alike alike fun _ _ related => decide_eq_decide.2 (related.isReady_iff matching alike)
  fun_induction scheduleGates gates generalizing images with
  | case1 gates found =>
    have related := ready alike
    rw [found] at related
    have imageFound : (images.find? fun gate => gate.IsReady images) = none := by
      generalize (images.find? fun gate => gate.IsReady images) = other at related ⊢
      cases related
      rfl
    rw [scheduleGates_of_none imageFound]
    exact ⟨.nil, alike⟩
  | case2 gates gate found _ ordered stuck result ih =>
    have related := ready alike
    rw [found] at related
    obtain ⟨image, imageFound, same⟩ := exists_of_rel_some related
    rw [scheduleGates_of_some imageFound]
    have rest := ih (erase_alike (Gate.biUnique_alike matching.biUnique) alike same)
    rw [result] at rest
    exact ⟨.cons same rest.1, rest.2⟩

/-- If the first circuit can be scheduled, so can the second one, in the same order. -/
theorem Circuit.Alike.exists_schedule {circuit image ordered : Circuit}
    (alike : circuit.Alike flat image) (matching : domain.Matching flat)
    (scheduled : circuit.schedule = .ok ordered) :
    ∃ imageOrdered, image.schedule = .ok imageOrdered ∧ ordered.Alike flat imageOrdered := by
  obtain ⟨orderedAlike, stuckAlike⟩ := scheduleGates_alike matching alike.gates
  unfold schedule at scheduled ⊢
  split at scheduled
  · rename_i gates same
    cases scheduled
    rw [same] at orderedAlike stuckAlike
    split
    · rename_i imageGates imageSame
      rw [imageSame] at orderedAlike
      exact ⟨_, rfl, alike.domain, alike.inputs, alike.outputs, orderedAlike⟩
    · rename_i imageSame
      rw [imageSame] at stuckAlike
      cases stuckAlike
  · cases scheduled

/-! ### Evaluation -/

namespace Bristol

/-- The lines do the same to related wires. -/
inductive Line.Alike (flat : Wire → Wire → Prop) : Line → Line → Prop where
  | input {wire image : Wire} : flat wire image → Alike flat (.input wire) (.input image)
  | output {wire image : Wire} : flat wire image → Alike flat (.output wire) (.output image)
  | gate {gate image : Gate} : gate.Alike flat image → Alike flat (.gate gate) (.gate image)

namespace Evaluator

/-- The evaluators hold equal values for related wires, and have yielded equal outputs. -/
structure Alike (flat : Wire → Wire → Prop) (evaluator image : Evaluator) : Prop where
  values : ∀ wire copy, flat wire copy →
    evaluator.values.lookup wire = image.values.lookup copy
  witness : evaluator.witness = image.witness
  outputs : evaluator.outputs.map Prod.snd = image.outputs.map Prod.snd
  constantsBound : evaluator.constantsBound = image.constantsBound

namespace Alike

variable {evaluator image : Evaluator}

theorem get (alike : evaluator.Alike flat image) {wire copy : Wire} (related : flat wire copy)
    {bit : Bool} : evaluator.get wire = .ok bit ↔ image.get copy = .ok bit := by
  unfold Evaluator.get
  rw [alike.values wire copy related]
  cases image.values.lookup copy with
  | none => exact iff_of_false (by rintro ⟨⟩) (by rintro ⟨⟩)
  | some value => exact Iff.rfl

theorem set (alike : evaluator.Alike flat image) (matching : domain.Matching flat)
    {wire copy : Wire} (related : flat wire copy) (bit : Bool) :
    (evaluator.set wire bit).1.Alike flat (image.set copy bit).1 := by
  have values : ∀ other otherCopy, flat other otherCopy →
      (setValue wire bit evaluator.values).lookup other =
        (setValue copy bit image.values).lookup otherCopy := by
    intro other otherCopy otherRelated
    rw [lookup_setValue, lookup_setValue, alike.values _ _ otherRelated]
    exact if_congr (matching.eq_iff otherRelated related) rfl rfl
  unfold Evaluator.set
  rw [alike.values wire copy related]
  split
  · exact ⟨values, alike.witness, alike.outputs, alike.constantsBound⟩
  · exact ⟨values, alike.witness, alike.outputs, alike.constantsBound⟩

/-- Related wires are read in lockstep. -/
theorem mapM_get (alike : evaluator.Alike flat image) {wires copies : List Wire}
    (related : Forall₂ flat wires copies) {bits : List Bool}
    (read : wires.mapM evaluator.get = .ok bits) : copies.mapM image.get = .ok bits := by
  induction related generalizing bits with
  | nil => exact read
  | @cons wire copy wires copies head _ ih =>
    rw [List.mapM_cons] at read ⊢
    cases first : evaluator.get wire with
    | error error =>
      rw [first] at read
      cases read
    | ok bit =>
      rw [first] at read
      cases others : wires.mapM evaluator.get with
      | error error =>
        rw [others] at read
        cases read
      | ok remaining =>
        rw [others] at read
        rw [(alike.get head).1 first, ih others]
        exact read

theorem gateValue (alike : evaluator.Alike flat image) {gate copy : Gate}
    (related : gate.Alike flat copy) {bit : Bool} (computed : evaluator.gateValue gate = .ok bit) :
    image.gateValue copy = .ok bit := by
  unfold Evaluator.gateValue at computed ⊢
  cases read : gate.inputs.reverse.mapM evaluator.get with
  | error error =>
    rw [read] at computed
    cases computed
  | ok bits =>
    rw [read] at computed
    rw [alike.mapM_get (List.rel_reverse related.inputs) read, ← related.operator]
    exact computed

/-- An input takes the next bit of the witness, unless it is a constant that was given. -/
theorem exists_step_input (alike : evaluator.Alike flat image)
    (matching : Domain.boolean.Matching flat) {wire copy : Wire} (same : flat wire copy)
    {next : Evaluator} {events : List Event}
    (stepped : evaluator.step (.input wire) = .ok (next, events)) :
    ∃ imageNext imageEvents, image.step (.input copy) = .ok (imageNext, imageEvents) ∧
      next.Alike flat imageNext := by
  have given : evaluator.constantsBound ∧ Domain.boolean.IsConstant wire ↔
      image.constantsBound ∧ Domain.boolean.IsConstant copy := by
    rw [alike.constantsBound, matching.isConstant_iff same]
  simp only [step] at stepped ⊢
  by_cases isGiven : evaluator.constantsBound ∧ Domain.boolean.IsConstant wire
  · rw [if_pos isGiven] at stepped
    rw [if_pos (given.1 isGiven)]
    cases stepped
    exact ⟨_, _, rfl, alike⟩
  · rw [if_neg isGiven] at stepped
    rw [if_neg (mt given.2 isGiven), ← alike.witness]
    cases witness : evaluator.witness with
    | nil =>
      rw [witness] at stepped
      cases stepped
    | cons bit rest =>
      rw [witness] at stepped
      have taken : Evaluator.Alike flat { evaluator with witness := rest }
          { image with witness := rest } :=
        ⟨alike.values, rfl, alike.outputs, alike.constantsBound⟩
      have after := taken.set matching same bit
      rw [Except.ok.inj stepped] at after
      exact ⟨_, _, rfl, after⟩

/-- Alike evaluators run alike lines in lockstep. -/
theorem exists_step (alike : evaluator.Alike flat image) (matching : Domain.boolean.Matching flat)
    {line copy : Line} (related : line.Alike flat copy) {next : Evaluator} {events : List Event}
    (stepped : evaluator.step line = .ok (next, events)) :
    ∃ imageNext imageEvents, image.step copy = .ok (imageNext, imageEvents) ∧
      next.Alike flat imageNext := by
  cases related with
  | input same => exact alike.exists_step_input matching same stepped
  | @output wire copy same =>
    simp only [step] at stepped ⊢
    cases read : evaluator.get wire with
    | error error =>
      rw [read] at stepped
      cases stepped
    | ok bit =>
      rw [read] at stepped
      rw [(alike.get same).1 read]
      cases stepped
      refine ⟨_, _, rfl, alike.values, alike.witness, ?_, alike.constantsBound⟩
      rw [List.map_append, List.map_append, alike.outputs]
      rfl
  | @gate gate copy same =>
    simp only [step] at stepped ⊢
    cases computed : evaluator.gateValue gate with
    | error error =>
      rw [computed] at stepped
      cases stepped
    | ok bit =>
      rw [computed] at stepped
      rw [alike.gateValue same computed]
      have after := alike.set matching same.output bit
      cases stepped
      exact ⟨_, _, rfl, after.values, after.witness, after.outputs, after.constantsBound⟩

theorem exists_follow (alike : evaluator.Alike flat image)
    (matching : Domain.boolean.Matching flat) {lines copies : List Line}
    (related : Forall₂ (Line.Alike flat) lines copies) {last : Evaluator}
    (followed : evaluator.follow lines = .ok last) :
    ∃ imageLast, image.follow copies = .ok imageLast ∧ last.Alike flat imageLast := by
  induction related generalizing evaluator image with
  | nil =>
    cases followed
    exact ⟨image, rfl, alike⟩
  | @cons line copy _ _ head _ ih =>
    rw [follow] at followed ⊢
    cases stepped : evaluator.step line with
    | error error =>
      rw [stepped] at followed
      cases followed
    | ok outcome =>
      obtain ⟨next, events⟩ := outcome
      rw [stepped] at followed
      obtain ⟨imageNext, imageEvents, imageStepped, after⟩ :=
        alike.exists_step matching head stepped
      rw [imageStepped]
      exact ih after followed

end Alike

/-- An evaluator that has run nothing is alike to itself: it holds constants only. -/
theorem alike_ready (matching : Domain.boolean.Matching flat) {constantsBound : Bool}
    {evaluator : Evaluator} (fresh : evaluator.values = (empty constantsBound).values) :
    evaluator.Alike flat evaluator := by
  have unset : ∀ wire, ¬ Domain.boolean.IsConstant wire → evaluator.values.lookup wire = none := by
    intro wire inconstant
    have notFalse : wire ≠ falseWire := fun same => inconstant (same ▸ by decide)
    have notTrue : wire ≠ trueWire := fun same => inconstant (same ▸ by decide)
    rw [fresh]
    cases constantsBound with
    | false => rfl
    | true =>
      change constants.lookup wire = none
      rw [constants, List.lookup_cons, beq_false_of_ne notFalse, List.lookup_cons,
        beq_false_of_ne notTrue]
      rfl
  refine ⟨fun wire copy related => ?_, rfl, rfl, rfl⟩
  by_cases constant : Domain.boolean.IsConstant wire
  · rw [matching.eq_of_isConstant related (Or.inl constant)]
  · rw [unset wire constant, unset copy (mt (matching.isConstant_iff related).2 constant)]

end Evaluator

/-- The values that the evaluation of a text yields, in order, if it does not fail. -/
def outputValues? (text witness : String) (constants : Bool) : Option (List Bool) :=
  (evaluate text witness constants).result.toOption.map (List.map Prod.snd)

theorem outputValues?_eq_some_iff {text witness : String} {constants : Bool} {values : List Bool} :
    outputValues? text witness constants = some values ↔
      ∃ ready last, (Evaluator.empty constants).addWitness witness = (ready, .ok ()) ∧
        ((ready.runText text).1 = last ∧ (ready.runText text).2.result = .ok ()) ∧
          last.outputs.map Prod.snd = values := by
  unfold outputValues? evaluate
  rcases (Evaluator.empty constants).addWitness witness with ⟨ready, error | _⟩
  · exact iff_of_false (by rintro ⟨⟩) (by rintro ⟨_, _, ⟨⟩, _⟩)
  · dsimp only
    cases ran : (ready.runText text).2.result with
    | error error =>
      refine iff_of_false ?_ ?_
      · simp [Report.bind, ran, Except.toOption]
      · rintro ⟨_, _, ⟨⟩, ⟨_, succeeded⟩, _⟩
        cases ran.symm.trans succeeded
    | ok =>
      simp only [Report.bind, ran, Report.ok, Except.toOption, Option.map_some, Option.some.injEq]
      constructor
      · intro same
        exact ⟨ready, _, rfl, ⟨rfl, ran⟩, same⟩
      · rintro ⟨_, _, ⟨⟩, ⟨rfl, _⟩, same⟩
        exact same

end Bristol

namespace Circuit

open Bristol

/-- The numbers of gates and wires fit into words. -/
structure FitsWords (circuit : Circuit) : Prop where
  gates : circuit.gates.length < Decimal.wordLimit
  wires : circuit.wireCount < Decimal.wordLimit

/-- Each gate is a primitive with as many inputs as that takes. -/
def HasArities (circuit : Circuit) : Prop :=
  ∀ gate ∈ circuit.gates, gate.operator.arity? = some gate.inputs.length

/-- No line of the circuit is that of a cell. -/
theorem HasArities.isPrimitive {circuit : Circuit} (arities : circuit.HasArities) :
    ∀ line ∈ circuit.bristolLines, line.IsPrimitive := by
  intro line member
  rcases List.mem_append.1 member with inFront | isOutput
  · rcases List.mem_append.1 inFront with isInput | isGate
    · obtain ⟨wire, _, rfl⟩ := List.mem_map.1 isInput
      trivial
    · obtain ⟨gate, ofCircuit, rfl⟩ := List.mem_map.1 isGate
      exact arities gate ofCircuit
  · obtain ⟨wire, _, rfl⟩ := List.mem_map.1 isOutput
    trivial

namespace Alike

variable {circuit image : Circuit}

theorem flip (alike : circuit.Alike flat image) :
    image.Alike (fun wire copy => flat copy wire) circuit :=
  ⟨alike.domain.symm, alike.inputs.flip, alike.outputs.flip,
    alike.gates.flip.imp fun _ _ gate => gate.flip⟩

theorem readsConstants_eq (alike : circuit.Alike flat image)
    (matching : Domain.boolean.Matching flat) : circuit.readsConstants = image.readsConstants := by
  have wires := List.rel_append (List.rel_flatMap alike.gates fun _ _ gate => gate.inputs)
    alike.outputs
  have inconstant := forall_mem_iff_of_forall₂ wires fun _ _ related =>
    not_congr (matching.isConstant_iff related)
  unfold readsConstants
  rw [Bool.eq_iff_iff, List.any_eq_true, List.any_eq_true]
  simp only [decide_eq_true_eq]
  rw [← not_iff_not]
  push Not
  exact inconstant

theorem forall₂_bristolLines (alike : circuit.Alike flat image)
    (matching : Domain.boolean.Matching flat) :
    Forall₂ (Line.Alike flat) circuit.bristolLines image.bristolLines := by
  have declared : Forall₂ flat circuit.declaredInputs image.declaredInputs := by
    unfold declaredInputs
    rw [alike.readsConstants_eq matching]
    refine List.rel_append ?_ alike.inputs
    split
    · exact .cons (matching.constants (by decide)) (.cons (matching.constants (by decide)) .nil)
    · exact .nil
  exact List.rel_append (List.rel_append (List.rel_map (fun _ _ => .input) declared)
    (List.rel_map (fun _ _ => .gate) alike.gates)) (List.rel_map (fun _ _ => .output) alike.outputs)

theorem hasArities (alike : circuit.Alike flat image) (arities : circuit.HasArities) :
    image.HasArities := by
  intro copy member
  obtain ⟨gate, isGate, same⟩ := exists_of_mem_right alike.gates member
  rw [← same.operator, ← same.inputs.length_eq]
  exact arities gate isGate

/-- If the text of a circuit is evaluated, so is that of an alike one, with equal values. -/
theorem outputValues? (alike : circuit.Alike flat image)
    (matching : Domain.boolean.Matching flat) (arities : circuit.HasArities)
    (counted : image.wireCount < Decimal.wordLimit) {text imageText : String}
    (written : circuit.toBristol = .ok text) (imageWritten : image.toBristol = .ok imageText)
    {witness : String} {constants : Bool} {values : List Bool}
    (evaluated : Bristol.outputValues? text witness constants = some values) :
    Bristol.outputValues? imageText witness constants = some values := by
  rw [outputValues?_eq_some_iff] at evaluated ⊢
  obtain ⟨ready, last, taken, ran, same⟩ := evaluated
  have fresh : ready.values = (Evaluator.empty constants).values := by
    have values := congrArg (fun result => result.1.values) taken
    exact values.symm
  obtain ⟨⟨gates, _⟩, _, followed⟩ :=
    (Evaluator.runText_toBristol_iff written arities.isPrimitive ready last).1 ran
  obtain ⟨imageLast, imageFollowed, after⟩ := (Evaluator.alike_ready matching fresh).exists_follow
    matching (alike.forall₂_bristolLines matching) followed
  have imageArities := alike.hasArities arities
  have imageRan := (Evaluator.runText_toBristol_iff imageWritten imageArities.isPrimitive ready
    imageLast).2 ⟨⟨alike.gates.length_eq ▸ gates, counted⟩,
      fits_of_mem_bristolLines imageArities counted, imageFollowed⟩
  exact ⟨ready, imageLast, taken, imageRan, after.outputs.symm.trans same⟩

/-- The texts of alike circuits yield the same values on each witness, or fail. -/
theorem outputValues?_eq (alike : circuit.Alike flat image)
    (matching : Domain.boolean.Matching flat) (arities : circuit.HasArities)
    (isBoolean : circuit.domain = .boolean) {text imageText : String}
    (written : circuit.writeBristol? = some (.ok text))
    (imageWritten : image.writeBristol? = some (.ok imageText))
    (witness : String) (constants : Bool) :
    Bristol.outputValues? text witness constants =
      Bristol.outputValues? imageText witness constants := by
  rw [writeBristol?_eq_some_iff isBoolean] at written
  rw [writeBristol?_eq_some_iff (alike.domain.symm.trans isBoolean)] at imageWritten
  obtain ⟨counted, isText⟩ := written
  obtain ⟨imageCounted, isImageText⟩ := imageWritten
  refine Option.ext fun values => ⟨fun evaluated => ?_, fun evaluated => ?_⟩
  · exact alike.outputValues? matching arities imageCounted isText isImageText evaluated
  · exact alike.flip.outputValues? matching.flip (alike.hasArities arities) counted isImageText
      isText evaluated

end Alike

end Circuit

end Netlist
