import Mathlib.Data.List.Forall2
import Mathlib.Data.List.TakeDrop
import Netlist.Proofs.Extension
import Netlist.Proofs.Running
import Netlist.Proofs.Simplification

/-!
# Evaluating flattened designs

An evaluator that follows lines whose gates hold in a valuation, on a witness with the
values of the inputs, stores no value but those of the valuation
(`Bristol.Evaluator.outputs_of_follow`). Since flattening and simplification carry
valuations along, a design that is flattened, simplified, written and evaluated yields
the values that its top has in the hierarchy (`Design.outputs_of_evaluate_flattened`).
-/

namespace Netlist

namespace Bristol

namespace Line

/-- The wire that asks an evaluator with constants for a bit. -/
def asked? : Line → Option Wire
  | input wire => if Domain.boolean.IsConstant wire then none else some wire
  | _ => none

/-- The wire whose value is put out. -/
def answered? : Line → Option Wire
  | output wire => some wire
  | _ => none

/-- The gate of a line holds. -/
def Holds (values : Valuation Bool) : Line → Prop
  | gate node => node.Holds .boolean values
  | _ => True

theorem isPrimitive_of_holds {values : Valuation Bool} {line : Line} (holds : line.Holds values) :
    line.IsPrimitive := by
  cases line with
  | gate node =>
    have arity := Operator.arity?_eq_some_length holds
    rw [List.length_map] at arity
    exact arity
  | _ => trivial

end Line

namespace Evaluator

/-- All that the evaluator stores are values of the valuation, and it has the
constants. -/
structure Agrees (values : Valuation Bool) (evaluator : Evaluator) : Prop where
  constants : evaluator.constantsBound = true
  stored : ∀ wire bit, evaluator.values.lookup wire = some bit → bit = values wire

variable {values : Valuation Bool} {evaluator : Evaluator}

theorem lookup_setValue (wire other : Wire) (value : Bool) (stored : List (Wire × Bool)) :
    (setValue wire value stored).lookup other =
      if other = wire then some value else stored.lookup other :=
  lookup_of_replaces (setValue wire value) rfl (fun _ _ _ => rfl) other stored

/-- Storing a value of the valuation. -/
theorem Agrees.set (agrees : evaluator.Agrees values) (wire : Wire) :
    (evaluator.set wire (values wire)).1.Agrees values ∧
      (evaluator.set wire (values wire)).1.witness = evaluator.witness ∧
      (evaluator.set wire (values wire)).1.outputs = evaluator.outputs := by
  have stored : ∀ other bit,
      (setValue wire (values wire) evaluator.values).lookup other = some bit →
        bit = values other := by
    intro other bit found
    rw [lookup_setValue] at found
    split at found
    · rename_i same
      cases found
      rw [same]
    · exact agrees.stored other bit found
  unfold Evaluator.set
  dsimp only
  split
  · exact ⟨⟨agrees.constants, stored⟩, rfl, rfl⟩
  · exact ⟨⟨agrees.constants, stored⟩, rfl, rfl⟩

theorem Agrees.get (agrees : evaluator.Agrees values) {wire : Wire} {bit : Bool}
    (read : evaluator.get wire = .ok bit) : bit = values wire := by
  unfold Evaluator.get at read
  split at read
  · rename_i value found
    cases read
    exact agrees.stored wire _ found
  · cases read

/-- A gate that holds computes the value of its output. -/
theorem Agrees.gateValue (agrees : evaluator.Agrees values) {gate : Gate}
    (holds : gate.Holds .boolean values) {bit : Bool}
    (computed : evaluator.gateValue gate = .ok bit) : bit = values gate.output := by
  unfold Evaluator.gateValue at computed
  cases read : gate.inputs.reverse.mapM evaluator.get with
  | error error =>
    rw [read] at computed
    cases computed
  | ok bits =>
    have same : bits = gate.inputs.reverse.map values := by
      have each := (mapM_eq_ok read).imp fun _ _ => agrees.get
      rw [← List.forall₂_eq_eq_eq, List.forall₂_map_right_iff]
      exact each.flip
    have value : gate.operator.compute? (gate.inputs.map values) = some (values gate.output) :=
      holds
    rw [read] at computed
    dsimp only [bind, Except.bind] at computed
    rw [same, ← List.map_reverse, List.reverse_reverse, value] at computed
    cases computed
    rfl

/-- A line that holds adds nothing but values of the valuation. The witness is to begin
with the value of the wire that the line asks for. -/
theorem Agrees.step (agrees : evaluator.Agrees values) {line : Line} (holds : line.Holds values)
    {bits : List Bool} (witness : evaluator.witness = (line.asked?.map values).toList ++ bits)
    {next : Evaluator} {events : List Event} (stepped : evaluator.step line = .ok (next, events)) :
    next.Agrees values ∧ next.witness = bits ∧
      next.outputs = evaluator.outputs ++
        (line.answered?.map fun wire => (wire, values wire)).toList := by
  cases line with
  | input wire =>
    simp only [Evaluator.step] at stepped
    by_cases constant : Domain.boolean.IsConstant wire
    · rw [if_pos ⟨agrees.constants, constant⟩] at stepped
      cases stepped
      rw [Line.asked?, if_pos constant] at witness
      exact ⟨agrees, witness, (List.append_nil _).symm⟩
    · rw [if_neg fun both => constant both.2] at stepped
      rw [Line.asked?, if_neg constant] at witness
      rw [witness] at stepped
      obtain ⟨set, rest, outputs⟩ := Agrees.set
        (⟨agrees.constants, agrees.stored⟩ : Agrees values { evaluator with witness := bits }) wire
      have same : next = (({ evaluator with witness := bits } : Evaluator).set
          wire (values wire)).1 :=
        (congrArg Prod.fst (Except.ok.inj stepped)).symm
      rw [same]
      exact ⟨set, rest, outputs.trans (List.append_nil _).symm⟩
  | output wire =>
    simp only [Evaluator.step] at stepped
    cases read : evaluator.get wire with
    | error error =>
      rw [read] at stepped
      cases stepped
    | ok bit =>
      rw [read] at stepped
      cases stepped
      obtain rfl := agrees.get read
      exact ⟨⟨agrees.constants, agrees.stored⟩, witness, rfl⟩
  | gate node =>
    simp only [Evaluator.step] at stepped
    cases computed : evaluator.gateValue node with
    | error error =>
      rw [computed] at stepped
      cases stepped
    | ok bit =>
      rw [computed] at stepped
      cases stepped
      obtain rfl := agrees.gateValue holds computed
      obtain ⟨set, rest, outputs⟩ := agrees.set node.output
      refine ⟨⟨set.constants, set.stored⟩, rest.trans witness, ?_⟩
      exact outputs.trans (List.append_nil _).symm

/-- The outputs of an evaluator that follows lines which hold. -/
theorem outputs_of_follow {lines : List Line} (agrees : evaluator.Agrees values)
    (holds : ∀ line ∈ lines, line.Holds values)
    (witness : evaluator.witness = (lines.filterMap Line.asked?).map values) {last : Evaluator}
    (followed : evaluator.follow lines = .ok last) :
    last.outputs = evaluator.outputs ++
      (lines.filterMap Line.answered?).map fun wire => (wire, values wire) := by
  induction lines generalizing evaluator with
  | nil =>
    cases followed
    simp
  | cons line rest ih =>
    unfold follow at followed
    split at followed
    · rename_i next events stepped
      have split : evaluator.witness = (line.asked?.map values).toList ++
          (rest.filterMap Line.asked?).map values := by
        rw [witness, List.filterMap_cons]
        cases line.asked? with
        | none => rfl
        | some wire => rfl
      obtain ⟨nextAgrees, nextWitness, nextOutputs⟩ :=
        agrees.step (holds line List.mem_cons_self) split stepped
      have others := ih nextAgrees (fun line member => holds line (List.mem_cons_of_mem _ member))
        nextWitness followed
      rw [others, nextOutputs, List.append_assoc, List.filterMap_cons]
      cases line.answered? with
      | none => rfl
      | some wire => rfl
    · cases followed

/-- An evaluator that has run nothing holds the constants that a valuation fixes. -/
theorem agrees_ready {values : Valuation Bool} (fixes : Domain.boolean.Fixes .boolean values)
    (bits : List Bool) : (ready true bits).Agrees values := by
  refine ⟨rfl, fun wire bit stored => ?_⟩
  change [(falseWire, false), (trueWire, true)].lookup wire = some bit at stored
  rw [List.lookup_cons, List.lookup_cons] at stored
  by_cases isFalse : wire = falseWire
  · rw [isFalse, beq_self_eq_true] at stored
    cases stored
    rw [isFalse, fixes.1]
    rfl
  · rw [beq_false_of_ne isFalse] at stored
    by_cases isTrue : wire = trueWire
    · rw [isTrue, beq_self_eq_true] at stored
      cases stored
      rw [isTrue, fixes.2]
      rfl
    · rw [beq_false_of_ne isTrue] at stored
      cases stored

end Evaluator

/-! ### Circuits -/

theorem holds_of_mem_bristolLines {circuit : Circuit} {values : Valuation Bool}
    (holds : circuit.Holds .boolean values) :
    ∀ line ∈ circuit.bristolLines, line.Holds values := by
  intro line member
  rcases List.mem_append.1 member with inFront | isOutput
  · rcases List.mem_append.1 inFront with isInput | isGate
    · obtain ⟨wire, _, rfl⟩ := List.mem_map.1 isInput
      trivial
    · obtain ⟨gate, gateMember, rfl⟩ := List.mem_map.1 isGate
      exact holds.2 gate gateMember
  · obtain ⟨wire, _, rfl⟩ := List.mem_map.1 isOutput
    trivial

/-- A circuit asks for its inputs, and for none of the constants. -/
theorem filterMap_asked?_bristolLines (circuit : Circuit) :
    circuit.bristolLines.filterMap Line.asked? =
      circuit.inputs.filter fun wire => ¬ Domain.boolean.IsConstant wire := by
  have inputs : ∀ wires : List Wire, (wires.map Line.input).filterMap Line.asked? =
      wires.filter fun wire => ¬ Domain.boolean.IsConstant wire := by
    intro wires
    induction wires with
    | nil => rfl
    | cons wire rest ih =>
      by_cases constant : Domain.boolean.IsConstant wire
      · simp [Line.asked?, constant, ih]
      · simp [Line.asked?, constant, ih]
  have gates : (circuit.gates.map Line.gate).filterMap Line.asked? = [] := by
    simp [List.filterMap_map, Function.comp_def, Line.asked?]
  have outputs : (circuit.outputs.map Line.output).filterMap Line.asked? = [] := by
    simp [List.filterMap_map, Function.comp_def, Line.asked?]
  rw [Circuit.bristolLines, List.filterMap_append, List.filterMap_append, gates, outputs, inputs,
    List.append_nil, List.append_nil, Circuit.declaredInputs, List.filter_append]
  split
  · rfl
  · rfl

theorem filterMap_answered?_bristolLines (circuit : Circuit) :
    circuit.bristolLines.filterMap Line.answered? = circuit.outputs := by
  simp [Circuit.bristolLines, List.filterMap_append, List.filterMap_map, Function.comp_def,
    Line.answered?]

theorem domain_of_toBristol {circuit : Circuit} {text : String}
    (written : circuit.toBristol = .ok text) : circuit.domain = .boolean := by
  unfold Circuit.toBristol at written
  split at written
  · assumption
  · cases written

/-- A circuit that holds is evaluated to the values of its outputs, on a witness with
the values of its inputs. -/
theorem outputs_of_evaluate {circuit : Circuit} {values : Valuation Bool}
    (holds : circuit.Holds .boolean values) {text : String}
    (written : circuit.toBristol = .ok text) {witness : String}
    (lists : Evaluator.Lists witness
      ((circuit.inputs.filter fun wire => ¬ Domain.boolean.IsConstant wire).map values))
    {outputs : List (Wire × Bool)}
    (evaluated : (evaluate text witness true).result = .ok outputs) :
    outputs = circuit.outputs.map fun wire => (wire, values wire) := by
  have isBoolean := domain_of_toBristol written
  have lineHolds := holds_of_mem_bristolLines holds
  obtain ⟨_, _, last, followed, rfl⟩ := (evaluate_toBristol_iff written
    (fun line member => Line.isPrimitive_of_holds (lineHolds line member)) lists true
      outputs).1 evaluated
  have fixes : Domain.boolean.Fixes .boolean values := isBoolean ▸ holds.1
  have agrees := Evaluator.agrees_ready fixes
    ((circuit.inputs.filter fun wire => ¬ Domain.boolean.IsConstant wire).map values)
  have result := Evaluator.outputs_of_follow agrees lineHolds
    (by rw [filterMap_asked?_bristolLines]; rfl) followed
  rw [result, filterMap_answered?_bristolLines]
  rfl

end Bristol

namespace Design

/-- If a design that holds for some values is flattened, scheduled, simplified, written
and evaluated with constants, on a witness with the values of the inputs, then the
evaluation yields the values of the outputs. -/
theorem outputs_of_evaluate_flattened {design : Design} (isBoolean : design.domain = .boolean)
    (numbered : design.IsNumbered) {top : Module} (isTop : design.topModule = .ok top)
    {values : InstancePath → Valuation Bool} (holds : design.HoldsBelow .boolean top values)
    {flat ordered circuit : Circuit} (flattened : design.flatten.result = .ok flat)
    (scheduled : flat.schedule = .ok ordered) {options : Command.Options}
    (simplified : (Command.simplify options ordered).result = .ok circuit) {text : String}
    (written : circuit.toBristol = .ok text) {witness : String}
    (lists : Bristol.Evaluator.Lists witness
      ((top.inputs.filter fun wire => ¬ Domain.boolean.IsConstant wire).map (values [])))
    {outputs : List (Wire × Bool)}
    (evaluated : (Bristol.evaluate text witness true).result = .ok outputs) :
    outputs = top.outputs.map fun wire => (wire, values [] wire) := by
  obtain ⟨found, topFlattened⟩ := flatten_eq_ok isTop flattened
  obtain ⟨assignment, same, fixes, gates⟩ :=
    exists_flat_of_holdsBelow numbered found topFlattened holds
  have preserves : Circuit.Preserves .boolean flat circuit :=
    (Circuit.preserves_schedule scheduled).trans (Circuit.preserves_simplify simplified)
  have flatHolds : flat.Holds .boolean assignment := by
    constructor
    · rw [← preserves.domain, Bristol.domain_of_toBristol written, ← isBoolean]
      exact fixes
    · exact gates
  obtain ⟨final, finalHolds, agree⟩ := preserves.holds flatHolds
  -- the ports of the circuit are those of the top
  obtain ⟨_, _, rfl⟩ := flattenModule_eq_ok found topFlattened
  have inputs : circuit.inputs = top.inputs := preserves.inputs
  have outputPorts : circuit.outputs = top.outputs := preserves.outputs
  have portValue : ∀ wire ∈ top.inputs ++ top.outputs, final wire = values [] wire := by
    intro wire member
    rw [agree wire (List.mem_append_left _ member), same]
    exact List.mem_append_left _ (Wire.mem_ascending_iff.2 (List.mem_append_left _ member))
  have sameInputs :
      (circuit.inputs.filter fun wire => ¬ Domain.boolean.IsConstant wire).map final =
        (top.inputs.filter fun wire => ¬ Domain.boolean.IsConstant wire).map (values []) := by
    rw [inputs]
    apply List.map_congr_left
    intro wire member
    exact portValue wire (List.mem_append_left _ (List.mem_of_mem_filter member))
  rw [Bristol.outputs_of_evaluate finalHolds written (by rwa [sameInputs]) evaluated, outputPorts]
  apply List.map_congr_left
  intro wire member
  rw [portValue wire (List.mem_append_right _ member)]

/-- The values in `doubleInverter` when its input is true: only the wire between both
inverters is false. -/
def doubleInverterValues : InstancePath → Valuation Bool := fun _ wire =>
  decide (wire ≠ falseWire ∧ wire ≠ 6)

theorem doubleInverterValues_holdsBelow :
    doubleInverter.HoldsBelow .boolean doubleInverterTop doubleInverterValues := by
  intro path module reached
  have member := reached.mem (List.mem_cons_self : doubleInverterTop ∈ doubleInverter.modules)
  have gates : ∀ module ∈ doubleInverter.modules, ∀ gate ∈ module.gates,
      gate.Holds .boolean (doubleInverterValues []) := by decide
  have pairings : ∀ module ∈ doubleInverter.modules, ∀ inner ∈ module.instances,
      ∀ pairing ∈ inner.pairings,
        doubleInverterValues [] pairing.caller = doubleInverterValues [] pairing.callee := by
    decide
  refine ⟨⟨rfl, rfl⟩, gates module member, ?_⟩
  intro place inner here
  exact pairings module member inner (List.mem_of_getElem? here)

/-- `doubleInverter` is evaluated to true when its input is true, with all steps of
simplification. -/
theorem outputs_of_evaluate_flattened_doubleInverter :
    (Bristol.evaluate "2 5\n0\n0\n0 1 2 INPUT\n1 1 2 4 INV\n1 1 4 3 INV\n1 0 3 OUTPUT\n"
        "1\n" true).result = .ok [(3, true)] ∧
      [(3, true)] = doubleInverterTop.outputs.map fun wire =>
        (wire, doubleInverterValues [] wire) := by
  have flattened : doubleInverter.flatten.result =
      .ok ⟨"top", .boolean, [2], [3], [⟨.inv, [2], 7⟩, ⟨.inv, [7], 3⟩]⟩ := by cbv
  have scheduled : Circuit.schedule
      ⟨"top", .boolean, [2], [3], [⟨.inv, [2], 7⟩, ⟨.inv, [7], 3⟩]⟩ =
        .ok ⟨"top", .boolean, [2], [3], [⟨.inv, [2], 7⟩, ⟨.inv, [7], 3⟩]⟩ := by cbv
  have simplified : (Command.simplify (Command.Options.ofGiven 
      ⟨[], [.compact, .eliminateDead], [], none⟩)
      ⟨"top", .boolean, [2], [3], [⟨.inv, [2], 7⟩, ⟨.inv, [7], 3⟩]⟩).result =
        .ok ⟨"top", .boolean, [2], [3], [⟨.inv, [2], 4⟩, ⟨.inv, [4], 3⟩]⟩ := by cbv
  have written : Circuit.toBristol
      ⟨"top", .boolean, [2], [3], [⟨.inv, [2], 4⟩, ⟨.inv, [4], 3⟩]⟩ =
        .ok "2 5\n0\n0\n0 1 2 INPUT\n1 1 2 4 INV\n1 1 4 3 INV\n1 0 3 OUTPUT\n" := by cbv
  have evaluated : (Bristol.evaluate
      "2 5\n0\n0\n0 1 2 INPUT\n1 1 2 4 INV\n1 1 4 3 INV\n1 0 3 OUTPUT\n" "1\n" true).result =
        .ok [(3, true)] := by cbv
  exact ⟨evaluated, outputs_of_evaluate_flattened rfl (by decide) rfl
    doubleInverterValues_holdsBelow flattened scheduled simplified written (by decide) evaluated⟩

end Design

end Netlist
