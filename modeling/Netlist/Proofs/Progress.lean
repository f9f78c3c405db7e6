import Netlist.Proofs.Evaluation
import Netlist.Proofs.Settling

/-!
# Evaluations that run through

If each line in turn reads wires with known values and sets wires without one
(`Line.Settle`), and the witness holds a bit for each wire that is asked for, then an
evaluator follows the lines to their end: it takes all bits, evaluates all gates and
overwrites no wire (`Evaluator.Agrees.exists_follow`). The lines of a clean circuit with
its gates in a schedule are of this kind, so its evaluation yields the values of its
outputs in its only solution (`exists_run_of_isClean`).
-/

namespace Netlist.Bristol

/-! ### Lines that settle -/

namespace Line

/-- The wires to which an evaluator with constants gives values at the line. -/
def sets : Line → List Wire
  | input wire => if Domain.boolean.IsConstant wire then [] else [wire]
  | output _ => []
  | gate node => [node.output]

/-- The line computes a gate. -/
def isGate : Line → Bool
  | gate _ => true
  | _ => false

/-- Each line in turn reads wires that are known, and sets wires that are not. -/
def Settle (known : Wire → Prop) : List Line → Prop
  | [] => True
  | line :: rest => (∀ wire ∈ line.reads, known wire) ∧ (∀ wire ∈ line.sets, ¬ known wire) ∧
      Settle (fun wire => wire ∈ line.sets ∨ known wire) rest

theorem settle_append {known : Wire → Prop} {first second : List Line}
    (start : Settle known first)
    (rest : Settle (fun wire => wire ∈ first.flatMap sets ∨ known wire) second) :
    Settle known (first ++ second) := by
  induction first generalizing known with
  | nil => simpa using rest
  | cons line others ih =>
    obtain ⟨reads, fresh, settle⟩ := start
    refine ⟨reads, fresh, ih settle ?_⟩
    have same : (fun wire => wire ∈ others.flatMap sets ∨ wire ∈ line.sets ∨ known wire) =
        fun wire => wire ∈ (line :: others).flatMap sets ∨ known wire := by
      funext wire
      rw [List.flatMap_cons, List.mem_append]
      exact propext (or_left_comm.trans or_assoc.symm)
    rwa [same]

/-- Inputs settle if they are distinct, constants apart, and not known. -/
theorem settle_inputs {known : Wire → Prop} {wires : List Wire}
    (nodup : (wires.filter fun wire => ¬ Domain.boolean.IsConstant wire).Nodup)
    (fresh : ∀ wire ∈ wires, ¬ Domain.boolean.IsConstant wire → ¬ known wire) :
    Settle known (wires.map input) := by
  induction wires generalizing known with
  | nil => trivial
  | cons wire rest ih =>
    obtain ⟨headFresh, restFresh⟩ := List.forall_mem_cons.1 fresh
    by_cases constant : Domain.boolean.IsConstant wire
    · rw [List.filter_cons, if_neg (by simpa using constant)] at nodup
      refine ⟨List.forall_mem_nil _, ?_, ih nodup ?_⟩
      · rw [sets, if_pos constant]
        exact List.forall_mem_nil _
      · rw [sets, if_pos constant]
        rintro other member inconstant (isHead | isKnown)
        · cases isHead
        · exact restFresh other member inconstant isKnown
    · rw [List.filter_cons, if_pos (by simpa using constant), List.nodup_cons] at nodup
      refine ⟨List.forall_mem_nil _, ?_, ih nodup.2 ?_⟩
      · rw [sets, if_neg constant]
        exact List.forall_mem_singleton.2 (headFresh constant)
      · rw [sets, if_neg constant]
        rintro other member inconstant (isHead | isKnown)
        · rw [List.mem_singleton] at isHead
          apply nodup.1
          exact List.mem_filter.2 ⟨isHead ▸ member, decide_eq_true constant⟩
        · exact restFresh other member inconstant isKnown

theorem settle_gates {known : Wire → Prop} {gates : List Gate}
    (settles : Gate.Settles known gates) : Settle known (gates.map gate) := by
  induction gates generalizing known with
  | nil => trivial
  | cons node rest ih =>
    obtain ⟨reads, fresh, others⟩ := settles
    refine ⟨fun wire isRead => reads wire (List.mem_reverse.1 isRead),
      List.forall_mem_singleton.2 fresh, ?_⟩
    have same : (fun wire => wire ∈ sets (gate node) ∨ known wire) =
        fun wire => wire = node.output ∨ known wire := by
      funext wire
      rw [sets, List.mem_singleton]
    rw [same]
    exact ih others

theorem settle_outputs {known : Wire → Prop} {wires : List Wire}
    (isKnown : ∀ wire ∈ wires, known wire) : Settle known (wires.map output) := by
  induction wires generalizing known with
  | nil => trivial
  | cons wire rest ih =>
    obtain ⟨head, others⟩ := List.forall_mem_cons.1 isKnown
    exact ⟨List.forall_mem_singleton.2 head, List.forall_mem_nil _,
      ih fun other member => Or.inr (others other member)⟩

theorem flatMap_sets_inputs (wires : List Wire) :
    (wires.map input).flatMap sets =
      wires.filter fun wire => ¬ Domain.boolean.IsConstant wire := by
  induction wires with
  | nil => rfl
  | cons wire rest ih =>
    rw [List.map_cons, List.flatMap_cons, ih, List.filter_cons, sets]
    by_cases constant : Domain.boolean.IsConstant wire <;> simp [constant]

theorem flatMap_sets_gates (gates : List Gate) :
    (gates.map gate).flatMap sets = gates.map Gate.output := by
  rw [List.flatMap_map]
  exact List.map_eq_flatMap.symm

end Line

/-! ### Following lines that settle -/

namespace Evaluator

/-- The evaluator holds a value of the wire. -/
def Knows (evaluator : Evaluator) (wire : Wire) : Prop :=
  (evaluator.values.lookup wire).isSome = true

/-- What an evaluator does along some lines: it sets their wires, none of them twice, and
counts their gates. -/
structure Advances (lines : List Line) (first last : Evaluator) : Prop where
  knows : last.Knows = fun wire => wire ∈ lines.flatMap Line.sets ∨ first.Knows wire
  evaluatedGates : last.evaluatedGates = first.evaluatedGates + lines.countP Line.isGate
  overwrites : last.overwrites = first.overwrites
  violation : last.violation = first.violation

namespace Advances

variable {first middle last : Evaluator}

theorem refl (evaluator : Evaluator) : Advances [] evaluator evaluator := by
  refine ⟨?_, rfl, rfl, rfl⟩
  funext wire
  simp

theorem cons {line : Line} {rest : List Line} (start : Advances [line] first middle)
    (others : Advances rest middle last) : Advances (line :: rest) first last := by
  constructor
  · rw [others.knows, start.knows]
    funext wire
    rw [List.flatMap_singleton, List.flatMap_cons, List.mem_append]
    exact propext (or_left_comm.trans or_assoc.symm)
  · rw [others.evaluatedGates, start.evaluatedGates]
    simp only [List.countP_cons, List.countP_nil]
    omega
  · rw [others.overwrites, start.overwrites]
  · rw [others.violation, start.violation]

end Advances

theorem knows_setValue {wire other : Wire} {value : Bool} {stored : List (Wire × Bool)} :
    ((setValue wire value stored).lookup other).isSome = true ↔
      other = wire ∨ (stored.lookup other).isSome = true := by
  rw [lookup_setValue]
  split
  · rename_i same
    simp [same]
  · rename_i different
    simp [different]

/-- A wire without a value is set without an overwrite. -/
theorem set_of_not_knows {evaluator : Evaluator} {wire : Wire} (unknown : ¬ evaluator.Knows wire)
    (value : Bool) :
    evaluator.set wire value =
      ({ evaluator with values := setValue wire value evaluator.values }, []) :=
  if_neg unknown

variable {values : Valuation Bool} {evaluator : Evaluator}

theorem Agrees.get_of_knows (agrees : evaluator.Agrees values) {wire : Wire}
    (isKnown : evaluator.Knows wire) : evaluator.get wire = .ok (values wire) := by
  obtain ⟨bit, found⟩ := Option.isSome_iff_exists.1 isKnown
  rw [Evaluator.get, found, agrees.stored wire bit found]

/-- A gate whose inputs are known computes the value of its output. -/
theorem Agrees.gateValue_of_knows (agrees : evaluator.Agrees values) {gate : Gate}
    (holds : gate.Holds .boolean values) (isKnown : ∀ wire ∈ gate.inputs, evaluator.Knows wire) :
    evaluator.gateValue gate = .ok (values gate.output) := by
  have read : gate.inputs.reverse.mapM evaluator.get = .ok (gate.inputs.reverse.map values) :=
    mapM_eq_ok_of_forall fun wire member =>
      agrees.get_of_knows (isKnown wire (List.mem_reverse.1 member))
  have value : gate.operator.compute? (gate.inputs.map values) = some (values gate.output) :=
    holds
  rw [Evaluator.gateValue, read]
  dsimp only [bind, Except.bind]
  rw [← List.map_reverse, List.reverse_reverse, value]
  rfl

/-- A line that holds can be run if the wires that it reads are known, those that it sets
are not, and the witness begins with the bit that it asks for. -/
theorem Agrees.exists_step (agrees : evaluator.Agrees values) {line : Line}
    (holds : line.Holds values) {bits : List Bool}
    (witness : evaluator.witness = (line.asked?.map values).toList ++ bits)
    (isKnown : ∀ wire ∈ line.reads, evaluator.Knows wire)
    (fresh : ∀ wire ∈ line.sets, ¬ evaluator.Knows wire) :
    ∃ next events, evaluator.step line = .ok (next, events) ∧ Advances [line] evaluator next := by
  cases line with
  | input wire =>
    rw [Line.asked?] at witness
    rw [Line.sets] at fresh
    by_cases constant : Domain.boolean.IsConstant wire
    · refine ⟨evaluator, [], if_pos ⟨agrees.constants, constant⟩, ?_, rfl, rfl, rfl⟩
      funext other
      simp [Line.sets, constant]
    · rw [if_neg constant] at witness fresh
      have unknown := fresh wire List.mem_cons_self
      refine ⟨{ evaluator with
        witness := bits
        values := setValue wire (values wire) evaluator.values }, [], ?_, ?_, rfl, rfl, rfl⟩
      · rw [Evaluator.step, if_neg fun both => constant both.2, witness]
        have stored := @set_of_not_knows { evaluator with witness := bits } wire unknown
        exact congrArg Except.ok (stored (values wire))
      · funext other
        rw [List.flatMap_singleton, Line.sets, if_neg constant, List.mem_singleton]
        exact propext knows_setValue
  | output wire =>
    refine ⟨{ evaluator with outputs := evaluator.outputs ++ [(wire, values wire)] }, [],
      ?_, ?_, rfl, rfl, rfl⟩
    · rw [Evaluator.step, agrees.get_of_knows (isKnown wire List.mem_cons_self)]
      rfl
    · funext other
      simp [Line.sets, Knows]
  | gate node =>
    have unknown := fresh node.output List.mem_cons_self
    refine ⟨{ evaluator with
      values := setValue node.output (values node.output) evaluator.values
      evaluatedGates := evaluator.evaluatedGates + 1 }, [], ?_, ?_, rfl, rfl, rfl⟩
    · rw [Evaluator.step, agrees.gateValue_of_knows holds
        fun wire isInput => isKnown wire (List.mem_reverse.2 isInput)]
      dsimp only [bind, Except.bind]
      rw [set_of_not_knows unknown]
      rfl
    · funext other
      rw [List.flatMap_singleton, Line.sets, List.mem_singleton]
      exact propext knows_setValue

/-- Lines that settle are followed to their end, and no bit of the witness is left. -/
theorem Agrees.exists_follow {lines : List Line} (agrees : evaluator.Agrees values)
    (holds : ∀ line ∈ lines, line.Holds values)
    (witness : evaluator.witness = (lines.filterMap Line.asked?).map values)
    (settle : Line.Settle evaluator.Knows lines) :
    ∃ last, evaluator.follow lines = .ok last ∧ Advances lines evaluator last ∧
      last.witness = [] := by
  induction lines generalizing evaluator with
  | nil => exact ⟨evaluator, rfl, Advances.refl _, witness⟩
  | cons line rest ih =>
    obtain ⟨reads, fresh, others⟩ := settle
    obtain ⟨headHolds, restHolds⟩ := List.forall_mem_cons.1 holds
    have split : evaluator.witness = (line.asked?.map values).toList ++
        (rest.filterMap Line.asked?).map values := by
      rw [witness, List.filterMap_cons]
      cases line.asked? with
      | none => rfl
      | some wire => rfl
    obtain ⟨next, events, stepped, advances⟩ := agrees.exists_step headHolds split reads fresh
    obtain ⟨nextAgrees, nextWitness, _⟩ := agrees.step headHolds split stepped
    have known : next.Knows = fun wire => wire ∈ line.sets ∨ evaluator.Knows wire := by
      rw [advances.knows, List.flatMap_singleton]
    obtain ⟨last, followed, restAdvances, taken⟩ :=
      ih nextAgrees restHolds nextWitness (by rwa [known])
    refine ⟨last, ?_, advances.cons restAdvances, taken⟩
    rw [follow, stepped]
    exact followed

/-- Running a circuit is running its text, if that succeeds. -/
theorem exists_runCircuit {text : String} {last : Evaluator} (fresh : evaluator.violation = none)
    (same : (evaluator.runText text).1 = last)
    (succeeded : (evaluator.runText text).2.result = .ok ()) :
    ∃ events, evaluator.runCircuit text = (last, events) := by
  refine ⟨(evaluator.runText text).2.events, ?_⟩
  rw [runCircuit, fresh, Option.isSome_none, if_neg Bool.false_ne_true]
  dsimp only
  rw [succeeded, same]

theorem knows_ready (bits : List Bool) :
    (ready true bits).Knows = Domain.boolean.IsConstant := by
  funext wire
  apply propext
  change ([(falseWire, false), (trueWire, true)].lookup wire).isSome = true ↔ wire < 2
  rw [List.lookup_cons, List.lookup_cons]
  unfold falseWire trueWire
  match wire with
  | 0 => simp
  | 1 => simp
  | above + 2 => simp

end Evaluator

/-! ### Clean circuits -/

section

variable {circuit ordered : Circuit}

/-- The lines of a clean circuit settle if its gates are in a schedule. -/
theorem settle_bristolLines (isBoolean : circuit.domain = .boolean)
    (clean : circuit.toModule.isClean = true) (scheduled : circuit.schedule = .ok ordered) :
    Line.Settle Domain.boolean.IsConstant ordered.bristolLines := by
  have orderly := Module.isClean_iff_isOrderly.1 clean
  have single := orderly.singleDrivers
  have settles := Circuit.settles_of_isClean clean scheduled
  have driven : ∀ wire ∈ circuit.outputs, circuit.toModule.IsDriven wire := orderly.outputs
  obtain ⟨gates, rfl, perm, _⟩ := Circuit.schedule_eq_ok scheduled
  have inputs : (Circuit.declaredInputs { circuit with gates }).filter
      (fun wire => ¬ Domain.boolean.IsConstant wire) =
        circuit.inputs.filter fun wire => ¬ Domain.boolean.IsConstant wire := by
    rw [Circuit.declaredInputs, List.filter_append]
    split <;> rfl
  -- behind the inputs, the wires that have their values before any gate are known
  have given : (fun wire => wire ∈ ((Circuit.declaredInputs { circuit with gates }).map
      Line.input).flatMap Line.sets ∨ Domain.boolean.IsConstant wire) = circuit.IsGiven := by
    funext wire
    rw [Line.flatMap_sets_inputs, inputs, List.mem_filter, decide_eq_true_iff, Circuit.IsGiven,
      isBoolean]
    apply propext
    constructor
    · rintro (⟨isInput, _⟩ | constant)
      · exact Or.inr isInput
      · exact Or.inl constant
    · rintro (constant | isInput)
      · exact Or.inr constant
      · exact (Classical.em _).symm.imp (fun inconstant => ⟨isInput, inconstant⟩) id
  have front : Line.Settle Domain.boolean.IsConstant
      ((Circuit.declaredInputs { circuit with gates }).map Line.input ++
        gates.map Line.gate) := by
    apply Line.settle_append
    · apply Line.settle_inputs
      · rw [inputs, ← isBoolean]
        exact single.inputs
      · exact fun _ _ inconstant constant => inconstant constant
    · rw [given]
      exact Line.settle_gates settles
  apply Line.settle_append front
  apply Line.settle_outputs
  intro wire isOutput
  rw [List.flatMap_append, List.mem_append, or_assoc, or_left_comm, congrFun given wire,
    Line.flatMap_sets_gates, List.mem_map]
  rcases Circuit.isDriven_toModule_iff.1 (driven wire isOutput) with isGiven | ⟨gate, isGate, same⟩
  · exact Or.inr isGiven
  · exact Or.inl ⟨gate, perm.symm.subset isGate, same⟩

theorem lt_wireCount {wire : Wire} (member : wire ∈ circuit.wires) : wire < circuit.wireCount :=
  Circuit.lt_wireCount_iff.2 (Or.inr ⟨wire, member, Nat.le_refl wire⟩)

/-- No gate has more than two inputs. -/
theorem arity?_le_two {operator : Operator} {count : Nat}
    (arity : operator.arity? = some count) : count ≤ 2 := by
  cases operator with
  | cell name => cases arity
  | _ =>
    cases arity
    decide

theorem lt_wordLimit_of_le_two {number : Nat} (small : number ≤ 2) : number < Decimal.wordLimit :=
  small.trans_lt (by decide)

/-- A line has no other numbers than the counts of its wires, which are small, and its
wires. -/
theorem fits_of_forall {line : Line} (reads : line.reads.length ≤ 2)
    (writes : line.writes.length ≤ 2)
    (wires : ∀ wire ∈ line.reads ++ line.writes, wire < Decimal.wordLimit) : line.Fits :=
  List.forall_mem_cons.2 ⟨lt_wordLimit_of_le_two reads,
    List.forall_mem_cons.2 ⟨lt_wordLimit_of_le_two writes, wires⟩⟩

/-- The numbers of all lines fit into words if the number of wires does. -/
theorem fits_of_mem_bristolLines
    (arity : ∀ gate ∈ circuit.gates, gate.operator.arity? = some gate.inputs.length)
    (fits : circuit.wireCount < Decimal.wordLimit) :
    ∀ line ∈ circuit.bristolLines, line.Fits := by
  have own : ∀ wire ∈ circuit.inputs ++ circuit.outputs ++ circuit.gates.flatMap Gate.wires,
      wire < Decimal.wordLimit :=
    fun wire member => (lt_wireCount (Wire.mem_ascending_iff.2 member)).trans fits
  intro line member
  rcases List.mem_append.1 member with inFront | isOutput
  · rcases List.mem_append.1 inFront with isInput | isGate
    · obtain ⟨wire, declared, rfl⟩ := List.mem_map.1 isInput
      refine fits_of_forall (Nat.zero_le _) (Nat.le_succ 1) (List.forall_mem_singleton.2 ?_)
      rcases List.mem_append.1 declared with isConstant | isOwn
      · apply lt_wordLimit_of_le_two
        split at isConstant
        · rcases List.mem_pair.1 isConstant with rfl | rfl
          · decide
          · decide
        · cases isConstant
      · exact own wire (List.mem_append_left _ (List.mem_append_left _ isOwn))
    · obtain ⟨node, nodeMember, rfl⟩ := List.mem_map.1 isGate
      refine fits_of_forall ?_ (Nat.le_succ 1) fun wire isWire =>
        own wire (List.mem_append_right _ ?_)
      · rw [Line.reads, List.length_reverse]
        exact arity?_le_two (arity node nodeMember)
      · refine List.mem_flatMap.2 ⟨node, nodeMember, Gate.mem_wires_iff.2 ?_⟩
        exact (List.mem_append.1 isWire).imp List.mem_reverse.1 List.mem_singleton.1
  · obtain ⟨wire, declared, rfl⟩ := List.mem_map.1 isOutput
    refine fits_of_forall (Nat.le_succ 1) (Nat.zero_le _) (List.forall_mem_singleton.2 ?_)
    exact own wire (List.mem_append_left _ (List.mem_append_right _ declared))

/-- The wire space does not grow if there are no new ports and no new gates. -/
theorem wireCount_le_of_gates_subset {other : Circuit} (domain : other.domain = circuit.domain)
    (inputs : other.inputs = circuit.inputs) (outputs : other.outputs = circuit.outputs)
    (subset : other.gates ⊆ circuit.gates) : other.wireCount ≤ circuit.wireCount := by
  have wires : other.wires ⊆ circuit.wires := by
    intro wire member
    have parts := List.mem_append.1 (Wire.mem_ascending_iff.1 member)
    refine Wire.mem_ascending_iff.2 (List.mem_append.2 (parts.imp (fun isPort => ?_) ?_))
    · change wire ∈ circuit.inputs ++ circuit.outputs
      rw [← inputs, ← outputs]
      exact isPort
    · intro isGateWire
      obtain ⟨gate, isGate, isWire⟩ := List.mem_flatMap.1 isGateWire
      exact List.mem_flatMap.2 ⟨gate, subset isGate, isWire⟩
  refine le_of_forall_lt fun wire inside => ?_
  rcases Circuit.lt_wireCount_iff.1 inside with constant | ⟨used, member, below⟩
  · exact Circuit.lt_wireCount_iff.2 (Or.inl (domain ▸ constant))
  · exact Circuit.lt_wireCount_iff.2 (Or.inr ⟨used, wires member, below⟩)

/-- The wires of a circuit do not depend on the order of its gates. -/
theorem wireCount_le_of_perm {gates : List Gate} (perm : gates.Perm circuit.gates) :
    Circuit.wireCount { circuit with gates } ≤ circuit.wireCount :=
  wireCount_le_of_gates_subset rfl rfl rfl perm.subset

/-- The lines of a circuit compute each gate once. -/
theorem countP_isGate_bristolLines (circuit : Circuit) :
    circuit.bristolLines.countP Line.isGate = circuit.gates.length := by
  rw [Circuit.bristolLines, List.countP_append, List.countP_append, List.countP_map,
    List.countP_map, List.countP_map]
  simp [Function.comp_def, Line.isGate]

/-- As no wire has two drivers, there are no more gates than wires. -/
theorem length_gates_lt_of_isClean (clean : circuit.toModule.isClean = true)
    (bounded : ∀ wire ∈ circuit.wires, wire + 1 < Decimal.wordLimit) :
    circuit.gates.length < Decimal.wordLimit := by
  have distinct : (circuit.gates.map Gate.output).Nodup :=
    (Module.isClean_iff_isOrderly.1 clean).singleDrivers.gates
  have inside : circuit.gates.map Gate.output ⊆ List.range (Decimal.wordLimit - 1) := by
    intro wire isOutput
    obtain ⟨gate, isGate, rfl⟩ := List.mem_map.1 isOutput
    have isWire : gate.output ∈ circuit.wires := Wire.mem_ascending_iff.2
      (List.mem_append_right _ (List.mem_flatMap.2
        ⟨gate, isGate, Gate.mem_wires_iff.2 (Or.inr rfl)⟩))
    exact List.mem_range.2 (Nat.lt_sub_of_add_lt (bounded _ isWire))
  have fewer := (List.subperm_of_subset distinct inside).length_le
  rw [List.length_map, List.length_range] at fewer
  exact Nat.lt_of_le_of_lt fewer (by decide)

/-- A clean Boolean circuit whose gates can be ordered has one solution for all values of
its inputs. Its ordered text is evaluated with constants to the values of the outputs in
that solution: the evaluation takes the whole witness, evaluates each gate once and
overwrites no wire. No wire may be the largest word, or counting the wires for the header of
the text would overflow. -/
theorem exists_run_of_isClean (isBoolean : circuit.domain = .boolean)
    (clean : circuit.toModule.isClean = true)
    (arity : ∀ gate ∈ circuit.gates, gate.operator.arity? = some gate.inputs.length)
    (inconstant : ∀ wire ∈ circuit.inputs, ¬ Domain.boolean.IsConstant wire)
    (scheduled : circuit.schedule = .ok ordered)
    (bounded : ∀ wire ∈ circuit.wires, wire + 1 < Decimal.wordLimit) {bits : List Bool}
    (length : bits.length = circuit.inputs.length) :
    ∃ values, circuit.Solves bits values ∧
      (∀ others, circuit.Solves bits others →
        ∀ wire ∈ circuit.wires, others wire = values wire) ∧
      ∃ text, ordered.writeBristol? = some (.ok text) ∧
        ∀ witness, Evaluator.Lists witness bits → ∃ ready last events,
          (Evaluator.empty true).addWitness witness = (ready, .ok ()) ∧
          ready.runCircuit text = (last, events) ∧
          last.violations = [] ∧ last.witness = [] ∧
          last.evaluatedGates = circuit.gates.length ∧ last.overwrites = 0 ∧
          last.outputs = circuit.outputs.map fun wire => (wire, values wire) := by
  obtain ⟨values, solves⟩ :=
    Circuit.exists_solves isBoolean clean arity inconstant scheduled length
  have settle := settle_bristolLines isBoolean clean scheduled
  refine ⟨values, solves, fun others othersSolve wire member =>
    othersSolve.eq_of_mem_wires clean scheduled solves member, ?_⟩
  obtain ⟨gates, rfl, perm, _⟩ := Circuit.schedule_eq_ok scheduled
  have holds : Circuit.Holds .boolean values { circuit with gates } :=
    ⟨solves.holds.1, fun gate member => solves.holds.2 gate (perm.subset member)⟩
  have lineHolds := holds_of_mem_bristolLines holds
  have wireCount : Circuit.wireCount { circuit with gates } < Decimal.wordLimit :=
    (wireCount_le_of_perm perm).trans_lt (Circuit.wireCount_lt_iff.2 bounded)
  have gateCount : gates.length < Decimal.wordLimit :=
    perm.length_eq ▸ length_gates_lt_of_isClean clean bounded
  have fits := @fits_of_mem_bristolLines { circuit with gates }
    (fun gate member => arity gate (perm.subset member)) wireCount
  obtain ⟨text, written⟩ : ∃ text, Circuit.toBristol { circuit with gates } = .ok text :=
    ⟨_, if_pos isBoolean⟩
  have isWritten : Circuit.writeBristol? { circuit with gates } = some (.ok text) := by
    refine (Circuit.writeBristol?_eq_some_iff ?_).2 ⟨wireCount, written⟩
    exact isBoolean
  refine ⟨text, isWritten, fun witness lists => ?_⟩
  have fixes : Domain.boolean.Fixes .boolean values := isBoolean ▸ solves.holds.1
  have agrees := Evaluator.agrees_ready fixes bits
  -- all inputs ask for a bit, and the witness has these bits
  have taken : bits =
      ((Circuit.bristolLines { circuit with gates }).filterMap Line.asked?).map values := by
    rw [filterMap_asked?_bristolLines, List.filter_eq_self.2 fun wire member =>
      decide_eq_true (inconstant wire member)]
    exact solves.inputs.symm
  obtain ⟨last, followed, advances, witnessTaken⟩ :=
    agrees.exists_follow lineHolds taken (by rwa [Evaluator.knows_ready])
  have outputs := Evaluator.outputs_of_follow agrees lineHolds taken followed
  obtain ⟨same, succeeded⟩ := (Evaluator.runText_toBristol_iff written
    (fun line member => Line.isPrimitive_of_holds (lineHolds line member))
    (Evaluator.ready true bits) last).2
      ⟨⟨gateCount, wireCount⟩, fits, followed⟩
  obtain ⟨events, ran⟩ := Evaluator.exists_runCircuit rfl same succeeded
  refine ⟨Evaluator.ready true bits, last, events, Evaluator.addWitness_of_lists lists _, ran, ?_,
    witnessTaken, ?_, advances.overwrites, ?_⟩
  · rw [Evaluator.violations, advances.violation]
    rfl
  · rw [advances.evaluatedGates, countP_isGate_bristolLines, perm.length_eq]
    exact Nat.zero_add _
  · rw [outputs, filterMap_answered?_bristolLines]
    rfl

/-- Two gates in the wrong order, the first of which reads a constant. -/
def unorderedNand : Circuit :=
  ⟨"top", .boolean, [2, 3], [5], [⟨.xor, [4, 1], 5⟩, ⟨.and, [2, 3], 4⟩]⟩

/-- The text of `unorderedNand` with its gates in order. -/
def unorderedNandText : String :=
  "2 6\n0\n0\n0 1 0 INPUT\n0 1 1 INPUT\n0 1 2 INPUT\n0 1 3 INPUT\n" ++
  "2 1 3 2 4 AND\n2 1 1 4 5 XOR\n1 0 5 OUTPUT\n"

/-- The gates of `unorderedNand` trade places, and its constants are declared but take no
bits from the witness. -/
theorem exists_run_of_isClean_unorderedNand :
    unorderedNand.toModule.isClean = true ∧
      (∀ gate ∈ unorderedNand.gates, gate.operator.arity? = some gate.inputs.length) ∧
      (∀ wire ∈ unorderedNand.inputs, ¬ Domain.boolean.IsConstant wire) ∧
      unorderedNand.schedule =
        .ok { unorderedNand with gates := [⟨.and, [2, 3], 4⟩, ⟨.xor, [4, 1], 5⟩] } ∧
      (∀ wire ∈ unorderedNand.wires, wire + 1 < Decimal.wordLimit) ∧
      [true, false].length = unorderedNand.inputs.length ∧
      ∃ values, unorderedNand.Solves [true, false] values ∧ ∃ last events,
        (Evaluator.ready true [true, false]).runCircuit unorderedNandText = (last, events) ∧
        last.violations = [] ∧ last.witness = [] ∧ last.evaluatedGates = 2 ∧
        last.overwrites = 0 ∧ last.outputs = [(5, values 5)] := by
  have clean : unorderedNand.toModule.isClean = true := by cbv
  have arity : ∀ gate ∈ unorderedNand.gates,
      gate.operator.arity? = some gate.inputs.length := by decide
  have inconstant : ∀ wire ∈ unorderedNand.inputs, ¬ Domain.boolean.IsConstant wire := by decide
  have scheduled : unorderedNand.schedule =
      .ok { unorderedNand with gates := [⟨.and, [2, 3], 4⟩, ⟨.xor, [4, 1], 5⟩] } := by cbv
  have bounded : ∀ wire ∈ unorderedNand.wires, wire + 1 < Decimal.wordLimit := by decide
  obtain ⟨values, solves, _, text, written, run⟩ := exists_run_of_isClean rfl clean arity
    inconstant scheduled bounded (rfl : [true, false].length = _)
  obtain ⟨ready, last, events, taken, ran, result⟩ := run "10" (by decide)
  have accepted : (Evaluator.empty true).addWitness "10" =
      (Evaluator.ready true [true, false], .ok ()) := by cbv
  have expected : Circuit.writeBristol?
      { unorderedNand with gates := [⟨.and, [2, 3], 4⟩, ⟨.xor, [4, 1], 5⟩] } =
        some (.ok unorderedNandText) := by cbv
  cases accepted.symm.trans taken
  cases expected.symm.trans written
  exact ⟨clean, arity, inconstant, scheduled, bounded, rfl, values, solves, last, events, ran,
    result⟩

/-- A circuit that copies an input with the largest number. -/
def utmostCopy : Circuit :=
  ⟨"utmost", .boolean, [18446744073709551615], [2], [⟨.buf, [18446744073709551615], 2⟩]⟩

/-- The text of `utmostCopy` with the number of its wires in full. -/
def utmostCopyText : String :=
  "1 18446744073709551616\n0\n0\n0 1 18446744073709551615 INPUT\n" ++
  "1 1 18446744073709551615 2 BUF\n1 0 2 OUTPUT\n"

/-- Nothing is written of the clean circuit `utmostCopy`, as counting its wires overflows. With
the number in full, the text is not read. -/
theorem writeBristol?_utmostCopy :
    utmostCopy.domain = .boolean ∧ utmostCopy.toModule.isClean = true ∧
      (∀ gate ∈ utmostCopy.gates, gate.operator.arity? = some gate.inputs.length) ∧
      (∀ wire ∈ utmostCopy.inputs, ¬ Domain.boolean.IsConstant wire) ∧
      utmostCopy.schedule = .ok utmostCopy ∧ [true].length = utmostCopy.inputs.length ∧
      utmostCopy.writeBristol? = none ∧ utmostCopy.toBristol = .ok utmostCopyText ∧
      (evaluate utmostCopyText "1" true).result = .error (.parse 1 .circuitHeader) := by
  have clean : utmostCopy.toModule.isClean = true := by cbv
  have scheduled : utmostCopy.schedule = .ok utmostCopy := by cbv
  have uncounted : utmostCopy.wireCount? = none := by cbv
  have unwritten : utmostCopy.writeBristol? = none := by
    rw [Circuit.writeBristol?, uncounted]
    rfl
  refine ⟨rfl, clean, by decide, by decide, scheduled, rfl, unwritten, ?_, ?_⟩ <;> cbv

end

end Netlist.Bristol
