import Netlist.Proofs.Agreement
import Netlist.Proofs.KeptTexts
import Netlist.Proofs.Loops

/-!
# Circuits with reordered gates

Whether gates can be ordered does not depend on the order they come in
(`Circuit.IsReordering.exists_schedule`). If no two gates drive one wire, an evaluator that has
followed the gates in one order holds what each gate computes from what it holds
(`Bristol.Evaluator.computes_of_follow`). Following them in any other order that respects the
wires, it comes to the same values again, one gate at a time
(`Bristol.Evaluator.exists_follow_of_computes`). So the texts of two sorted circuits with the same
gates are evaluated to the same outputs, or both fail (`KeptCircuit.evaluate_sort_iff`).
-/

namespace Netlist

open Bristol

/-! ### Gates in another order -/

/-- Among gates that are in order, none are fed by one another. -/
theorem eq_nil_of_isScheduled {gates stuck : List Gate} (inOrder : IsScheduled gates)
    (subset : stuck ⊆ gates)
    (fed : ∀ gate ∈ stuck, ∃ driver ∈ stuck, driver.output ∈ gate.inputs) : stuck = [] := by
  induction gates with
  | nil => exact List.subset_nil.1 subset
  | cons gate rest ih =>
    refine ih inOrder.2 fun other isStuck => ?_
    rcases List.mem_cons.1 (subset isStuck) with rfl | inRest
    · obtain ⟨driver, driverStuck, feeds⟩ := fed other isStuck
      exact absurd feeds (inOrder.1 driver (subset driverStuck))
    · exact inRest

namespace Circuit

/-- The circuits have the same ports, and the same gates in some order. -/
structure IsReordering (first second : Circuit) : Prop where
  domain : first.domain = second.domain
  inputs : first.inputs = second.inputs
  outputs : first.outputs = second.outputs
  gates : first.gates.Perm second.gates

namespace IsReordering

variable {first second third : Circuit}

theorem symm (reordered : first.IsReordering second) : second.IsReordering first :=
  ⟨reordered.domain.symm, reordered.inputs.symm, reordered.outputs.symm, reordered.gates.symm⟩

theorem trans (reordered : first.IsReordering second) (again : second.IsReordering third) :
    first.IsReordering third :=
  ⟨reordered.domain.trans again.domain, reordered.inputs.trans again.inputs,
    reordered.outputs.trans again.outputs, reordered.gates.trans again.gates⟩

theorem of_schedule {ordered : Circuit} (scheduled : first.schedule = .ok ordered) :
    first.IsReordering ordered ∧ IsScheduled ordered.gates := by
  obtain ⟨gates, rfl, perm, inOrder⟩ := schedule_eq_ok scheduled
  exact ⟨⟨rfl, rfl, rfl, perm.symm⟩, inOrder⟩

/-- If the gates can be ordered, they can be ordered wherever they come from. -/
theorem exists_schedule (reordered : first.IsReordering second) {ordered : Circuit}
    (scheduled : first.schedule = .ok ordered) : ∃ other, second.schedule = .ok other := by
  obtain ⟨toOrdered, inOrder⟩ := of_schedule scheduled
  have schedules := schedules_scheduleGates second.gates
  have subset : (scheduleGates second.gates).2 ⊆ ordered.gates := by
    intro gate isStuck
    have isGate := (perm_scheduleGates second.gates).subset (List.mem_append_right _ isStuck)
    exact (reordered.symm.trans toOrdered).gates.subset isGate
  have noneStuck := eq_nil_of_isScheduled inOrder subset fun _ => schedules.exists_driver
  rw [noneStuck] at schedules
  exact ⟨_, schedule_of_schedules schedules⟩

theorem fitsWords (reordered : first.IsReordering second) (counts : first.FitsWords) :
    second.FitsWords := by
  have wires : second.wireCount ≤ first.wireCount :=
    wireCount_le_of_gates_subset reordered.domain.symm reordered.inputs.symm
      reordered.outputs.symm reordered.gates.symm.subset
  exact ⟨reordered.gates.length_eq ▸ counts.gates, wires.trans_lt counts.wires⟩

theorem hasArities (reordered : first.IsReordering second) (arities : first.HasArities) :
    second.HasArities :=
  fun gate member => arities gate (reordered.gates.mem_iff.2 member)

end IsReordering

end Circuit

/-! ### Evaluating gates in another order -/

namespace Bristol.Evaluator

variable {evaluator last : Evaluator} {gates others : List Gate}

/-- The evaluator holds the value that the gate computes from what it holds. -/
def Computes (evaluator : Evaluator) (gate : Gate) : Prop :=
  ∃ bit, evaluator.gateValue gate = .ok bit ∧ evaluator.values.lookup gate.output = some bit

/-- Gates change their outputs only. -/
theorem agreesOn_of_follow (followed : evaluator.follow (gates.map .gate) = .ok last) :
    last.AgreesOn (· ∉ gates.map Gate.output) evaluator := by
  obtain ⟨other, otherFollowed, agrees⟩ :
      ∃ other, evaluator.follow ((gates.filter fun _ => false).map .gate) = .ok other ∧
        last.AgreesOn (· ∉ gates.map Gate.output) other := by
    refine (AgreesOn.refl _ evaluator).exists_follow_filter ?_ ?_ followed
    · exact fun _ _ isKept => absurd isKept Bool.false_ne_true
    · exact fun gate member _ notOutput => notOutput (List.mem_map_of_mem member)
  rw [List.filter_false] at otherFollowed
  cases otherFollowed
  exact agrees

/-- A gate that is in order reads no outputs of the gates that come with it and after it. -/
theorem notMem_outputs_of_isReady {gate : Gate} (isReady : gate.IsReady gates) {wire : Wire}
    (isInput : wire ∈ gate.inputs) : wire ∉ gates.map Gate.output := by
  intro isOutput
  obtain ⟨other, member, rfl⟩ := List.mem_map.1 isOutput
  exact isReady other member isInput

/-- Gates that are followed in order hold what they compute, as no later gate changes a wire of
theirs. -/
theorem computes_of_follow (inOrder : IsScheduled gates) (single : (gates.map Gate.output).Nodup)
    (followed : evaluator.follow (gates.map .gate) = .ok last) :
    ∀ gate ∈ gates, last.Computes gate := by
  induction gates generalizing evaluator with
  | nil => exact List.forall_mem_nil _
  | cons gate rest ih =>
    obtain ⟨isReady, restInOrder⟩ := inOrder
    obtain ⟨isFresh, restSingle⟩ := List.nodup_cons.1 single
    obtain ⟨bit, computed, restFollowed⟩ := follow_gate_cons_eq_ok_iff.1 followed
    -- the rest drives neither an input of the gate, as it is in order, nor its output
    have agrees := agreesOn_of_follow restFollowed
    refine List.forall_mem_cons.2 ⟨⟨bit, ?_, ?_⟩, ih restInOrder restSingle restFollowed⟩
    · rw [← computed]
      refine gateValue_congr fun wire isInput => ?_
      have notOutput := notMem_outputs_of_isReady isReady isInput
      rw [List.map_cons, List.mem_cons, not_or] at notOutput
      rw [agrees.values wire notOutput.2, lookup_store_values, if_neg notOutput.1]
    · rw [agrees.values _ isFresh, lookup_store_values, if_pos rfl]

/-- Where an evaluator holds what gates compute, another one that holds the same on all wires but
their outputs can follow them in order, and comes to hold the same. -/
theorem exists_follow_of_computes {final : Evaluator} (inOrder : IsScheduled gates)
    (computes : ∀ gate ∈ gates, final.Computes gate)
    (agrees : final.AgreesOn (· ∉ gates.map Gate.output) evaluator) :
    ∃ last, evaluator.follow (gates.map .gate) = .ok last ∧
      final.AgreesOn (fun _ => True) last := by
  induction gates generalizing evaluator with
  | nil => exact ⟨evaluator, rfl, agrees.mono fun _ _ => List.not_mem_nil⟩
  | cons gate rest ih =>
    obtain ⟨isReady, restInOrder⟩ := inOrder
    obtain ⟨⟨bit, computed, holds⟩, restComputes⟩ := List.forall_mem_cons.1 computes
    have same : final.gateValue gate = evaluator.gateValue gate := gateValue_congr
      fun wire isInput => agrees.values wire (notMem_outputs_of_isReady isReady isInput)
    have after : final.AgreesOn (· ∉ rest.map Gate.output) (evaluator.store gate bit) := by
      refine agrees.store_right holds fun wire notOutput => ?_
      rw [List.map_cons, List.mem_cons, not_or]
      exact (Classical.em _).imp_right fun different => ⟨different, notOutput⟩
    obtain ⟨last, followed, agreesLast⟩ := ih restInOrder restComputes after
    exact ⟨last, follow_gate_cons_eq_ok_iff.2 ⟨bit, same ▸ computed, followed⟩, agreesLast⟩

/-- Two orders of gates that both respect the wires are followed to the same values. -/
theorem exists_follow_of_perm (inOrder : IsScheduled gates) (othersInOrder : IsScheduled others)
    (perm : gates.Perm others) (single : (gates.map Gate.output).Nodup)
    (followed : evaluator.follow (gates.map .gate) = .ok last) :
    ∃ other, evaluator.follow (others.map .gate) = .ok other ∧
      last.AgreesOn (fun _ => True) other := by
  have computes := computes_of_follow inOrder single followed
  have agrees : last.AgreesOn (· ∉ others.map Gate.output) evaluator :=
    (agreesOn_of_follow followed).mono fun _ => mt (perm.map Gate.output).mem_iff.1
  exact exists_follow_of_computes othersInOrder
    (fun gate member => computes gate (perm.mem_iff.2 member)) agrees

end Bristol.Evaluator

/-! ### Sorted circuits -/

namespace Circuit.IsReordering

variable {first second : Circuit}

/-- The lines of both circuits put out the same, if the gates of both are in order. -/
theorem exists_follow (reordered : first.IsReordering second) (inOrder : IsScheduled first.gates)
    (othersInOrder : IsScheduled second.gates) (single : (first.gates.map Gate.output).Nodup)
    {evaluator last : Evaluator} (followed : evaluator.follow first.undeclaredLines = .ok last) :
    ∃ other, evaluator.follow second.undeclaredLines = .ok other ∧
      other.outputs = last.outputs := by
  obtain ⟨given, computed, inputs, gates, outputs⟩ := follow_undeclaredLines_iff.1 followed
  obtain ⟨otherComputed, others, agrees⟩ :=
    Evaluator.exists_follow_of_perm inOrder othersInOrder reordered.gates single gates
  obtain ⟨other, otherOutputs, agreesLast⟩ :=
    agrees.exists_follow (fun _ _ _ _ => trivial) outputs
  refine ⟨other, ?_, agreesLast.outputs.symm⟩
  rw [reordered.inputs] at inputs
  rw [reordered.outputs] at otherOutputs
  exact follow_undeclaredLines_iff.2 ⟨given, otherComputed, inputs, others, otherOutputs⟩

end Circuit.IsReordering

namespace KeptCircuit

variable {first second : KeptCircuit}

/-- The texts of both circuits declare the constants or none of them does, if the kept sets are
exact. -/
theorem readsConstants_eq_of_isReordering (reordered : first.circuit.IsReordering second.circuit)
    (exact : first.sets.gateInputs = Gate.allInputs first.circuit.gates)
    (otherExact : second.sets.gateInputs = Gate.allInputs second.circuit.gates) :
    first.readsConstants = second.readsConstants := by
  have reads : (first.circuit.gates.flatMap Gate.inputs ++ first.circuit.outputs).Perm
      (second.circuit.gates.flatMap Gate.inputs ++ second.circuit.outputs) := by
    rw [reordered.outputs]
    exact (reordered.gates.flatMap_right _).append_right _
  rw [readsConstants_eq exact, readsConstants_eq otherExact]
  exact reads.any_eq

section

variable (reordered : first.circuit.IsReordering second.circuit)
  (inOrder : IsScheduled first.circuit.gates) (othersInOrder : IsScheduled second.circuit.gates)
  (single : (first.circuit.gates.map Gate.output).Nodup)

include reordered inOrder othersInOrder single

/-- The lines of both circuits put out the same, if the gates of both are in order, and both
declare the constants, or none of them does. -/
theorem exists_follow_of_isReordering {evaluator last : Evaluator}
    (same : first.readsConstants = second.readsConstants)
    (followed : evaluator.follow first.bristolLines = .ok last) :
    ∃ other, evaluator.follow second.bristolLines = .ok other ∧
      other.outputs = last.outputs := by
  obtain ⟨declared, constants, rest⟩ := Evaluator.follow_append_eq_ok_iff.1 followed
  obtain ⟨other, otherFollowed, outputs⟩ :=
    reordered.exists_follow inOrder othersInOrder single rest
  have sameConstants : first.declaredConstants = second.declaredConstants := by
    rw [declaredConstants, declaredConstants, same]
  rw [sameConstants] at constants
  exact ⟨other, Evaluator.follow_append_eq_ok_iff.2 ⟨declared, constants, otherFollowed⟩, outputs⟩

/-- If gates are in order in both circuits, and the text of one is evaluated, so is that of the
other. -/
theorem evaluate_of_isReordering
    (primitive : ∀ gate ∈ first.circuit.gates, gate.operator.IsPrimitive) {text other : String}
    (written : first.toBristol = .ok text) (otherWritten : second.toBristol = .ok other)
    {witness : String} {constants : Bool}
    (same : first.readsConstants = second.readsConstants)
    {outputs : List (Wire × Bool)}
    (evaluated : (evaluate text witness constants).result = .ok outputs) :
    (evaluate other witness constants).result = .ok outputs := by
  have otherPrimitive : ∀ gate ∈ second.circuit.gates, gate.operator.IsPrimitive :=
    fun gate member => primitive gate (reordered.gates.mem_iff.2 member)
  rw [evaluate_iff primitive written] at evaluated
  rw [evaluate_iff otherPrimitive otherWritten]
  obtain ⟨counts, arities, bits, last, lists, followed, rfl⟩ := evaluated
  obtain ⟨otherLast, otherFollowed, outputs⟩ := exists_follow_of_isReordering reordered inOrder
    othersInOrder single same followed
  exact ⟨reordered.fitsWords counts, reordered.hasArities arities, bits, otherLast, lists,
    otherFollowed, outputs⟩

end

/-- Sorting does not change which constants are declared. -/
theorem readsConstants_of_schedule {kept : KeptCircuit} {ordered : Circuit}
    (scheduled : kept.circuit.schedule = .ok ordered) :
    readsConstants { kept with circuit := ordered } = kept.readsConstants := by
  obtain ⟨gates, rfl, _, _⟩ := Circuit.schedule_eq_ok scheduled
  rfl

/-- If the text of one sorted circuit is evaluated, so is that of the other. -/
theorem evaluate_of_schedule (reordered : first.circuit.IsReordering second.circuit)
    (primitive : ∀ gate ∈ first.circuit.gates, gate.operator.IsPrimitive)
    (single : (first.circuit.gates.map Gate.output).Nodup) {ordered otherOrdered : Circuit}
    (scheduled : first.circuit.schedule = .ok ordered)
    (otherScheduled : second.circuit.schedule = .ok otherOrdered) {text other : String}
    (written : toBristol { first with circuit := ordered } = .ok text)
    (otherWritten : toBristol { second with circuit := otherOrdered } = .ok other)
    {witness : String} {constants : Bool}
    (same : first.readsConstants = second.readsConstants)
    {outputs : List (Wire × Bool)}
    (evaluated : (evaluate text witness constants).result = .ok outputs) :
    (evaluate other witness constants).result = .ok outputs := by
  obtain ⟨toOrdered, inOrder⟩ := Circuit.IsReordering.of_schedule scheduled
  obtain ⟨toOther, otherInOrder⟩ := Circuit.IsReordering.of_schedule otherScheduled
  refine evaluate_of_isReordering ((toOrdered.symm.trans reordered).trans toOther) inOrder
    otherInOrder ?_ ?_ written otherWritten ?_ evaluated
  · exact (toOrdered.gates.map Gate.output).nodup_iff.1 single
  · exact fun gate member => primitive gate (toOrdered.gates.mem_iff.2 member)
  · rwa [readsConstants_of_schedule scheduled, readsConstants_of_schedule otherScheduled]

/-- The order in which gates come does not matter once they are sorted. If no two gates drive one
wire, then two circuits with the same ports and gates can both be sorted or none of them can, and
their sorted texts are evaluated to the same outputs or both fail. For both texts to declare the
constants or none of them, the sets of the wires that gates read have to be exact. -/
theorem evaluate_sort_iff {first second : KeptCircuit}
    (reordered : first.circuit.IsReordering second.circuit)
    (isBoolean : first.circuit.domain = .boolean)
    (primitive : ∀ gate ∈ first.circuit.gates, gate.operator.IsPrimitive)
    (single : (first.circuit.gates.map Gate.output).Nodup)
    (exact : first.sets.gateInputs = Gate.allInputs first.circuit.gates)
    (otherExact : second.sets.gateInputs = Gate.allInputs second.circuit.gates) :
    (first.sort.2 = .ok () ↔ second.sort.2 = .ok ()) ∧
      (first.sort.2 = .ok () → ∃ text other,
        first.sort.1.toBristol = .ok text ∧ second.sort.1.toBristol = .ok other ∧
          ∀ witness constants outputs, (evaluate text witness constants).result = .ok outputs ↔
            (evaluate other witness constants).result = .ok outputs) := by
  have sortable : first.sort.2 = .ok () ↔ second.sort.2 = .ok () := by
    rw [sort_eq_ok_iff, sort_eq_ok_iff]
    exact ⟨fun ⟨_, scheduled⟩ => reordered.exists_schedule scheduled,
      fun ⟨_, scheduled⟩ => reordered.symm.exists_schedule scheduled⟩
  refine ⟨sortable, fun sorted => ?_⟩
  obtain ⟨ordered, scheduled⟩ := sort_eq_ok_iff.1 sorted
  obtain ⟨otherOrdered, otherScheduled⟩ := sort_eq_ok_iff.1 (sortable.1 sorted)
  have orderedBoolean : ordered.domain = .boolean := by
    rw [← (Circuit.IsReordering.of_schedule scheduled).1.domain, isBoolean]
  have otherBoolean : otherOrdered.domain = .boolean := by
    rw [← (Circuit.IsReordering.of_schedule otherScheduled).1.domain, ← reordered.domain, isBoolean]
  have written : toBristol { first with circuit := ordered } = .ok _ :=
    toBristol_of_boolean orderedBoolean
  have otherWritten : toBristol { second with circuit := otherOrdered } = .ok _ :=
    toBristol_of_boolean otherBoolean
  rw [sort_of_ok scheduled, sort_of_ok otherScheduled]
  have same := readsConstants_eq_of_isReordering reordered exact otherExact
  refine ⟨_, _, written, otherWritten, fun witness constants outputs => ⟨?_, ?_⟩⟩
  · exact evaluate_of_schedule reordered primitive single scheduled otherScheduled written
      otherWritten same
  · have otherPrimitive : ∀ gate ∈ second.circuit.gates, gate.operator.IsPrimitive :=
      fun gate member => primitive gate (reordered.gates.mem_iff.2 member)
    have otherSingle := (reordered.gates.map Gate.output).nodup_iff.1 single
    exact evaluate_of_schedule reordered.symm otherPrimitive otherSingle otherScheduled scheduled
      otherWritten written same.symm

/-- A gate in front of the two that it waits for. -/
def hastyXor : KeptCircuit where
  circuit := ⟨"hasty", .boolean, [2, 3], [6],
    [⟨.xor, [4, 5], 6⟩, ⟨.and, [2, 3], 4⟩, ⟨.inv, [2], 5⟩]⟩
  sets := ⟨[2, 3, 4, 5], [4, 5, 6], [], []⟩

/-- The gates of `hastyXor` the other way round. -/
def patientXor : KeptCircuit where
  circuit := ⟨"patient", .boolean, [2, 3], [6],
    [⟨.inv, [2], 5⟩, ⟨.and, [2, 3], 4⟩, ⟨.xor, [4, 5], 6⟩]⟩
  sets := ⟨[2, 3, 4, 5], [4, 5, 6], [], []⟩

/-- The text of `hastyXor` once it is sorted. -/
def hastyXorText : String :=
  "3 7\n0\n0\n0 1 2 INPUT\n0 1 3 INPUT\n2 1 3 2 4 AND\n1 1 2 5 INV\n" ++
  "2 1 5 4 6 XOR\n1 0 6 OUTPUT\n"

/-- The text of `patientXor`, which is sorted. -/
def patientXorText : String :=
  "3 7\n0\n0\n0 1 2 INPUT\n0 1 3 INPUT\n1 1 2 5 INV\n2 1 3 2 4 AND\n" ++
  "2 1 5 4 6 XOR\n1 0 6 OUTPUT\n"

theorem evaluate_sort_iff_hastyXor :
    hastyXor.circuit.IsReordering patientXor.circuit ∧
      hastyXor.circuit.domain = .boolean ∧
      (∀ gate ∈ hastyXor.circuit.gates, gate.operator.IsPrimitive) ∧
      (hastyXor.circuit.gates.map Gate.output).Nodup ∧
      hastyXor.sets.gateInputs = Gate.allInputs hastyXor.circuit.gates ∧
      patientXor.sets.gateInputs = Gate.allInputs patientXor.circuit.gates ∧
      hastyXor.sort.2 = .ok () ∧ patientXor.sort.2 = .ok () ∧
      hastyXor.sort.1.toBristol = .ok hastyXorText ∧
      patientXor.sort.1.toBristol = .ok patientXorText ∧
      (evaluate hastyXorText "11" false).result = .ok [(6, true)] ∧
      (evaluate patientXorText "11" false).result = .ok [(6, true)] := by
  have reordered : hastyXor.circuit.IsReordering patientXor.circuit :=
    ⟨rfl, rfl, rfl, by decide⟩
  have primitive : ∀ gate ∈ hastyXor.circuit.gates, gate.operator.IsPrimitive := by decide
  have single : (hastyXor.circuit.gates.map Gate.output).Nodup := by decide
  have exact : hastyXor.sets.gateInputs = Gate.allInputs hastyXor.circuit.gates := by cbv
  have otherExact : patientXor.sets.gateInputs = Gate.allInputs patientXor.circuit.gates := by cbv
  have scheduled : hastyXor.circuit.schedule = .ok { hastyXor.circuit with
      gates := [⟨.and, [2, 3], 4⟩, ⟨.inv, [2], 5⟩, ⟨.xor, [4, 5], 6⟩] } := by cbv
  have sorted : hastyXor.sort.2 = .ok () := sort_eq_ok_iff.2 ⟨_, scheduled⟩
  have hastyWritten : hastyXor.sort.1.toBristol = .ok hastyXorText := by cbv
  have patientWritten : patientXor.sort.1.toBristol = .ok patientXorText := by cbv
  have evaluated : (evaluate hastyXorText "11" false).result = .ok [(6, true)] := by cbv
  obtain ⟨sortable, texts⟩ :=
    evaluate_sort_iff reordered rfl primitive single exact otherExact
  obtain ⟨text, other, written, otherWritten, same⟩ := texts sorted
  cases hastyWritten.symm.trans written
  cases patientWritten.symm.trans otherWritten
  exact ⟨reordered, rfl, primitive, single, exact, otherExact, sorted, sortable.1 sorted,
    hastyWritten, patientWritten, evaluated, (same _ _ _).1 evaluated⟩

/-- A circuit that copies its input. -/
def tidyCopy : KeptCircuit where
  circuit := ⟨"copy", .boolean, [2], [3], [⟨.buf, [2], 3⟩]⟩
  sets := ⟨[2], [3], [], []⟩

/-- The same circuit, with a set in which a constant is left that no gate reads any more. -/
def staleCopy : KeptCircuit where
  circuit := tidyCopy.circuit
  sets := ⟨[0, 2], [3], [], []⟩

def tidyCopyText : String :=
  "1 4\n0\n0\n0 1 2 INPUT\n1 1 2 3 BUF\n1 0 3 OUTPUT\n"

/-- The text of `staleCopy`, which declares the constants. -/
def staleCopyText : String :=
  "1 4\n0\n0\n0 1 0 INPUT\n0 1 1 INPUT\n0 1 2 INPUT\n1 1 2 3 BUF\n1 0 3 OUTPUT\n"

/-- Sorted circuits that differ in a stale set only are evaluated differently: without constants
that are held, the one that declares them asks for more bits. -/
theorem evaluate_sort_staleCopy :
    tidyCopy.circuit.IsReordering staleCopy.circuit ∧
      tidyCopy.circuit.domain = .boolean ∧
      (∀ gate ∈ tidyCopy.circuit.gates, gate.operator.IsPrimitive) ∧
      (tidyCopy.circuit.gates.map Gate.output).Nodup ∧
      (∀ gate ∈ tidyCopy.circuit.gates,
        gate.output ∉ tidyCopy.circuit.inputs ∧ ¬ Domain.boolean.IsConstant gate.output) ∧
      tidyCopy.sort.2 = .ok () ∧ staleCopy.sort.2 = .ok () ∧
      tidyCopy.sort.1.toBristol = .ok tidyCopyText ∧
      staleCopy.sort.1.toBristol = .ok staleCopyText ∧
      (evaluate tidyCopyText "1" false).result = .ok [(3, true)] ∧
      (evaluate staleCopyText "1" false).result = .error (.witnessExhausted 1) := by
  have scheduled : tidyCopy.circuit.schedule = .ok tidyCopy.circuit := by cbv
  refine ⟨⟨rfl, rfl, rfl, .refl _⟩, rfl, by decide, by decide, by decide,
    sort_eq_ok_iff.2 ⟨_, scheduled⟩, sort_eq_ok_iff.2 ⟨_, scheduled⟩, ?_⟩
  refine ⟨?_, ?_, ?_, ?_⟩ <;> cbv

end KeptCircuit

end Netlist
