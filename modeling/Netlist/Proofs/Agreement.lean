import Netlist.Proofs.Progress
import Netlist.Proofs.Sweeping

/-!
# Evaluators that agree

Two evaluators agree on some wires if they know the same about these wires, and are to take and
have put out the same (`Evaluator.AgreesOn`). Lines that read no other wires are followed by both
or by neither, and keep the agreement, whatever wires they set (`AgreesOn.exists_follow`). A gate
that sets none of the wires may be left out on one side (`AgreesOn.exists_follow_filter`).
-/

namespace Netlist.Bristol.Evaluator

/-! ### Storing values -/

/-- The evaluator once the value of a gate is stored. -/
def store (evaluator : Evaluator) (gate : Gate) (bit : Bool) : Evaluator :=
  let next := (evaluator.set gate.output bit).1
  { next with evaluatedGates := next.evaluatedGates + 1 }

/-- A gate at the front of some lines is evaluated and stored. -/
theorem follow_gate_cons_eq_ok_iff {gate : Gate} {rest : List Line} {evaluator last : Evaluator} :
    evaluator.follow (.gate gate :: rest) = .ok last ↔
      ∃ bit, evaluator.gateValue gate = .ok bit ∧ (evaluator.store gate bit).follow rest = .ok last
    := by
  rw [follow, step]
  cases evaluator.gateValue gate with
  | error error => simp [bind, Except.bind]
  | ok bit => simp [bind, Except.bind, pure, Except.pure, store]

@[simp]
theorem lookup_set_values (evaluator : Evaluator) (wire other : Wire) (bit : Bool) :
    (evaluator.set wire bit).1.values.lookup other =
      if other = wire then some bit else evaluator.values.lookup other := by
  unfold set
  dsimp only
  split <;> exact lookup_setValue wire other bit evaluator.values

@[simp]
theorem witness_set (evaluator : Evaluator) (wire : Wire) (bit : Bool) :
    (evaluator.set wire bit).1.witness = evaluator.witness := by
  unfold set
  dsimp only
  split <;> rfl

@[simp]
theorem outputs_set (evaluator : Evaluator) (wire : Wire) (bit : Bool) :
    (evaluator.set wire bit).1.outputs = evaluator.outputs := by
  unfold set
  dsimp only
  split <;> rfl

@[simp]
theorem constantsBound_set (evaluator : Evaluator) (wire : Wire) (bit : Bool) :
    (evaluator.set wire bit).1.constantsBound = evaluator.constantsBound := by
  unfold set
  dsimp only
  split <;> rfl

@[simp]
theorem lookup_store_values (evaluator : Evaluator) (gate : Gate) (wire : Wire) (bit : Bool) :
    (evaluator.store gate bit).values.lookup wire =
      if wire = gate.output then some bit else evaluator.values.lookup wire :=
  lookup_set_values evaluator gate.output wire bit

/-! ### Agreement -/

/-- The evaluators know the same about the wires that matter, have the same bits to take, and
have put out the same. -/
structure AgreesOn (matters : Wire → Prop) (first second : Evaluator) : Prop where
  values : ∀ wire, matters wire → first.values.lookup wire = second.values.lookup wire
  witness : first.witness = second.witness
  outputs : first.outputs = second.outputs
  constantsBound : first.constantsBound = second.constantsBound

variable {first second : Evaluator} {matters : Wire → Prop}

theorem get_congr {wire : Wire} (same : first.values.lookup wire = second.values.lookup wire) :
    first.get wire = second.get wire := by
  rw [get, get, same]

/-- The value of a gate depends on its inputs only. -/
theorem gateValue_congr {gate : Gate}
    (same : ∀ wire ∈ gate.inputs, first.values.lookup wire = second.values.lookup wire) :
    first.gateValue gate = second.gateValue gate := by
  have inputs : gate.inputs.reverse.mapM first.get = gate.inputs.reverse.mapM second.get :=
    Gate.mapM_congr fun wire member => get_congr (same wire (List.mem_reverse.1 member))
  rw [gateValue, gateValue, inputs]

namespace AgreesOn

theorem refl (matters : Wire → Prop) (evaluator : Evaluator) :
    evaluator.AgreesOn matters evaluator :=
  ⟨fun _ _ => rfl, rfl, rfl, rfl⟩

theorem mono {others : Wire → Prop} (agrees : first.AgreesOn matters second)
    (fewer : ∀ wire, others wire → matters wire) : first.AgreesOn others second :=
  ⟨fun wire isOther => agrees.values wire (fewer wire isOther), agrees.witness, agrees.outputs,
    agrees.constantsBound⟩

/-- Both set a wire, which need not matter. -/
theorem set (agrees : first.AgreesOn matters second) (wire : Wire) (bit : Bool) :
    (first.set wire bit).1.AgreesOn matters (second.set wire bit).1 := by
  refine ⟨fun other isMatter => ?_, ?_, ?_, ?_⟩
  · rw [lookup_set_values, lookup_set_values, agrees.values other isMatter]
  · rw [witness_set, witness_set, agrees.witness]
  · rw [outputs_set, outputs_set, agrees.outputs]
  · rw [constantsBound_set, constantsBound_set, agrees.constantsBound]

theorem store (agrees : first.AgreesOn matters second) (gate : Gate) (bit : Bool) :
    (first.store gate bit).AgreesOn matters (second.store gate bit) :=
  let set := agrees.set gate.output bit
  ⟨set.values, set.witness, set.outputs, set.constantsBound⟩

/-- One of them stores a wire that does not matter. -/
theorem store_left (agrees : first.AgreesOn matters second) {gate : Gate}
    (irrelevant : ¬ matters gate.output) (bit : Bool) :
    (first.store gate bit).AgreesOn matters second := by
  refine ⟨fun other isMatter => ?_, ?_, ?_, ?_⟩
  · have different : other ≠ gate.output := by
      rintro rfl
      exact irrelevant isMatter
    rw [lookup_store_values, if_neg different, agrees.values other isMatter]
  · exact (witness_set first gate.output bit).trans agrees.witness
  · exact (outputs_set first gate.output bit).trans agrees.outputs
  · exact (constantsBound_set first gate.output bit).trans agrees.constantsBound

/-- One of them stores what the other holds already, so that they agree on this wire too. -/
theorem store_right (agrees : first.AgreesOn matters second) {gate : Gate} {bit : Bool}
    (holds : first.values.lookup gate.output = some bit) {more : Wire → Prop}
    (covered : ∀ wire, more wire → wire = gate.output ∨ matters wire) :
    first.AgreesOn more (second.store gate bit) := by
  refine ⟨fun wire isMore => ?_, ?_, ?_, ?_⟩
  · rw [lookup_store_values]
    split
    · rename_i isOutput
      rw [isOutput, holds]
    · rename_i different
      exact agrees.values wire ((covered wire isMore).resolve_left different)
  · exact agrees.witness.trans (witness_set second gate.output bit).symm
  · exact agrees.outputs.trans (outputs_set second gate.output bit).symm
  · exact agrees.constantsBound.trans (constantsBound_set second gate.output bit).symm

/-- An input takes the same bit on both sides. -/
theorem exists_step_input (agrees : first.AgreesOn matters second) {wire : Wire}
    {next : Evaluator} {events : List Event}
    (stepped : first.step (.input wire) = .ok (next, events)) :
    ∃ other otherEvents, second.step (.input wire) = .ok (other, otherEvents) ∧
      next.AgreesOn matters other := by
  simp only [step, ← agrees.witness, ← agrees.constantsBound] at stepped ⊢
  by_cases isGiven : first.constantsBound ∧ Domain.boolean.IsConstant wire
  · rw [if_pos isGiven] at stepped ⊢
    cases stepped
    exact ⟨_, _, rfl, agrees⟩
  · rw [if_neg isGiven] at stepped ⊢
    cases witness : first.witness with
    | nil =>
      rw [witness] at stepped
      cases stepped
    | cons bit rest =>
      rw [witness] at stepped
      have taken : AgreesOn matters { first with witness := rest }
          { second with witness := rest, constantsBound := first.constantsBound } :=
        ⟨agrees.values, rfl, agrees.outputs, rfl⟩
      have after := taken.set wire bit
      rw [Except.ok.inj stepped] at after
      exact ⟨_, _, rfl, after⟩

/-- A line that reads wires that matter is run by both, or by none of them. -/
theorem exists_step (agrees : first.AgreesOn matters second) {line : Line}
    (reads : ∀ wire ∈ line.reads, matters wire) {next : Evaluator} {events : List Event}
    (stepped : first.step line = .ok (next, events)) :
    ∃ other otherEvents, second.step line = .ok (other, otherEvents) ∧
      next.AgreesOn matters other := by
  cases line with
  | input wire => exact agrees.exists_step_input stepped
  | output wire =>
    simp only [step] at stepped ⊢
    rw [← get_congr (agrees.values wire (reads wire List.mem_cons_self))]
    cases read : first.get wire with
    | error error =>
      rw [read] at stepped
      cases stepped
    | ok bit =>
      rw [read] at stepped
      cases stepped
      exact ⟨_, _, rfl, agrees.values, agrees.witness,
        congrArg (· ++ [(wire, bit)]) agrees.outputs, agrees.constantsBound⟩
  | gate node =>
    have inputs := gateValue_congr fun wire isInput =>
      agrees.values wire (reads wire (List.mem_reverse.2 isInput))
    simp only [step] at stepped ⊢
    rw [← inputs]
    cases computed : first.gateValue node with
    | error error =>
      rw [computed] at stepped
      cases stepped
    | ok bit =>
      rw [computed] at stepped
      cases stepped
      exact ⟨_, _, rfl, agrees.store node bit⟩

/-- Lines that read wires that matter are followed by both, or by none of them. -/
theorem exists_follow (agrees : first.AgreesOn matters second) {lines : List Line}
    (reads : ∀ line ∈ lines, ∀ wire ∈ line.reads, matters wire) {last : Evaluator}
    (followed : first.follow lines = .ok last) :
    ∃ other, second.follow lines = .ok other ∧ last.AgreesOn matters other := by
  induction lines generalizing first second with
  | nil =>
    cases followed
    exact ⟨second, rfl, agrees⟩
  | cons line rest ih =>
    obtain ⟨headReads, restReads⟩ := List.forall_mem_cons.1 reads
    rw [follow] at followed ⊢
    cases stepped : first.step line with
    | error error =>
      rw [stepped] at followed
      cases followed
    | ok outcome =>
      obtain ⟨next, events⟩ := outcome
      rw [stepped] at followed
      obtain ⟨other, otherEvents, otherStepped, after⟩ := agrees.exists_step headReads stepped
      rw [otherStepped]
      exact ih after restReads followed

/-- Gates whose outputs do not matter may be left out. -/
theorem exists_follow_filter (agrees : first.AgreesOn matters second) {keep : Gate → Bool}
    {gates : List Gate}
    (kept : ∀ gate ∈ gates, keep gate = true → ∀ wire ∈ gate.inputs, matters wire)
    (dropped : ∀ gate ∈ gates, keep gate = false → ¬ matters gate.output) {last : Evaluator}
    (followed : first.follow (gates.map .gate) = .ok last) :
    ∃ other, second.follow ((gates.filter keep).map .gate) = .ok other ∧
      last.AgreesOn matters other := by
  induction gates generalizing first second with
  | nil =>
    cases followed
    exact ⟨second, rfl, agrees⟩
  | cons gate rest ih =>
    obtain ⟨headKept, restKept⟩ := List.forall_mem_cons.1 kept
    obtain ⟨headDropped, restDropped⟩ := List.forall_mem_cons.1 dropped
    obtain ⟨bit, computed, others⟩ := follow_gate_cons_eq_ok_iff.1 followed
    cases isKept : keep gate with
    | true =>
      rw [List.filter_cons_of_pos isKept]
      obtain ⟨other, otherFollowed, after⟩ := ih (agrees.store gate bit) restKept restDropped others
      have same := gateValue_congr fun wire isInput =>
        agrees.values wire (headKept isKept wire isInput)
      exact ⟨other, follow_gate_cons_eq_ok_iff.2 ⟨bit, same ▸ computed, otherFollowed⟩, after⟩
    | false =>
      rw [List.filter_cons_of_neg (by rw [isKept]; exact Bool.false_ne_true)]
      exact ih (agrees.store_left (headDropped isKept) bit) restKept restDropped others

end AgreesOn

end Netlist.Bristol.Evaluator
