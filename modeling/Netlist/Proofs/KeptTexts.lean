import Netlist.Proofs.AlikeCircuits
import Netlist.Proofs.OpaqueCells
import Netlist.Proofs.Passes

/-!
# Texts of kept circuits

Whether the text of a circuit declares the constants is told by the set of wires that is kept
for its gates (`KeptCircuit.toBristol`). If this set is exact, the lines are those of the circuit
(`KeptCircuit.bristolLines_eq`). If all operators are primitives, a text is evaluated exactly if
its numbers fit into words, each gate has as many inputs as its operator takes, and the lines can
be followed (`KeptCircuit.evaluate_iff`). An evaluator that holds the constants passes over their
declarations, so it does not matter for it what the kept sets are
(`KeptCircuit.evaluate_bound_iff`).
-/

namespace Netlist

open Bristol

/-! ### Lines of primitives -/

namespace Bristol

namespace Line

/-- The line of a primitive that is read as some line has as many inputs as it takes. -/
theorem isPrimitive_of_isTakenFor {gate : Gate} {taken : Line}
    (primitive : gate.operator.IsPrimitive) (isTaken : (Line.gate gate).IsTakenFor taken) :
    (Line.gate gate).IsPrimitive := by
  have notCell : ∀ name, gate.operator ≠ .cell name := by
    intro name isCell
    rw [isCell] at primitive
    cases primitive
  have same := (ofParts_primitive primitive gate.inputs gate.output taken).1 isTaken.2
  simp only [takenFor?, notCell, if_false] at same
  split at same
  · assumption
  · cases same

theorem isWord_word_of_operators {lines : List Line}
    (primitive : ∀ gate, Line.gate gate ∈ lines → gate.operator.IsPrimitive) :
    ∀ line ∈ lines, Text.IsWord line.word.toList := by
  intro line member
  cases line with
  | input wire => exact isWord_inputWord
  | output wire => exact isWord_outputWord
  | gate node => exact isWord_name (primitive node member)

/-- Lines of primitives are read as what was written, if their numbers fit and each has as many
inputs as it takes. -/
theorem forall₂_isTakenFor_iff_of_operators {lines taken : List Line}
    (primitive : ∀ gate, Line.gate gate ∈ lines → gate.operator.IsPrimitive) :
    List.Forall₂ IsTakenFor lines taken ↔
      (∀ line ∈ lines, line.IsPrimitive) ∧ (∀ line ∈ lines, line.Fits) ∧ taken = lines := by
  constructor
  · intro related
    have arePrimitive : ∀ line ∈ lines, line.IsPrimitive := by
      intro line member
      cases line with
      | gate node =>
        obtain ⟨other, isTaken⟩ := exists_of_mem_right related.flip member
        exact isPrimitive_of_isTakenFor (primitive node member) isTaken.2
      | _ => trivial
    exact ⟨arePrimitive, (forall₂_isTakenFor_iff arePrimitive).1 related⟩
  · rintro ⟨arePrimitive, fits, same⟩
    exact (forall₂_isTakenFor_iff arePrimitive).2 ⟨fits, same⟩

end Line

/-- A text with lines of primitives can be evaluated exactly if its numbers fit into words, each
gate has as many inputs as it takes, the witness holds bits, and the lines can be followed. -/
theorem evaluate_bristolText_iff_of_operators {circuit : Circuit} {lines : List Line}
    (primitive : ∀ gate, Line.gate gate ∈ lines → gate.operator.IsPrimitive) (witness : String)
    (constants : Bool) (outputs : List (Wire × Bool)) :
    (evaluate (bristolText circuit lines) witness constants).result = .ok outputs ↔
      circuit.FitsWords ∧ (∀ line ∈ lines, line.IsPrimitive) ∧ (∀ line ∈ lines, line.Fits) ∧
        ∃ bits last, Evaluator.Lists witness bits ∧
          (Evaluator.ready constants bits).follow lines = .ok last ∧ last.outputs = outputs := by
  rw [evaluate_bristolText_iff (Line.isWord_word_of_operators primitive)]
  simp only [Line.forall₂_isTakenFor_iff_of_operators primitive]
  constructor
  · rintro ⟨counts, bits, _, last, lists, ⟨arePrimitive, fits, rfl⟩, followed⟩
    exact ⟨⟨counts.1, counts.2⟩, arePrimitive, fits, bits, last, lists, followed⟩
  · rintro ⟨counts, arePrimitive, fits, bits, last, lists, followed⟩
    exact ⟨⟨counts.gates, counts.wires⟩, bits, lines, last, lists, ⟨arePrimitive, fits, rfl⟩,
      followed⟩

end Bristol

/-! ### Texts -/

/-- The lines of a circuit, without the declarations of constants. -/
def Circuit.undeclaredLines (circuit : Circuit) : List Line :=
  circuit.inputs.map .input ++ circuit.gates.map .gate ++ circuit.outputs.map .output

theorem Circuit.undeclaredLines_subset (circuit : Circuit) :
    circuit.undeclaredLines ⊆ circuit.bristolLines := by
  intro line member
  simp only [undeclaredLines, bristolLines, declaredInputs, List.map_append, List.mem_append]
    at member ⊢
  exact member.imp_left (Or.imp_left Or.inr)

/-- The inputs are taken, then the gates are computed, then the outputs are put out. -/
theorem Circuit.follow_undeclaredLines_iff {circuit : Circuit} {evaluator last : Evaluator} :
    evaluator.follow circuit.undeclaredLines = .ok last ↔
      ∃ given computed, evaluator.follow (circuit.inputs.map .input) = .ok given ∧
        given.follow (circuit.gates.map .gate) = .ok computed ∧
          computed.follow (circuit.outputs.map .output) = .ok last := by
  rw [undeclaredLines, List.append_assoc, Evaluator.follow_append_eq_ok_iff]
  simp only [Evaluator.follow_append_eq_ok_iff, exists_and_left]

namespace KeptCircuit

variable {kept : KeptCircuit}

/-- One of the wires that are kept as read by gates is a constant, or an output is. -/
def readsConstants (kept : KeptCircuit) : Bool :=
  (kept.sets.gateInputs ++ kept.circuit.outputs).any fun wire => Domain.boolean.IsConstant wire

/-- The constants that a kept circuit declares as inputs. -/
def declaredConstants (kept : KeptCircuit) : List Wire :=
  if kept.readsConstants then [falseWire, trueWire] else []

/-- The lines of a kept circuit behind its header. -/
def bristolLines (kept : KeptCircuit) : List Line :=
  kept.declaredConstants.map .input ++ kept.circuit.undeclaredLines

/-- The text of a kept circuit, if it is Boolean. -/
def toBristol (kept : KeptCircuit) : Except Error String :=
  if kept.circuit.domain = .boolean then .ok (bristolText kept.circuit kept.bristolLines)
  else .error (.domainMismatch .serialization .boolean)

theorem toBristol_of_boolean (isBoolean : kept.circuit.domain = .boolean) :
    kept.toBristol = .ok (bristolText kept.circuit kept.bristolLines) :=
  if_pos isBoolean

theorem bristolText_eq {text : String} (written : kept.toBristol = .ok text) :
    bristolText kept.circuit kept.bristolLines = text := by
  unfold toBristol at written
  split at written
  · exact Except.ok.inj written
  · cases written

theorem isConstant_of_mem_declaredConstants {wire : Wire}
    (member : wire ∈ kept.declaredConstants) : Domain.boolean.IsConstant wire := by
  unfold declaredConstants at member
  split at member
  · rcases List.mem_pair.1 member with rfl | rfl <;> decide
  · cases member

theorem gate_mem_bristolLines_iff {gate : Gate} :
    Line.gate gate ∈ kept.bristolLines ↔ gate ∈ kept.circuit.gates := by
  simp [bristolLines, Circuit.undeclaredLines]

theorem readsConstants_eq (exact : kept.sets.gateInputs = Gate.allInputs kept.circuit.gates) :
    kept.readsConstants = kept.circuit.readsConstants := by
  unfold readsConstants Circuit.readsConstants
  rw [exact, Bool.eq_iff_iff, List.any_eq_true, List.any_eq_true]
  simp [Gate.allInputs]

/-- If the set of wires that gates read is exact, the lines are those of the circuit. -/
theorem bristolLines_eq (exact : kept.sets.gateInputs = Gate.allInputs kept.circuit.gates) :
    kept.bristolLines = kept.circuit.bristolLines := by
  unfold bristolLines declaredConstants Circuit.undeclaredLines Circuit.bristolLines
    Circuit.declaredInputs
  rw [readsConstants_eq exact, List.map_append, List.append_assoc, List.append_assoc,
    List.append_assoc]

theorem fits_of_mem_bristolLines (counts : kept.circuit.FitsWords)
    (arities : kept.circuit.HasArities) : ∀ line ∈ kept.bristolLines, line.Fits := by
  intro line member
  rcases List.mem_append.1 member with isDeclared | own
  · obtain ⟨wire, isConstant, rfl⟩ := List.mem_map.1 isDeclared
    refine fits_of_forall (Nat.zero_le _) (Nat.le_succ 1) (List.forall_mem_singleton.2 ?_)
    exact lt_wordLimit_of_le_two (isConstant_of_mem_declaredConstants isConstant).le
  · exact Bristol.fits_of_mem_bristolLines arities counts.wires line
      (Circuit.undeclaredLines_subset _ own)

theorem forall_isPrimitive_iff :
    (∀ line ∈ kept.bristolLines, line.IsPrimitive) ↔ kept.circuit.HasArities := by
  constructor
  · exact fun arePrimitive gate member => arePrimitive _ (gate_mem_bristolLines_iff.2 member)
  · intro arities line member
    cases line with
    | gate node => exact arities node (gate_mem_bristolLines_iff.1 member)
    | _ => trivial

/-- The text of a kept circuit of primitives is evaluated exactly if its numbers fit into words,
each gate has as many inputs as it takes, and its lines can be followed from the bits of the
witness. -/
theorem evaluate_iff (primitive : ∀ gate ∈ kept.circuit.gates, gate.operator.IsPrimitive)
    {text : String} (written : kept.toBristol = .ok text) (witness : String) (constants : Bool)
    (outputs : List (Wire × Bool)) :
    (evaluate text witness constants).result = .ok outputs ↔
      kept.circuit.FitsWords ∧ kept.circuit.HasArities ∧
        ∃ bits last, Evaluator.Lists witness bits ∧
          (Evaluator.ready constants bits).follow kept.bristolLines = .ok last ∧
            last.outputs = outputs := by
  rw [← bristolText_eq written, evaluate_bristolText_iff_of_operators fun gate member =>
    primitive gate (gate_mem_bristolLines_iff.1 member)]
  simp only [forall_isPrimitive_iff]
  refine and_congr_right fun counts => and_congr_right fun arities => ?_
  exact and_iff_right (fits_of_mem_bristolLines counts arities)

/-- An evaluator that holds the constants passes over their declarations. -/
theorem follow_bristolLines_of_bound {evaluator : Evaluator}
    (bound : evaluator.constantsBound = true) :
    evaluator.follow kept.bristolLines = evaluator.follow kept.circuit.undeclaredLines := by
  have passes : ∀ wires : List Wire, (∀ wire ∈ wires, Domain.boolean.IsConstant wire) →
      evaluator.follow (wires.map .input) = .ok evaluator := by
    intro wires constants
    induction wires with
    | nil => rfl
    | cons wire others ih =>
      obtain ⟨head, othersConstant⟩ := List.forall_mem_cons.1 constants
      rw [List.map_cons, Evaluator.follow, Evaluator.step, if_pos ⟨bound, head⟩]
      exact ih othersConstant
  rw [bristolLines, Evaluator.follow_append,
    passes _ fun _ => isConstant_of_mem_declaredConstants]
  rfl

/-- Where constants are held, the kept sets do not matter for the evaluation of a text. -/
theorem evaluate_bound_iff
    (primitive : ∀ gate ∈ kept.circuit.gates, gate.operator.IsPrimitive) {text : String}
    (written : kept.toBristol = .ok text) (witness : String) (outputs : List (Wire × Bool)) :
    (evaluate text witness true).result = .ok outputs ↔
      kept.circuit.FitsWords ∧ kept.circuit.HasArities ∧
        ∃ bits last, Evaluator.Lists witness bits ∧
          (Evaluator.ready true bits).follow kept.circuit.undeclaredLines = .ok last ∧
            last.outputs = outputs := by
  rw [evaluate_iff primitive written]
  have follows : ∀ bits, (Evaluator.ready true bits).follow kept.bristolLines =
      (Evaluator.ready true bits).follow kept.circuit.undeclaredLines :=
    fun _ => follow_bristolLines_of_bound rfl
  simp only [follows]

end KeptCircuit

end Netlist
