import Netlist.Proofs.CellNames
import Netlist.Proofs.Settling

/-!
# Opaque cells in texts of circuits

In the text of a circuit the name of a cell stands where ports have the words `INPUT` and
`OUTPUT`. A cell that is called so is taken for a port (`Bristol.Line.takenFor?`), and all
others are refused. So for a circuit that comes from BLIF, evaluation succeeds exactly if the
lines that its text is taken for can be followed (`Blif.evaluate_iff_of_readTexts`): a cell of
any other name is never evaluated, but one of these names is (`Blif.exists_evaluated_cell`).
-/

namespace Netlist

namespace Bristol.Line

/-- The line that the text of a line is taken for. A cell may be called like the words for
ports; any other cell, and a primitive with too few inputs or too many, is none. -/
def takenFor? : Line → Option Line
  | gate node =>
    if node.operator = .cell inputWord then some (input node.output)
    else if node.operator = .cell outputWord then node.inputs.getLast?.map output
    else if node.operator.arity? = some node.inputs.length then some (gate node)
    else none
  | port => some port

/-- All operators of the line are named. -/
def IsNamed : Line → Prop
  | gate node => node.operator.IsNamed
  | _ => True

/-- The last word of a cell is taken for a port, if it is called so, and refused if not. -/
theorem ofParts_cell {name : String} (known : Operator.ofName name = .cell name)
    (inputs : List Wire) (target : Wire) (taken : Line) :
    ofParts name inputs.reverse [target] = .ok (some taken) ↔
      (gate ⟨.cell name, inputs, target⟩).takenFor? = some taken := by
  have apart : outputWord ≠ inputWord := by decide
  simp only [ofParts, takenFor?, Operator.cell.injEq]
  by_cases isInput : name = inputWord
  · simp only [isInput, if_true, List.head?_cons, Option.map_some, Except.ok.injEq]
  · by_cases isOutput : name = outputWord
    · simp only [isOutput, apart, if_false, if_true, List.head?_reverse, Except.ok.injEq]
    · simp [isInput, isOutput, known, Operator.arity?]

/-- A primitive is taken for itself, if it has as many inputs as it takes. -/
theorem ofParts_primitive {operator : Operator} (isPrimitive : operator.IsPrimitive)
    (inputs : List Wire) (target : Wire) (taken : Line) :
    ofParts operator.name inputs.reverse [target] = .ok (some taken) ↔
      (gate ⟨operator, inputs, target⟩).takenFor? = some taken := by
  have notCell : ∀ name, operator ≠ .cell name := by
    rintro name rfl
    cases isPrimitive
  simp only [takenFor?, notCell, if_false]
  by_cases arity : operator.arity? = some inputs.length
  · have parts := @ofParts_name operator inputs.reverse target (by rwa [List.length_reverse])
    rw [List.reverse_reverse] at parts
    rw [parts, if_pos arity, Except.ok.injEq]
  · rcases ofName_name isPrimitive with ⟨noInput, noOutput, known⟩
    unfold ofParts
    rw [if_neg noInput, if_neg noOutput, known, if_neg arity]
    cases operator with
    | cell name => cases isPrimitive
    | _ => simp_all

/-- What the text of a line is read as. -/
theorem isTakenFor_iff_takenFor? {line taken : Line} (named : line.IsNamed) :
    line.IsTakenFor taken ↔ line.Fits ∧ line.takenFor? = some taken := by
  apply and_congr_right'
  cases line with
  | input wire => simp [word, writes, ofParts, takenFor?]
  | output wire => simp [word, reads, ofParts, takenFor?, show outputWord ≠ inputWord by decide]
  | gate node =>
    rcases node with ⟨operator, inputs, target⟩
    have known := Operator.isNamed_iff.1 named
    by_cases isPrimitive : operator.IsPrimitive
    · exact ofParts_primitive isPrimitive inputs target taken
    · cases operator with
      | cell name => exact ofParts_cell known inputs target taken
      | _ => exact absurd rfl isPrimitive

/-- What the texts of some lines are read as. -/
theorem forall₂_isTakenFor_iff_mapM {lines taken : List Line}
    (named : ∀ line ∈ lines, line.IsNamed) :
    List.Forall₂ IsTakenFor lines taken ↔
      (∀ line ∈ lines, line.Fits) ∧ lines.mapM takenFor? = some taken := by
  induction lines generalizing taken with
  | nil => simp [eq_comm]
  | cons line rest ih =>
    rcases List.forall_mem_cons.1 named with ⟨head, others⟩
    simp only [List.forall₂_cons_left_iff, isTakenFor_iff_takenFor? head, ih others,
      List.forall_mem_cons, List.mapM_cons, Option.bind_eq_bind, Option.bind_eq_some_iff,
      Option.pure_def, Option.some.injEq]
    constructor
    · rintro ⟨first, later, ⟨fits, isFirst⟩, ⟨othersFit, areLater⟩, rfl⟩
      exact ⟨⟨fits, othersFit⟩, first, isFirst, later, areLater, rfl⟩
    · rintro ⟨⟨fits, othersFit⟩, first, isFirst, later, areLater, rfl⟩
      exact ⟨first, later, ⟨fits, isFirst⟩, ⟨othersFit, areLater⟩, rfl⟩

/-- If lines are taken for something, each of them is. -/
theorem isSome_takenFor?_of_mapM {lines taken : List Line}
    (areTaken : lines.mapM takenFor? = some taken) : ∀ line ∈ lines, line.takenFor?.isSome := by
  induction lines generalizing taken with
  | nil => exact List.forall_mem_nil _
  | cons line rest ih =>
    rw [List.mapM_cons] at areTaken
    rcases Option.bind_eq_some_iff.1 areTaken with ⟨first, isFirst, areTaken⟩
    rcases Option.bind_eq_some_iff.1 areTaken with ⟨others, areOthers, _⟩
    exact List.forall_mem_cons.2 ⟨Option.isSome_of_eq_some isFirst, ih areOthers⟩

end Bristol.Line

open Bristol

/-- The gate is a cell that is not called like a word for ports. -/
def Gate.IsOpaque (gate : Gate) : Prop :=
  ∃ name, gate.operator = .cell name ∧ name ≠ Line.inputWord ∧ name ≠ Line.outputWord

theorem Gate.IsOpaque.takenFor?_eq_none {gate : Gate} (isOpaque : gate.IsOpaque) :
    (Line.gate gate).takenFor? = none := by
  rcases isOpaque with ⟨name, isCell, noInput, noOutput⟩
  simp [Line.takenFor?, isCell, noInput, noOutput, Operator.arity?]

namespace Circuit

variable {circuit : Circuit}

/-- Every line of a circuit with spelled operators ends with a word, and its operator is
named. -/
theorem spelled_of_mem_bristolLines (spelled : ∀ gate ∈ circuit.gates, gate.operator.IsSpelled) :
    ∀ line ∈ circuit.bristolLines, Text.IsWord line.word.toList ∧ line.IsNamed := by
  intro line member
  simp only [bristolLines, List.mem_append, List.mem_map] at member
  rcases member with (⟨wire, _, rfl⟩ | ⟨gate, isGate, rfl⟩) | ⟨wire, _, rfl⟩
  · exact ⟨Line.isWord_inputWord, trivial⟩
  · exact ⟨(spelled gate isGate).isWord_name, (spelled gate isGate).isNamed⟩
  · exact ⟨Line.isWord_outputWord, trivial⟩

/-- The text of a circuit with spelled operators can be evaluated exactly if the lines that it
is taken for can be followed from the bits of the witness. -/
theorem evaluate_iff_of_isSpelled (spelled : ∀ gate ∈ circuit.gates, gate.operator.IsSpelled)
    {text : String} (written : circuit.toBristol = .ok text) (witness : String)
    (constants : Bool) (outputs : List (Wire × Bool)) :
    (evaluate text witness constants).result = .ok outputs ↔
      (circuit.gates.length < Decimal.wordLimit ∧ circuit.wireCount < Decimal.wordLimit) ∧
      (∀ line ∈ circuit.bristolLines, line.Fits) ∧
      ∃ bits lines last, Evaluator.Lists witness bits ∧
        circuit.bristolLines.mapM Line.takenFor? = some lines ∧
        (Evaluator.ready constants bits).follow lines = .ok last ∧ last.outputs = outputs := by
  have known := spelled_of_mem_bristolLines spelled
  rw [evaluate_iff written fun line member => (known line member).1]
  simp only [Line.forall₂_isTakenFor_iff_mapM fun line member => (known line member).2]
  constructor
  · rintro ⟨counts, bits, lines, last, lists, ⟨fits, taken⟩, followed⟩
    exact ⟨counts, fits, bits, lines, last, lists, taken, followed⟩
  · rintro ⟨counts, fits, bits, lines, last, lists, taken, followed⟩
    exact ⟨counts, bits, lines, last, lists, ⟨fits, taken⟩, followed⟩

/-- Not every line of a circuit with an opaque cell is taken for something. -/
theorem mapM_takenFor?_ne_some {gate : Gate} (isGate : gate ∈ circuit.gates)
    (isOpaque : gate.IsOpaque) (lines : List Line) :
    circuit.bristolLines.mapM Line.takenFor? ≠ some lines := by
  intro taken
  have isLine : Line.gate gate ∈ circuit.bristolLines :=
    List.mem_append_left _ (List.mem_append_right _ (List.mem_map_of_mem isGate))
  have isTaken := Line.isSome_takenFor?_of_mapM taken _ isLine
  rw [isOpaque.takenFor?_eq_none] at isTaken
  cases isTaken

end Circuit

namespace Blif

/-- The text of a circuit that comes from BLIF can be evaluated exactly if its numbers fit
into words, the witness holds bits, each of its lines is taken for some line, and these lines
can be followed. So a circuit with an opaque cell is never evaluated. -/
theorem evaluate_iff_of_readTexts {allocator : Allocator} {top : Option String}
    {texts : List String} {design : Design} (read : readTexts allocator top texts = .ok design)
    {flat ordered : Circuit} (flattened : design.flatten.result = .ok flat)
    (scheduled : flat.schedule = .ok ordered) {text : String}
    (written : ordered.toBristol = .ok text) :
    ((∃ gate ∈ ordered.gates, gate.IsOpaque) → ∀ witness constants, ∃ error,
      (evaluate text witness constants).result = .error error) ∧
    ∀ witness constants outputs, (evaluate text witness constants).result = .ok outputs ↔
      (ordered.gates.length < Decimal.wordLimit ∧ ordered.wireCount < Decimal.wordLimit) ∧
      (∀ line ∈ ordered.bristolLines, line.Fits) ∧
      ∃ bits lines last, Evaluator.Lists witness bits ∧
        ordered.bristolLines.mapM Line.takenFor? = some lines ∧
        (Evaluator.ready constants bits).follow lines = .ok last ∧ last.outputs = outputs := by
  have flatSpelled := Design.isSpelled_of_flatten (isSpelled_of_readTexts read) flattened
  rcases Circuit.schedule_eq_ok scheduled with ⟨gates, rfl, perm, _⟩
  have spelled : ∀ gate ∈ gates, gate.operator.IsSpelled :=
    fun gate isGate => flatSpelled gate (perm.subset isGate)
  have evaluates := Circuit.evaluate_iff_of_isSpelled spelled written
  refine ⟨?_, evaluates⟩
  rintro ⟨gate, isGate, isOpaque⟩ witness constants
  cases evaluated : (evaluate text witness constants).result with
  | error error => exact ⟨error, rfl⟩
  | ok outputs =>
    rcases (evaluates witness constants outputs).1 evaluated with ⟨_, _, _, lines, _, _, taken, _⟩
    exact absurd taken (Circuit.mapM_takenFor?_ne_some isGate isOpaque lines)

/-- A netlist with one cell. -/
def oneCell (name : String) : String :=
  ".model top\n" ++
  ".inputs a\n" ++
  ".outputs y\n" ++
  ".gate " ++ name ++ " A=a Y=y\n" ++
  ".end\n"

/-- The netlist with one cell, as a design. -/
def oneCellDesign (name : String) : Design where
  allocator := ⟨.boolean, ["a", "y"], by decide, by decide⟩
  modules := [⟨"top", .boolean, [2], [3], [⟨.cell name, [2], 3⟩], []⟩]
  top := some "top"
  resolved := true

/-- The netlist with one cell, as a circuit. -/
def oneCellCircuit (name : String) : Circuit :=
  ⟨"top", .boolean, [2], [3], [⟨.cell name, [2], 3⟩]⟩

/-- The text of the circuit with a cell that is called like an input. -/
def portNamedText : String :=
  "1 4\n0\n0\n0 1 2 INPUT\n1 1 2 3 INPUT\n1 0 3 OUTPUT\n"

/-- The text of the circuit with a latch. -/
def latchText : String :=
  "1 4\n0\n0\n0 1 2 INPUT\n1 1 2 3 LATCH\n1 0 3 OUTPUT\n"

theorem readTexts_portNamed :
    readTexts (Allocator.empty .boolean) none [oneCell "INPUT"] = .ok (oneCellDesign "INPUT") := by
  cbv

theorem readTexts_latch :
    readTexts (Allocator.empty .boolean) none [oneCell "LATCH"] = .ok (oneCellDesign "LATCH") := by
  cbv

theorem flatten_oneCell (name : String) :
    (oneCellDesign name).flatten.result = .ok (oneCellCircuit name) := by
  cbv

theorem schedule_oneCell (name : String) :
    (oneCellCircuit name).schedule = .ok (oneCellCircuit name) := by
  cbv

theorem toBristol_portNamed : (oneCellCircuit "INPUT").toBristol = .ok portNamedText := by
  cbv

theorem toBristol_latch : (oneCellCircuit "LATCH").toBristol = .ok latchText := by
  cbv

/-- The cell that is called like an input is taken for one, which takes the second bit of the
witness. The latch is refused. -/
theorem evaluate_iff_of_readTexts_oneCell :
    (evaluate portNamedText "01" true).result = .ok [(3, true)] ∧
    ∀ witness constants, ∃ error, (evaluate latchText witness constants).result = .error error := by
  constructor
  · have evaluates := (evaluate_iff_of_readTexts readTexts_portNamed (flatten_oneCell _)
      (schedule_oneCell _) toBristol_portNamed).2 "01" true [(3, true)]
    apply evaluates.2
    refine ⟨by decide, by decide, [false, true], [.input 2, .input 3, .output 3], _, ?_, ?_,
      rfl, rfl⟩
    · decide
    · decide
  · apply (evaluate_iff_of_readTexts readTexts_latch (flatten_oneCell _) (schedule_oneCell _)
      toBristol_latch).1
    exact ⟨_, List.mem_singleton_self _, "LATCH", rfl, by decide, by decide⟩

/-- A circuit with a cell can be evaluated. -/
theorem exists_evaluated_cell :
    ∃ (texts : List String) (design : Design) (flat ordered : Circuit) (text witness : String)
      (outputs : List (Wire × Bool)),
      readTexts (Allocator.empty .boolean) none texts = .ok design ∧
      design.flatten.result = .ok flat ∧ flat.schedule = .ok ordered ∧
      (∃ gate ∈ ordered.gates, ∃ name, gate.operator = .cell name) ∧
      ordered.toBristol = .ok text ∧ (evaluate text witness true).result = .ok outputs := by
  refine ⟨_, _, _, _, _, "01", [(3, true)], readTexts_portNamed, flatten_oneCell _,
    schedule_oneCell _, ?_, toBristol_portNamed, ?_⟩
  · exact ⟨_, List.mem_singleton_self _, _, rfl⟩
  · cbv

end Blif

end Netlist
