import Netlist.Proofs.Agreement
import Netlist.Proofs.KeptTexts

/-!
# Constants held and constants taken

An evaluator may hold the constants, or take them from the witness where they are declared. Which
of both it does matters only to the declarations (`Evaluator.runLines_released`). So if no input
is a constant, a text is evaluated with constants that are held to the same outputs, or fails
with the same error, as it is without, with `01` in front of the witness if the constants are
declared (`KeptCircuit.evaluate_held_eq`).
-/

namespace Netlist

open Bristol

/-! ### Witnesses with bits in front -/

namespace Text

theorem dropEmptyLast_cons_cons (first second : List Char) (rest : List (List Char)) :
    dropEmptyLast (first :: second :: rest) = first :: dropEmptyLast (second :: rest) := by
  rw [dropEmptyLast, dropEmptyLast, List.getLast?_cons_cons]
  split
  · rfl
  · rfl

/-- A character in front of a text stands in its first line. -/
theorem lines_cons {character : Char} (noFeed : character ≠ '\n') (text : List Char) :
    lines (character :: text) =
      (character :: (lines text).headD []) :: (lines text).tail := by
  obtain ⟨first, rest, cut⟩ := List.exists_cons_of_ne_nil (List.splitOn_ne_nil '\n' text)
  have moved : (character :: text).splitOn '\n' = (character :: first) :: rest := by
    rw [List.splitOn_cons_eq_if_modifyHead, if_neg (by simpa using noFeed), cut]
    rfl
  rw [lines, lines, moved, cut]
  cases rest with
  | nil => by_cases empty : first = [] <;> simp [dropEmptyLast, empty]
  | cons second others => simp [dropEmptyLast_cons_cons]

end Text

/-- The line is not the declaration of a constant. -/
def Bristol.Line.DeclaresNoConstant : Line → Prop
  | input wire => ¬ Domain.boolean.IsConstant wire
  | _ => True

namespace Bristol.Evaluator

/-- A character in front of a witness is its first mark, unless it is blank. -/
theorem witnessMarks_cons {character : Char} (notBlank : Text.isBlank character = false)
    (text : List Char) :
    witnessMarks (String.ofList (character :: text)) =
      (1, character) :: witnessMarks (String.ofList text) := by
  have noFeed : character ≠ '\n' := by
    rintro rfl
    exact absurd notBlank (by decide)
  rw [witnessMarks, witnessMarks, Text.numberedLines, Text.numberedLines, String.toList_ofList,
    String.toList_ofList, Text.lines_cons noFeed]
  cases Text.lines text with
  | nil => simp [notBlank]
  | cons first rest => simp [notBlank]

/-- With `01` in front, a witness is taken as far as without, after two more bits. -/
theorem exists_addWitness (text : String) :
    ∃ bits outcome, ∀ evaluator : Evaluator,
      evaluator.addWitness text =
          ({ evaluator with witness := evaluator.witness ++ bits }, outcome) ∧
        evaluator.addWitness ("01" ++ text) =
          ({ evaluator with witness := evaluator.witness ++ false :: true :: bits }, outcome) := by
  have marks : witnessMarks ("01" ++ text) = (1, '0') :: (1, '1') :: witnessMarks text := by
    have front : "01" ++ text = String.ofList ('0' :: '1' :: text.toList) := by
      rw [← String.toList_inj]
      simp
    rw [front, witnessMarks_cons (by decide), witnessMarks_cons (by decide), String.ofList_toList]
  refine ⟨_, _, fun evaluator => ⟨by rw [addWitness, List.span_eq_takeWhile_dropWhile], ?_⟩⟩
  have isZero : isBit '0' = true := by decide
  have isOne : isBit '1' = true := by decide
  rw [addWitness, marks]
  simp only [List.span_eq_takeWhile_dropWhile, List.takeWhile_cons, List.dropWhile_cons, isZero,
    isOne, if_true, List.map_cons]
  rfl

/-! ### Forgetting that constants are held -/

/-- The evaluator, which takes declared constants from its witness from now on. -/
def released (evaluator : Evaluator) : Evaluator :=
  { evaluator with constantsBound := false }

theorem get_released (evaluator : Evaluator) : evaluator.released.get = evaluator.get :=
  rfl

theorem set_released (evaluator : Evaluator) (wire : Wire) (bit : Bool) :
    evaluator.released.set wire bit =
      ((evaluator.set wire bit).1.released, (evaluator.set wire bit).2) := by
  unfold set
  by_cases known : (evaluator.values.lookup wire).isSome
  · simp [released, known]
  · simp [released, known]

/-- A line that declares no constant is run alike, whether or not constants are held. -/
theorem step_released {line : Line} (other : line.DeclaresNoConstant) (evaluator : Evaluator) :
    evaluator.released.step line =
      (evaluator.step line).map fun (next, events) => (next.released, events) := by
  cases line with
  | input wire =>
    have notTaken (e : Evaluator) : ¬ (e.constantsBound ∧ Domain.boolean.IsConstant wire) :=
      fun both => other both.2
    rw [step, step, if_neg (notTaken _), if_neg (notTaken _)]
    dsimp only [released]
    cases evaluator.witness with
    | nil => rfl
    | cons bit rest =>
      exact congrArg Except.ok (set_released { evaluator with witness := rest } wire bit)
  | output wire =>
    rw [step, step, get_released]
    cases evaluator.get wire with
    | error error => rfl
    | ok bit => rfl
  | gate node =>
    have same : evaluator.released.gateValue node = evaluator.gateValue node := rfl
    rw [step, step, same]
    cases evaluator.gateValue node with
    | error error => rfl
    | ok bit =>
      simp only [Bind.bind, Except.bind, set_released]
      rfl

/-- Lines that declare no constant are run alike, whether or not constants are held. -/
theorem runLines_released {entries : List (Nat × List Char)}
    (others : ∀ entry ∈ entries, ∀ line, Line.read entry.1 entry.2 = .ok line →
      line.DeclaresNoConstant) (evaluator : Evaluator) :
    evaluator.released.runLines entries =
      ((evaluator.runLines entries).1.released, (evaluator.runLines entries).2) := by
  induction entries generalizing evaluator with
  | nil => rfl
  | cons entry rest ih =>
    obtain ⟨head, restOthers⟩ := List.forall_mem_cons.1 others
    rw [runLines, runLines]
    cases read : Line.read entry.1 entry.2 with
    | error error => rfl
    | ok line =>
      dsimp only
      rw [step_released (head line read)]
      cases evaluator.step line with
      | error error => rfl
      | ok outcome =>
        dsimp only [Except.map]
        rw [ih restOthers]

/-! ### Runs of evaluators that agree -/

namespace AgreesOn

variable {first second : Evaluator} {matters : Wire → Prop}

/-- Evaluators that agree fail alike. -/
theorem step_error (agrees : first.AgreesOn matters second) {line : Line}
    (reads : ∀ wire ∈ line.reads, matters wire) {error : Error}
    (failed : first.step line = .error error) : second.step line = .error error := by
  cases line with
  | input wire =>
    rw [step, ← agrees.constantsBound, ← agrees.witness]
    rw [step] at failed
    split
    · rename_i isGiven
      rw [if_pos isGiven] at failed
      cases failed
    · rename_i isTaken
      rw [if_neg isTaken] at failed
      cases left : first.witness with
      | nil =>
        rw [left] at failed
        exact failed
      | cons bit rest =>
        rw [left] at failed
        cases failed
  | output wire =>
    have same := get_congr (agrees.values wire (reads wire List.mem_cons_self))
    rw [step, ← same]
    rw [step] at failed
    cases read : first.get wire with
    | error problem =>
      rw [read] at failed
      cases failed
      rfl
    | ok bit =>
      rw [read] at failed
      cases failed
  | gate node =>
    have same := gateValue_congr fun wire isInput =>
      agrees.values wire (reads wire (List.mem_reverse.2 isInput))
    rw [step, ← same]
    rw [step] at failed
    cases computed : first.gateValue node with
    | error problem =>
      rw [computed] at failed
      cases failed
      rfl
    | ok bit =>
      rw [computed] at failed
      cases failed

/-- Evaluators that agree on all wires that some lines read run these lines with the same
outcome, and agree in the end. -/
theorem runLines (agrees : first.AgreesOn matters second) {entries : List (Nat × List Char)}
    (reads : ∀ entry ∈ entries, ∀ line, Line.read entry.1 entry.2 = .ok line →
      ∀ wire ∈ line.reads, matters wire) :
    (first.runLines entries).1.AgreesOn matters (second.runLines entries).1 ∧
      (first.runLines entries).2.result = (second.runLines entries).2.result := by
  induction entries generalizing first second with
  | nil => exact ⟨agrees, rfl⟩
  | cons entry rest ih =>
    obtain ⟨head, restReads⟩ := List.forall_mem_cons.1 reads
    rw [Evaluator.runLines, Evaluator.runLines]
    cases read : Line.read entry.1 entry.2 with
    | error error => exact ⟨agrees, rfl⟩
    | ok line =>
      dsimp only
      cases stepped : first.step line with
      | error error =>
        rw [agrees.step_error (head line read) stepped]
        exact ⟨agrees, rfl⟩
      | ok outcome =>
        obtain ⟨next, events⟩ := outcome
        obtain ⟨other, otherEvents, otherStepped, after⟩ :=
          agrees.exists_step (head line read) stepped
        rw [otherStepped]
        exact ih after restReads

end AgreesOn

end Bristol.Evaluator

/-! ### Evaluations -/

namespace Bristol

/-- What running some lines puts out, and whether it fails. -/
def Evaluator.conclusion (evaluator : Evaluator) (entries : List (Nat × List Char)) :
    List (Wire × Bool) × Except Error Unit :=
  ((evaluator.runLines entries).1.outputs, (evaluator.runLines entries).2.result)

/-- The texts of some lines, numbered from the given start. -/
def numberedTexts (start : Nat) (lines : List Line) : List (Nat × List Char) :=
  (lines.zipIdx start).map fun (line, number) => (number, line.text.toList)

/-- The text of a line with a primitive is read as this line or not at all. -/
theorem mem_of_read_numberedTexts {start : Nat} {lines : List Line}
    (primitive : ∀ gate, Line.gate gate ∈ lines → gate.operator.IsPrimitive)
    {entry : Nat × List Char} (member : entry ∈ numberedTexts start lines) {taken : Line}
    (read : Line.read entry.1 entry.2 = .ok taken) : taken ∈ lines := by
  obtain ⟨⟨line, number⟩, isNumbered, rfl⟩ := List.mem_map.1 member
  have isLine : line ∈ lines := List.fst_mem_of_mem_zipIdx isNumbered
  have isTaken := (Line.read_text_eq_ok_iff
    (Line.isWord_word_of_operators primitive line isLine) number).1 read
  have arity : line.IsPrimitive := by
    cases line with
    | gate node => exact Line.isPrimitive_of_isTakenFor (primitive node isLine) isTaken
    | _ => trivial
  rw [((Line.isTakenFor_iff arity).1 isTaken).2]
  exact isLine

/-- An input in front of some lines is taken, and then the lines are run. -/
theorem conclusion_input_cons {wire : Wire} (fits : (Line.input wire).Fits)
    {evaluator next : Evaluator} {events : List Event}
    (stepped : evaluator.step (.input wire) = .ok (next, events)) (start : Nat)
    (rest : List Line) :
    evaluator.conclusion (numberedTexts start (.input wire :: rest)) =
      next.conclusion (numberedTexts (start + 1) rest) := by
  have read : Line.read start (Line.input wire).text.toList = .ok (.input wire) :=
    (@Line.read_text_eq_ok_iff (.input wire) _ Line.isWord_inputWord start).2
      ((@Line.isTakenFor_iff (.input wire) _ trivial).2 ⟨fits, rfl⟩)
  rw [Evaluator.conclusion, numberedTexts, List.zipIdx_cons, List.map_cons, Evaluator.runLines,
    read]
  dsimp only
  rw [stepped]
  rfl

theorem result_bind_emit_bind {α : Type} (report : Report Unit) (events : List Event) (value : α) :
    ((report.bind fun _ => Report.emit events).bind fun _ => Report.ok value).result =
      report.result.map fun _ => value := by
  unfold Report.bind
  cases report.result <;> rfl

/-- Evaluations of one text come to the same if the witnesses are taken alike, and running the
lines comes to the same. -/
theorem result_evaluate_congr {circuit : Circuit} {lines : List Line}
    (areWords : ∀ line ∈ lines, Text.IsWord line.word.toList) {witness other : String}
    {held otherHeld : Bool} {bits otherBits : List Bool} {outcome : Except Error Unit}
    (taken : (Evaluator.empty held).addWitness witness = (Evaluator.ready held bits, outcome))
    (otherTaken : (Evaluator.empty otherHeld).addWitness other =
      (Evaluator.ready otherHeld otherBits, outcome))
    (same : (Evaluator.ready held bits).conclusion (numberedTexts 4 lines) =
      (Evaluator.ready otherHeld otherBits).conclusion (numberedTexts 4 lines)) :
    (evaluate (bristolText circuit lines) witness held).result =
      (evaluate (bristolText circuit lines) other otherHeld).result := by
  rw [evaluate, evaluate, taken, otherTaken]
  cases outcome with
  | error error => rfl
  | ok _ =>
    obtain ⟨second, third, cut⟩ := @Evaluator.textLines_bristolText circuit lines areWords
    obtain ⟨outputs, result⟩ := Prod.ext_iff.1 same
    simp only [Evaluator.conclusion, numberedTexts] at outputs result
    simp only [Evaluator.runText, cut, List.drop_succ_cons, List.drop_zero]
    split
    · rw [result_bind_emit_bind, result_bind_emit_bind, outputs, result]
    · rfl

/-- Constants that are declared in front of all lines have the values that they have where they
are held, if these are taken from the witness. -/
theorem conclusion_of_declared {lines : List Line}
    (primitive : ∀ gate, Line.gate gate ∈ lines → gate.operator.IsPrimitive)
    (free : ∀ line ∈ lines, line.DeclaresNoConstant) (bits : List Bool) :
    (Evaluator.ready true bits).conclusion
        (numberedTexts 4 (.input falseWire :: .input trueWire :: lines)) =
      (Evaluator.ready false (false :: true :: bits)).conclusion
        (numberedTexts 4 (.input falseWire :: .input trueWire :: lines)) := by
  have others : ∀ entry ∈ numberedTexts 6 lines, ∀ line, Line.read entry.1 entry.2 = .ok line →
      line.DeclaresNoConstant :=
    fun entry member line read => free line (mem_of_read_numberedTexts primitive member read)
  have falseFits : (Line.input falseWire).Fits := by decide
  have trueFits : (Line.input trueWire).Fits := by decide
  calc
    _ = (Evaluator.ready true bits).conclusion (numberedTexts 6 lines) := by
      rw [conclusion_input_cons falseFits rfl, conclusion_input_cons trueFits rfl]
    _ = (Evaluator.ready true bits).released.conclusion (numberedTexts 6 lines) := by
      rw [Evaluator.conclusion, Evaluator.conclusion, Evaluator.runLines_released others]
      rfl
    _ = _ := by
      rw [conclusion_input_cons falseFits rfl, conclusion_input_cons trueFits rfl]
      rfl

/-- Where lines read no constants, it does not matter whether constants are held. -/
theorem conclusion_of_undeclared {lines : List Line}
    (primitive : ∀ gate, Line.gate gate ∈ lines → gate.operator.IsPrimitive)
    (free : ∀ line ∈ lines, line.DeclaresNoConstant)
    (reads : ∀ line ∈ lines, ∀ wire ∈ line.reads, ¬ Domain.boolean.IsConstant wire)
    (bits : List Bool) :
    (Evaluator.ready true bits).conclusion (numberedTexts 4 lines) =
      (Evaluator.ready false bits).conclusion (numberedTexts 4 lines) := by
  have isLine {entry : Nat × List Char} (member : entry ∈ numberedTexts 4 lines) {line : Line}
      (read : Line.read entry.1 entry.2 = .ok line) : line ∈ lines :=
    mem_of_read_numberedTexts primitive member read
  have agrees : (Evaluator.ready true bits).released.AgreesOn
      (fun wire => ¬ Domain.boolean.IsConstant wire) (Evaluator.ready false bits) := by
    refine ⟨fun wire noConstant => ?_, rfl, rfl, rfl⟩
    change Evaluator.constants.lookup wire = none
    have notFalse : wire ≠ falseWire := fun same => noConstant (by rw [same]; decide)
    have notTrue : wire ≠ trueWire := fun same => noConstant (by rw [same]; decide)
    rw [Evaluator.constants, List.lookup_cons, beq_false_of_ne notFalse, List.lookup_cons,
      beq_false_of_ne notTrue]
    rfl
  obtain ⟨last, result⟩ := agrees.runLines fun entry member line read =>
    reads line (isLine member read)
  rw [Evaluator.runLines_released fun entry member line read => free line (isLine member read)]
    at last result
  exact Prod.ext last.outputs result

end Bristol

namespace KeptCircuit

variable {kept : KeptCircuit}

/-- If a circuit of primitives keeps exactly the wires that its gates read and no input of it is
a constant, its text is evaluated with constants that are held as without, to the same outputs
or with the same error. If the text declares the constants, their values are given in front of
the witness. -/
theorem evaluate_held_eq (isBoolean : kept.circuit.domain = .boolean)
    (primitive : ∀ gate ∈ kept.circuit.gates, gate.operator.IsPrimitive)
    (exact : kept.sets.gateInputs = Gate.allInputs kept.circuit.gates)
    (free : ∀ wire ∈ kept.circuit.inputs, ¬ Domain.boolean.IsConstant wire) :
    ∃ text, kept.toBristol = .ok text ∧ ∀ witness,
      (evaluate text witness true).result = (evaluate text
        (if kept.readsConstants then "01" ++ witness else witness) false).result := by
  refine ⟨_, toBristol_of_boolean isBoolean, fun witness => ?_⟩
  obtain ⟨bits, outcome, taken⟩ := Evaluator.exists_addWitness witness
  have isOwn {gate : Gate} (member : Line.gate gate ∈ kept.circuit.undeclaredLines) :
      gate ∈ kept.circuit.gates :=
    gate_mem_bristolLines_iff.1 (List.mem_append_right _ member)
  have ownPrimitive : ∀ gate, Line.gate gate ∈ kept.circuit.undeclaredLines →
      gate.operator.IsPrimitive := fun gate member => primitive gate (isOwn member)
  have ownFree : ∀ line ∈ kept.circuit.undeclaredLines, line.DeclaresNoConstant := by
    intro line member
    cases line with
    | input wire => exact free wire (by simpa [Circuit.undeclaredLines] using member)
    | _ => trivial
  have areWords : ∀ line ∈ kept.bristolLines, Text.IsWord line.word.toList :=
    Line.isWord_word_of_operators fun gate member =>
      primitive gate (gate_mem_bristolLines_iff.1 member)
  by_cases reads : kept.readsConstants = true
  · have lines : kept.bristolLines =
        .input falseWire :: .input trueWire :: kept.circuit.undeclaredLines := by
      rw [bristolLines, declaredConstants, if_pos reads]
      rfl
    rw [if_pos reads]
    rw [lines] at areWords ⊢
    exact result_evaluate_congr areWords (taken _).1 (taken _).2
      (conclusion_of_declared ownPrimitive ownFree bits)
  · have lines : kept.bristolLines = kept.circuit.undeclaredLines := by
      rw [bristolLines, declaredConstants, if_neg reads]
      rfl
    have ownReads : ∀ line ∈ kept.circuit.undeclaredLines, ∀ wire ∈ line.reads,
        ¬ Domain.boolean.IsConstant wire := by
      intro line member wire isRead isConstant
      apply reads
      rw [readsConstants, List.any_eq_true]
      refine ⟨wire, List.mem_append.2 ?_, decide_eq_true isConstant⟩
      cases line with
      | input other => cases isRead
      | output other =>
        rw [List.mem_singleton.1 isRead]
        exact Or.inr (by simpa [Circuit.undeclaredLines] using member)
      | gate node =>
        rw [exact]
        exact Or.inl (Gate.mem_allInputs_iff.2 ⟨node, isOwn member, List.mem_reverse.1 isRead⟩)
    rw [if_neg reads]
    rw [lines] at areWords ⊢
    exact result_evaluate_congr areWords (taken _).1 (taken _).1
      (conclusion_of_undeclared ownPrimitive ownFree ownReads bits)

/-- A circuit that negates its input by a constant. -/
def negation : KeptCircuit where
  circuit := ⟨"negation", .boolean, [2], [3], [⟨.xor, [2, 1], 3⟩]⟩
  sets := ⟨[1, 2], [3], [], []⟩

def negationText : String :=
  "1 4\n0\n0\n0 1 0 INPUT\n0 1 1 INPUT\n0 1 2 INPUT\n2 1 1 2 3 XOR\n1 0 3 OUTPUT\n"

/-- With both constants in front of the witness, the input is negated as it is where they are
held. If nothing follows them, there is no bit for the input. -/
theorem evaluate_held_eq_negation :
    negation.circuit.domain = .boolean ∧
      (∀ gate ∈ negation.circuit.gates, gate.operator.IsPrimitive) ∧
      negation.sets.gateInputs = Gate.allInputs negation.circuit.gates ∧
      (∀ wire ∈ negation.circuit.inputs, ¬ Domain.boolean.IsConstant wire) ∧
      negation.toBristol = .ok negationText ∧
      (evaluate negationText "011" false).result = .ok [(3, false)] ∧
      (evaluate negationText "01" false).result = .error (.witnessExhausted 2) := by
  have primitive : ∀ gate ∈ negation.circuit.gates, gate.operator.IsPrimitive := by decide
  have exact : negation.sets.gateInputs = Gate.allInputs negation.circuit.gates := by decide
  have free : ∀ wire ∈ negation.circuit.inputs, ¬ Domain.boolean.IsConstant wire := by decide
  have written : negation.toBristol = .ok negationText := by cbv
  obtain ⟨text, isText, same⟩ := evaluate_held_eq rfl primitive exact free
  cases written.symm.trans isText
  refine ⟨rfl, primitive, exact, free, written, (same "1").symm.trans ?_, (same "").symm.trans ?_⟩
  · cbv
  · cbv

end KeptCircuit

end Netlist
