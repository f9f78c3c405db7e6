import Mathlib.Data.List.Basic
import Netlist.Proofs.Running

/-!
# Unique readability of circuit texts

A text holds no marks between its sections, and a line does not tell what it is: a
constant that is declared looks like any other input, and a cell without inputs may be
called `INPUT`. Yet each line gives away the wires it reads, the wires it writes and its
last word (`Bristol.Line.parts_eq_of_text_eq`), and among the lines of a circuit only
those of outputs write nothing. With the number of gates from the header, that tells the
sections apart, so two circuits with the same text have the same inputs, outputs and
gates (`Circuit.eq_of_toBristol_eq`).
-/

namespace Netlist

namespace Text

/-- The first occurrence of a character cuts a list in one way only. -/
theorem eq_of_append_cons_eq {mark : Char} {first second : List Char} (inFirst : mark ∉ first)
    (inSecond : mark ∉ second) {firstRest secondRest : List Char}
    (same : first ++ mark :: firstRest = second ++ mark :: secondRest) :
    first = second ∧ firstRest = secondRest := by
  induction first generalizing second with
  | nil =>
    cases second with
    | nil => exact ⟨rfl, (List.cons.inj same).2⟩
    | cons head tail =>
      have isMark : mark = head := (List.cons.inj same).1
      exact absurd (isMark ▸ List.mem_cons_self) inSecond
  | cons head tail ih =>
    cases second with
    | nil =>
      have isMark : head = mark := (List.cons.inj same).1
      exact absurd (isMark ▸ List.mem_cons_self) inFirst
    | cons other others =>
      obtain ⟨sameHead, sameTail⟩ := List.cons.inj same
      obtain ⟨tails, rests⟩ := ih (fun member => inFirst (List.mem_cons_of_mem _ member))
        (fun member => inSecond (List.mem_cons_of_mem _ member)) sameTail
      exact ⟨by rw [sameHead, tails], rests⟩

/-- A number in front of other pieces, and these pieces, can be told from the text of them
all. -/
theorem eq_of_intercalate_toDigits_cons {first second : Nat}
    {firstRest secondRest : List (List Char)}
    (firstGoesOn : firstRest ≠ []) (secondGoesOn : secondRest ≠ [])
    (same : [' '].intercalate (Nat.toDigits 10 first :: firstRest) =
      [' '].intercalate (Nat.toDigits 10 second :: secondRest)) :
    first = second ∧ [' '].intercalate firstRest = [' '].intercalate secondRest := by
  have noBlank (number : Nat) : ' ' ∉ Nat.toDigits 10 number := by
    intro member
    exact absurd ((isWord_toDigits number).2 _ member) (by decide)
  rw [List.intercalate_cons_of_ne_nil firstGoesOn, List.intercalate_cons_of_ne_nil secondGoesOn,
    List.append_assoc, List.append_assoc] at same
  obtain ⟨digits, rests⟩ := eq_of_append_cons_eq (noBlank first) (noBlank second) same
  refine ⟨?_, rests⟩
  calc
    first = Nat.ofDigitChars 10 (Nat.toDigits 10 first) 0 := Nat.ofDigitChars_ten_toDigits.symm
    _ = Nat.ofDigitChars 10 (Nat.toDigits 10 second) 0 := by rw [digits]
    _ = second := Nat.ofDigitChars_ten_toDigits

/-- As many numbers as are expected, and the piece behind them, can be told from the text of
them all, whatever blanks that piece holds. -/
theorem eq_of_intercalate_map_toDigits {first second : List Nat} {firstLast secondLast : List Char}
    (length : first.length = second.length)
    (same : [' '].intercalate (first.map (Nat.toDigits 10) ++ [firstLast]) =
      [' '].intercalate (second.map (Nat.toDigits 10) ++ [secondLast])) :
    first = second ∧ firstLast = secondLast := by
  induction first generalizing second with
  | nil =>
    obtain rfl := List.length_eq_zero_iff.1 length.symm
    exact ⟨rfl, by simpa using same⟩
  | cons number rest ih =>
    cases second with
    | nil => cases length
    | cons other others =>
      obtain ⟨rfl, rests⟩ := eq_of_intercalate_toDigits_cons (by simp) (by simp) same
      obtain ⟨rfl, lasts⟩ := ih (Nat.succ.inj length) rests
      exact ⟨rfl, lasts⟩

/-- Lines that hold no line feed can be told from the text that ends each of them with one. -/
theorem eq_of_join_ended_eq {first second : List String}
    (inFirst : ∀ line ∈ first, '\n' ∉ line.toList) (inSecond : ∀ line ∈ second, '\n' ∉ line.toList)
    (same : String.join (first.map fun line => line ++ "\n") =
      String.join (second.map fun line => line ++ "\n")) : first = second := by
  apply List.map_injective_iff.2 (fun _ _ => String.toList_injective)
  rw [← lines_join_ended inFirst, ← lines_join_ended inSecond, same]

end Text

namespace Operator

/-- Some name stands for the operator. -/
def IsNamed (operator : Operator) : Prop :=
  ∃ name, ofName name = operator

/-- The name that a named operator is written with stands for it. -/
theorem isNamed_iff {operator : Operator} : operator.IsNamed ↔ ofName operator.name = operator := by
  refine ⟨?_, fun named => ⟨_, named⟩⟩
  rintro ⟨name, rfl⟩
  cases operator : ofName name with
  | cell other =>
    have isName : other = name := by
      unfold ofName at operator
      split at operator <;> first | cases operator; done | exact (cell.inj operator).symm
    rw [Operator.name, isName, operator, isName]
  | _ => decide

instance (operator : Operator) : Decidable operator.IsNamed :=
  decidable_of_iff _ isNamed_iff.symm

end Operator

namespace Bristol.Line

/-- What a line shows of itself. -/
def parts (line : Line) : List Wire × List Wire × String :=
  (line.reads, line.writes, line.word)

/-- The text of a line shows the wires it reads and writes, and its last word. -/
theorem parts_eq_of_text_eq {first second : Line} (same : first.text = second.text) :
    first.parts = second.parts := by
  have characters := congrArg String.toList same
  rw [toList_text, toList_text] at characters
  simp only [numbers, List.cons_append, List.nil_append, List.map_cons] at characters
  obtain ⟨readCount, characters⟩ :=
    Text.eq_of_intercalate_toDigits_cons (by simp) (by simp) characters
  obtain ⟨writeCount, characters⟩ :=
    Text.eq_of_intercalate_toDigits_cons (by simp) (by simp) characters
  have length : (first.reads ++ first.writes).length = (second.reads ++ second.writes).length := by
    rw [List.length_append, List.length_append, readCount, writeCount]
  obtain ⟨wires, words⟩ := Text.eq_of_intercalate_map_toDigits length characters
  obtain ⟨reads, writes⟩ := List.append_inj wires readCount
  rw [parts, parts, reads, writes, String.toList_injective words]

/-- A cell that is called `INPUT` and has none itself looks like an input. -/
example : (gate ⟨.cell "INPUT", [], 3⟩).text = (input 3).text := by decide

theorem lineFeed_notMem_text {line : Line} (oneLine : '\n' ∉ line.word.toList) :
    '\n' ∉ line.text.toList := by
  rw [toList_text]
  apply Text.notMem_intercalate (by decide)
  intro piece member
  rcases List.mem_append.1 member with isNumber | isLast
  · obtain ⟨number, _, rfl⟩ := List.mem_map.1 isNumber
    intro feed
    exact absurd ((Text.isWord_toDigits number).2 _ feed) (by decide)
  · rw [List.mem_singleton.1 isLast]
    exact oneLine

theorem input_eq_of_parts_eq {first second : Wire}
    (same : (input first).parts = (input second).parts) : first = second := by
  simpa [parts, reads, writes, word] using same

theorem output_eq_of_parts_eq {first second : Wire}
    (same : (output first).parts = (output second).parts) : first = second := by
  simpa [parts, reads, writes, word] using same

/-- The gate whose line shows the given parts. -/
def gateOfParts (parts : List Wire × List Wire × String) : Gate :=
  ⟨Operator.ofName parts.2.2, parts.1.reverse, parts.2.1.headD 0⟩

theorem gateOfParts_parts {node : Gate} (named : node.operator.IsNamed) :
    gateOfParts (gate node).parts = node := by
  simp only [gateOfParts, parts, word, reads, writes, List.reverse_reverse,
    Operator.isNamed_iff.1 named, List.headD_cons]

end Bristol.Line

namespace Circuit

open Bristol

/-- The operators of a circuit are those that names stand for, and each is written on one
line. -/
structure IsLegible (circuit : Circuit) : Prop where
  named : ∀ gate ∈ circuit.gates, gate.operator.IsNamed
  oneLine : ∀ gate ∈ circuit.gates, '\n' ∉ gate.operator.name.toList

theorem IsLegible.gates_eq {circuit : Circuit} (legible : circuit.IsLegible) :
    circuit.gates =
      ((circuit.gates.map Line.gate).map Line.parts).map Line.gateOfParts := by
  rw [List.map_map, List.map_map, List.map_congr_left, List.map_id]
  intro node isGate
  exact Line.gateOfParts_parts (legible.named node isGate)

/-- The lines of the text of a circuit, its header included. -/
def textLines (circuit : Circuit) : List String :=
  circuit.bristolHeader ++ circuit.bristolLines.map Line.text

theorem lineFeed_notMem_textLines {circuit : Circuit} (legible : circuit.IsLegible) :
    ∀ line ∈ circuit.textLines, '\n' ∉ line.toList := by
  intro text member
  rcases List.mem_append.1 member with inHeader | inLines
  · obtain ⟨pieces, _, areWords, same⟩ := Evaluator.isWordLine_of_mem_bristolHeader text inHeader
    rw [same]
    exact Text.lineFeed_notMem_intercalate areWords
  · obtain ⟨line, isLine, rfl⟩ := List.mem_map.1 inLines
    apply Line.lineFeed_notMem_text
    simp only [bristolLines, List.mem_append, List.mem_map] at isLine
    rcases isLine with (⟨wire, _, rfl⟩ | ⟨node, isGate, rfl⟩) | ⟨wire, _, rfl⟩
    · exact (by decide : '\n' ∉ Line.inputWord.toList)
    · exact legible.oneLine node isGate
    · exact (by decide : '\n' ∉ Line.outputWord.toList)

section

variable {first second : Circuit}

/-- The lines of a legible circuit can be told from its text. -/
theorem textLines_eq_of_toBristol_eq (isBoolean : first.domain = .boolean)
    (isFirst : first.IsLegible) (isSecond : second.IsLegible)
    (same : first.toBristol = second.toBristol) : first.textLines = second.textLines := by
  unfold toBristol at same
  rw [if_pos isBoolean] at same
  split at same
  · exact Text.eq_of_join_ended_eq (lineFeed_notMem_textLines isFirst)
      (lineFeed_notMem_textLines isSecond) (Except.ok.inj same)
  · cases same

/-- The header tells the number of gates. -/
theorem length_gates_eq_of_textLines_eq (same : first.textLines = second.textLines) :
    first.gates.length = second.gates.length := by
  have counts := congrArg String.toList (List.cons.inj same).1
  have spaced (circuit : Circuit) : (Line.spaced [toString circuit.gates.length,
      toString circuit.wireCount]).toList =
        [' '].intercalate ([circuit.gates.length, circuit.wireCount].map (Nat.toDigits 10)) :=
    toList_spaced [circuit.gates.length, circuit.wireCount]
  rw [spaced, spaced] at counts
  exact (Text.eq_of_intercalate_toDigits_cons (List.cons_ne_nil _ _) (List.cons_ne_nil _ _)
    counts).1

/-- The lines behind the header show the same parts. -/
theorem map_parts_eq_of_textLines_eq (same : first.textLines = second.textLines) :
    first.bristolLines.map Line.parts = second.bristolLines.map Line.parts := by
  have shown : Function.FactorsThrough Line.parts Line.text :=
    fun _ _ same => Line.parts_eq_of_text_eq same
  obtain ⟨shows, eq⟩ := (Function.factorsThrough_iff _).1 shown
  have texts : first.bristolLines.map Line.text = second.bristolLines.map Line.text :=
    (List.append_inj same rfl).2
  rw [eq, ← List.map_map, texts, List.map_map]

/-- Only the line of an output writes nothing. -/
theorem length_outputs_eq_countP (circuit : Circuit) :
    circuit.outputs.length =
      (circuit.bristolLines.map Line.parts).countP fun parts => parts.2.1.isEmpty := by
  have none {lines : List Line} (writing : ∀ line ∈ lines, line.writes ≠ []) :
      (lines.map Line.parts).countP (fun parts => parts.2.1.isEmpty) = 0 := by
    rw [List.countP_eq_zero]
    intro parts member
    obtain ⟨line, isLine, rfl⟩ := List.mem_map.1 member
    simpa [Line.parts] using writing line isLine
  have all : ((circuit.outputs.map Line.output).map Line.parts).countP
      (fun parts => parts.2.1.isEmpty) = circuit.outputs.length := by
    rw [List.countP_eq_length.2, List.length_map, List.length_map]
    intro parts member
    obtain ⟨line, isLine, rfl⟩ := List.mem_map.1 member
    obtain ⟨wire, _, rfl⟩ := List.mem_map.1 isLine
    rfl
  rw [bristolLines, List.map_append, List.countP_append, all, none, Nat.zero_add]
  intro line member
  rcases List.mem_append.1 member with isInput | isGate
  · obtain ⟨wire, _, rfl⟩ := List.mem_map.1 isInput
    exact List.cons_ne_nil _ _
  · obtain ⟨node, _, rfl⟩ := List.mem_map.1 isGate
    exact List.cons_ne_nil _ _

/-- What lines show, section by section. -/
theorem sections_eq_of_textLines_eq (same : first.textLines = second.textLines) :
    first.declaredInputs = second.declaredInputs ∧
      (first.gates.map Line.gate).map Line.parts = (second.gates.map Line.gate).map Line.parts ∧
      first.outputs = second.outputs := by
  have parts := map_parts_eq_of_textLines_eq same
  have gates := length_gates_eq_of_textLines_eq same
  have outputs : first.outputs.length = second.outputs.length := by
    rw [length_outputs_eq_countP, length_outputs_eq_countP, parts]
  have total := congrArg List.length parts
  simp only [bristolLines, List.map_append] at parts
  simp only [bristolLines, List.length_map, List.length_append] at total
  obtain ⟨before, ends⟩ := List.append_inj' parts (by simpa using outputs)
  obtain ⟨starts, middles⟩ := List.append_inj' before (by simpa using gates)
  have input_injective : Function.Injective (Line.parts ∘ Line.input) :=
    fun _ _ same => Line.input_eq_of_parts_eq same
  have output_injective : Function.Injective (Line.parts ∘ Line.output) :=
    fun _ _ same => Line.output_eq_of_parts_eq same
  rw [List.map_map, List.map_map] at starts ends
  exact ⟨List.map_injective_iff.2 input_injective starts, middles,
    List.map_injective_iff.2 output_injective ends⟩

end

/-- Two legible circuits with the same text have the same inputs, outputs and gates. -/
theorem eq_of_toBristol_eq {first second : Circuit} (isBoolean : first.domain = .boolean)
    (isFirst : first.IsLegible) (isSecond : second.IsLegible)
    (same : first.toBristol = second.toBristol) :
    first.inputs = second.inputs ∧ first.outputs = second.outputs ∧
      first.gates = second.gates := by
  obtain ⟨declared, shown, outputs⟩ :=
    sections_eq_of_textLines_eq (textLines_eq_of_toBristol_eq isBoolean isFirst isSecond same)
  have gates : first.gates = second.gates := by
    rw [isFirst.gates_eq, isSecond.gates_eq, shown]
  have constants : first.readsConstants = second.readsConstants := by
    rw [readsConstants, readsConstants, gates, outputs]
  refine ⟨?_, outputs, gates⟩
  rw [declaredInputs, declaredInputs, constants] at declared
  exact List.append_cancel_left declared

theorem eq_of_toBristol_eq_of_cell :
    let first : Circuit :=
      ⟨"first", .boolean, [2], [4, 1], [⟨.cell "INPUT", [], 3⟩, ⟨.and, [2, 3], 4⟩]⟩
    let second : Circuit :=
      ⟨"second", .boolean, [2], [4, 1], [⟨.cell "INPUT", [], 3⟩, ⟨.and, [2, 3], 4⟩]⟩
    (first.domain = .boolean ∧ first.IsLegible ∧ second.IsLegible ∧
        first.toBristol = second.toBristol) ∧
      first.inputs = second.inputs ∧ first.outputs = second.outputs ∧
        first.gates = second.gates := by
  have legible (name : String) :
      IsLegible ⟨name, .boolean, [2], [4, 1], [⟨.cell "INPUT", [], 3⟩, ⟨.and, [2, 3], 4⟩]⟩ := by
    constructor
    · exact List.forall_mem_cons.2 ⟨by decide, List.forall_mem_singleton.2 (by decide)⟩
    · exact List.forall_mem_cons.2 ⟨by decide, List.forall_mem_singleton.2 (by decide)⟩
  exact ⟨⟨rfl, legible _, legible _, rfl⟩,
    eq_of_toBristol_eq rfl (legible _) (legible _) rfl⟩

end Circuit

end Netlist
