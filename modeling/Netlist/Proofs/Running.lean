import Mathlib.Data.List.Forall2
import Mathlib.Data.List.TakeDrop
import Mathlib.Data.List.TakeWhile
import Netlist.Proofs.WrittenLines

/-!
# Running written circuits

The text of a circuit runs as the lines do that it is read as, one step after the other
(`Evaluator.follow`, `runText_iff`). If no gate is a cell, these are the lines of the circuit,
provided that all of its numbers fit into words (`runText_toBristol_iff`). A witness is taken
if it holds bits (`Evaluator.exists_lists_of_addWitness`), so evaluating the text of a circuit
is following lines from these bits (`evaluate_iff`, `evaluate_toBristol_iff`).
-/

namespace Netlist.Bristol

/-! ### Texts of lines -/

/-- Words joined by single blanks, as one line. -/
def IsWordLine (line : String) : Prop :=
  ∃ pieces, pieces ≠ [] ∧ (∀ piece ∈ pieces, Text.IsWord piece) ∧
    line.toList = [' '].intercalate pieces

theorem toList_spaced (numbers : List Nat) :
    (Line.spaced (numbers.map toString)).toList =
      [' '].intercalate (numbers.map (Nat.toDigits 10)) := by
  have digits : String.toList ∘ toString = Nat.toDigits 10 := by
    funext number
    exact Nat.toList_repr
  rw [Line.spaced, String.toList_intercalate, List.map_map, digits]
  rfl

theorem areWords_toDigits (numbers : List Nat) :
    ∀ piece ∈ numbers.map (Nat.toDigits 10), Text.IsWord piece := by
  intro piece member
  obtain ⟨number, _, rfl⟩ := List.mem_map.1 member
  exact Text.isWord_toDigits number

theorem isWordLine_spaced {numbers : List Nat} (nonempty : numbers ≠ []) :
    IsWordLine (Line.spaced (numbers.map toString)) :=
  ⟨_, by simpa using nonempty, areWords_toDigits numbers, toList_spaced numbers⟩

theorem isWordLine_text {line : Line} (isWord : Text.IsWord line.word.toList) :
    IsWordLine line.text :=
  ⟨_, List.append_ne_nil_of_right_ne_nil _ (List.cons_ne_nil _ _),
    Line.isWord_pieces isWord, line.toList_text⟩

/-- The lines of a text are those it was made of, numbered from one. -/
theorem textLines_join {lines : List String} (wordLines : ∀ line ∈ lines, IsWordLine line) :
    Evaluator.textLines (String.join (lines.map fun line => line ++ "\n")) =
      lines.zipIdx.map fun (line, index) => (index + 1, line.toList) := by
  have cut : Text.lines (String.join (lines.map fun line => line ++ "\n")).toList =
      lines.map String.toList := by
    apply Text.lines_join_ended
    intro line member
    obtain ⟨pieces, _, areWords, same⟩ := wordLines line member
    rw [same]
    exact Text.lineFeed_notMem_intercalate areWords
  have trimmed : ∀ line ∈ lines,
      Text.trim line.toList = line.toList ∧ line.toList.isEmpty = false := by
    intro line member
    obtain ⟨pieces, nonempty, areWords, same⟩ := wordLines line member
    obtain ⟨piece, rest, rfl⟩ := List.exists_cons_of_ne_nil nonempty
    rw [same]
    constructor
    · exact Text.trim_intercalate areWords
    · rw [List.isEmpty_eq_false_iff]
      exact Text.intercalate_ne_nil (areWords piece List.mem_cons_self) rest
  have members : ∀ entry ∈ lines.zipIdx, entry.1 ∈ lines := by
    rintro ⟨line, index⟩ member
    exact List.fst_mem_of_mem_zipIdx member
  rw [Evaluator.textLines, Text.numberedLines, cut, List.zipIdx_map, List.map_map,
    List.map_map, List.filter_eq_self.2]
  · apply List.map_congr_left
    rintro ⟨line, index⟩ member
    exact Prod.ext rfl (trimmed line (members _ member)).1
  · intro entry member
    obtain ⟨⟨line, index⟩, lineMember, rfl⟩ := List.mem_map.1 member
    obtain ⟨same, nonempty⟩ := trimmed line (members _ lineMember)
    dsimp only [Function.comp_apply, Prod.map_apply]
    rw [same, nonempty]
    rfl

/-- Primitives are read as what was written, if their numbers fit. -/
theorem Line.forall₂_isTakenFor_iff {lines taken : List Line}
    (arePrimitive : ∀ line ∈ lines, line.IsPrimitive) :
    List.Forall₂ Line.IsTakenFor lines taken ↔ (∀ line ∈ lines, line.Fits) ∧ taken = lines := by
  induction lines generalizing taken with
  | nil => simp
  | cons line rest ih =>
    obtain ⟨head, others⟩ := List.forall_mem_cons.1 arePrimitive
    simp only [List.forall₂_cons_left_iff, Line.isTakenFor_iff head, ih others,
      List.forall_mem_cons]
    constructor
    · rintro ⟨_, _, ⟨fits, rfl⟩, ⟨othersFit, rfl⟩, rfl⟩
      exact ⟨⟨fits, othersFit⟩, rfl⟩
    · rintro ⟨⟨fits, othersFit⟩, rfl⟩
      exact ⟨line, rest, ⟨fits, rfl⟩, ⟨othersFit, rfl⟩, rfl⟩

/-- The text with the header of a circuit and the given lines behind it. -/
def bristolText (circuit : Circuit) (lines : List Line) : String :=
  String.join ((circuit.bristolHeader ++ lines.map Line.text).map fun line => line ++ "\n")

theorem eq_bristolText {circuit : Circuit} {text : String}
    (written : circuit.toBristol = .ok text) :
    text = bristolText circuit circuit.bristolLines := by
  unfold Circuit.toBristol at written
  split at written
  · cases written
    rfl
  · cases written

/-! ### Following lines -/

namespace Evaluator

/-- Run lines one after the other. -/
def follow (evaluator : Evaluator) : List Line → Except Error Evaluator
  | [] => .ok evaluator
  | line :: rest =>
    match evaluator.step line with
    | .ok (next, _) => follow next rest
    | .error error => .error error

/-- What follows some lines is followed from where they lead. -/
theorem follow_append (evaluator : Evaluator) (front rest : List Line) :
    evaluator.follow (front ++ rest) =
      (evaluator.follow front).bind fun middle => middle.follow rest := by
  induction front generalizing evaluator with
  | nil => rfl
  | cons line others ih =>
    rw [List.cons_append, follow, follow]
    cases evaluator.step line with
    | error error => rfl
    | ok outcome => exact ih _

theorem follow_append_eq_ok_iff {front rest : List Line} {evaluator last : Evaluator} :
    evaluator.follow (front ++ rest) = .ok last ↔
      ∃ middle, evaluator.follow front = .ok middle ∧ middle.follow rest = .ok last := by
  rw [follow_append]
  cases evaluator.follow front with
  | error error => simp [Except.bind]
  | ok middle => simp [Except.bind]

/-- Running the texts of some lines succeeds exactly if each is read as some line, and these
lines can be followed. -/
theorem runLines_eq_ok_iff {lines : List (Nat × Line)}
    (areWords : ∀ entry ∈ lines, Text.IsWord entry.2.word.toList) (evaluator last : Evaluator) :
    (evaluator.runLines (lines.map fun (number, line) => (number, line.text.toList))).1 = last ∧
        (evaluator.runLines
          (lines.map fun (number, line) => (number, line.text.toList))).2.result = .ok () ↔
      ∃ taken, List.Forall₂ Line.IsTakenFor (lines.map Prod.snd) taken ∧
        evaluator.follow taken = .ok last := by
  induction lines generalizing evaluator with
  | nil => simp [runLines, follow, Report.ok]
  | cons entry rest ih =>
    obtain ⟨number, line⟩ := entry
    obtain ⟨isWord, restWords⟩ := List.forall_mem_cons.1 areWords
    have known := fun taken => @Line.read_text_eq_ok_iff line taken isWord number
    simp only [List.map_cons, runLines]
    cases read : Line.read number line.text.toList with
    | error error =>
      constructor
      · rintro ⟨_, failed⟩
        cases failed
      · rintro ⟨_, related, _⟩
        obtain ⟨taken, _, isTaken, _⟩ := List.forall₂_cons_left_iff.1 related
        rw [(known taken).2 isTaken] at read
        cases read
    | ok taken =>
      have isTaken := (known taken).1 read
      have taken_unique : ∀ other, line.IsTakenFor other → other = taken := by
        intro other isOther
        rw [(known other).2 isOther] at read
        exact Except.ok.inj read
      have headFirst : (∃ all, List.Forall₂ Line.IsTakenFor (line :: rest.map Prod.snd) all ∧
          evaluator.follow all = .ok last) ↔
            ∃ others, List.Forall₂ Line.IsTakenFor (rest.map Prod.snd) others ∧
              evaluator.follow (taken :: others) = .ok last := by
        constructor
        · rintro ⟨_, related, followed⟩
          obtain ⟨other, others, isOther, areOthers, rfl⟩ := List.forall₂_cons_left_iff.1 related
          rw [taken_unique other isOther] at followed
          exact ⟨others, areOthers, followed⟩
        · rintro ⟨others, areOthers, followed⟩
          exact ⟨taken :: others, .cons isTaken areOthers, followed⟩
      rw [headFirst]
      simp only [follow]
      cases stepped : evaluator.step taken with
      | error error => simp [Report.fail]
      | ok result =>
        obtain ⟨next, events⟩ := result
        simp only [Report.emit, Report.bind]
        exact ih restWords next

/-- Two numbers make up a header if they fit into words. -/
theorem isHeader_spaced (gates wires : Nat) :
    isHeader (Line.spaced ([gates, wires].map toString)).toList = true ↔
      gates < Decimal.wordLimit ∧ wires < Decimal.wordLimit := by
  have fits : ∀ number, (Decimal.readWord (Nat.toDigits 10 number)).isSome = true ↔
      number < Decimal.wordLimit := by
    intro number
    rw [Decimal.readWord_toDigits_eq]
    split <;> simp [*]
  rw [isHeader, toList_spaced, Text.words_intercalate (areWords_toDigits _)]
  simp [fits]

theorem isWordLine_of_mem_bristolHeader {circuit : Circuit} :
    ∀ line ∈ circuit.bristolHeader, IsWordLine line := by
  have counts : IsWordLine
      (Line.spaced ([circuit.gates.length, circuit.wireCount].map toString)) :=
    isWordLine_spaced (List.cons_ne_nil _ _)
  have zero : IsWordLine "0" := by
    refine ⟨[['0']], List.cons_ne_nil _ _, ?_, rfl⟩
    intro word member
    rw [List.mem_singleton.1 member]
    exact Text.isWord_of_all (List.cons_ne_nil _ _) (by decide)
  unfold Circuit.bristolHeader
  exact List.forall_mem_cons.2 ⟨counts, List.forall_mem_cons.2 ⟨zero,
    List.forall_mem_singleton.2 zero⟩⟩

/-- The lines of a text with the header of a circuit: three in front, then the given ones,
numbered from four. -/
theorem textLines_bristolText {circuit : Circuit} {lines : List Line}
    (areWords : ∀ line ∈ lines, Text.IsWord line.word.toList) :
    ∃ second third, textLines (bristolText circuit lines) =
      (1, (Line.spaced ([circuit.gates.length, circuit.wireCount].map toString)).toList) ::
        second :: third :: (lines.zipIdx 4).map
          fun (line, number) => (number, line.text.toList) := by
  have wordLines : ∀ line ∈ circuit.bristolHeader ++ lines.map Line.text, IsWordLine line := by
    intro line member
    rcases List.mem_append.1 member with inHeader | inLines
    · exact isWordLine_of_mem_bristolHeader line inHeader
    · obtain ⟨original, originalMember, rfl⟩ := List.mem_map.1 inLines
      exact isWordLine_text (areWords original originalMember)
  refine ⟨(2, "0".toList), (3, "0".toList), ?_⟩
  rw [bristolText, textLines_join wordLines]
  have later : lines.zipIdx 4 = (lines.zipIdx 3).map fun (line, index) => (line, index + 1) :=
    List.zipIdx_succ
  simp only [Circuit.bristolHeader, List.cons_append, List.nil_append, List.zipIdx_cons,
    List.map_cons, List.zipIdx_map, List.map_map, later]
  rfl

/-- A text with the header of a circuit can be run exactly if the counts in the header fit into
words, each line behind it is read as some line, and these lines can be followed. -/
theorem runText_bristolText_iff {circuit : Circuit} {lines : List Line}
    (areWords : ∀ line ∈ lines, Text.IsWord line.word.toList) (evaluator last : Evaluator) :
    (evaluator.runText (bristolText circuit lines)).1 = last ∧
        (evaluator.runText (bristolText circuit lines)).2.result = .ok () ↔
      (circuit.gates.length < Decimal.wordLimit ∧ circuit.wireCount < Decimal.wordLimit) ∧
        ∃ taken, List.Forall₂ Line.IsTakenFor lines taken ∧ evaluator.follow taken = .ok last := by
  obtain ⟨second, third, cut⟩ := @textLines_bristolText circuit lines areWords
  have header := isHeader_spaced circuit.gates.length circuit.wireCount
  have sameLines : (lines.zipIdx 4).map (fun (line, number) => (number, line.text.toList)) =
      ((lines.zipIdx 4).map Prod.swap).map fun (number, line) => (number, line.text.toList) := by
    rw [List.map_map]
    rfl
  have sameOrder : ((lines.zipIdx 4).map Prod.swap).map Prod.snd = lines := by
    rw [List.map_map]
    exact List.zipIdx_map_fst 4 _
  have forAll : ∀ {property : Line → Prop},
      (∀ entry ∈ (lines.zipIdx 4).map Prod.swap, property entry.2) ↔
        ∀ line ∈ lines, property line := by
    intro property
    rw [← List.forall_mem_map, sameOrder]
  have runs := runLines_eq_ok_iff (forAll.2 areWords) evaluator last
  rw [sameOrder, ← sameLines] at runs
  simp only [runText, cut, List.drop_succ_cons, List.drop_zero]
  by_cases fits : circuit.gates.length < Decimal.wordLimit ∧
      circuit.wireCount < Decimal.wordLimit
  · rw [if_pos (header.2 fits), ← runs]
    -- what is left of the witness is reported, and changes nothing
    have noted : ∀ (report : Report Unit) events,
        (report.bind fun _ => Report.emit events).result = .ok () ↔ report.result = .ok () := by
      intro report events
      rw [Report.result_bind_eq_ok_iff]
      exact ⟨fun ⟨_, succeeded, _⟩ => succeeded, fun succeeded => ⟨(), succeeded, rfl⟩⟩
    simp only [fits, noted, true_and]
  · rw [if_neg fun isHeader => fits (header.1 isHeader)]
    simp [fits, Report.fail]

/-- The text of a circuit can be run exactly if its counts fit into words, each of its lines
is read as some line, and these lines can be followed. -/
theorem runText_iff {circuit : Circuit} {text : String}
    (written : circuit.toBristol = .ok text)
    (areWords : ∀ line ∈ circuit.bristolLines, Text.IsWord line.word.toList)
    (evaluator last : Evaluator) :
    (evaluator.runText text).1 = last ∧ (evaluator.runText text).2.result = .ok () ↔
      (circuit.gates.length < Decimal.wordLimit ∧ circuit.wireCount < Decimal.wordLimit) ∧
        ∃ taken, List.Forall₂ Line.IsTakenFor circuit.bristolLines taken ∧
          evaluator.follow taken = .ok last := by
  rw [eq_bristolText written]
  exact runText_bristolText_iff areWords evaluator last

/-- If no gate is a cell, the text of a circuit can be run exactly if its numbers fit into
words and its lines can be followed. -/
theorem runText_toBristol_iff {circuit : Circuit} {text : String}
    (written : circuit.toBristol = .ok text)
    (arePrimitive : ∀ line ∈ circuit.bristolLines, line.IsPrimitive)
    (evaluator last : Evaluator) :
    (evaluator.runText text).1 = last ∧ (evaluator.runText text).2.result = .ok () ↔
      (circuit.gates.length < Decimal.wordLimit ∧ circuit.wireCount < Decimal.wordLimit) ∧
        (∀ line ∈ circuit.bristolLines, line.Fits) ∧
          evaluator.follow circuit.bristolLines = .ok last := by
  have areWords := fun line member => Line.isWord_word (arePrimitive line member)
  simp only [runText_iff written areWords, Line.forall₂_isTakenFor_iff arePrimitive, and_assoc,
    exists_and_left, exists_eq_left]

/-! ### Witnesses -/

theorem filter_intercalate (keep : Char → Bool) {separator : Char}
    (dropped : keep separator = false) (pieces : List (List Char)) :
    ([separator].intercalate pieces).filter keep = pieces.flatMap (List.filter keep) := by
  induction pieces with
  | nil => rfl
  | cons piece rest ih =>
    cases rest with
    | nil => simp
    | cons next others =>
      rw [List.intercalate_cons_cons, List.filter_append, List.filter_append, ih,
        List.flatMap_cons]
      simp [dropped]

/-- The marks of a witness are all of its characters but the blanks. -/
theorem map_snd_witnessMarks (text : String) :
    (witnessMarks text).map Prod.snd =
      text.toList.filter fun character => !Text.isBlank character := by
  have whole : (Text.lines text.toList).flatMap
      (List.filter fun character => !Text.isBlank character) =
        text.toList.filter fun character => !Text.isBlank character := by
    have feed : (!Text.isBlank '\n') = false := by decide
    have pieces := filter_intercalate (fun character => !Text.isBlank character) feed
      (text.toList.splitOn '\n')
    rw [List.intercalate_splitOn] at pieces
    rw [pieces, Text.lines, Text.dropEmptyLast]
    split
    · rename_i emptyLast
      obtain ⟨others, ended⟩ := List.getLast?_eq_some_iff.1 emptyLast
      rw [ended, List.dropLast_concat, List.flatMap_append]
      simp
    · rfl
  rw [← whole, witnessMarks, Text.numberedLines, List.flatMap_map, List.map_flatMap]
  have first := List.zipIdx_map_fst 0 (Text.lines text.toList)
  rw [← first, List.flatMap_map, first]
  congr 1
  funext entry
  rw [List.map_map]
  exact List.map_id _

/-- The witness holds the given bits, with any blanks between them. -/
def Lists (text : String) (bits : List Bool) : Prop :=
  (text.toList.filter fun character => !Text.isBlank character) =
    bits.map fun bit => if bit then '1' else '0'

instance (text : String) (bits : List Bool) : Decidable (Lists text bits) :=
  inferInstanceAs (Decidable (_ = _))

/-- A witness is taken as the bits that it holds. -/
theorem addWitness_of_lists {text : String} {bits : List Bool} (lists : Lists text bits)
    (evaluator : Evaluator) :
    evaluator.addWitness text =
      ({ evaluator with witness := evaluator.witness ++ bits }, .ok ()) := by
  have marks := map_snd_witnessMarks text
  rw [lists] at marks
  have areBits : ∀ mark ∈ witnessMarks text, isBit mark.2 = true := by
    intro mark member
    have inMarks : mark.2 ∈ (witnessMarks text).map Prod.snd := List.mem_map.2 ⟨mark, member, rfl⟩
    rw [marks] at inMarks
    obtain ⟨bit, _, same⟩ := List.mem_map.1 inMarks
    rw [← same]
    cases bit <;> decide
  have read : (witnessMarks text).map (fun mark => mark.2 == '1') = bits := by
    have values := congrArg (List.map fun character : Char => character == '1') marks
    rw [List.map_map, List.map_map] at values
    refine Eq.trans values ?_
    conv_rhs => rw [← List.map_id bits]
    apply List.map_congr_left
    intro bit _
    cases bit <;> decide
  rw [addWitness, List.span_eq_takeWhile_dropWhile, List.takeWhile_eq_self_iff.2 areBits,
    List.dropWhile_eq_nil_iff.2 areBits]
  dsimp only
  rw [read]

/-- A witness that is taken holds bits. -/
theorem exists_lists_of_addWitness {text : String} {evaluator : Evaluator}
    (accepted : (evaluator.addWitness text).2 = .ok ()) : ∃ bits, Lists text bits := by
  have marks := map_snd_witnessMarks text
  rw [addWitness, List.span_eq_takeWhile_dropWhile] at accepted
  dsimp only at accepted
  split at accepted
  · rename_i noneLeft
    have areBits := List.dropWhile_eq_nil_iff.1 noneLeft
    refine ⟨(witnessMarks text).map fun mark => mark.2 == '1', ?_⟩
    rw [Lists, ← marks, List.map_map]
    apply List.map_congr_left
    intro mark member
    have isMark := areBits mark member
    rw [isBit, Bool.or_eq_true, decide_eq_true_iff, decide_eq_true_iff] at isMark
    rcases isMark with zero | one
    · simp [zero]
    · simp [one]
  · cases accepted

/-- An evaluator that has run nothing and is to take the given bits. -/
def ready (constantsBound : Bool) (bits : List Bool) : Evaluator :=
  { empty constantsBound with witness := bits }

end Evaluator

/-- Evaluating a text is running it from the bits of the witness. -/
theorem evaluate_of_lists {witness : String} {bits : List Bool}
    (lists : Evaluator.Lists witness bits) (text : String) (constants : Bool)
    (outputs : List (Wire × Bool)) :
    (evaluate text witness constants).result = .ok outputs ↔
      ∃ last, (((Evaluator.ready constants bits).runText text).1 = last ∧
        ((Evaluator.ready constants bits).runText text).2.result = .ok ()) ∧
          last.outputs = outputs := by
  have start : (Evaluator.empty constants).addWitness witness =
      (Evaluator.ready constants bits, .ok ()) :=
    Evaluator.addWitness_of_lists lists _
  rw [evaluate, start]
  dsimp only
  rw [Report.result_bind_eq_ok_iff]
  constructor
  · rintro ⟨_, succeeded, same⟩
    exact ⟨_, ⟨rfl, succeeded⟩, Except.ok.inj same⟩
  · rintro ⟨_, ⟨rfl, succeeded⟩, rfl⟩
    exact ⟨(), succeeded, rfl⟩

theorem exists_lists_of_evaluate {text witness : String} {constants : Bool}
    {outputs : List (Wire × Bool)}
    (evaluated : (evaluate text witness constants).result = .ok outputs) :
    ∃ bits, Evaluator.Lists witness bits := by
  rw [evaluate] at evaluated
  split at evaluated
  · cases evaluated
  · rename_i ready accepted
    exact Evaluator.exists_lists_of_addWitness (congrArg Prod.snd accepted)

/-- A text with the header of a circuit can be evaluated exactly if the counts in the header fit
into words, the witness holds bits, each line behind the header is read as some line, and these
lines can be followed. -/
theorem evaluate_bristolText_iff {circuit : Circuit} {lines : List Line}
    (areWords : ∀ line ∈ lines, Text.IsWord line.word.toList)
    (witness : String) (constants : Bool) (outputs : List (Wire × Bool)) :
    (evaluate (bristolText circuit lines) witness constants).result = .ok outputs ↔
      (circuit.gates.length < Decimal.wordLimit ∧ circuit.wireCount < Decimal.wordLimit) ∧
        ∃ bits taken last, Evaluator.Lists witness bits ∧
          List.Forall₂ Line.IsTakenFor lines taken ∧
          (Evaluator.ready constants bits).follow taken = .ok last ∧ last.outputs = outputs := by
  have runs := @Evaluator.runText_bristolText_iff circuit lines areWords
  constructor
  · intro evaluated
    obtain ⟨bits, lists⟩ := exists_lists_of_evaluate evaluated
    obtain ⟨last, ran, same⟩ := (evaluate_of_lists lists _ constants outputs).1 evaluated
    obtain ⟨counts, taken, areTaken, followed⟩ := (runs _ last).1 ran
    exact ⟨counts, bits, taken, last, lists, areTaken, followed, same⟩
  · rintro ⟨counts, bits, taken, last, lists, areTaken, followed, same⟩
    refine (evaluate_of_lists lists _ constants outputs).2 ⟨last, ?_, same⟩
    exact (runs _ last).2 ⟨counts, taken, areTaken, followed⟩

/-- The text of a circuit can be evaluated exactly if its counts fit into words, the witness
holds bits, each line is read as some line, and these lines can be followed. -/
theorem evaluate_iff {circuit : Circuit} {text : String} (written : circuit.toBristol = .ok text)
    (areWords : ∀ line ∈ circuit.bristolLines, Text.IsWord line.word.toList)
    (witness : String) (constants : Bool) (outputs : List (Wire × Bool)) :
    (evaluate text witness constants).result = .ok outputs ↔
      (circuit.gates.length < Decimal.wordLimit ∧ circuit.wireCount < Decimal.wordLimit) ∧
        ∃ bits taken last, Evaluator.Lists witness bits ∧
          List.Forall₂ Line.IsTakenFor circuit.bristolLines taken ∧
          (Evaluator.ready constants bits).follow taken = .ok last ∧ last.outputs = outputs := by
  rw [eq_bristolText written]
  exact evaluate_bristolText_iff areWords witness constants outputs

/-- Evaluating the text of a circuit on the text of a witness is following the lines of
the circuit, provided that all of its numbers fit into words. -/
theorem evaluate_toBristol_iff {circuit : Circuit} {text witness : String} {bits : List Bool}
    (written : circuit.toBristol = .ok text)
    (arePrimitive : ∀ line ∈ circuit.bristolLines, line.IsPrimitive)
    (lists : Evaluator.Lists witness bits) (constants : Bool) (outputs : List (Wire × Bool)) :
    (evaluate text witness constants).result = .ok outputs ↔
      (circuit.gates.length < Decimal.wordLimit ∧ circuit.wireCount < Decimal.wordLimit) ∧
        (∀ line ∈ circuit.bristolLines, line.Fits) ∧
          ∃ last, (Evaluator.ready constants bits).follow circuit.bristolLines = .ok last ∧
            last.outputs = outputs := by
  simp only [evaluate_of_lists lists, Evaluator.runText_toBristol_iff written arePrimitive,
    and_assoc, exists_and_left]

end Netlist.Bristol
