import Netlist.Bristol.Evaluator
import Netlist.Bristol.Writer

/-!
# Reading written lines

Words are cut apart where they were joined by blanks (`Text.words_intercalate`), and
lines where they were ended (`Text.lines_flatMap_ended`). So a line of a circuit that ends
with one word is read as the line that this word makes of its wires, if there is one
(`Bristol.Line.read_text_eq_ok_iff`). For ports and primitives that is the line that was
written (`Bristol.Line.isTakenFor_iff`), unless a number does not fit into a word.
-/

namespace Netlist

namespace Text

/-- Characters that make up one word. -/
def IsWord (word : List Char) : Prop :=
  word ≠ [] ∧ ∀ character ∈ word, isBlank character = false

theorem isBlank_of_isDigit {character : Char} (digit : character.isDigit = true) :
    isBlank character = false := by
  have apart : blanks.all (fun blank => !blank.isDigit) = true := by decide
  rw [isBlank, List.contains_eq_mem, decide_eq_false_iff_not]
  intro isBlank
  have noDigit := List.all_eq_true.1 apart character isBlank
  rw [digit] at noDigit
  cases noDigit

/-- To see that some characters make up a word, look at each of them. -/
theorem isWord_of_all {word : List Char} (nonempty : word ≠ [])
    (plain : word.all (fun character => !isBlank character) = true) : IsWord word := by
  constructor
  · exact nonempty
  · intro character member
    exact Bool.not_eq_eq_eq_not.1 (List.all_eq_true.1 plain character member)

theorem isWord_toDigits (number : Nat) : IsWord (Nat.toDigits 10 number) := by
  constructor
  · exact Nat.toDigits_ne_nil
  · intro character member
    exact isBlank_of_isDigit (Nat.isDigit_of_mem_toDigits (by decide) (by decide) member)

/-- Words that were joined by blanks are cut apart again. -/
theorem words_intercalate {pieces : List (List Char)} (areWords : ∀ piece ∈ pieces, IsWord piece) :
    words ([' '].intercalate pieces) = pieces := by
  induction pieces with
  | nil => exact words_nil
  | cons piece rest ih =>
    have isWord := areWords piece List.mem_cons_self
    have restWords : ∀ piece ∈ rest, IsWord piece :=
      fun piece member => areWords piece (List.mem_cons_of_mem _ member)
    cases rest with
    | nil =>
      rw [List.intercalate_singleton]
      exact words_eq_singleton isWord.1 isWord.2
    | cons next others =>
      rw [List.intercalate_cons_cons, List.append_assoc, List.singleton_append,
        words_append_cons_of_isBlank (by decide), words_eq_singleton isWord.1 isWord.2,
        ih restWords]
      rfl

theorem dropWhile_isBlank {line : List Char}
    (first : ∀ character ∈ line.head?, isBlank character = false) :
    line.dropWhile isBlank = line := by
  cases line with
  | nil => rfl
  | cons character rest => simp [first character rfl]

theorem trimEnd_eq_self {line : List Char}
    (last : ∀ character ∈ line.getLast?, isBlank character = false) : trimEnd line = line := by
  rw [trimEnd, dropWhile_isBlank (by rwa [List.head?_reverse]), List.reverse_reverse]

theorem intercalate_ne_nil {piece : List Char} (isWord : IsWord piece)
    (rest : List (List Char)) : [' '].intercalate (piece :: rest) ≠ [] := by
  cases rest with
  | nil =>
    rw [List.intercalate_singleton]
    exact isWord.1
  | cons next others =>
    rw [List.intercalate_cons_cons]
    simp [isWord.1]

/-- There is no blank behind words that were joined by blanks. -/
theorem trimEnd_intercalate {pieces : List (List Char)}
    (areWords : ∀ piece ∈ pieces, IsWord piece) :
    trimEnd ([' '].intercalate pieces) = [' '].intercalate pieces := by
  apply trimEnd_eq_self
  intro character isLast
  induction pieces with
  | nil => cases isLast
  | cons piece rest ih =>
    have restWords : ∀ piece ∈ rest, IsWord piece :=
      fun piece member => areWords piece (List.mem_cons_of_mem _ member)
    cases rest with
    | nil =>
      rw [List.intercalate_singleton] at isLast
      exact (areWords piece List.mem_cons_self).2 character (List.mem_of_getLast? isLast)
    | cons next others =>
      have nonempty := intercalate_ne_nil (restWords next List.mem_cons_self) others
      rw [List.intercalate_cons_cons, List.getLast?_append,
        Option.or_of_isSome (List.getLast?_isSome.2 nonempty)] at isLast
      exact ih restWords isLast

/-- There are no blanks around words that were joined by blanks. -/
theorem trim_intercalate {pieces : List (List Char)} (areWords : ∀ piece ∈ pieces, IsWord piece) :
    trim ([' '].intercalate pieces) = [' '].intercalate pieces := by
  have first : ∀ character ∈ ([' '].intercalate pieces).head?, isBlank character = false := by
    intro character isFirst
    cases pieces with
    | nil => cases isFirst
    | cons piece rest =>
      have isWord := areWords piece List.mem_cons_self
      apply isWord.2
      cases rest with
      | nil =>
        rw [List.intercalate_singleton] at isFirst
        exact List.mem_of_mem_head? isFirst
      | cons next others =>
        rw [List.intercalate_cons_cons, List.append_assoc, List.head?_append,
          Option.or_of_isSome (List.isSome_head?.2 isWord.1)] at isFirst
        exact List.mem_of_mem_head? isFirst
  rw [trim, trimStart, dropWhile_isBlank first, trimEnd_intercalate areWords]

/-- Joining words by blanks adds no other character. -/
theorem notMem_intercalate {character : Char} (visible : character ≠ ' ')
    {pieces : List (List Char)} (absent : ∀ piece ∈ pieces, character ∉ piece) :
    character ∉ [' '].intercalate pieces := by
  induction pieces with
  | nil => exact List.not_mem_nil
  | cons piece rest ih =>
    obtain ⟨head, others⟩ := List.forall_mem_cons.1 absent
    cases rest with
    | nil =>
      rw [List.intercalate_singleton]
      exact head
    | cons next rest =>
      rw [List.intercalate_cons_cons, List.mem_append, List.mem_append, not_or, not_or]
      exact ⟨⟨head, by simpa using visible⟩, ih others⟩

/-- Joining words by blanks opens no new line. -/
theorem lineFeed_notMem_intercalate {pieces : List (List Char)}
    (areWords : ∀ piece ∈ pieces, IsWord piece) : '\n' ∉ [' '].intercalate pieces := by
  apply notMem_intercalate (by decide)
  intro piece isPiece member
  have visible := (areWords piece isPiece).2 _ member
  exact absurd visible (by decide)

theorem flatMap_ended (pieces : List (List Char)) :
    pieces.flatMap (· ++ ['\n']) = ['\n'].intercalate (pieces ++ [[]]) := by
  induction pieces with
  | nil => rfl
  | cons piece rest ih =>
    rw [List.flatMap_cons, ih, List.cons_append,
      List.intercalate_cons_of_ne_nil (List.append_ne_nil_of_right_ne_nil _ (by decide))]

/-- Lines that were ended by line feeds are cut apart again. -/
theorem lines_flatMap_ended {pieces : List (List Char)} (noFeed : ∀ piece ∈ pieces, '\n' ∉ piece) :
    lines (pieces.flatMap (· ++ ['\n'])) = pieces := by
  rw [lines, flatMap_ended, List.splitOn_intercalate]
  · rw [dropEmptyLast, if_pos List.getLast?_concat, List.dropLast_concat]
  · intro piece member
    rcases List.mem_append.1 member with inPieces | isEmpty
    · exact noFeed piece inPieces
    · rw [List.mem_singleton.1 isEmpty]
      exact List.not_mem_nil
  · exact List.append_ne_nil_of_right_ne_nil _ (by decide)

/-- The text that ends each of some lines by a line feed has these lines. -/
theorem lines_join_ended {texts : List String} (oneLine : ∀ text ∈ texts, '\n' ∉ text.toList) :
    lines (String.join (texts.map fun text => text ++ "\n")).toList = texts.map String.toList := by
  have ended : (String.join (texts.map fun text => text ++ "\n")).toList =
      (texts.map String.toList).flatMap (· ++ ['\n']) := by
    rw [String.toList_join, List.flatMap_map, List.flatMap_map]
    congr 1
    funext text
    exact String.toList_append
  rw [ended, lines_flatMap_ended]
  intro characters member
  obtain ⟨text, isText, rfl⟩ := List.mem_map.1 member
  exact oneLine text isText

end Text

namespace Decimal

/-- Only numbers that fit into a word are read back. -/
theorem readWord_toDigits_eq (number : Nat) :
    readWord (Nat.toDigits 10 number) = if number < wordLimit then some number else none := by
  split
  · rename_i isWord
    exact readWord_toDigits isWord
  · rename_i tooLarge
    cases accepted : readWord (Nat.toDigits 10 number) with
    | none => rfl
    | some value =>
      have digits : readDigits (Nat.toDigits 10 number) = some value := by
        unfold readWord at accepted
        split at accepted
        · rename_i characters signed
          have sign : '+'.isDigit = true := Nat.isDigit_of_mem_toDigits (by decide) (by decide)
            (signed ▸ List.mem_cons_self : '+' ∈ Nat.toDigits 10 number)
          exact absurd sign (by decide)
        · exact accepted
      unfold readDigits at digits
      split at digits
      · rw [Nat.ofDigitChars_toDigits (by decide) (by decide)] at digits
        dsimp only at digits
        rw [if_neg tooLarge] at digits
        cases digits
      · cases digits

theorem mapM_readWord_toDigits (numbers : List Nat) :
    (numbers.map (Nat.toDigits 10)).mapM readWord =
      if ∀ number ∈ numbers, number < wordLimit then some numbers else none := by
  induction numbers with
  | nil => simp
  | cons number rest ih =>
    rw [List.map_cons, List.mapM_cons, ih, readWord_toDigits_eq]
    by_cases head : number < wordLimit
    · simp only [List.forall_mem_cons, head, true_and, if_true]
      split
      · rfl
      · rfl
    · simp [head]

end Decimal

namespace Bristol.Line

/-- The wires that a line names as read, in its order. -/
def reads : Line → List Wire
  | input _ => []
  | output wire => [wire]
  | gate node => node.inputs.reverse

/-- The wires that a line names as written. -/
def writes : Line → List Wire
  | input wire => [wire]
  | output _ => []
  | gate node => [node.output]

/-- The word for what a line does. -/
def word : Line → String
  | input _ => inputWord
  | output _ => outputWord
  | gate node => node.operator.name

/-- All numbers of a line: its counts, then its wires. -/
def numbers (line : Line) : List Nat :=
  [line.reads.length, line.writes.length] ++ (line.reads ++ line.writes)

/-- All numbers of a line fit into words. -/
def Fits (line : Line) : Prop :=
  ∀ number ∈ line.numbers, number < Decimal.wordLimit

instance (line : Line) : Decidable line.Fits :=
  inferInstanceAs (Decidable (∀ number ∈ line.numbers, number < Decimal.wordLimit))

/-- A gate of a line is a primitive with as many inputs as it takes. -/
def IsPrimitive : Line → Prop
  | gate node => node.operator.arity? = some node.inputs.length
  | _ => True

theorem words_eq (line : Line) : line.words = line.numbers.map toString ++ [line.word] := by
  have counts : toString 0 = "0" ∧ toString 1 = "1" := by decide
  cases line <;> simp [words, numbers, reads, writes, word, counts]

theorem isWord_inputWord : Text.IsWord inputWord.toList :=
  Text.isWord_of_all (by decide) (by decide)

theorem isWord_outputWord : Text.IsWord outputWord.toList :=
  Text.isWord_of_all (by decide) (by decide)

/-- Primitives are written as one word. -/
theorem isWord_name {operator : Operator} (isPrimitive : operator.IsPrimitive) :
    Text.IsWord operator.name.toList := by
  cases operator with
  | cell name => cases isPrimitive
  | _ => exact Text.isWord_of_all (by decide) (by decide)

theorem isWord_word {line : Line} (isPrimitive : line.IsPrimitive) :
    Text.IsWord line.word.toList := by
  cases line with
  | input wire => exact isWord_inputWord
  | output wire => exact isWord_outputWord
  | gate node => exact isWord_name (Option.isSome_of_eq_some isPrimitive)

/-- The word for a primitive stands for it. -/
theorem ofName_name {operator : Operator} (isPrimitive : operator.IsPrimitive) :
    operator.name ≠ inputWord ∧ operator.name ≠ outputWord ∧
      Operator.ofName operator.name = operator := by
  cases operator with
  | cell name => cases isPrimitive
  | _ => decide

theorem ofParts_name {operator : Operator} {reads : List Wire} {output : Wire}
    (arity : operator.arity? = some reads.length) :
    ofParts operator.name reads [output] = .ok (some (gate ⟨operator, reads.reverse, output⟩)) := by
  obtain ⟨noInput, noOutput, named⟩ := ofName_name (Option.isSome_of_eq_some arity)
  unfold ofParts
  rw [if_neg noInput, if_neg noOutput, named]
  cases operator with
  | cell name => cases arity
  | _ => exact if_pos arity

/-- What a line says about itself says what it does. -/
theorem ofParts_eq {line : Line} (isPrimitive : line.IsPrimitive) :
    ofParts line.word line.reads line.writes = .ok (some line) := by
  cases line with
  | input wire => rfl
  | output wire => rfl
  | gate node =>
    have arity : node.operator.arity? = some node.inputs.reverse.length := by
      rw [List.length_reverse]
      exact isPrimitive
    have parts := @ofParts_name _ _ node.output arity
    rw [List.reverse_reverse] at parts
    exact parts

theorem toList_text (line : Line) :
    line.text.toList =
      [' '].intercalate (line.numbers.map (Nat.toDigits 10) ++ [line.word.toList]) := by
  have digits : String.toList ∘ toString = Nat.toDigits 10 := by
    funext number
    exact Nat.toList_repr
  rw [text, spaced, String.toList_intercalate, words_eq, List.map_append, List.map_map, digits]
  rfl

theorem isWord_pieces {line : Line} (isWord : Text.IsWord line.word.toList) :
    ∀ piece ∈ line.numbers.map (Nat.toDigits 10) ++ [line.word.toList], Text.IsWord piece := by
  intro piece member
  rcases List.mem_append.1 member with isNumber | isLast
  · obtain ⟨number, _, rfl⟩ := List.mem_map.1 isNumber
    exact Text.isWord_toDigits number
  · rw [List.mem_singleton.1 isLast]
    exact isWord

theorem words_text {line : Line} (isWord : Text.IsWord line.word.toList) :
    Text.words line.text.toList =
      line.numbers.map (Nat.toDigits 10) ++ [line.word.toList] := by
  rw [toList_text, Text.words_intercalate (isWord_pieces isWord)]

/-- The words of a line are read as its parts say, if its numbers fit. -/
theorem ofWords_words (line : Line) :
    ofWords (line.numbers.map (Nat.toDigits 10) ++ [line.word.toList]) =
      if line.Fits then ofParts line.word line.reads line.writes else .ok none := by
  have fits_iff : line.Fits ↔ line.reads.length < Decimal.wordLimit ∧
      line.writes.length < Decimal.wordLimit ∧
        ∀ wire ∈ line.reads ++ line.writes, wire < Decimal.wordLimit := by
    simp only [Fits, numbers, List.cons_append, List.nil_append, List.forall_mem_cons]
  have length : ((line.reads ++ line.writes).map (Nat.toDigits 10) ++ [line.word.toList]).length =
      line.reads.length + line.writes.length + 1 := by
    rw [List.length_append, List.length_map, List.length_append]
    rfl
  simp only [numbers, List.cons_append, List.nil_append, List.map_cons, ofWords,
    Decimal.readWord_toDigits_eq, List.getLast?_concat, List.dropLast_concat, length,
    Decimal.mapM_readWord_toDigits, fits_iff]
  by_cases readsFit : line.reads.length < Decimal.wordLimit
  · by_cases writesFit : line.writes.length < Decimal.wordLimit
    · by_cases wiresFit : ∀ wire ∈ line.reads ++ line.writes, wire < Decimal.wordLimit
      · simp only [readsFit, writesFit, if_pos wiresFit, String.ofList_toList, List.take_left,
          List.drop_left, if_true]
        rw [if_pos ⟨trivial, trivial, wiresFit⟩]
      · simp only [readsFit, writesFit, wiresFit, and_false, if_true]
        rfl
    · simp only [readsFit, writesFit, false_and, and_false, if_true]
      rfl
  · simp only [readsFit, false_and]
    rfl

/-- The text of the first line is read as the second one. -/
def IsTakenFor (line taken : Line) : Prop :=
  line.Fits ∧ ofParts line.word line.reads line.writes = .ok (some taken)

/-- What the text of a line is read as, provided that it ends with one word. -/
theorem read_text_eq_ok_iff {line taken : Line} (isWord : Text.IsWord line.word.toList)
    (number : Nat) : read number line.text.toList = .ok taken ↔ line.IsTakenFor taken := by
  have parsed : ofWords (Text.words line.text.toList) =
      if line.Fits then ofParts line.word line.reads line.writes else .ok none := by
    rw [words_text isWord, ofWords_words]
  rw [read, parsed, IsTakenFor]
  by_cases fits : line.Fits
  · rw [if_pos fits]
    cases ofParts line.word line.reads line.writes with
    | error error => simp [bind, Except.bind, fits]
    | ok outcome => cases outcome <;> simp [bind, Except.bind, pure, Except.pure, fits]
  · rw [if_neg fits]
    simp [bind, Except.bind, fits]

/-- A primitive is read as what was written, if its numbers fit. -/
theorem isTakenFor_iff {line taken : Line} (isPrimitive : line.IsPrimitive) :
    line.IsTakenFor taken ↔ line.Fits ∧ taken = line := by
  rw [IsTakenFor, ofParts_eq isPrimitive]
  simp [eq_comm]

end Bristol.Line

end Netlist
