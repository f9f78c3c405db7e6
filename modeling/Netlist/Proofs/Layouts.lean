import Mathlib.Data.List.TakeWhile
import Netlist.Blif.Layout
import Netlist.Proofs.WrittenLines

/-!
# Reading records in any layout

However records are spread over the lines of a text, they are read as they are
(`Blif.records_of_isLaidOut`). A line is read by itself: it yields its words, and whether the
record goes on (`lineWords_of_closedLine`, `lineWords_of_openLine`). What is read of a record
so far is carried from line to line, and the number of the record is that of its first word,
since lines without words are passed over while nothing is pending.
-/

namespace Netlist

namespace Text

/-- Lines with their numbers, the first of which is given. -/
def numberedFrom : Nat → List (List Char) → List (Nat × List Char)
  | _, [] => []
  | number, line :: rest => (number, line) :: numberedFrom (number + 1) rest

theorem numberedFrom_eq_map (number : Nat) (lines : List (List Char)) :
    numberedFrom number lines = (lines.zipIdx number).map fun (line, index) => (index, line) := by
  induction lines generalizing number with
  | nil => rfl
  | cons line rest ih =>
    rw [numberedFrom, ih, List.zipIdx_cons, List.map_cons]

theorem numberedLines_eq (text : List Char) :
    numberedLines text = numberedFrom 1 (lines text) := by
  rw [numberedFrom_eq_map, List.zipIdx_succ, List.map_map]
  rfl

theorem numberedFrom_append (number : Nat) (lines others : List (List Char)) :
    numberedFrom number (lines ++ others) =
      numberedFrom number lines ++ numberedFrom (number + lines.length) others := by
  induction lines generalizing number with
  | nil => rfl
  | cons line rest ih =>
    rw [List.cons_append, numberedFrom, ih, numberedFrom, List.cons_append, List.length_cons,
      Nat.add_right_comm, Nat.add_assoc]

/-- Blanks behind a line are cut away. -/
theorem trimEnd_append {line space : List Char}
    (blank : ∀ character ∈ space, isBlank character = true) :
    trimEnd (line ++ space) = trimEnd line := by
  have reversed : ∀ character ∈ space.reverse, isBlank character = true :=
    fun character member => blank character (List.mem_reverse.1 member)
  rw [trimEnd, List.reverse_append, List.dropWhile_append_of_pos reversed, trimEnd]

/-- Only blanks are cut away. -/
theorem exists_eq_trimEnd_append (line : List Char) :
    ∃ space, (∀ character ∈ space, isBlank character = true) ∧ line = trimEnd line ++ space := by
  refine ⟨(line.reverse.takeWhile isBlank).reverse, ?_, ?_⟩
  · intro character member
    exact List.mem_takeWhile_imp (List.mem_reverse.1 member)
  · rw [trimEnd, ← List.reverse_append, List.takeWhile_append_dropWhile, List.reverse_reverse]

/-- Blanks behind a line change none of its words. -/
theorem words_append_of_isBlank {line space : List Char}
    (blank : ∀ character ∈ space, isBlank character = true) :
    words (line ++ space) = words line := by
  induction space generalizing line with
  | nil => rw [List.append_nil]
  | cons character space ih =>
    obtain ⟨head, others⟩ := List.forall_mem_cons.1 blank
    rw [words_append_cons_of_isBlank head, ← List.nil_append space, ih others, words_nil,
      List.append_nil]

theorem words_trimEnd (line : List Char) : words (trimEnd line) = words line := by
  obtain ⟨space, blank, same⟩ := exists_eq_trimEnd_append line
  calc
    words (trimEnd line) = words (trimEnd line ++ space) := (words_append_of_isBlank blank).symm
    _ = words line := by rw [← same]

/-- Lines that were joined by line feeds are cut apart again, but for a last one that is
empty. -/
theorem exists_lines_intercalate {pieces : List (List Char)}
    (noFeed : ∀ piece ∈ pieces, '\n' ∉ piece) :
    ∃ last, (last = [] ∨ last = [[]]) ∧ pieces = lines (['\n'].intercalate pieces) ++ last := by
  cases pieces with
  | nil => exact ⟨[], Or.inl rfl, rfl⟩
  | cons piece rest =>
    rw [lines, List.splitOn_intercalate _ noFeed (List.cons_ne_nil _ _), dropEmptyLast]
    split
    · rename_i isLast
      obtain ⟨others, same⟩ := List.getLast?_eq_some_iff.1 isLast
      rw [same, List.dropLast_concat]
      exact ⟨[[]], Or.inr rfl, rfl⟩
    · exact ⟨[], Or.inl rfl, (List.append_nil _).symm⟩

end Text

namespace Blif

/-! ### Lines -/

/-- The character means nothing but itself, and does not end the line. -/
def IsPlainCharacter (character : Char) : Prop :=
  character ≠ '#' ∧ character ≠ '\\' ∧ character ≠ '\n'

instance (character : Char) : Decidable (IsPlainCharacter character) :=
  inferInstanceAs (Decidable (_ ∧ _ ∧ _))

/-- All characters are plain. -/
def IsPlainText (text : List Char) : Prop :=
  ∀ character ∈ text, IsPlainCharacter character

instance (text : List Char) : Decidable (IsPlainText text) :=
  List.decidableBAll _ text

/-- Words and blanks hold none of the characters that mean something else. -/
theorem Spaced.isPlain {words : List (List Char)} {content : List Char}
    (spaced : Spaced words content) : IsPlainText content := by
  have ofSpace : ∀ {space : List Char}, IsSpace space → IsPlainText space := by
    intro space isSpace character member
    obtain ⟨blank, noFeed⟩ := isSpace character member
    refine ⟨?_, ?_, noFeed⟩
    all_goals
      rintro rfl
      exact absurd blank (by decide)
  induction spaced with
  | space isSpace => exact ofSpace isSpace
  | word isSpace isWord _ _ ih =>
    refine List.forall_mem_append.2 ⟨List.forall_mem_append.2 ⟨ofSpace isSpace, ?_⟩, ih⟩
    intro character member
    obtain ⟨visible, noComment, noBackslash⟩ := isWord.2 character member
    refine ⟨noComment, noBackslash, ?_⟩
    rintro rfl
    exact absurd visible (by decide)

/-- More blanks in front of words do not matter. -/
theorem Spaced.cons_of_isBlank {words : List (List Char)} {content : List Char} {blank : Char}
    (spaced : Spaced words content) (white : Text.isBlank blank = true) (inLine : blank ≠ '\n') :
    Spaced words (blank :: content) := by
  cases spaced with
  | space isSpace => exact .space (List.forall_mem_cons.2 ⟨⟨white, inLine⟩, isSpace⟩)
  | word isSpace isWord inner apart =>
    exact .word (List.forall_mem_cons.2 ⟨⟨white, inLine⟩, isSpace⟩) isWord inner apart

/-- One more character in front of a text makes its first word longer, or a word of its own
where a blank follows. -/
theorem Spaced.exists_cons {words : List (List Char)} {content : List Char} {character : Char}
    (spaced : Spaced words content) (isWord : IsPlainWord [character]) :
    ∃ others, Spaced others (character :: content) := by
  by_cases apart : ∀ next ∈ content.head?, Text.isBlank next = true
  · exact ⟨[character] :: words,
      @Spaced.word [] [character] content words nofun isWord spaced apart⟩
  · cases spaced with
    | space isSpace =>
      exact absurd (fun next isNext => (isSpace next (List.mem_of_mem_head? isNext)).1) apart
    | @word space word rest words isSpace next inner apartFromRest =>
      cases space with
      | nil =>
        have longer : IsPlainWord (character :: word) :=
          ⟨List.cons_ne_nil _ _,
            List.forall_mem_cons.2 ⟨isWord.2 _ List.mem_cons_self, next.2⟩⟩
        exact ⟨(character :: word) :: words,
          @Spaced.word [] (character :: word) rest words nofun longer inner apartFromRest⟩
      | cons blank space =>
        refine absurd ?_ apart
        rintro _ ⟨⟩
        exact (isSpace blank List.mem_cons_self).1

/-- Plain characters are words with blanks around them. -/
theorem spaced_words {content : List Char} (plain : IsPlainText content) :
    Spaced (Text.words content) content := by
  obtain ⟨words, spaced⟩ : ∃ words, Spaced words content := by
    induction content with
    | nil => exact ⟨[], .space nofun⟩
    | cons character rest ih =>
      obtain ⟨head, others⟩ := List.forall_mem_cons.1 plain
      obtain ⟨words, spaced⟩ := ih others
      cases white : Text.isBlank character with
      | true => exact ⟨words, spaced.cons_of_isBlank white head.2.2⟩
      | false =>
        exact spaced.exists_cons ⟨List.cons_ne_nil _ _,
          fun _ isHead => List.mem_singleton.1 isHead ▸ ⟨white, head.1, head.2.1⟩⟩
  rwa [words_of_spaced spaced]

/-- Plain characters and a comment are a line that is not continued. -/
theorem closedLine_words {content comment : List Char}
    (plain : IsPlainText content) (isComment : IsComment comment) :
    ClosedLine (Text.words content) (content ++ comment) :=
  ⟨content, comment, spaced_words plain, isComment, rfl⟩

/-- With a backslash behind the plain characters, the line is continued. -/
theorem openLine_words {content space comment : List Char}
    (plain : IsPlainText content) (isSpace : IsSpace space)
    (isComment : IsComment comment) :
    OpenLine (Text.words content) (content ++ '\\' :: space ++ comment) :=
  ⟨content, space, comment, spaced_words plain, isSpace, isComment, rfl⟩

/-- A comment ends the line in front of it. -/
theorem dropComment_append {content comment : List Char} (isComment : IsComment comment)
    (plain : ∀ character ∈ content, character ≠ '#') :
    dropComment (content ++ comment) = content := by
  have kept : ∀ character ∈ content, decide (character ≠ '#') = true :=
    fun character member => decide_eq_true (plain character member)
  have dropped : comment.takeWhile (fun character => decide (character ≠ '#')) = [] := by
    rcases isComment.1 with rfl | starts
    · rfl
    · obtain ⟨rest, rfl⟩ := List.head?_eq_some_iff.1 starts
      rfl
  rw [dropComment, List.takeWhile_append_of_pos kept, dropped, List.append_nil]

/-- A line that is not continued yields its words. -/
theorem lineWords_of_closedLine {words : List (List Char)} {line : List Char}
    (closed : ClosedLine words line) : lineWords line = (words, false) := by
  obtain ⟨content, comment, spaced, isComment, rfl⟩ := closed
  have noContinuation : (Text.trimEnd content).getLast? ≠ some '\\' := by
    intro isLast
    obtain ⟨space, _, same⟩ := Text.exists_eq_trimEnd_append content
    have member : '\\' ∈ content := by
      rw [same]
      exact List.mem_append_left _ (List.mem_of_getLast? isLast)
    exact (spaced.isPlain _ member).2.1 rfl
  rw [lineWords, dropComment_append isComment fun character member =>
    (spaced.isPlain character member).1]
  rw [if_neg noContinuation, Text.words_trimEnd, words_of_spaced spaced]

/-- A line that is continued yields its words, without the backslash. -/
theorem lineWords_of_openLine {words : List (List Char)} {line : List Char}
    (isOpen : OpenLine words line) : lineWords line = (words, true) := by
  obtain ⟨content, space, comment, spaced, isSpace, isComment, rfl⟩ := isOpen
  have noComment : ∀ character ∈ content ++ '\\' :: space, character ≠ '#' := by
    refine List.forall_mem_append.2 ⟨fun character member => (spaced.isPlain character member).1,
      List.forall_mem_cons.2 ⟨by decide, ?_⟩⟩
    rintro character member rfl
    exact absurd (isSpace _ member).1 (by decide)
  have trimmed : Text.trimEnd (content ++ '\\' :: space) = content ++ ['\\'] := by
    rw [← List.singleton_append, ← List.append_assoc,
      Text.trimEnd_append fun character member => (isSpace character member).1]
    apply Text.trimEnd_eq_self
    rw [List.getLast?_concat]
    rintro _ ⟨⟩
    decide
  rw [lineWords, dropComment_append isComment noComment, trimmed]
  rw [if_pos List.getLast?_concat, List.dropLast_concat, words_of_spaced spaced]

theorem ClosedLine.lineFeed_notMem {words : List (List Char)} {line : List Char}
    (closed : ClosedLine words line) : '\n' ∉ line := by
  obtain ⟨content, comment, spaced, isComment, rfl⟩ := closed
  intro member
  rcases List.mem_append.1 member with inContent | inComment
  · exact (spaced.isPlain _ inContent).2.2 rfl
  · exact isComment.2 inComment

theorem OpenLine.lineFeed_notMem {words : List (List Char)} {line : List Char}
    (isOpen : OpenLine words line) : '\n' ∉ line := by
  obtain ⟨content, space, comment, spaced, isSpace, isComment, rfl⟩ := isOpen
  intro member
  rcases List.mem_append.1 member with inLine | inComment
  · rcases List.mem_append.1 inLine with inContent | inEnd
    · exact (spaced.isPlain _ inContent).2.2 rfl
    · rcases List.mem_cons.1 inEnd with isBackslash | inSpace
      · exact absurd isBackslash (by decide)
      · exact (isSpace _ inSpace).2 rfl
  · exact isComment.2 inComment

/-! ### Records -/

/-- The number of a record that has words stays while more words are read. -/
theorem recordsFrom_cons {start number : Nat} {pending words : List (List Char)}
    (begun : pending ≠ []) {line : List Char} {continued : Bool}
    (read : lineWords line = (words, continued)) (rest : List (Nat × List Char)) :
    recordsFrom start pending ((number, line) :: rest) =
      if continued then recordsFrom start (pending ++ words) rest
      else Record.ofWords start (pending ++ words) ++ recordsFrom start [] rest := by
  rw [recordsFrom, read, List.isEmpty_eq_false_iff.2 begun]
  rfl

/-- The lines on which a record goes on complete it. -/
theorem recordsFrom_continuation {words : List (List Char)} {lines : List (List Char)}
    (continuation : Continuation words lines) {pending : List (List Char)} (begun : pending ≠ [])
    (start number : Nat) (rest : List (List Char)) :
    recordsFrom start pending (Text.numberedFrom number (lines ++ rest)) =
      Record.ofWords start (pending ++ words) ++
        recordsFrom start [] (Text.numberedFrom (number + lines.length) rest) := by
  induction continuation generalizing pending number with
  | last closed =>
    rw [List.singleton_append, Text.numberedFrom,
      recordsFrom_cons begun (lineWords_of_closedLine closed)]
    rfl
  | @more words others line lines isOpen _ ih =>
    rw [List.cons_append, Text.numberedFrom, recordsFrom_cons begun (lineWords_of_openLine isOpen),
      if_pos rfl, ih (List.append_ne_nil_of_left_ne_nil begun _), List.append_assoc,
      List.length_cons, Nat.add_right_comm, Nat.add_assoc]

/-- The lines of a record yield the record, with the number of the first of them. -/
theorem recordsFrom_recordLines {words : List (List Char)} {lines : List (List Char)}
    (recordLines : RecordLines words lines) (start number : Nat) (rest : List (List Char)) :
    recordsFrom start [] (Text.numberedFrom number (lines ++ rest)) =
      Record.ofWords number words ++
        recordsFrom number [] (Text.numberedFrom (number + lines.length) rest) := by
  cases recordLines with
  | single _ closed =>
    rw [List.singleton_append, Text.numberedFrom, recordsFrom, lineWords_of_closedLine closed]
    rfl
  | @broken words others line lines begun isOpen continuation =>
    rw [List.cons_append, Text.numberedFrom, recordsFrom, lineWords_of_openLine isOpen]
    refine (recordsFrom_continuation continuation begun number (number + 1) rest).trans ?_
    rw [List.length_cons, Nat.add_right_comm, Nat.add_assoc]

theorem Record.ofWords_words (record : Record) :
    Record.ofWords record.line (record.words.map String.toList) = [record] := by
  rw [Record.words, List.map_cons, Record.ofWords, List.map_map, String.ofList_toList]
  simp

/-- The lines of a layout yield its records. -/
theorem recordsFrom_layout {number : Nat} {records : List Record} {lines : List (List Char)}
    (layout : Layout number records lines) (start : Nat) :
    recordsFrom start [] (Text.numberedFrom number lines) = records := by
  induction layout generalizing start with
  | done => rfl
  | @blank number records line lines wordless _ ih =>
    rw [Text.numberedFrom, recordsFrom]
    rcases wordless with closed | isOpen
    · rw [lineWords_of_closedLine closed]
      exact ih number
    · rw [lineWords_of_openLine isOpen]
      exact ih number
  | @record record records first lines recordLines _ ih =>
    rw [recordsFrom_recordLines recordLines, ih, Record.ofWords_words, List.singleton_append]

/-- An empty line at the end changes nothing. -/
theorem recordsFrom_concat_nil (start number : Nat) (pending : List (List Char))
    (lines : List (Nat × List Char)) :
    recordsFrom start pending (lines ++ [(number, [])]) = recordsFrom start pending lines := by
  induction lines generalizing start pending with
  | nil =>
    have wordless : lineWords [] = ([], false) := by decide
    cases pending with
    | nil => rfl
    | cons word words =>
      rw [List.nil_append, recordsFrom_cons (List.cons_ne_nil _ _) wordless, List.append_nil]
      exact List.append_nil _
  | cons line rest ih => simp only [List.cons_append, recordsFrom, ih]

theorem Continuation.lineFeed_notMem {words : List (List Char)} {lines : List (List Char)}
    (continuation : Continuation words lines) : ∀ line ∈ lines, '\n' ∉ line := by
  induction continuation with
  | last closed => exact List.forall_mem_singleton.2 closed.lineFeed_notMem
  | more isOpen _ ih => exact List.forall_mem_cons.2 ⟨isOpen.lineFeed_notMem, ih⟩

theorem RecordLines.lineFeed_notMem {words : List (List Char)} {lines : List (List Char)}
    (recordLines : RecordLines words lines) : ∀ line ∈ lines, '\n' ∉ line := by
  cases recordLines with
  | single _ closed => exact List.forall_mem_singleton.2 closed.lineFeed_notMem
  | broken _ isOpen continuation =>
    exact List.forall_mem_cons.2 ⟨isOpen.lineFeed_notMem, continuation.lineFeed_notMem⟩

theorem Layout.lineFeed_notMem {number : Nat} {records : List Record} {lines : List (List Char)}
    (layout : Layout number records lines) : ∀ line ∈ lines, '\n' ∉ line := by
  induction layout with
  | done => exact List.forall_mem_nil _
  | blank wordless _ ih =>
    exact List.forall_mem_cons.2
      ⟨wordless.elim ClosedLine.lineFeed_notMem OpenLine.lineFeed_notMem, ih⟩
  | record recordLines _ ih => exact List.forall_mem_append.2 ⟨recordLines.lineFeed_notMem, ih⟩

/-- The lines of a text that is laid out are those of its layout, but for a last one that is
empty. -/
theorem exists_layout_of_isLaidOut {written : List Record} {text : String}
    (laidOut : IsLaidOut written text) :
    ∃ last, (last = [] ∨ last = [[]]) ∧ Layout 1 written (Text.lines text.toList ++ last) := by
  obtain ⟨lines, layout, joined | ended⟩ := laidOut
  · obtain ⟨last, isLast, same⟩ := Text.exists_lines_intercalate layout.lineFeed_notMem
    rw [joined]
    exact ⟨last, isLast, same ▸ layout⟩
  · rw [ended, Text.lines_flatMap_ended layout.lineFeed_notMem]
    exact ⟨[], Or.inl rfl, (List.append_nil lines).symm ▸ layout⟩

/-- Records are read from the lines of their layout. -/
theorem records_of_layout {written : List Record} {text : String} {last : List (List Char)}
    (isLast : last = [] ∨ last = [[]])
    (layout : Layout 1 written (Text.lines text.toList ++ last)) : records text = written := by
  have read := recordsFrom_layout layout 0
  rw [records, Text.numberedLines_eq]
  rcases isLast with rfl | rfl
  · rwa [List.append_nil] at read
  · rw [Text.numberedFrom_append] at read
    exact (recordsFrom_concat_nil 0 _ [] _).symm.trans read

/-- Records are read as they are from every text in which they are laid out, each with the
number of the line that holds its first word. -/
theorem records_of_isLaidOut {written : List Record} {text : String}
    (laidOut : IsLaidOut written text) : records text = written := by
  obtain ⟨last, isLast, layout⟩ := exists_layout_of_isLaidOut laidOut
  exact records_of_layout isLast layout

/-- A record that goes on behind a line without words, and one that the text ends with. Both
comments on the lines of the first record end in a backslash, and one of the blank lines
goes on. -/
def brokenText : String :=
  "# ports\n\\\n.inputs a\\ # first \\\n\\\n\t b# last \\\n\r\n.end"

/-- The records of `brokenText`. -/
def brokenRecords : List Record :=
  [⟨3, ".inputs", ["a", "b"]⟩, ⟨7, ".end", []⟩]

theorem isLaidOut_brokenText : IsLaidOut brokenRecords brokenText := by
  have closed (content comment : String)
      (plain : IsPlainText content.toList)
      (isComment : IsComment comment.toList) :=
    closedLine_words plain isComment
  have isOpen (content space comment : String)
      (plain : IsPlainText content.toList)
      (isSpace : IsSpace space.toList) (isComment : IsComment comment.toList) :=
    openLine_words plain isSpace isComment
  have ports : RecordLines (Record.words ⟨3, ".inputs", ["a", "b"]⟩ |>.map String.toList) _ :=
    .broken (by decide) (isOpen ".inputs a" " " "# first \\" (by decide) (by decide) (by decide))
      (.more (isOpen "" "" "" (by decide) (by decide) (by decide))
        (.last (closed "\t b" "# last \\" (by decide) (by decide))))
  have ending : RecordLines (Record.words ⟨7, ".end", []⟩ |>.map String.toList) _ :=
    .single (by decide) (closed ".end" "" (by decide) (by decide))
  refine ⟨_, .blank (.inl (closed "" "# ports" (by decide) (by decide)))
    (.blank (.inr (isOpen "" "" "" (by decide) (by decide) (by decide)))
      (.record ports (.blank (.inl (closed "\r" "" (by decide) (by decide)))
        (.record ending .done)))), .inl ?_⟩
  decide

/-- The first record of `brokenText` has the number of its third line. -/
theorem records_of_isLaidOut_brokenText :
    IsLaidOut brokenRecords brokenText ∧ records brokenText = brokenRecords :=
  ⟨isLaidOut_brokenText, records_of_isLaidOut isLaidOut_brokenText⟩

end Blif

end Netlist
