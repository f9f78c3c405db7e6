import Netlist.Proofs.Layouts

/-!
# Reading written records

Records that are written one a line, with single blanks between their words, are laid out
(`Blif.isLaidOut_written`), provided that no word holds a blank, a number sign or a backslash.
So they are read as what was written (`Blif.records_written`).
-/

namespace Netlist

namespace Blif

/-- Rows of words as lines of text. -/
def written (rows : List (List String)) : String :=
  String.join (rows.map fun row => String.intercalate " " row ++ "\n")

/-- The words of a row as the record that stands on a line. -/
def Record.ofRow (line : Nat) : List String → List Record
  | [] => []
  | keyword :: args => [⟨line, keyword, args⟩]

/-- A word that means nothing but itself. -/
def IsPlain (word : List Char) : Prop :=
  Text.IsWord word ∧ '#' ∉ word ∧ '\\' ∉ word

theorem isPlain_of_all {word : List Char} (nonempty : word ≠ [])
    (plain : word.all (fun character =>
      !Text.isBlank character && character != '#' && character != '\\') = true) :
    IsPlain word := by
  rw [List.all_eq_true] at plain
  refine ⟨⟨nonempty, fun character member => ?_⟩, fun member => ?_, fun member => ?_⟩
  · have visible := plain character member
    simp only [Bool.and_eq_true, Bool.not_eq_eq_eq_not, Bool.not_true] at visible
    exact visible.1.1
  · exact absurd (plain _ member) (by decide)
  · exact absurd (plain _ member) (by decide)

/-- Whether some words are plain can be computed. -/
theorem forall_isPlain_of_all {words : List String}
    (plain : words.all (fun word => !word.toList.isEmpty && word.toList.all fun character =>
      !Text.isBlank character && character != '#' && character != '\\') = true) :
    ∀ word ∈ words, IsPlain word.toList := by
  intro word member
  have visible := List.all_eq_true.1 plain word member
  rw [Bool.and_eq_true] at visible
  exact isPlain_of_all (by simpa using visible.1) visible.2

theorem IsPlain.append {first second : List Char} (isFirst : IsPlain first)
    (isSecond : IsPlain second) : IsPlain (first ++ second) := by
  obtain ⟨⟨nonempty, visible⟩, noComment, noBackslash⟩ := isFirst
  refine ⟨⟨List.append_ne_nil_of_left_ne_nil nonempty _, ?_⟩, ?_, ?_⟩
  · exact List.forall_mem_append.2 ⟨visible, isSecond.1.2⟩
  · exact fun member => (List.mem_append.1 member).elim noComment isSecond.2.1
  · exact fun member => (List.mem_append.1 member).elim noBackslash isSecond.2.2

/-- A line of plain words has these words, and is not continued. -/
theorem closedLine_intercalate {pieces : List (List Char)}
    (plain : ∀ piece ∈ pieces, IsPlain piece) : ClosedLine pieces ([' '].intercalate pieces) := by
  have areWords : ∀ piece ∈ pieces, Text.IsWord piece := fun piece member => (plain piece member).1
  have noneMeansMore : IsPlainText ([' '].intercalate pieces) := by
    intro character member
    refine ⟨?_, ?_, ?_⟩
    · rintro rfl
      exact Text.notMem_intercalate (by decide) (fun piece isPiece => (plain piece isPiece).2.1)
        member
    · rintro rfl
      exact Text.notMem_intercalate (by decide) (fun piece isPiece => (plain piece isPiece).2.2)
        member
    · rintro rfl
      exact Text.lineFeed_notMem_intercalate areWords member
  have closed := @closedLine_words _ [] noneMeansMore (by decide)
  rwa [Text.words_intercalate areWords, List.append_nil] at closed

/-- Rows of plain words, one a line, are laid out. -/
theorem layout_rows {rows : List (List String)}
    (plain : ∀ row ∈ rows, ∀ word ∈ row, IsPlain word.toList) (first : Nat) :
    Layout (first + 1)
      ((rows.zipIdx first).flatMap fun (row, index) => Record.ofRow (index + 1) row)
      (rows.map fun row => [' '].intercalate (row.map String.toList)) := by
  induction rows generalizing first with
  | nil => exact .done
  | cons row rest ih =>
    obtain ⟨head, others⟩ := List.forall_mem_cons.1 plain
    have closed : ClosedLine (row.map String.toList) ([' '].intercalate (row.map String.toList)) :=
      closedLine_intercalate (List.forall_mem_map.2 head)
    cases row with
    | nil => exact .blank (.inl closed) (ih others (first + 1))
    | cons keyword args =>
      exact @Layout.record ⟨first + 1, keyword, args⟩ _ [_] _
        (.single (List.cons_ne_nil _ _) closed) (ih others (first + 1))

theorem toList_written (rows : List (List String)) :
    (written rows).toList =
      (rows.map fun row => [' '].intercalate (row.map String.toList)).flatMap (· ++ ['\n']) := by
  rw [written, String.toList_join, List.flatMap_map, List.flatMap_map]
  congr 1
  funext row
  rw [String.toList_append, String.toList_intercalate]
  rfl

/-- Rows of plain words are laid out, each on the line of its number. -/
theorem isLaidOut_written {rows : List (List String)}
    (plain : ∀ row ∈ rows, ∀ word ∈ row, IsPlain word.toList) :
    IsLaidOut (rows.zipIdx.flatMap fun (row, index) => Record.ofRow (index + 1) row)
      (written rows) :=
  ⟨_, layout_rows plain 0, .inr (toList_written rows)⟩

/-- Rows of plain words are read as records, each with the number of its line. -/
theorem records_written {rows : List (List String)}
    (plain : ∀ row ∈ rows, ∀ word ∈ row, IsPlain word.toList) :
    records (written rows) =
      rows.zipIdx.flatMap fun (row, index) => Record.ofRow (index + 1) row := by
  obtain ⟨last, isLast, layout⟩ := exists_layout_of_isLaidOut (isLaidOut_written plain)
  exact records_of_layout isLast layout

end Blif

end Netlist
