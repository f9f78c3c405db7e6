import Netlist.Blif.Record

/-!
# Layouts of records

The ways in which a writer may spread records over the lines of a text. A record
is broken over one or more lines, all but the last of which end in a backslash.
Words stand apart by any blanks, every line may end in a comment, and lines
without words may come before, between and after records, and also among the
lines on which a record goes on.
-/

namespace Netlist.Blif

/-- A word that can be told from what surrounds it in any layout. -/
def IsPlainWord (word : List Char) : Prop :=
  word ≠ [] ∧ ∀ character ∈ word,
    Text.isBlank character = false ∧ character ≠ '#' ∧ character ≠ '\\'

instance (word : List Char) : Decidable (IsPlainWord word) :=
  @instDecidableAnd _ _ inferInstance (List.decidableBAll _ word)

/-- All characters are blanks, none of which ends the line. -/
def IsSpace (space : List Char) : Prop :=
  ∀ character ∈ space, Text.isBlank character = true ∧ character ≠ '\n'

instance (space : List Char) : Decidable (IsSpace space) :=
  List.decidableBAll _ space

/-- Words with blanks around them, and at least one blank between two words. -/
inductive Spaced : List (List Char) → List Char → Prop where
  | space {space : List Char} : IsSpace space → Spaced [] space
  | word {space word rest : List Char} {words : List (List Char)} :
    IsSpace space → IsPlainWord word → Spaced words rest →
      (∀ character ∈ rest.head?, Text.isBlank character = true) →
      Spaced (word :: words) (space ++ word ++ rest)

/-- The end of a line that means nothing: a comment or nothing. -/
def IsComment (text : List Char) : Prop :=
  (text = [] ∨ text.head? = some '#') ∧ '\n' ∉ text

instance (text : List Char) : Decidable (IsComment text) :=
  inferInstanceAs (Decidable ((text = [] ∨ _) ∧ _))

/-- A line with some words on it, which the next line does not continue. -/
def ClosedLine (words : List (List Char)) (line : List Char) : Prop :=
  ∃ content comment, Spaced words content ∧ IsComment comment ∧ line = content ++ comment

/-- A line with some words on it, which the next line continues. -/
def OpenLine (words : List (List Char)) (line : List Char) : Prop :=
  ∃ content space comment, Spaced words content ∧ IsSpace space ∧ IsComment comment ∧
    line = content ++ '\\' :: space ++ comment

/-- The lines on which a record goes on after its first one. -/
inductive Continuation : List (List Char) → List (List Char) → Prop where
  | last {words : List (List Char)} {line : List Char} :
    ClosedLine words line → Continuation words [line]
  | more {words rest : List (List Char)} {line : List Char} {lines : List (List Char)} :
    OpenLine words line → Continuation rest lines → Continuation (words ++ rest) (line :: lines)

/-- The lines of one record. The first of them has a word on it. -/
inductive RecordLines : List (List Char) → List (List Char) → Prop where
  | single {words : List (List Char)} {line : List Char} :
    words ≠ [] → ClosedLine words line → RecordLines words [line]
  | broken {words rest : List (List Char)} {line : List Char} {lines : List (List Char)} :
    words ≠ [] → OpenLine words line → Continuation rest lines →
      RecordLines (words ++ rest) (line :: lines)

/-- Records over lines, the first of which has the given number. -/
inductive Layout : Nat → List Record → List (List Char) → Prop where
  | done {number : Nat} : Layout number [] []
  | blank {number : Nat} {records : List Record} {line : List Char} {lines : List (List Char)} :
    ClosedLine [] line ∨ OpenLine [] line → Layout (number + 1) records lines →
      Layout number records (line :: lines)
  | record {record : Record} {records : List Record} {first lines : List (List Char)} :
    RecordLines (record.words.map String.toList) first →
      Layout (record.line + first.length) records lines →
      Layout record.line (record :: records) (first ++ lines)

/-- A text whose lines are a layout of records. Its last line may end with a line feed
or with the text. -/
def IsLaidOut (records : List Record) (text : String) : Prop :=
  ∃ lines, Layout 1 records lines ∧
    (text.toList = ['\n'].intercalate lines ∨ text.toList = lines.flatMap (· ++ ['\n']))

/-- The blanks around words and between them do not change the words. -/
theorem words_of_spaced {words : List (List Char)} {content : List Char}
    (spaced : Spaced words content) : Text.words content = words := by
  have skip : ∀ {space rest : List Char}, IsSpace space →
      Text.words (space ++ rest) = Text.words rest := by
    intro space rest isSpace
    induction space with
    | nil => rfl
    | cons character space ih =>
      have blank := (isSpace character List.mem_cons_self).1
      rw [List.cons_append, Text.words_cons_of_isBlank blank]
      exact ih fun other member => isSpace other (List.mem_cons_of_mem _ member)
  induction spaced with
  | @space space isSpace =>
    have skipped : Text.words (space ++ []) = Text.words [] := skip isSpace
    rwa [List.append_nil, Text.words_nil] at skipped
  | word isSpace isWord _ apart ih =>
    rw [List.append_assoc, skip isSpace,
      Text.words_append isWord.1 (fun character member => (isWord.2 character member).1) apart, ih]

end Netlist.Blif
