import Netlist.Text.Blank

/-!
# Lines and words

Text is cut into lines at line feeds and into words at blanks. A line feed at
the very end closes the last line instead of opening an empty one. A carriage
return is a blank like any other.
-/

namespace Netlist.Text

/-- Cut away the blanks at the end. -/
def trimEnd (characters : List Char) : List Char :=
  (characters.reverse.dropWhile isBlank).reverse

/-- Cut away the blanks at the start. -/
def trimStart (characters : List Char) : List Char :=
  characters.dropWhile isBlank

/-- Cut away the blanks at both ends. -/
def trim (characters : List Char) : List Char :=
  trimEnd (trimStart characters)

/-- The words of a line: its longest runs without blanks. -/
def words (characters : List Char) : List (List Char) :=
  (characters.splitOnP isBlank).filter fun word => !word.isEmpty

/-- Drop a last piece that is empty. -/
def dropEmptyLast (pieces : List (List Char)) : List (List Char) :=
  if pieces.getLast? = some [] then pieces.dropLast else pieces

/-- The lines of a text, without the line feeds. -/
def lines (text : List Char) : List (List Char) :=
  dropEmptyLast (text.splitOn '\n')

/-- The lines of a text with their numbers, which start at one. -/
def numberedLines (text : List Char) : List (Nat × List Char) :=
  (lines text).zipIdx.map fun (line, index) => (index + 1, line)

@[simp]
theorem words_nil : words [] = [] := by
  simp [words]

/-- A blank ends a word and begins none. -/
theorem words_append_cons_of_isBlank {blank : Char} (white : isBlank blank = true)
    (before after : List Char) :
    words (before ++ blank :: after) = words before ++ words after := by
  rw [words, List.splitOnP_append_cons before after white, List.filter_append, words, words]

/-- Blanks in front of a line change none of its words. -/
theorem words_cons_of_isBlank {blank : Char} (white : isBlank blank = true)
    (rest : List Char) : words (blank :: rest) = words rest := by
  simpa using words_append_cons_of_isBlank white [] rest

/-- A run without blanks is one word. -/
theorem words_eq_singleton {word : List Char} (nonempty : word ≠ [])
    (noBlank : ∀ character ∈ word, isBlank character = false) : words word = [word] := by
  rw [words, List.splitOnP_eq_singleton noBlank]
  simp [nonempty]

/-- A run without blanks that a blank or the end follows is the first word. -/
theorem words_append {word rest : List Char} (nonempty : word ≠ [])
    (noBlank : ∀ character ∈ word, isBlank character = false)
    (apart : ∀ character ∈ rest.head?, isBlank character = true) :
    words (word ++ rest) = word :: words rest := by
  cases rest with
  | nil => simp [words_eq_singleton nonempty noBlank]
  | cons blank rest =>
    have white := apart blank rfl
    rw [words_append_cons_of_isBlank white, words_cons_of_isBlank white,
      words_eq_singleton nonempty noBlank]
    rfl

end Netlist.Text
