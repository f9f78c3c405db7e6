import Netlist.Decimal.Word
import Netlist.Error
import Netlist.Text.Line

/-!
# Lines of a Bristol circuit

A line declares an input, declares an output, or computes a gate. It begins with
the number of wires it reads and the number of wires it writes, then names these
wires, those it reads in reverse order, and ends with a word for what it does.
-/

namespace Netlist.Bristol

/-- One line behind the header of a circuit. -/
inductive Line where
  | input (wire : Wire)
  | output (wire : Wire)
  | gate (node : Gate)
  deriving DecidableEq, Repr

namespace Line

/-- The word that ends the line of an input. -/
def inputWord : String := "INPUT"

/-- The word that ends the line of an output. -/
def outputWord : String := "OUTPUT"

/-- Words with one blank between them. -/
def spaced (words : List String) : String :=
  String.intercalate " " words

/-- The words of a line. -/
def words : Line → List String
  | input wire => ["0", "1", toString wire, inputWord]
  | output wire => ["1", "0", toString wire, outputWord]
  | gate node =>
    [toString node.inputs.length, "1"] ++ node.inputs.reverse.map toString ++
      [toString node.output, node.operator.name]

/-- The text of a line. -/
def text (line : Line) : String :=
  spaced line.words

/-- The line that does what its last word says to the wires that it reads and
writes: none if these do not fit. An unknown word is an error of its own. -/
def ofParts (word : String) (reads writes : List Wire) : Except Error (Option Line) :=
  if word = inputWord then .ok (writes.head?.map input)
  else if word = outputWord then .ok (reads.head?.map output)
  else match Operator.ofName word, writes with
    | .cell name, _ => .error (.unknownOperator name)
    | operator, [target] =>
      if operator.arity? = some reads.length then
        .ok (some (gate ⟨operator, reads.reverse, target⟩))
      else .ok none
    | _, _ => .ok none

/-- The line that some words make up, if they are well formed. The counts are added as numbers of
any size, so that those which no line can have are not well formed. Where they are added as machine
words, a sum that overflows ends the program, and nothing has changed by then. -/
def ofWords (words : List (List Char)) : Except Error (Option Line) :=
  match words with
  | readCount :: writeCount :: rest =>
    match Decimal.readWord readCount, Decimal.readWord writeCount, rest.getLast? with
    | some readCount, some writeCount, some word =>
      if rest.length = readCount + writeCount + 1 then
        match rest.dropLast.mapM Decimal.readWord with
        | some wires =>
          ofParts (String.ofList word) (wires.take readCount) (wires.drop readCount)
        | none => .ok none
      else .ok none
    | _, _, _ => .ok none
  | _ => .ok none

/-- Read a line that stands at the given number. -/
def read (number : Nat) (characters : List Char) : Except Error Line := do
  match ← ofWords (Text.words characters) with
  | some line => return line
  | none => throw (.parse number (.circuitLine (String.ofList characters)))

end Line

end Netlist.Bristol
