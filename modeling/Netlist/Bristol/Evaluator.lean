import Netlist.Bristol.Line
import Netlist.Event

/-!
# Evaluating Bristol circuits

An evaluator runs the lines of a circuit one after the other. Each input takes
the next bit of a witness, each gate gives a value to its output, and each
output is recorded. The evaluator may hold the constants from the start; the
circuit's declarations of these wires then take no bit. An error stops the run
and keeps what was done before it.
-/

namespace Netlist.Bristol

/-- The values of wires and what is left of the witness. -/
structure Evaluator where
  values : List (Wire × Bool)
  /-- The bits of the witness that no input has taken. -/
  witness : List Bool
  /-- The outputs so far, in order. -/
  outputs : List (Wire × Bool)
  evaluatedGates : Nat
  /-- How often a wire with a value was given another one. -/
  overwrites : Nat
  /-- The error that stopped the evaluation of a circuit. -/
  violation : Option Error
  /-- The first two wires hold the constants. -/
  constantsBound : Bool

namespace Evaluator

/-- The wires that hold the constants. -/
def constants : List (Wire × Bool) :=
  [(falseWire, false), (trueWire, true)]

/-- An evaluator that has run nothing, with or without constants. -/
def empty (constantsBound : Bool) : Evaluator :=
  ⟨if constantsBound then constants else [], [], [], 0, 0, none, constantsBound⟩

/-- The value of a wire. -/
def get (evaluator : Evaluator) (wire : Wire) : Except Error Bool :=
  match evaluator.values.lookup wire with
  | some value => .ok value
  | none => .error (.unsetWire wire)

/-- Values after one of them is set. -/
def setValue (wire : Wire) (value : Bool) : List (Wire × Bool) → List (Wire × Bool)
  | [] => [(wire, value)]
  | (other, old) :: rest =>
    if other = wire then (other, value) :: rest else (other, old) :: setValue wire value rest

/-- Give a value to a wire. It is reported if the wire had one. -/
def set (evaluator : Evaluator) (wire : Wire) (value : Bool) : Evaluator × List Event :=
  let values := setValue wire value evaluator.values
  if (evaluator.values.lookup wire).isSome then
    ({ evaluator with values, overwrites := evaluator.overwrites + 1 }, [.overwrite wire])
  else ({ evaluator with values }, [])

/-- The value that a gate computes. Its last input is read first. -/
def gateValue (evaluator : Evaluator) (gate : Gate) : Except Error Bool := do
  let bits ← gate.inputs.reverse.mapM evaluator.get
  match gate.operator.compute? bits.reverse with
  | some value => return value
  | none => throw (.unknownOperator gate.operator.name)

/-- Run one line. -/
def step (evaluator : Evaluator) : Line → Except Error (Evaluator × List Event)
  | .input wire =>
    if evaluator.constantsBound ∧ Domain.boolean.IsConstant wire then .ok (evaluator, [])
    else match evaluator.witness with
      | [] => .error (.witnessExhausted wire)
      | bit :: witness => .ok ({ evaluator with witness }.set wire bit)
  | .output wire => do
    let value ← evaluator.get wire
    return ({ evaluator with outputs := evaluator.outputs ++ [(wire, value)] }, [])
  | .gate node => do
    let value ← evaluator.gateValue node
    let (evaluator, events) := evaluator.set node.output value
    return ({ evaluator with evaluatedGates := evaluator.evaluatedGates + 1 }, events)

/-- Run numbered lines, up to the first that fails. -/
def runLines (evaluator : Evaluator) : List (Nat × List Char) → Evaluator × Report Unit
  | [] => (evaluator, .ok ())
  | (number, characters) :: rest =>
    match Line.read number characters with
    | .error error => (evaluator, .fail error)
    | .ok line =>
      match evaluator.step line with
      | .error error => (evaluator, .fail error)
      | .ok (next, events) =>
        let (last, report) := runLines next rest
        (last, (Report.emit events).bind fun _ => report)

/-- The lines of a text that are not blank, without blanks around them, with
their numbers. -/
def textLines (text : String) : List (Nat × List Char) :=
  ((Text.numberedLines text.toList).map fun (number, line) => (number, Text.trim line)).filter
    fun (_, line) => !line.isEmpty

/-- The line gives the numbers of gates and wires. -/
def isHeader (line : List Char) : Bool :=
  let words := Text.words line
  words.length = 2 && words.all fun word => (Decimal.readWord word).isSome

/-- Run the text of a circuit. The two lines behind its header may hold
anything. What is left of the witness is reported. -/
def runText (evaluator : Evaluator) (text : String) : Evaluator × Report Unit :=
  match textLines text with
  | [] => (evaluator, .fail (.parse 0 .emptyCircuit))
  | (number, header) :: rest =>
    if isHeader header then
      let (last, report) := evaluator.runLines (rest.drop 2)
      (last, report.bind fun _ =>
        .emit (if last.witness.isEmpty then [] else [.unusedWitness last.witness.length]))
    else (evaluator, .fail (.parse number .circuitHeader))

/-- Run the text of a circuit, unless an earlier one failed. An error is kept
as a violation. -/
def runCircuit (evaluator : Evaluator) (text : String) : Evaluator × List Event :=
  if evaluator.violation.isSome then (evaluator, [])
  else
    let (last, report) := evaluator.runText text
    match report.result with
    | .ok () => (last, report.events)
    | .error error => ({ last with violation := some error }, report.events)

/-- The characters of a witness that are not blank, with the numbers of their
lines. -/
def witnessMarks (text : String) : List (Nat × Char) :=
  (Text.numberedLines text.toList).flatMap fun (number, line) =>
    (line.filter fun character => !Text.isBlank character).map fun character => (number, character)

/-- The character stands for a bit. -/
def isBit (character : Char) : Bool :=
  character = '0' || character = '1'

/-- Append the bits of a witness, up to the first character that is none. -/
def addWitness (evaluator : Evaluator) (text : String) : Evaluator × Except Error Unit :=
  let (marks, rest) := (witnessMarks text).span fun (_, character) => isBit character
  let bits := marks.map fun (_, character) => character == '1'
  ({ evaluator with witness := evaluator.witness ++ bits },
    match rest with
    | [] => .ok ()
    | (number, character) :: _ => .error (.parse number (.witnessBit character)))

/-- The words for the error that stopped the evaluation, if there was one. -/
def violations (evaluator : Evaluator) : List String :=
  evaluator.violation.toList.map Error.message

end Evaluator

/-- The outputs of a circuit on a witness. -/
def evaluate (circuit witness : String) (constants : Bool) : Report (List (Wire × Bool)) :=
  match (Evaluator.empty constants).addWitness witness with
  | (_, .error error) => .fail error
  | (ready, .ok ()) =>
    let (last, report) := ready.runText circuit
    report.bind fun _ => .ok last.outputs

end Netlist.Bristol
