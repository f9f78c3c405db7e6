import Netlist.Composite
import Netlist.Text.Utf8

/-!
# Composite circuits as bytes

The binary format has no padding and no separators. Numbers take eight bytes,
indices of variants four, both with the low byte first. A list is its length and
its elements, a text the number of its bytes and its bytes. A decoder takes a
value off the front of some bytes and leaves the rest.
-/

namespace Netlist.Composite

/-- Takes a value off the front of some bytes. -/
abbrev Decoder (α : Type) := List UInt8 → Except CodecFault (α × List UInt8)

/-- The low bytes of a number, the lowest first. -/
def littleEndian : Nat → Nat → List UInt8
  | 0, _ => []
  | count + 1, value => UInt8.ofNat (value % 256) :: littleEndian count (value / 256)

/-- A number of the given number of bytes, the lowest first. -/
def decodeLittleEndian : Nat → Decoder Nat
  | 0, bytes => .ok (0, bytes)
  | _ + 1, [] => .error .truncated
  | count + 1, byte :: bytes => do
    let (high, rest) ← decodeLittleEndian count bytes
    return (byte.toNat + 256 * high, rest)

/-- A number. -/
def encodeWord (value : Nat) : List UInt8 :=
  littleEndian 8 value

/-- A number. -/
def decodeWord : Decoder Nat :=
  decodeLittleEndian 8

/-- The index of a variant. -/
def encodeIndex (index : Nat) : List UInt8 :=
  littleEndian 4 index

/-- The index of a variant. -/
def decodeIndex : Decoder Nat :=
  decodeLittleEndian 4

/-- A list: its length and its elements. -/
def encodeList {α : Type} (encode : α → List UInt8) (elements : List α) : List UInt8 :=
  encodeWord elements.length ++ elements.flatMap encode

/-- As many elements as the number says. -/
def decodeElements {α : Type} (decode : Decoder α) : Nat → Decoder (List α)
  | 0, bytes => .ok ([], bytes)
  | count + 1, bytes => do
    let (first, bytes) ← decode bytes
    let (others, bytes) ← decodeElements decode count bytes
    return (first :: others, bytes)

/-- A list: its length and its elements. -/
def decodeList {α : Type} (decode : Decoder α) : Decoder (List α) := fun bytes => do
  let (count, bytes) ← decodeWord bytes
  decodeElements decode count bytes

/-- A text: the number of its bytes and its bytes. -/
def encodeText (text : String) : List UInt8 :=
  encodeList (fun byte => [byte]) (Text.Utf8.encode text)

/-- A text of the given number of bytes. -/
def decodeTextBody (count : Nat) : Decoder String := fun bytes =>
  if bytes.length < count then .error .truncated
  else match Text.Utf8.decode (bytes.take count) with
    | .ok text => .ok (text, bytes.drop count)
    | .error fault => .error (.text fault)

/-- A text: the number of its bytes and its bytes. -/
def decodeText : Decoder String := fun bytes => do
  let (count, bytes) ← decodeWord bytes
  decodeTextBody count bytes

/-- The index of the kind of an operator. -/
def operatorIndex : Operator → Nat
  | .and => 0
  | .xor => 1
  | .inv => 2
  | .buf => 3
  | .cell _ => 4

/-- What follows the index of an operator: the name of a cell. -/
def encodeOperatorBody : Operator → List UInt8
  | .cell name => encodeText name
  | _ => []

/-- An operator: the index of its kind, and the name of a cell. -/
def encodeOperator (operator : Operator) : List UInt8 :=
  encodeIndex (operatorIndex operator) ++ encodeOperatorBody operator

/-- An operator of the kind with the given index. -/
def decodeOperatorBody : Nat → Decoder Operator
  | 0, bytes => .ok (.and, bytes)
  | 1, bytes => .ok (.xor, bytes)
  | 2, bytes => .ok (.inv, bytes)
  | 3, bytes => .ok (.buf, bytes)
  | 4, bytes => do
    let (name, bytes) ← decodeText bytes
    return (.cell name, bytes)
  | index, _ => .error (.variant index 5)

/-- An operator: the index of its kind, and the name of a cell. -/
def decodeOperator : Decoder Operator := fun bytes => do
  let (index, bytes) ← decodeIndex bytes
  decodeOperatorBody index bytes

/-- A gate: its operator, its inputs, and its output. -/
def encodeGate (node : Gate) : List UInt8 :=
  encodeOperator node.operator ++ encodeList encodeWord node.inputs ++ encodeWord node.output

/-- A gate: its operator, its inputs, and its output. -/
def decodeGate : Decoder Gate := fun bytes => do
  let (operator, bytes) ← decodeOperator bytes
  let (inputs, bytes) ← decodeList decodeWord bytes
  let (output, bytes) ← decodeWord bytes
  return (⟨operator, inputs, output⟩, bytes)

/-- A bridge: its arithmetic wire and the bounds of its Boolean wires. -/
def encodeBridge (bridge : Bridge) : List UInt8 :=
  encodeWord bridge.arithmetic ++ encodeWord bridge.low ++ encodeWord bridge.high

/-- A bridge: its arithmetic wire and the bounds of its Boolean wires. -/
def decodeBridge : Decoder Bridge := fun bytes => do
  let (arithmetic, bytes) ← decodeWord bytes
  let (low, bytes) ← decodeWord bytes
  let (high, bytes) ← decodeWord bytes
  return (⟨arithmetic, low, high⟩, bytes)

/-- The index of the kind of a step. -/
def stepIndex : Step → Nat
  | .sizeHint _ _ => 0
  | .input _ => 1
  | .boolean _ => 2
  | .bridge _ => 3
  | .arithmetic _ => 4
  | .assertZero _ => 5

/-- What follows the index of a step. -/
def encodeStepBody : Step → List UInt8
  | .sizeHint arithmetic boolean => encodeWord arithmetic ++ encodeWord boolean
  | .input wire => encodeWord wire
  | .boolean node => encodeGate node
  | .bridge bridge => encodeBridge bridge
  | .arithmetic node => encodeGate node
  | .assertZero wire => encodeWord wire

/-- A step: the index of its kind, and what belongs to it. -/
def encodeStep (step : Step) : List UInt8 :=
  encodeIndex (stepIndex step) ++ encodeStepBody step

/-- A step of the kind with the given index. -/
def decodeStepBody : Nat → Decoder Step
  | 0, bytes => do
    let (arithmetic, bytes) ← decodeWord bytes
    let (boolean, bytes) ← decodeWord bytes
    return (.sizeHint arithmetic boolean, bytes)
  | 1, bytes => do
    let (wire, bytes) ← decodeWord bytes
    return (.input wire, bytes)
  | 2, bytes => do
    let (node, bytes) ← decodeGate bytes
    return (.boolean node, bytes)
  | 3, bytes => do
    let (bridge, bytes) ← decodeBridge bytes
    return (.bridge bridge, bytes)
  | 4, bytes => do
    let (node, bytes) ← decodeGate bytes
    return (.arithmetic node, bytes)
  | 5, bytes => do
    let (wire, bytes) ← decodeWord bytes
    return (.assertZero wire, bytes)
  | index, _ => .error (.variant index 6)

/-- A step: the index of its kind, and what belongs to it. -/
def decodeStep : Decoder Step := fun bytes => do
  let (index, bytes) ← decodeIndex bytes
  decodeStepBody index bytes

/-- The bytes of a composite circuit. -/
def encode (composite : Composite) : List UInt8 :=
  encodeList encodeStep composite

/-- The composite circuit at the front of some bytes. -/
def decode (bytes : List UInt8) : Except CodecFault Composite := do
  let (composite, _) ← decodeList decodeStep bytes
  return composite

/-- The number is a word, so that its eight bytes determine it. -/
theorem decodeLittleEndian_littleEndian {count value : Nat} (fits : value < Nat.pow 256 count)
    (rest : List UInt8) :
    decodeLittleEndian count (littleEndian count value ++ rest) = .ok (value, rest) := by
  induction count generalizing value with
  | zero =>
    have : value = 0 := by simpa using fits
    simp [decodeLittleEndian, littleEndian, this]
  | succ count ih =>
    have high : value / 256 < Nat.pow 256 count := by
      rw [Nat.div_lt_iff_lt_mul (by decide)]
      simpa [Nat.pow_succ] using fits
    have low : (UInt8.ofNat (value % 256)).toNat = value % 256 := by
      simp
    simp only [littleEndian, List.cons_append, decodeLittleEndian, ih high]
    simp only [bind, Except.bind, pure, Except.pure, low, Nat.mod_add_div]

end Netlist.Composite
