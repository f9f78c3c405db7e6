import Netlist.Blif.Record
import Netlist.Connection
import Netlist.Event
import Netlist.Wire.Allocator

/-!
# Reading connections

A connection is written in records. A gate named like one of the two circuits
gives names to wires of that circuit: each pin is a wire of the circuit, and the
wire bound to it is its name within the connection. A conversion gate makes a
bridge of such names, the arithmetic one first. Conversions are looked up when
all records have been read, so they may stand before the names they use.
-/

namespace Netlist.Connection

open Netlist.Blif

/-- Name of the conversion gate, in any case. -/
def conversionName : String := "BtoA"

/-- Upper case in ASCII. -/
def upperCase (text : String) : List Char :=
  text.toList.map Char.toUpper

/-- The gate is a conversion. -/
def isConversion (operator : String) : Bool :=
  upperCase operator = upperCase conversionName

/-- One of the two circuits that are joined. -/
structure Side where
  domain : Domain
  /-- The name of the circuit in the connection. -/
  top : String
  /-- The allocator that numbered the circuit. -/
  wires : Allocator

/-- A conversion gate, by the names of its wires. -/
structure Conversion where
  line : Nat
  arithmetic : String
  boolean : List String
  deriving DecidableEq, Repr

/-- What was read so far: names for wires, and conversions. -/
structure Draft where
  connection : Connection
  conversions : List Conversion

/-- Let a binding of a circuit's gate give a name to one of its wires. -/
def bindToken (side : Side) (line : Nat) (connection : Connection) (token : String) :
    Except Error Connection := do
  let (pin, name) ← splitBinding line token
  match side.wires.lookup pin with
  | some wire => return connection.bind side.domain name wire
  | none => throw (.unboundWire pin side.domain)

/-- The conversion that some bindings describe. -/
def readConversion (line : Nat) (bindings : List String) : Except Error Conversion := do
  let names ← bindings.mapM fun token => do
    let (_, name) ← splitBinding line token
    return name
  match names with
  | [] => throw (.parse line .conversionOutput)
  | arithmetic :: boolean => return ⟨line, arithmetic, boolean⟩

/-- Take a gate. The first side whose name it has is meant. -/
def takeGate (sides : List Side) (draft : Draft) (line : Nat) :
    List String → Except Error Draft
  | [] => .error (.parse line .gateOperator)
  | operator :: bindings =>
    match sides.find? fun side => side.top = operator with
    | some side => do
      let connection ← bindings.foldlM (bindToken side line) draft.connection
      return { draft with connection }
    | none =>
      if isConversion operator then do
        let conversion ← readConversion line bindings
        return { draft with conversions := draft.conversions ++ [conversion] }
      else .error (.unknownOperator operator)

/-- Take a record. Ports and the frame of the model mean nothing here, and
instances are refused. -/
def takeRecord (sides : List Side) (draft : Draft) (record : Record) : Except Error Draft :=
  match record.keyword with
  | ".model" | ".inputs" | ".outputs" | ".end" => .ok draft
  | ".subckt" => .error (.nestedConnection (record.args.headD ""))
  | ".gate" => takeGate sides draft record.line record.args
  | keyword => .error (.parse record.line (.unknownKeyword keyword))

/-- The bridge that a conversion makes. -/
def bridgeOf (connection : Connection) (conversion : Conversion) : Except Error Bridge := do
  let arithmetic ← connection.wire .arithmetic conversion.arithmetic
  let wires ← conversion.boolean.mapM (connection.wire .boolean)
  Bridge.ofWires arithmetic wires

/-- Make the bridges of some conversions, and report each. -/
def makeBridges (connection : Connection) : List Conversion → Report Connection
  | [] => .ok connection
  | conversion :: rest =>
    match connection.bridgeOf conversion with
    | .error error => .fail error
    | .ok bridge =>
      (Report.emit [.bridge conversion.line bridge.low bridge.high bridge.arithmetic]).bind fun _ =>
      makeBridges { connection with bridges := connection.bridges ++ [bridge] } rest

/-- Read a connection between a Boolean and an arithmetic circuit. -/
def read (text booleanTop arithmeticTop : String) (booleanWires arithmeticWires : Allocator) :
    Report Connection :=
  let boolean : Side := ⟨.boolean, booleanTop, booleanWires⟩
  let arithmetic : Side := ⟨.arithmetic, arithmeticTop, arithmeticWires⟩
  match (records text).foldlM (takeRecord [boolean, arithmetic]) ⟨empty, []⟩ with
  | .error error => .fail error
  | .ok draft => makeBridges draft.connection draft.conversions

end Netlist.Connection
