import Netlist.Error
import Netlist.Wire.Ascending

/-!
# Connections

A connection joins a Boolean circuit to an arithmetic one. Each bridge packs 64
Boolean wires, numbered without gaps, into the value of one arithmetic wire. The
wires of a connection have names of their own, which stand for wires of either
circuit.
-/

namespace Netlist

/-- Number of Boolean wires that one bridge packs. -/
def bridgeWidth : Nat := 64

/-- The Boolean wires from `low` up to but not including `high`, low bit first,
as the value of an arithmetic wire. -/
structure Bridge where
  arithmetic : Wire
  low : Wire
  high : Wire
  deriving DecidableEq, Repr

/-- The Boolean wires of a bridge. -/
def Bridge.wires (bridge : Bridge) : List Wire :=
  List.range' bridge.low (bridge.high - bridge.low)

/-- The bridge of some Boolean wires, which must be as many distinct wires as a
bridge has, without gaps, in any order. -/
def Bridge.ofWires (arithmetic : Wire) (wires : List Wire) : Except Error Bridge :=
  let low := wires.min?.getD 0
  let high := (wires.max?.map (· + 1)).getD 0
  if wires.length = bridgeWidth ∧ (Wire.ascending wires).length = bridgeWidth ∧
      high - low = bridgeWidth then
    .ok ⟨arithmetic, low, high⟩
  else .error (.bridgeWidthMismatch low wires.length)

/-- Names with the wires that they stand for, each name once. -/
abbrev WireTable := List (String × Wire)

/-- Let a name stand for a wire, instead of any other that it stood for. -/
def WireTable.set (name : String) (wire : Wire) : WireTable → WireTable
  | [] => [(name, wire)]
  | (other, old) :: rest =>
    if other = name then (other, wire) :: rest else (other, old) :: WireTable.set name wire rest

/-- The names of a connection and its bridges. -/
structure Connection where
  boolean : WireTable
  arithmetic : WireTable
  bridges : List Bridge
  deriving DecidableEq, Repr

namespace Connection

/-- A connection that joins nothing. -/
def empty : Connection :=
  ⟨[], [], []⟩

/-- The names for wires of one circuit. -/
def table (connection : Connection) : Domain → WireTable
  | .boolean => connection.boolean
  | .arithmetic => connection.arithmetic

/-- Let a name stand for a wire of one circuit. -/
def bind (connection : Connection) (domain : Domain) (name : String) (wire : Wire) : Connection :=
  match domain with
  | .boolean => { connection with boolean := connection.boolean.set name wire }
  | .arithmetic => { connection with arithmetic := connection.arithmetic.set name wire }

/-- The wire of one circuit that a name stands for. -/
def wire (connection : Connection) (domain : Domain) (name : String) : Except Error Wire :=
  match (connection.table domain).lookup name with
  | some wire => .ok wire
  | none => .error (.unboundWire name domain)

end Connection

end Netlist
