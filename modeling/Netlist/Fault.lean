import Netlist.Gate
import Netlist.Json.Mismatch

/-!
# Faults of an input text

The ways in which a line of a netlist, a witness or a circuit can be wrong, and
the words for each.
-/

namespace Netlist

/-- What an object of a JSON netlist lists. -/
inductive Section where
  | module
  | port
  | cell
  | connection
  | portDirection
  deriving DecidableEq, Repr

/-- The words for what a section lists. -/
def Section.title : Section → String
  | module => "module"
  | port => "port"
  | cell => "cell"
  | connection => "connection"
  | portDirection => "port direction"

/-- What is wrong with a cell of a JSON netlist. -/
inductive CellFault where
  | noPort (module port : String)
  | width (port : String)
  | direction (port : String)
  | arity (operator : Operator) (expected found : Nat)

/-- The words for a wrong number of inputs. -/
def arityMessage (operator : Operator) (expected found : Nat) : String :=
  s!"{operator.name} takes {expected} inputs, got {found}"

/-- The words for what is wrong with a cell. -/
def CellFault.message : CellFault → String
  | noPort module port => s!"module '{module}' has no port '{port}'"
  | width port => s!"port '{port}' width mismatch"
  | direction port => s!"port '{port}' has no usable direction"
  | arity operator expected found => arityMessage operator expected found

/-- What is wrong with an input text. -/
inductive Fault where
  /-- A token of a gate or an instance does not bind a wire to a pin. -/
  | binding (token : String)
  /-- A model begins inside another one. -/
  | nestedModel (outer : String)
  | modelName
  | duplicateModel (name : String)
  /-- The text ends inside a model. -/
  | openModel (name : String)
  /-- A line of a truth table, other than that of a buffer or of a constant. -/
  | cover (line : String)
  | gateOperands
  | arity (operator : Operator) (expected found : Nat)
  | instanceName
  | repeatedPin (pin : String)
  | bufferShape (keyword : String)
  | endWithoutModel
  | unknownKeyword (keyword : String)
  | outsideModel
  | gateOperator
  | conversionOutput
  /-- The text is no JSON. -/
  | notJson
  | noModules
  | notObject (listing : Section)
  | entry (listing : Section) (name : String) (mismatch : Json.Mismatch)
  | constantBit (constant : String)
  | portDirection (port direction : String)
  | cell (name : String) (fault : CellFault)
  | witnessBit (character : Char)
  | circuitHeader
  | emptyCircuit
  | circuitLine (line : String)

/-- The words for what is wrong with an input text. -/
def Fault.message : Fault → String
  | binding token => s!"expected pin=wire, got '{token}'"
  | nestedModel outer => s!"nested .model inside '{outer}'"
  | modelName => ".model takes exactly one name"
  | duplicateModel name => s!"duplicate model '{name}'"
  | openModel name => s!"end of file inside model '{name}'"
  | cover line => s!"unsupported logic cover '{line}'"
  | gateOperands => ".gate needs an operator and an output"
  | arity operator expected found => arityMessage operator expected found
  | instanceName => ".subckt needs a model name"
  | repeatedPin pin => s!"pin '{pin}' bound twice"
  | bufferShape keyword => s!"{keyword} is only supported as a two-wire buffer"
  | endWithoutModel => ".end without .model"
  | unknownKeyword keyword => s!"unknown keyword '{keyword}'"
  | outsideModel => "record outside of a .model"
  | gateOperator => ".gate needs an operator"
  | conversionOutput => "BtoA needs an arithmetic output"
  | notJson => "not a JSON text"
  | noModules => "missing 'modules'"
  | notObject listing => s!"{listing.title} must be an object"
  | entry listing name mismatch => s!"{listing.title} '{name}': {mismatch.message}"
  | constantBit constant => s!"unsupported constant bit '{constant}'"
  | portDirection port direction => s!"port '{port}' has unknown direction '{direction}'"
  | cell name fault => s!"cell '{name}': {fault.message}"
  | witnessBit character => s!"bad witness bit {Text.quotedChar character}"
  | circuitHeader => "expected '<gates> <wires>'"
  | emptyCircuit => "empty circuit"
  | circuitLine line => s!"malformed gate line '{line}'"

end Netlist
