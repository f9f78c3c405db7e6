import Netlist.Error

/-!
# Failures of tools

A tool fails because of its netlist, because of a file, or because it was asked
for something that makes no sense.
-/

namespace Netlist

/-- What makes no sense about a request. -/
inductive Complaint where
  | mixedFormats
  | noNetlist
  | filesAndInput
  | exampleDirectory
  | singleCircuit
  | noWitness
  | noArithmetic
  | noConnection
  | violations (count : Nat)
  | unknownTool (name : String)
  deriving DecidableEq, Repr

/-- The words for a complaint. -/
def Complaint.message : Complaint → String
  | mixedFormats => "A JSON netlist cannot be combined with other files."
  | noNetlist => "No netlist found (.blif or .json)."
  | filesAndInput => "Cannot combine files and stdin"
  | exampleDirectory => "Specify a single directory where to write examples."
  | singleCircuit => "Specify a single Bristol circuit to evaluate."
  | noWitness => "evaluate needs --witness <file>"
  | noArithmetic => "compose needs --arithmetic <netlist>"
  | noConnection => "compose needs --connection <netlist>"
  | violations count => s!"Found {count} violations."
  | unknownTool name => s!"Unknown command {name}"

/-- Why a tool fails. -/
inductive Failure where
  | netlist (error : Error)
  | file (fault : FileFault)
  | request (complaint : Complaint)

/-- The words for a failure. -/
def Failure.message : Failure → String
  | netlist error => error.message
  | file fault => fault.message
  | request complaint => complaint.message

end Netlist
