import Netlist.Design
import Netlist.Json.Reader
import Netlist.Yosys.Schema

/-!
# Reading JSON netlists

Wires are named by the numbers of their nets. The bits of a port are declared in
reverse order. A cell whose type names a module of the netlist is an instance of
it; any other cell is one gate for each bit of its outputs. Unless another top is
asked for, the first of the modules with the most cells is the top.
-/

namespace Netlist.Yosys

/-- A step that may number wires and may fail. -/
abbrev Numbered := StateT Allocator (Except Error)

/-- Fail on the text as a whole. -/
def refuse {α : Type} (fault : Fault) : Numbered α :=
  throw (.parse 0 fault)

/-- The wire of a name, numbered if need be. -/
def wireNamed (name : String) : Numbered Wire := fun allocator =>
  allocator.allocate name

/-- The wire of a bit. -/
def wireOf : Bit → Numbered Wire
  | .net number => wireNamed (toString number)
  | .constant "0" => wireNamed falseName
  | .constant "1" => wireNamed trueName
  | .constant text => refuse (.constantBit text)

/-- Declare one bit of a port. -/
def declareBit (name direction : String) (module : Module) (bit : Bit) : Numbered Module := do
  let wire ← wireOf bit
  match direction with
  | "input" => return module.addInput wire
  | "output" => return module.addOutput wire
  | "inout" => return (module.addInput wire).addOutput wire
  | _ => refuse (.portDirection name direction)

/-- Declare a port. -/
def declarePort (module : Module) (port : String × Port) : Numbered Module :=
  port.2.bits.reverse.foldlM (declareBit port.1 port.2.direction) module

/-- The pairings of one connection of an instance, bit by bit. -/
def connectionPairings (cell : String) (callee : ModuleSource) (connection : String × List Bit) :
    Numbered (List Pairing) := do
  let (name, bits) := connection
  match callee.ports.lookup name with
  | none => refuse (.cell cell (.noPort callee.name name))
  | some port =>
    if port.bits.length ≠ bits.length then refuse (.cell cell (.width name))
    (bits.zip port.bits).mapM fun (callerBit, calleeBit) => do
      let caller ← wireOf callerBit
      let callee ← wireOf calleeBit
      return ⟨caller, callee⟩

/-- Add an instance. -/
def addInstance (cell : String) (callee : ModuleSource) (connections : List (String × List Bit))
    (module : Module) : Numbered Module := do
  let pairings ← connections.mapM (connectionPairings cell callee)
  return module.addInstance (.unresolved callee.name pairings.flatten)

/-- The wires of a cell's inputs and of its outputs, in order. -/
def cellWires (cell : String) (directions : List (String × String)) :
    List (String × List Bit) → Numbered (List Wire × List Wire)
  | [] => return ([], [])
  | (name, bits) :: rest => do
    let wires ← bits.mapM wireOf
    match directions.lookup name with
    | some "output" =>
      let (inputs, outputs) ← cellWires cell directions rest
      return (inputs, wires ++ outputs)
    | some "input" =>
      let (inputs, outputs) ← cellWires cell directions rest
      return (wires ++ inputs, outputs)
    | _ => refuse (.cell cell (.direction name))

/-- Add the gates of a cell. -/
def addGates (name : String) (cell : Cell) (connections : List (String × List Bit))
    (module : Module) : Numbered Module := do
  let directions ← entries text .portDirection cell.directions
  let (inputs, outputs) ← cellWires name directions connections
  let operator := Operator.ofName cell.kind
  match operator.arity? with
  | some arity =>
    if inputs.length ≠ arity then refuse (.cell name (.arity operator arity inputs.length))
  | none => pure ()
  return outputs.foldl (fun module output => module.addGate ⟨operator, inputs, output⟩) module

/-- Add a cell. -/
def addCell (sources : List ModuleSource) (module : Module) (entry : String × Cell) :
    Numbered Module := do
  let (name, cell) := entry
  let connections ← entries bits .connection cell.connections
  match sources.find? fun source => source.name = cell.kind with
  | some callee => addInstance name callee connections module
  | none => addGates name cell connections module

/-- The module that a source describes. -/
def buildModule (sources : List ModuleSource) (source : ModuleSource) : Numbered Module := do
  let allocator ← get
  let declared ← source.ports.foldlM declarePort (Module.empty source.name allocator.domain)
  source.cells.foldlM (addCell sources) declared

/-- The modules of all sources, in order. -/
def buildModules (sources : List ModuleSource) : Numbered (List Module) :=
  sources.mapM (buildModule sources)

/-- The first of the modules with the most cells. -/
def busiest? : List ModuleSource → Option ModuleSource
  | [] => none
  | first :: rest =>
    some (rest.foldl (fun best source =>
      if best.cells.length < source.cells.length then source else best) first)

/-- Read a text as a netlist, numbering wires with the given allocator, and
resolve its instances. -/
def readText (allocator : Allocator) (top : Option String) (source : String) :
    Except Error Design := do
  let root ← (Json.read source).mapError fun line => Error.parse line .notJson
  let sources ← moduleSources root
  let (modules, allocator) ← (buildModules sources).run allocator
  let design := modules.foldl Design.insert (Design.empty allocator)
  let design ← match top.or ((busiest? sources).map ModuleSource.name) with
    | some name => design.setTop name
    | none => pure design
  design.resolved?

end Netlist.Yosys
