import Netlist.Blif.Record
import Netlist.Design
import Netlist.WireSets

/-!
# Reading BLIF

A reader takes the records of a netlist one after the other. It numbers wires
when it first meets their names, collects the model that is open, and adds it to
the design at its end. The sets of wires of each model are kept beside it. A
record that is refused leaves the reader as far as it got, so that wires named by
the record stay numbered.
-/

namespace Netlist.Blif

/-- How far the reading of a netlist has got. -/
structure Reader where
  design : Design
  /-- The model that is open. -/
  current : Option Module
  /-- The only line of a truth table that may follow. -/
  cover : Option String
  /-- The line of the last record. -/
  lastLine : Nat
  /-- The sets of wires that are kept beside the modules of the design, in their order. -/
  sets : List WireSets
  /-- The sets of wires that are kept beside the model that is open. -/
  openSets : WireSets

namespace Reader

/-- A reader that numbers wires with the given allocator. -/
def start (allocator : Allocator) : Reader :=
  ⟨Design.empty allocator, none, none, 0, [], .empty⟩

/-- A step that changes the reader and may fail. A failure keeps the changes
before it. -/
abbrev Step := ExceptT Error (StateM Reader)

/-- Fail on a line. -/
def refuse {α : Type} (line : Nat) (fault : Fault) : Step α :=
  throw (.parse line fault)

/-- The wire of a name, numbered if need be. -/
def wireOf (name : String) : Step Wire := do
  let reader ← get
  let (wire, allocator) ← reader.design.allocator.allocate name
  set { reader with design := { reader.design with allocator } }
  return wire

/-- The model that is open. -/
def openModule (line : Nat) : Step Module := do
  match (← get).current with
  | some module => return module
  | none => refuse line .outsideModel

/-- Change the model that is open, and the sets that are kept beside it. -/
def updateModule (line : Nat) (change : Module → Module) (keep : WireSets → WireSets) :
    Step Unit := do
  let module ← openModule line
  modify fun reader =>
    { reader with current := some (change module), openSets := keep reader.openSets }

/-- Append a gate to the model that is open. Its wires join the sets of gate wires. -/
def appendGate (line : Nat) (gate : Gate) : Step Unit :=
  updateModule line (fun module => module.addGate gate) fun sets => sets.addGate gate

/-- Expect a line of a truth table, or none. -/
def expectCover (cover : Option String) : Step Unit :=
  modify fun reader => { reader with cover }

/-- The cover of a buffer. -/
def bufferCover : String := "1 1"

/-- The cover of the constant true. -/
def trueCover : String := "1"

/-- Name of the net without a value. It is left undriven. -/
def undefinedName : String := "$undef"

/-- The nets that are declared without a gate. -/
def isConstantNet (name : String) : Bool :=
  IsConstantName name || name = undefinedName

/-- Open a model. -/
def beginModel (line : Nat) (args : List String) : Step Unit := do
  let reader ← get
  match reader.current, args with
  | some outer, _ => refuse line (.nestedModel outer.name)
  | none, [name] =>
    if reader.design.contains name then refuse line (.duplicateModel name)
    else
      set { reader with
        current := some (Module.empty name reader.design.domain)
        openSets := .empty }
  | none, _ => refuse line .modelName

/-- Declare ports. -/
def declarePorts (line : Nat) (add : Module → Wire → Module) (args : List String) : Step Unit := do
  let wires ← (busOrder args).mapM wireOf
  updateModule line (fun module => wires.foldl add module) id

/-- The wires of the bindings of a gate, in order. -/
def boundWires (line : Nat) (bindings : List String) : Step (List Wire) :=
  bindings.mapM fun token => do
    let (_, name) ← splitBinding line token
    wireOf name

/-- Add a gate: an operator and its bindings, the last of which is the output. -/
def addGate (line : Nat) : List String → Step Unit
  | operatorName :: first :: rest => do
    let operator := Operator.ofName operatorName
    let wires ← boundWires line (first :: rest)
    let inputs := wires.dropLast
    match operator.arity? with
    | some arity =>
      if inputs.length ≠ arity then refuse line (.arity operator arity inputs.length)
    | none => pure ()
    appendGate line ⟨operator, inputs, wires.getLastD 0⟩
  | _ => refuse line .gateOperands

/-- The pairings of an instance. No pin may be bound twice. -/
def pairings (line : Nat) (seen : List String) : List String → Step (List Pairing)
  | [] => return []
  | token :: rest => do
    let (pin, name) ← splitBinding line token
    if pin ∈ seen then refuse line (.repeatedPin pin)
    let callee ← wireOf pin
    let caller ← wireOf name
    let others ← pairings line (pin :: seen) rest
    return ⟨caller, callee⟩ :: others

/-- Add an instance of another model. -/
def addInstance (line : Nat) : List String → Step Unit
  | [] => refuse line .instanceName
  | callee :: bindings => do
    let pairings ← pairings line [] bindings
    updateModule line (fun module => module.addInstance (.unresolved callee pairings)) id

/-- Add a buffer between two wires. -/
def addBuffer (line : Nat) (source target : String) : Step Unit := do
  let source ← wireOf source
  let target ← wireOf target
  appendGate line (Gate.copy source target)

/-- Add a buffer, whose cover may follow, or declare a constant net, which needs
no gate. -/
def addNames (line : Nat) : List String → Step Unit
  | [source, target] => do
    addBuffer line source target
    expectCover (some bufferCover)
  | [name] =>
    if isConstantNet name then do
      let _ ← openModule line
      if name = trueName then expectCover (some trueCover)
    else refuse line (.bufferShape ".names")
  | _ => refuse line (.bufferShape ".names")

/-- Add a buffer without a cover. -/
def addConnection (line : Nat) : List String → Step Unit
  | [source, target] => addBuffer line source target
  | _ => refuse line (.bufferShape ".conn")

/-- The reader once the open model is closed and was added to the design, with the sets beside
it. A design that has a model of this name stays as it is. -/
def commit (reader : Reader) (module : Module) : Reader :=
  { reader with
    design := reader.design.insert module
    current := none
    sets := if reader.design.contains module.name then reader.sets
      else reader.sets ++ [reader.openSets] }

/-- Close the open model and add it to the design. -/
def endModel (line : Nat) : Step Unit := do
  let reader ← get
  match reader.current with
  | some module => set (reader.commit module)
  | none => refuse line .endWithoutModel

/-- Take a line of a truth table, which must be the expected one. -/
def takeCover (line : Nat) (cover : String) : Step Unit := do
  if (← get).cover = some cover then expectCover none
  else refuse line (.cover cover)

/-- Take a record that begins with a keyword. -/
def takeKeyword (line : Nat) (keyword : String) (args : List String) : Step Unit :=
  match keyword with
  | ".model" => beginModel line args
  | ".inputs" => declarePorts line Module.addInput args
  | ".outputs" => declarePorts line Module.addOutput args
  | ".gate" => addGate line args
  | ".subckt" => addInstance line args
  | ".names" => addNames line args
  | ".conn" => addConnection line args
  | ".end" => endModel line
  | _ => refuse line (.unknownKeyword keyword)

/-- The record begins with a keyword; any other is a line of a truth table. -/
def hasKeyword (record : Record) : Bool :=
  record.keyword.toList.head? = some '.'

/-- Take a record. -/
def take (record : Record) : Step Unit := do
  modify fun reader => { reader with lastLine := record.line }
  if hasKeyword record then
    expectCover none
    takeKeyword record.line record.keyword record.args
  else takeCover record.line record.text

/-- End a text. A model must end in the text in which it begins. -/
def endText : Step Unit := do
  let reader ← get
  match reader.current with
  | some module => refuse reader.lastLine (.openModel module.name)
  | none => expectCover none

/-- Take a whole text. -/
def takeText (text : String) : Step Unit := do
  (records text).forM take
  endText

/-- The design that was read, once no model is open. -/
def finish : Step Design := do
  endText
  return (← get).design

end Reader

/-- Read texts as one netlist, numbering wires with the given allocator, and
resolve its instances. The top is the first model, unless another one is asked
for. -/
def readTexts (allocator : Allocator) (top : Option String) (texts : List String) :
    Except Error Design := do
  let read : Reader.Step Design := do
    texts.forM Reader.takeText
    Reader.finish
  let design ← (read.run (Reader.start allocator)).1
  let design ← match top with
    | some name => design.setTop name
    | none => pure design
  design.resolved?

end Netlist.Blif
