import Netlist.Bristol.Evaluator
import Netlist.Bristol.Writer
import Netlist.Circuit.Compaction
import Netlist.Circuit.Document
import Netlist.Circuit.Liveness
import Netlist.Circuit.Schedule
import Netlist.Command.Options
import Netlist.Command.Program
import Netlist.Composite.Codec
import Netlist.Connection.Reader
import Netlist.Design.Flattening
import Netlist.Example
import Netlist.Lint
import Netlist.Source
import Netlist.Statistics

/-!
# Tools

The tools of the command line. A netlist is read from the given files, from the
netlists in the given directories, or from the standard input; it is linted
before it is flattened; and an output is opened, which empties any file that was
there, only when nothing can go wrong any more.
-/

namespace Netlist.Command

/-- The tools. -/
inductive Tool where
  | example
  | lint
  | toBristol
  | toJson
  | toYaml
  | metrics
  | compose
  | evaluate
  | listChecks
  | help
  deriving DecidableEq, Repr

/-- The tool of a name. -/
def Tool.ofName? : String → Option Tool
  | "example" => some .example
  | "lint" => some .lint
  | "to-bristol" => some .toBristol
  | "to-json" => some .toJson
  | "to-yaml" => some .toYaml
  | "metrics" => some .metrics
  | "compose" => some .compose
  | "evaluate" => some .evaluate
  | "list-checks" => some .listChecks
  | "help" => some .help
  | _ => none

/-! ### Reading netlists -/

/-- The netlists that a path stands for, among a number of paths. -/
def filesOf (pathCount : Nat) (path : Path) : Routine (List Path) := do
  if path.isNetlist then return [path]
  else if path.isDash then
    if 1 < pathCount then Routine.refuse .filesAndInput else return [path]
  else
    let names ← Routine.list path
    return (names.map path.join).filter Path.isNetlist

/-- The netlists that some paths stand for. There must be one. -/
def listFiles (paths : List Path) : Routine (List Path) := do
  let files ← paths.mapM (filesOf paths.length)
  if files.flatten.isEmpty then Routine.refuse .noNetlist else return files.flatten

/-- The text of a file. The file is named before it is read. -/
def readSource (file : Path) : Routine Source := do
  Routine.note s!"Reading {file.text}\n"
  let text ← Routine.readText file
  return Source.ofFile file text

/-- The texts of files, in the order of their paths, or that of the standard
input. -/
def readSources (files : List Path) : Routine (List Source) := do
  match files with
  | [file] =>
    if file.isDash then return [Source.ofText (← Routine.readInput)]
    else return [← readSource file]
  | _ => (files.mergeSort Path.le).mapM readSource

/-- Read the netlists that some paths stand for as one. -/
def loadDesign (domain : Domain) (top : Option String) (paths : List Path) : Routine Design := do
  let files ← listFiles paths
  let sources ← readSources files
  match Source.readDesign domain top sources with
  | .error failure => Routine.fail failure
  | .ok design =>
    Routine.perform (.log (Source.event design))
    return design

/-! ### Flattening -/

/-- Pass a circuit through the steps that are asked for. -/
def simplify (options : Options) (circuit : Circuit) : Report Circuit := do
  let circuit ← if options.eliminateDead then circuit.eliminateDead else pure circuit
  return if options.compact then circuit.compact else circuit

/-- Lint a design, flatten it, schedule its gates, and pass it through the steps
that are asked for. Any finding stops it. -/
def flattenLinted (options : Options) (design : Design) : Report Circuit := do
  Report.emit (Linter.events design)
  (Linter.empty.ingest design).ensureClean (design.top.getD "")
  let circuit ← design.flatten
  let circuit ← circuit.schedule
  simplify options circuit

/-- The flat circuit of the netlists that the paths stand for. -/
def loadCircuit (options : Options) : Routine Circuit := do
  let design ← loadDesign .boolean options.top options.paths
  Routine.ofReport (flattenLinted options design)

/-! ### Tools -/

/-- Tell whether there were violations, and fail if so. -/
def reportViolations (violations : List String) (claim : String) : Routine Unit := do
  Routine.note "\n"
  if violations.isEmpty then Routine.note s!"The circuit is {claim}!\n"
  else
    let items := String.intercalate "\n- " violations
    Routine.note s!"The circuit is NOT {claim}!\n"
    Routine.note s!"Violations:\n- {items}\n\n"
    Routine.refuse (.violations violations.length)

/-- Write the examples into a directory. -/
def runExample (options : Options) : Routine Unit := do
  match options.paths with
  | [directory] =>
    let composite := directory.join "composite"
    Routine.ofFile (← Routine.perform (.makeDirectories composite))
    let write (file : Path) (text : String) : Routine Unit := do
      Routine.openOutput file
      Routine.fillOutput file (Text.Utf8.encode text)
    write (directory.join "hierarchy.blif") Example.hierarchyBlif
    write (directory.join "hierarchy.witness") Example.hierarchyWitness
    write (composite.join "boolean.blif") Example.booleanWordBlif
    write (composite.join "arithmetic.blif") Example.arithmeticBlif
    write (composite.join "connection.blif") Example.connectionBlif
  | _ => Routine.refuse .exampleDirectory

/-- Check every module of a netlist. -/
def runLint (options : Options) : Routine Unit := do
  let design ← loadDesign .boolean options.top options.paths
  Routine.logAll (Linter.events design)
  let linter := Linter.empty.ingest design
  Routine.note s!"Checked {linter.modulesChecked} modules.\n"
  reportViolations linter.violations "CLEAN"

/-- Write the circuit of a netlist in Bristol format. -/
def runToBristol (options : Options) : Routine Unit := do
  let circuit ← loadCircuit options
  Routine.openOutput options.output
  let text ← Routine.ofResult circuit.toBristol
  Routine.fillOutput options.output (Text.Utf8.encode text)

/-- Print the circuit of a netlist as JSON. -/
def runToJson (options : Options) : Routine Unit := do
  let circuit ← loadCircuit options
  Routine.print (circuit.toJson ++ "\n")

/-- Print the circuit of a netlist as YAML. -/
def runToYaml (options : Options) : Routine Unit := do
  let circuit ← loadCircuit options
  Routine.print (circuit.toYaml ++ "\n")

/-- The extension of files with composite circuits. -/
def compositeExtension : String := "bin"

/-- The composite circuit in a file. -/
def readComposite (file : Path) : Routine Composite := do
  match ← Routine.perform (.read file) with
  | .ok bytes => Routine.ofResult ((Composite.decode bytes).mapError .encoding)
  | .error .isDirectory => Routine.fail (.netlist (.encoding (.unreadable .isDirectory)))
  | .error fault => Routine.fail (.file fault)

/-- The counts of a netlist and its circuit. -/
def measureNetlist (options : Options) : Routine Statistics := do
  let design ← loadDesign .boolean options.top options.paths
  let circuit ← Routine.ofReport (flattenLinted options design)
  return (Statistics.zero.addDesign design).addCircuit circuit

/-- The counts of a composite circuit. -/
def measureComposite (file : Path) : Routine Statistics := do
  let composite ← readComposite file
  return Statistics.zero.addComposite composite

/-- The counts of a composite circuit, if that is the only path, or of a netlist
and its circuit. -/
def measure (options : Options) : Routine Statistics :=
  match options.paths with
  | [file] =>
    if file.extension? = some compositeExtension then measureComposite file
    else measureNetlist options
  | _ => measureNetlist options

/-- Print counts as JSON. -/
def runMetrics (options : Options) : Routine Unit := do
  let counts ← measure options
  Routine.print (String.ofList (counts.toJson.spread 0) ++ "\n")

/-- A path that must be given. -/
def required (path : Option Path) (complaint : Complaint) : Routine Path :=
  match path with
  | some path => pure path
  | none => Routine.refuse complaint

/-- Write the composite circuit of a Boolean and an arithmetic netlist. The top
that is asked for is that of the Boolean one. -/
def runCompose (options : Options) : Routine Unit := do
  let arithmeticPath ← required options.arithmetic .noArithmetic
  let connectionPath ← required options.connection .noConnection
  let booleanDesign ← loadDesign .boolean options.top options.paths
  let boolean ← Routine.ofReport (flattenLinted options booleanDesign)
  let arithmeticDesign ← loadDesign .arithmetic none [arithmeticPath]
  let arithmetic ← Routine.ofReport (flattenLinted options arithmeticDesign)
  let text ← Routine.readText connectionPath
  let connection ← Routine.ofReport <| Connection.read text
    (options.booleanTop.getD boolean.name) (options.arithmeticTop.getD arithmetic.name)
    booleanDesign.allocator arithmeticDesign.allocator
  let composite ← Routine.ofReport (Composite.compose boolean arithmetic connection)
  Routine.openOutput options.output
  Routine.fillOutput options.output composite.encode

/-- The line of an output and its value. -/
def outputLine (output : Wire × Bool) : String :=
  let bit := if output.2 then "1" else "0"
  s!"Output {output.1} :: {bit}\n"

/-- Evaluate a circuit on a witness and print its outputs. -/
def runEvaluate (options : Options) : Routine Unit := do
  match options.paths with
  | [circuitPath] =>
    let witnessPath ← required options.witness .noWitness
    let witness ← Routine.readText witnessPath
    let (ready, accepted) := (Bristol.Evaluator.empty options.constants).addWitness witness
    Routine.ofResult accepted
    let circuit ← Routine.readText circuitPath
    let (last, events) := ready.runCircuit circuit
    Routine.logAll events
    Routine.print (String.join (last.outputs.map outputLine))
    reportViolations last.violations "EVALUATED"
  | _ => Routine.refuse .singleCircuit

/-- Print the checks of the linter. -/
def runListChecks : Routine Unit :=
  Routine.print (Linter.checkList ++ "\n")

/-- The help text. -/
def helpText : String :=
  "Flatten hierarchical netlists into Bristol circuits.\n\n" ++
  "    netlist <tool> [paths] [options]\n\n" ++
  "The paths are directories with .blif or .json files, or such files, or a dash for\n" ++
  "the standard input. The tools are\n\n" ++
  "    example       Write example netlists into a directory.\n" ++
  "    lint          Check that every output, gate input and subcircuit input is driven.\n" ++
  "    to-bristol    Lint, flatten, and write a Bristol circuit.\n" ++
  "    to-json       Flatten, and print the circuit as JSON.\n" ++
  "    to-yaml       Flatten, and print the circuit as YAML.\n" ++
  "    metrics       Count what a netlist or a composite circuit (.bin) is made of.\n" ++
  "    compose       Join a Boolean and an arithmetic netlist into a composite circuit.\n" ++
  "    evaluate      Evaluate a Bristol circuit on a witness.\n" ++
  "    list-checks   List the checks of the linter.\n\n" ++
  "and the options\n\n" ++
  "    -o, --output <file>              where to write the circuit\n" ++
  "        --top <name>                 the top module\n" ++
  "    -w, --witness <file>             the bits for the inputs, as 0 and 1\n" ++
  "        --constants                  wires 0 and 1 hold false and true\n" ++
  "        --compact                    renumber internal wires\n" ++
  "        --eliminate-dead             drop gates that no output depends on\n" ++
  "        --arithmetic <netlist>       the arithmetic netlist to compose\n" ++
  "        --connection <netlist>       the netlist that connects both circuits\n" ++
  "        --connection-bool-top <name>   name of the Boolean circuit there\n" ++
  "        --connection-arith-top <name>  name of the arithmetic circuit there\n"

/-- Print the help text. -/
def runHelp : Routine Unit :=
  Routine.print helpText

/-- Run a tool. -/
def runTool (options : Options) : Tool → Routine Unit
  | .example => runExample options
  | .lint => runLint options
  | .toBristol => runToBristol options
  | .toJson => runToJson options
  | .toYaml => runToYaml options
  | .metrics => runMetrics options
  | .compose => runCompose options
  | .evaluate => runEvaluate options
  | .listChecks => runListChecks
  | .help => runHelp

/-- Run the tool that the options name. -/
def runOptions (options : Options) : Routine Unit :=
  match Tool.ofName? options.tool with
  | some tool => runTool options tool
  | none => do
    runHelp
    Routine.refuse (.unknownTool options.tool)

end Netlist.Command
