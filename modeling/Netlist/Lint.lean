import Netlist.Design
import Netlist.Event

/-!
# Structural checks

Each check finds the wires of a module that break one rule about drivers. A
module is clean if no check finds a wire (`isClean_iff`). A netlist is flattened
only if all of its modules are clean.
-/

namespace Netlist

/-- How bad a finding is. Findings of either kind keep a netlist from being
flattened. -/
inductive Severity where
  | warning
  | error
  deriving DecidableEq, Repr

/-- The word for a severity. -/
def Severity.title : Severity → String
  | warning => "Warning"
  | error => "Error"

/-- The level at which a finding is reported. -/
def Severity.level : Severity → Level
  | warning => .warning
  | error => .error

/-- The rules that a module can break. -/
inductive Check where
  /-- Every output is driven. -/
  | undrivenOutput
  /-- Every wire that a gate reads is driven. -/
  | undrivenGateInput
  /-- No wire has more than one driver. -/
  | multiplyDriven
  /-- No wire is both an input and an output. -/
  | aliasConflict
  /-- Every wire that feeds an instance is driven. -/
  | undrivenSubcircuitInput
  deriving DecidableEq, Repr

namespace Check

/-- All checks, in the order in which they are run. -/
def all : List Check :=
  [undrivenOutput, undrivenGateInput, multiplyDriven, aliasConflict, undrivenSubcircuitInput]

/-- How bad it is to break the rule. -/
def severity : Check → Severity
  | undrivenGateInput | multiplyDriven => .error
  | undrivenOutput | aliasConflict | undrivenSubcircuitInput => .warning

/-- What a module that breaks the rule does. -/
def text : Check → String
  | undrivenOutput => "does not emit signals on the outputs"
  | undrivenGateInput => "does not drive the gate inputs"
  | multiplyDriven => "drives wires more than once"
  | aliasConflict => "declares wires both as inputs and as outputs"
  | undrivenSubcircuitInput => "does not provide the subcircuit inputs"

end Check

namespace Module

/-- The wires among the given ones that nothing drives, ascending. -/
def undriven (module : Module) (wires : List Wire) : List Wire :=
  (Wire.ascending wires).filter fun wire => ¬ module.IsDriven wire

/-- The drivers of a module, each as the wire that it drives: constants, inputs,
gates and outputs of instances. A constant is no further driver of itself when
it is declared as an input or comes out of an instance. -/
def drivers (module : Module) : List Wire :=
  List.range module.domain.reserved ++
    module.inputs.filter (fun wire => ¬ module.domain.IsConstant wire) ++
    module.gates.map Gate.output ++
    (module.instances.flatMap fun inner => inner.outputs.map Pairing.caller).filter
      fun wire => ¬ module.domain.IsConstant wire

/-- The wires with more than one driver, ascending. -/
def multiplyDriven (module : Module) : List Wire :=
  let drivers := module.drivers
  (Wire.ascending drivers).filter fun wire => 1 < drivers.count wire

/-- The wires that are both inputs and outputs, ascending. -/
def aliased (module : Module) : List Wire :=
  Wire.ascending (module.outputs.filter (· ∈ module.inputs))

/-- The wires that break a rule, ascending. -/
def offenders (module : Module) : Check → List Wire
  | .undrivenOutput => module.undriven module.outputs
  | .undrivenGateInput => module.undriven module.gateInputs
  | .multiplyDriven => module.multiplyDriven
  | .aliasConflict => module.aliased
  | .undrivenSubcircuitInput => module.undriven module.subcircuitInputs

/-- The broken rules with the wires that break them. -/
def findings (module : Module) : List (Check × List Wire) :=
  (Check.all.map fun check => (check, module.offenders check)).filter
    fun (_, wires) => !wires.isEmpty

/-- The module breaks no rule. -/
def isClean (module : Module) : Bool :=
  module.findings.isEmpty

theorem isClean_iff {module : Module} :
    module.isClean = true ↔ ∀ check, module.offenders check = [] := by
  simp only [isClean, findings, List.isEmpty_iff, List.filter_eq_nil_iff, List.mem_map,
    forall_exists_index, and_imp, forall_apply_eq_imp_iff₂, Bool.not_eq_true, Bool.not_eq_false',
    Check.all, List.isEmpty_iff]
  constructor
  · intro clean check
    exact clean check (by cases check <;> simp)
  · intro clean check _
    exact clean check

end Module

/-- A broken rule of one module, with wires given by name. -/
structure Diagnostic where
  check : Check
  module : String
  wires : List String
  deriving DecidableEq, Repr

namespace Diagnostic

/-- How bad the finding is. -/
def severity (diagnostic : Diagnostic) : Severity :=
  diagnostic.check.severity

/-- The names of the wires, in one line. -/
def wireList (diagnostic : Diagnostic) : String :=
  String.intercalate ", " diagnostic.wires

/-- The words for the finding. -/
def text (diagnostic : Diagnostic) : String :=
  s!"{diagnostic.severity.title}: '{diagnostic.module}' {diagnostic.check.text}: {diagnostic.wireList}"

/-- The error for the first wire of the finding. -/
def toError (diagnostic : Diagnostic) : Error :=
  let wire := diagnostic.wires.headD ""
  match diagnostic.check with
  | .aliasConflict => .aliasConflict diagnostic.module wire
  | .multiplyDriven => .multiplyDriven diagnostic.module wire
  | .undrivenOutput | .undrivenGateInput | .undrivenSubcircuitInput =>
    .undrivenWire diagnostic.module wire

/-- The event that reports the finding. -/
def event (diagnostic : Diagnostic) : Event :=
  .finding diagnostic.severity.level diagnostic.text

end Diagnostic

/-- The findings in the modules that were checked so far. -/
structure Linter where
  diagnostics : List Diagnostic
  modulesChecked : Nat

namespace Linter

/-- Nothing was checked yet. -/
def empty : Linter :=
  ⟨[], 0⟩

/-- The findings in one module. -/
def diagnose (allocator : Allocator) (module : Module) : List Diagnostic :=
  module.findings.map fun (check, wires) => ⟨check, module.name, wires.map allocator.describe⟩

/-- The findings in all modules of a design. -/
def diagnoseAll (design : Design) : List Diagnostic :=
  design.modules.flatMap (diagnose design.allocator)

/-- Check every module of a design. -/
def ingest (linter : Linter) (design : Design) : Linter :=
  ⟨linter.diagnostics ++ diagnoseAll design, linter.modulesChecked + design.modules.length⟩

/-- The events that report the findings in a design. -/
def events (design : Design) : List Event :=
  (diagnoseAll design).map Diagnostic.event

/-- The number of findings of a severity. -/
def count (linter : Linter) (severity : Severity) : Nat :=
  linter.diagnostics.countP fun diagnostic => diagnostic.severity = severity

/-- The words for all findings. -/
def violations (linter : Linter) : List String :=
  linter.diagnostics.map Diagnostic.text

/-- Any finding is a failure of the named netlist. -/
def ensureClean (linter : Linter) (netlist : String) : Except Error Unit :=
  match linter.diagnostics with
  | [] => .ok ()
  | first :: _ =>
    .error (.lintFailed netlist (linter.count .error) (linter.count .warning) first.toError)

/-- The rules in words, as they are listed for a reader. -/
def checkList : String :=
  "\nHere is the list of implemented structural checks, run on every module of a netlist:\n" ++
  "\n" ++
  " - Warning: every declared output is driven by a gate, by a subcircuit output, or is itself an input.\n" ++
  " - Error:   every wire read by a gate is driven by a gate, by a subcircuit output, or is an input.\n" ++
  " - Error:   no wire has more than one driver among gates, subcircuit outputs, inputs and constants.\n" ++
  " - Warning: no wire is declared both as an input and as an output.\n" ++
  " - Warning: every wire feeding a subcircuit input is driven.\n" ++
  "\n" ++
  "The constant wires $false and $true always count as driven.\n" ++
  "Any finding blocks flattening.\n"

end Linter

end Netlist
