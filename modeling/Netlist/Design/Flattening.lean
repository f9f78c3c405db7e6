import Netlist.Circuit
import Netlist.Design
import Netlist.Event

/-!
# Flattening

Flattening replaces every instance by the gates of its callee, depth first and
in order. A callee wire that a pairing binds takes the flat wire of the caller,
and every other wire of a callee gets a fresh one, above all wires in use. The
recursion follows the chain of active modules, which never holds a name twice,
so it ends for every design.
-/

namespace Netlist

/-- The flat wires of a module's own wires. -/
inductive Scope where
  /-- The wires of the top module are flat wires. -/
  | top
  /-- The wires of an instance that are bound so far, the latest binding first. -/
  | inner (bindings : List (Wire × Wire))

/-- A scope and the first flat wire that is not in use. -/
structure Numbering where
  scope : Scope
  next : Wire

namespace Numbering

/-- The flat wire of a wire. Constants are the same everywhere, and a wire that
is not bound takes the first flat wire that is not in use. -/
def flatWire (domain : Domain) (numbering : Numbering) (wire : Wire) : Wire × Numbering :=
  match numbering.scope with
  | .top => (wire, numbering)
  | .inner bindings =>
    if domain.IsConstant wire then (wire, numbering)
    else match bindings.lookup wire with
      | some flat => (flat, numbering)
      | none =>
        (numbering.next, ⟨.inner ((wire, numbering.next) :: bindings), numbering.next + 1⟩)

/-- The flat wires of some wires, in order. -/
def flatWires (domain : Domain) (numbering : Numbering) : List Wire → List Wire × Numbering
  | [] => ([], numbering)
  | wire :: rest =>
    let (flat, numbering) := numbering.flatWire domain wire
    let (others, numbering) := flatWires domain numbering rest
    (flat :: others, numbering)

/-- A gate on flat wires: its inputs come first, then its output. -/
def flatGate (domain : Domain) (numbering : Numbering) (gate : Gate) : Gate × Numbering :=
  let (inputs, numbering) := numbering.flatWires domain gate.inputs
  let (output, numbering) := numbering.flatWire domain gate.output
  ({ gate with inputs, output }, numbering)

/-- Gates on flat wires, in order. -/
def flatGates (domain : Domain) (numbering : Numbering) : List Gate → List Gate × Numbering
  | [] => ([], numbering)
  | gate :: rest =>
    let (flat, numbering) := numbering.flatGate domain gate
    let (others, numbering) := flatGates domain numbering rest
    (flat :: others, numbering)

end Numbering

/-- What the pairings of an instance come to. -/
structure Binding where
  /-- Gates that copy constant output ports of the callee to wires of the caller. -/
  copies : List Gate
  /-- The port wires of the callee with their flat wires, the latest first. -/
  bindings : List (Wire × Wire)
  /-- The numbering of the caller afterwards. -/
  caller : Numbering

/-- Bind the port wires of a callee to the flat wires of its caller. A constant
port is not bound; if it is an output, its value is copied. -/
def bindPairings (domain : Domain) (outputs : List Pairing) (bindings : List (Wire × Wire))
    (caller : Numbering) : List Pairing → Binding
  | [] => ⟨[], bindings, caller⟩
  | pairing :: rest =>
    let (flat, caller) := caller.flatWire domain pairing.caller
    if domain.IsConstant pairing.callee then
      let binding := bindPairings domain outputs bindings caller rest
      if pairing ∈ outputs ∧ flat ≠ pairing.callee then
        { binding with copies := Gate.copy pairing.callee flat :: binding.copies }
      else binding
    else bindPairings domain outputs ((pairing.callee, flat) :: bindings) caller rest

/-- The gates that come of some instances, and the numbering of their caller
afterwards. -/
structure Expansion where
  gates : List Gate
  caller : Numbering

namespace Design

/-- The modules whose names are not among the active ones. -/
def inactive (design : Design) (active : List String) : List Module :=
  design.modules.filter fun module => module.name ∉ active

theorem length_inactive_cons_lt {design : Design} {active : List String} {callee : Module}
    (member : callee ∈ design.modules) (isInactive : callee.name ∉ active) :
    (design.inactive (callee.name :: active)).length < (design.inactive active).length := by
  have narrowed : design.inactive (callee.name :: active) =
      (design.inactive active).filter fun module => module.name ≠ callee.name := by
    simp [inactive, List.filter_filter]
  rw [narrowed, List.length_filter_lt_length_iff_exists]
  exact ⟨callee, List.mem_filter.2 ⟨member, by simpa using isInactive⟩, by simp⟩

/-- A warning for each input of the callee that is neither bound nor a constant. -/
def unboundInputs (design : Design) (callee : Module) (bindings : List (Wire × Wire))
    (caller : String) : List Event :=
  (callee.inputs.filter fun wire =>
      (bindings.lookup wire).isNone && !decide (design.domain.IsConstant wire)).map
    fun wire => .unboundInput (design.allocator.describe wire) callee.name caller

/-- The gates of some instances of the innermost active module, in place of the
instances. A module that is active already must not be entered again. -/
def expand (design : Design) (active : List String) (caller : Numbering) :
    List Instance → Report Expansion
  | [] => .ok ⟨[], caller⟩
  | inner :: rest =>
    match found : design.find? inner.callee with
    | none => .fail (.unresolvedSubcircuit inner.callee (active.headD topParent))
    | some callee =>
      if isActive : callee.name ∈ active then
        .fail (.recursiveInstance callee.name (active.reverse ++ [callee.name]))
      else
        have := length_inactive_cons_lt (mem_of_find? found) isActive
        let binding := bindPairings design.domain inner.outputs [] caller inner.pairings
        let (gates, numbering) := Numbering.flatGates design.domain
          ⟨.inner binding.bindings, binding.caller.next⟩ callee.gates
        let warnings := design.unboundInputs callee binding.bindings (active.headD topParent)
        (Report.emit warnings).bind fun _ =>
        (expand design (callee.name :: active) numbering callee.instances).bind fun nested =>
        (expand design active ⟨binding.caller.scope, nested.caller.next⟩ rest).bind fun others =>
        .ok ⟨binding.copies ++ gates ++ nested.gates ++ others.gates, others.caller⟩
termination_by instances => ((design.inactive active).length, instances.length)

/-- The flat circuit of the module of the given name. -/
def flattenModule (design : Design) (name : String) : Report Circuit :=
  match design.findTop name with
  | .error error => .fail error
  | .ok top =>
    (design.expand [top.name] ⟨.top, design.allocator.next⟩ top.instances).bind fun expansion =>
    let gates := top.gates ++ expansion.gates
    ⟨[.flattened top.name gates.length expansion.caller.next],
      .ok ⟨top.name, top.domain, top.inputs, top.outputs, gates⟩⟩

/-- The flat circuit of the top module. -/
def flatten (design : Design) : Report Circuit :=
  match design.topModule with
  | .error error => .fail error
  | .ok top => design.flattenModule top.name

end Design

end Netlist
