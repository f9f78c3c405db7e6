import Netlist.Module
import Netlist.Wire.Allocator

/-!
# Designs

A design holds the modules of one netlist in the order of their declaration,
under distinct names, with the allocator that numbered their wires. One of the
modules is the top. Modules may name others that come later, so the directions
of instances are resolved in a pass of their own.
-/

namespace Netlist

/-- The modules of a netlist. -/
structure Design where
  allocator : Allocator
  modules : List Module
  top : Option String
  /-- The directions of all instances are known. -/
  resolved : Bool

namespace Design

/-- A design without modules, whose wires are numbered by the given allocator. -/
def empty (allocator : Allocator) : Design :=
  ⟨allocator, [], none, false⟩

/-- The domain of all modules. -/
def domain (design : Design) : Domain :=
  design.allocator.domain

/-- The module of the given name. -/
def find? (design : Design) (name : String) : Option Module :=
  design.modules.find? fun module => module.name = name

/-- The design has a module of the given name. -/
def contains (design : Design) (name : String) : Bool :=
  design.modules.any fun module => module.name = name

/-- Add a module, unless its name is taken. The first module becomes the top. -/
def insert (design : Design) (module : Module) : Design :=
  if design.contains module.name then design
  else
    { design with
      modules := design.modules ++ [module]
      top := design.top.or (some module.name)
      resolved := false }

/-- The parent named in place of a module when the top itself is missing. -/
def topParent : String := "<top>"

/-- The module of the given name, which is asked for as a top. -/
def findTop (design : Design) (name : String) : Except Error Module :=
  match design.find? name with
  | some module => .ok module
  | none => .error (.unresolvedSubcircuit name topParent)

/-- The top module. -/
def topModule (design : Design) : Except Error Module :=
  design.findTop (design.top.getD "")

/-- Make another module the top. -/
def setTop (design : Design) (name : String) : Except Error Design := do
  let _ ← design.findTop name
  return { design with top := some name }

/-! ### Directions -/

/-- The directions in which a pairing carries values. -/
structure Direction where
  isInput : Bool
  isOutput : Bool

/-- The directions of a pairing between a module and a callee. A port that is a
constant inside the callee may only meet the same constant, or be read. -/
def direction (design : Design) (module callee : Module) (pairing : Pairing) :
    Except Error Direction :=
  let isInput := decide (pairing.callee ∈ callee.inputs)
  let isOutput := decide (pairing.callee ∈ callee.outputs)
  if !isInput && !isOutput then
    .error (.unmatchedPairing module.name callee.name (design.allocator.describe pairing.callee))
  else if design.domain.IsConstant pairing.callee ∧ pairing.caller ≠ pairing.callee ∧
      (isInput ∨ design.domain.IsConstant pairing.caller) then
    .error (.constantPort module.name callee.name (design.allocator.describe pairing.caller))
  else .ok ⟨isInput, isOutput⟩

/-- Sort pairings by direction. A pairing that carries values both ways is in
both lists. -/
def splitPairings (design : Design) (module callee : Module) :
    List Pairing → Except Error (List Pairing × List Pairing)
  | [] => .ok ([], [])
  | pairing :: rest => do
    let direction ← design.direction module callee pairing
    let (inputs, outputs) ← splitPairings design module callee rest
    return (if direction.isInput then pairing :: inputs else inputs,
      if direction.isOutput then pairing :: outputs else outputs)

/-- An instance with its directions. -/
def resolveInstance (design : Design) (module : Module) (inner : Instance) :
    Except Error Instance :=
  match design.find? inner.callee with
  | none => .error (.unresolvedSubcircuit inner.callee module.name)
  | some callee => do
    let (inputs, outputs) ← design.splitPairings module callee inner.pairings
    return { inner with inputs, outputs }

/-- A module whose instances have their directions. -/
def resolveModule (design : Design) (module : Module) : Except Error Module := do
  let instances ← module.instances.mapM (design.resolveInstance module)
  return { module with instances }

/-- Resolve modules in order, up to the first that fails. Ports, which alone
decide directions, do not change on the way. -/
def resolveModules (design : Design) : List Module → List Module × Except Error Unit
  | [] => ([], .ok ())
  | module :: rest =>
    match design.resolveModule module with
    | .error error => (module :: rest, .error error)
    | .ok resolved =>
      let (others, outcome) := resolveModules design rest
      (resolved :: others, outcome)

/-- Give every instance its directions. A failure keeps what was resolved before
it. -/
def resolve (design : Design) : Design × Except Error Unit :=
  match design.resolveModules design.modules with
  | (modules, .ok ()) => ({ design with modules, resolved := true }, .ok ())
  | (modules, .error error) => ({ design with modules }, .error error)

/-- The resolved design, if all instances can be resolved. -/
def resolved? (design : Design) : Except Error Design :=
  match design.resolve with
  | (resolved, .ok ()) => .ok resolved
  | (_, .error error) => .error error

theorem contains_eq_true_iff {design : Design} {name : String} :
    design.contains name = true ↔ ∃ module ∈ design.modules, module.name = name := by
  simp [contains]

theorem name_of_find? {design : Design} {name : String} {module : Module}
    (found : design.find? name = some module) : module.name = name := by
  simpa using List.find?_some found

theorem mem_of_find? {design : Design} {name : String} {module : Module}
    (found : design.find? name = some module) : module ∈ design.modules :=
  List.mem_of_find?_eq_some found

end Design

end Netlist
