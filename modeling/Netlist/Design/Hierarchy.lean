import Netlist.Design
import Netlist.Valuation

/-!
# Hierarchies

Below a module of a design stand its instances, below these the instances of
their callees, and so on. Each module that is reached in this way is found at a
path: the places of the instances on the way to it. A valuation of the hierarchy
gives each path wires of its own, and every pairing makes a wire of the caller
equal to one of the callee.
-/

namespace Netlist.Design

universe u

/-- The module has an instance of the other one. -/
def Calls (design : Design) (caller callee : String) : Prop :=
  ∃ module inner, design.find? caller = some module ∧ inner ∈ module.instances ∧
    inner.callee = callee

/-- A chain of instantiations leads from one module to another, or they are the
same. -/
inductive Reaches (design : Design) : String → String → Prop where
  | refl (name : String) : Reaches design name name
  | step {first second last : String} :
    design.Calls first second → Reaches design second last → Reaches design first last

/-- A module that can be reached contains an instance of itself, directly or
through others. -/
def IsRecursiveBelow (design : Design) (top : String) : Prop :=
  ∃ module next, design.Reaches top module ∧ design.Calls module next ∧
    design.Reaches next module

/-- The way from the top of a hierarchy to a module: the place of each instance
in its caller, the last step first. -/
abbrev InstancePath := List Nat

/-- The module that a path leads to. -/
inductive At (design : Design) (top : Module) : InstancePath → Module → Prop where
  | top : At design top [] top
  | inner {path : InstancePath} {caller callee : Module} {place : Nat} {inner : Instance} :
    At design top path caller → caller.instances[place]? = some inner →
      design.find? inner.callee = some callee → At design top (place :: path) callee

/-- The constants of the domain are fixed at a path, the gates of the module there
hold, and the wires that its pairings bind have equal values on both sides. -/
def HoldsAt {α : Type u} (domain : Domain) (meaning : Interpretation α)
    (values : InstancePath → Valuation α) (path : InstancePath) (module : Module) : Prop :=
  domain.Fixes meaning (values path) ∧
    (∀ gate ∈ module.gates, gate.Holds meaning (values path)) ∧
    ∀ place inner, module.instances[place]? = some inner → ∀ pairing ∈ inner.pairings,
      values path pairing.caller = values (place :: path) pairing.callee

/-- All modules of the hierarchy below a top hold. -/
def HoldsBelow {α : Type u} (design : Design) (meaning : Interpretation α) (top : Module)
    (values : InstancePath → Valuation α) : Prop :=
  ∀ path module, design.At top path module → HoldsAt design.domain meaning values path module

/-- All wires of all modules are in use, as far as the allocator knows. -/
def IsNumbered (design : Design) : Prop :=
  ∀ module ∈ design.modules,
    (∀ wire ∈ module.wires, wire < design.allocator.next) ∧
      ∀ inner ∈ module.instances, ∀ pairing ∈ inner.pairings,
        pairing.caller < design.allocator.next ∧ pairing.callee < design.allocator.next

instance (design : Design) : Decidable design.IsNumbered :=
  inferInstanceAs (Decidable (∀ module ∈ design.modules,
    (∀ wire ∈ module.wires, wire < design.allocator.next) ∧
      ∀ inner ∈ module.instances, ∀ pairing ∈ inner.pairings,
        pairing.caller < design.allocator.next ∧ pairing.callee < design.allocator.next))

/-- A path leads to one module only. -/
theorem At.unique {design : Design} {top first second : Module} {path : InstancePath}
    (one : design.At top path first) (other : design.At top path second) : first = second := by
  induction one generalizing second with
  | top =>
    cases other
    rfl
  | inner _ place found ih =>
    cases other with
    | inner above otherPlace otherFound =>
      obtain rfl := ih above
      rw [place] at otherPlace
      cases otherPlace
      rw [found] at otherFound
      cases otherFound
      rfl

end Netlist.Design
