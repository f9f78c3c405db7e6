import Netlist.Decimal.Word

/-!
# Wires and numbering domains

A wire is a number, unique within one numbering domain. The Boolean domain
reserves its first two wires for the constants false and true; the arithmetic
domain reserves none.
-/

namespace Netlist

/-- A wire of a circuit, numbered from zero within its domain. -/
abbrev Wire := Nat

/-- The number that follows upon that of a wire. Numbers are machine words, and none follows
upon the largest one: adding one to it overflows, where the program ends. -/
def Wire.next? (wire : Wire) : Option Wire :=
  if wire + 1 < Decimal.wordLimit then some (wire + 1) else none

/-- The two kinds of circuits, numbered independently. -/
inductive Domain where
  | boolean
  | arithmetic
  deriving DecidableEq, Repr, Inhabited

/-- Name of the wire that is always false. -/
def falseName : String := "$false"

/-- Name of the wire that is always true. -/
def trueName : String := "$true"

/-- The wire that is always false. -/
def falseWire : Wire := 0

/-- The wire that is always true. -/
def trueWire : Wire := 1

/-- The two names that stand for constants, in whatever domain they are used. -/
def IsConstantName (name : String) : Prop :=
  name = falseName ∨ name = trueName

instance (name : String) : Decidable (IsConstantName name) :=
  inferInstanceAs (Decidable (_ ∨ _))

namespace Domain

/-- Names of the reserved wires, in the order of their numbers. -/
def constantNames : Domain → List String
  | boolean => [falseName, trueName]
  | arithmetic => []

/-- How many wires are reserved for constants at the start of the domain. -/
def reserved : Domain → Nat
  | boolean => 2
  | arithmetic => 0

/-- The word for circuits of this domain. -/
def title : Domain → String
  | boolean => "Boolean"
  | arithmetic => "Arithmetic"

/-- The word for the side of a composite circuit that lies in this domain. -/
def side : Domain → String
  | boolean => "boolean"
  | arithmetic => "arithmetic"

/-- The wire is one of the constants of the domain. -/
def IsConstant (domain : Domain) (wire : Wire) : Prop :=
  wire < domain.reserved

instance (domain : Domain) (wire : Wire) : Decidable (domain.IsConstant wire) :=
  inferInstanceAs (Decidable (_ < _))

@[simp]
theorem length_constantNames (domain : Domain) :
    domain.constantNames.length = domain.reserved := by
  cases domain <;> rfl

theorem isConstantName_of_mem_constantNames {domain : Domain} {name : String}
    (member : name ∈ domain.constantNames) : IsConstantName name := by
  cases domain with
  | boolean => simpa [constantNames, IsConstantName] using member
  | arithmetic => simp [constantNames] at member

theorem reserved_lt_wordLimit (domain : Domain) : domain.reserved < Decimal.wordLimit := by
  cases domain <;> decide

theorem nodup_constantNames (domain : Domain) : domain.constantNames.Nodup := by
  cases domain <;> decide

end Domain

end Netlist
