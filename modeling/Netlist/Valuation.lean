import Netlist.Circuit

/-!
# Valuations

An interpretation gives a meaning to constants and operators over some set of
values, and a valuation gives a value to every wire. A circuit relates the
values of its wires: its gates hold, and its constants are what they stand for.
Nothing is said about an order of evaluation, so a circuit may have one such
valuation, many, or none.
-/

namespace Netlist

universe u

/-- A meaning for constants and operators. Every operator may relate its inputs
to an output in any way, except that a buffer is the identity. -/
structure Interpretation (α : Type u) where
  constant : Bool → α
  computes : Operator → List α → α → Prop
  computes_buf_iff : ∀ input output, computes .buf [input] output ↔ input = output

/-- The meaning of the Boolean primitives. A cell relates no values. -/
def Interpretation.boolean : Interpretation Bool where
  constant := id
  computes operator inputs output := operator.compute? inputs = some output
  computes_buf_iff input output := by simp [Operator.compute?]

/-- A value for every wire. -/
abbrev Valuation (α : Type u) := Wire → α

variable {α : Type u}

/-- The values of a gate's wires are related as its operator demands. -/
def Gate.Holds (meaning : Interpretation α) (values : Valuation α) (gate : Gate) : Prop :=
  meaning.computes gate.operator (gate.inputs.map values) (values gate.output)

instance (values : Valuation Bool) (gate : Gate) : Decidable (gate.Holds .boolean values) :=
  inferInstanceAs (Decidable (gate.operator.compute? _ = some _))

/-- The constants of a domain have the values that they stand for. -/
def Domain.Fixes (meaning : Interpretation α) (values : Valuation α) : Domain → Prop
  | .boolean =>
    values falseWire = meaning.constant false ∧ values trueWire = meaning.constant true
  | .arithmetic => True

/-- All gates of a circuit hold, and its constants are fixed. -/
def Circuit.Holds (meaning : Interpretation α) (values : Valuation α) (circuit : Circuit) : Prop :=
  circuit.domain.Fixes meaning values ∧ ∀ gate ∈ circuit.gates, gate.Holds meaning values

/-- Constants have the same value in all valuations that fix them. -/
theorem Domain.Fixes.eq_of_constant {domain : Domain} {meaning : Interpretation α}
    {first second : Valuation α} (one : domain.Fixes meaning first)
    (other : domain.Fixes meaning second) {wire : Wire} (constant : domain.IsConstant wire) :
    first wire = second wire := by
  cases domain with
  | arithmetic => exact absurd constant (Nat.not_lt_zero _)
  | boolean =>
    have cases : wire = falseWire ∨ wire = trueWire := by
      unfold IsConstant reserved at constant
      unfold falseWire trueWire
      exact Nat.le_one_iff_eq_zero_or_eq_one.1 (Nat.le_of_lt_succ constant)
    rcases cases with rfl | rfl
    · exact one.1.trans other.1.symm
    · exact one.2.trans other.2.symm

/-- Only the values of constants matter. -/
theorem Domain.Fixes.congr {domain : Domain} {meaning : Interpretation α}
    {first second : Valuation α} (fixes : domain.Fixes meaning first)
    (agree : ∀ wire, domain.IsConstant wire → second wire = first wire) :
    domain.Fixes meaning second := by
  cases domain with
  | arithmetic => trivial
  | boolean =>
    constructor
    · rw [agree falseWire (by decide)]
      exact fixes.1
    · rw [agree trueWire (by decide)]
      exact fixes.2

namespace Gate

/-- Renaming the wires of a gate is renaming the arguments of the valuation. -/
@[simp]
theorem holds_rename_iff {meaning : Interpretation α} {values : Valuation α}
    {relabel : Wire → Wire} {gate : Gate} :
    (gate.rename relabel).Holds meaning values ↔ gate.Holds meaning (values ∘ relabel) := by
  simp [Holds, rename]

/-- A copy makes two wires equal. -/
@[simp]
theorem holds_copy_iff {meaning : Interpretation α} {values : Valuation α}
    {source target : Wire} :
    (copy source target).Holds meaning values ↔ values source = values target := by
  simp [Holds, copy, meaning.computes_buf_iff]

/-- Only the wires of a gate matter. -/
theorem holds_congr {meaning : Interpretation α} {first second : Valuation α} {gate : Gate}
    (agree : ∀ wire ∈ gate.wires, first wire = second wire) :
    gate.Holds meaning first ↔ gate.Holds meaning second := by
  have inputs : gate.inputs.map first = gate.inputs.map second :=
    List.map_congr_left fun wire member => agree wire (mem_wires_iff.2 (Or.inl member))
  have output : first gate.output = second gate.output :=
    agree gate.output (mem_wires_iff.2 (Or.inr rfl))
  rw [Holds, Holds, inputs, output]

end Gate

end Netlist
