import Netlist.Module

/-!
# Flat circuits

A circuit is a module without instances: ports and a list of gates. The order of
the gates matters to whoever evaluates them one after the other.
-/

namespace Netlist

/-- A module whose instances have all been replaced by their gates. -/
structure Circuit where
  name : String
  domain : Domain
  inputs : List Wire
  outputs : List Wire
  gates : List Gate
  deriving DecidableEq, Repr

namespace Circuit

/-- The module as a circuit, if it has no instances. -/
def ofModule? (module : Module) : Option Circuit :=
  if module.isFlat then
    some ⟨module.name, module.domain, module.inputs, module.outputs, module.gates⟩
  else none

/-- The circuit as a module without instances. -/
def toModule (circuit : Circuit) : Module :=
  ⟨circuit.name, circuit.domain, circuit.inputs, circuit.outputs, circuit.gates, []⟩

/-- The wires of ports and gates, ascending. -/
def wires (circuit : Circuit) : List Wire :=
  circuit.toModule.wires

/-- The highest wire in use. -/
def maxWire? (circuit : Circuit) : Option Wire :=
  circuit.wires.max?

/-- The size of the wire space: one more than the highest wire in use, and never
less than the number of constants. It is a number of any size; `wireCount?` says
what counting in words comes to. -/
def wireCount (circuit : Circuit) : Nat :=
  match circuit.maxWire? with
  | some wire => max (wire + 1) circuit.domain.reserved
  | none => circuit.domain.reserved

/-- The size of the wire space as a word. There is none if the highest wire is
the largest word, as counting it overflows. -/
def wireCount? (circuit : Circuit) : Option Nat :=
  match circuit.maxWire? with
  | some wire => wire.next?.map (max · circuit.domain.reserved)
  | none => some circuit.domain.reserved

/-- A gate or an output reads one of the Boolean constants. -/
def readsConstants (circuit : Circuit) : Bool :=
  (circuit.gates.flatMap Gate.inputs ++ circuit.outputs).any fun wire =>
    Domain.boolean.IsConstant wire

/-- The wires within the wire space are the constants, the wires in use, and those below
them. -/
theorem lt_wireCount_iff {circuit : Circuit} {wire : Wire} :
    wire < circuit.wireCount ↔
      circuit.domain.IsConstant wire ∨ ∃ used ∈ circuit.wires, wire ≤ used := by
  unfold wireCount maxWire?
  cases highest : circuit.wires.max? with
  | none =>
    have unused := List.max?_eq_none_iff.1 highest
    rw [unused]
    exact ⟨Or.inl, fun inside => inside.resolve_right fun ⟨_, member, _⟩ => by cases member⟩
  | some most =>
    obtain ⟨isUsed, isMost⟩ := List.max?_eq_some_iff.1 highest
    have inside (low high limit : Nat) :
        low < max (high + 1) limit ↔ low < limit ∨ low ≤ high := by omega
    refine (inside wire most _).trans (or_congr_right ⟨fun below => ⟨most, isUsed, below⟩, ?_⟩)
    exact fun ⟨used, member, below⟩ => Nat.le_trans below (isMost used member)

/-- The size of the wire space is a word unless some wire is the largest one. -/
theorem wireCount_lt_iff {circuit : Circuit} :
    circuit.wireCount < Decimal.wordLimit ↔
      ∀ wire ∈ circuit.wires, wire + 1 < Decimal.wordLimit := by
  have constants := circuit.domain.reserved_lt_wordLimit
  unfold wireCount maxWire?
  cases highest : circuit.wires.max? with
  | none =>
    rw [List.max?_eq_none_iff.1 highest]
    exact iff_of_true constants (List.forall_mem_nil _)
  | some most =>
    obtain ⟨isUsed, isMost⟩ := List.max?_eq_some_iff.1 highest
    refine Nat.max_lt.trans ⟨fun below wire member => ?_, fun bounded => ?_⟩
    · exact Nat.lt_of_le_of_lt (Nat.succ_le_succ (isMost wire member)) below.1
    · exact ⟨bounded most isUsed, constants⟩

/-- Counting in words comes to the size of the wire space, if that is a word. -/
theorem wireCount?_eq (circuit : Circuit) :
    circuit.wireCount? =
      if circuit.wireCount < Decimal.wordLimit then some circuit.wireCount else none := by
  have constants := circuit.domain.reserved_lt_wordLimit
  unfold wireCount? wireCount
  cases circuit.maxWire? with
  | none => exact (if_pos constants).symm
  | some most =>
    simp only [Nat.max_lt, and_iff_left constants, Wire.next?]
    split <;> rfl

theorem toModule_of_ofModule? {module : Module} {circuit : Circuit}
    (flat : ofModule? module = some circuit) : circuit.toModule = module := by
  unfold ofModule? at flat
  split at flat
  · rename_i noInstances
    cases flat
    cases module
    simp_all [toModule, Module.isFlat]
  · cases flat

end Circuit

end Netlist
