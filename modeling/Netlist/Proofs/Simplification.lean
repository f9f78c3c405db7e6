import Netlist.Circuit.Compaction
import Netlist.Circuit.Schedule
import Netlist.Command.Tools
import Netlist.Valuation

/-!
# Simplified circuits

Scheduling puts the gates of a circuit into another order, dropping dead gates leaves
some of them out, and compacting renames their wires without confusing any two. All of
them preserve the ports of a circuit and, at the ports, the values of its valuations
(`Circuit.Preserves`).
-/

namespace Netlist.Circuit

universe u

variable {α : Type u} {meaning : Interpretation α}

/-- The second circuit has the ports of the first one, and every valuation of the first
one yields a valuation of the second one with the same values at ports and constants. -/
structure Preserves (meaning : Interpretation α) (first second : Circuit) : Prop where
  domain : second.domain = first.domain
  inputs : second.inputs = first.inputs
  outputs : second.outputs = first.outputs
  holds : ∀ {values}, first.Holds meaning values → ∃ others, second.Holds meaning others ∧
    ∀ wire ∈ first.fixedWires, others wire = values wire

namespace Preserves

variable {first second third : Circuit}

theorem refl (circuit : Circuit) : Preserves meaning circuit circuit :=
  ⟨rfl, rfl, rfl, fun holds => ⟨_, holds, fun _ _ => rfl⟩⟩

theorem fixedWires (preserves : Preserves meaning first second) :
    second.fixedWires = first.fixedWires := by
  rw [Circuit.fixedWires, preserves.inputs, preserves.outputs, preserves.domain]
  rfl

theorem trans (start : Preserves meaning first second) (rest : Preserves meaning second third) :
    Preserves meaning first third := by
  constructor
  · exact rest.domain.trans start.domain
  · exact rest.inputs.trans start.inputs
  · exact rest.outputs.trans start.outputs
  · intro values holds
    obtain ⟨middle, middleHolds, middleSame⟩ := start.holds holds
    obtain ⟨last, lastHolds, lastSame⟩ := rest.holds middleHolds
    refine ⟨last, lastHolds, fun wire member => ?_⟩
    rw [lastSame wire (start.fixedWires ▸ member), middleSame wire member]

end Preserves

/-- Gates may be left out and put into another order. -/
theorem preserves_of_subset {circuit : Circuit} {gates : List Gate}
    (subset : gates ⊆ circuit.gates) : Preserves meaning circuit { circuit with gates } := by
  constructor
  · rfl
  · rfl
  · rfl
  · rintro values ⟨fixes, holds⟩
    exact ⟨values, ⟨fixes, fun gate member => holds gate (subset member)⟩, fun _ _ => rfl⟩

theorem preserves_schedule {circuit ordered : Circuit}
    (scheduled : circuit.schedule = .ok ordered) : Preserves meaning circuit ordered := by
  have perm := perm_scheduleGates circuit.gates
  unfold schedule at scheduled
  split at scheduled
  · rename_i gates same
    cases scheduled
    rw [same, List.append_nil] at perm
    exact preserves_of_subset perm.subset
  · cases scheduled

theorem preserves_dropDead (circuit : Circuit) : Preserves meaning circuit circuit.dropDead :=
  preserves_of_subset (List.filter_sublist.subset)

/-! ### Compact numbering -/

theorem lt_innerStart {circuit : Circuit} {wire : Wire} (isFixed : wire ∈ circuit.fixedWires) :
    wire < circuit.innerStart := by
  unfold innerStart
  cases highest : circuit.fixedWires.max? with
  | none =>
    rw [List.max?_eq_none_iff.1 highest] at isFixed
    cases isFixed
  | some most =>
    exact Nat.lt_succ_of_le ((List.max?_eq_some_iff.1 highest).2 wire isFixed)

/-- Wires of gates that are not fixed are numbered one after the other. -/
theorem compactWire_of_notMem_fixedWires {circuit : Circuit} {gate : Gate} {wire : Wire}
    (gateMember : gate ∈ circuit.gates) (member : wire ∈ gate.wires)
    (notFixed : wire ∉ circuit.fixedWires) :
    ∃ place, circuit.innerWires[place]? = some wire ∧
      circuit.compactWire wire = circuit.innerStart + place := by
  have isInner : wire ∈ circuit.innerWires := by
    rw [innerWires, List.mem_eraseDups, List.mem_filter]
    exact ⟨List.mem_flatMap.2 ⟨gate, gateMember, member⟩, decide_eq_true notFixed⟩
  cases found : circuit.innerWires.idxOf? wire with
  | none => exact absurd isInner (List.idxOf?_eq_none_iff.1 found)
  | some place =>
    refine ⟨place, ?_, ?_⟩
    · obtain ⟨inRange, same, _⟩ := List.findIdx?_eq_some_iff_getElem.1 found
      rw [List.getElem?_eq_getElem inRange, eq_of_beq same]
    · rw [compactWire, renumber, found]

/-- The values of wires under their new numbers. -/
def compactValuation (circuit : Circuit) (values : Valuation α) : Valuation α := fun wire =>
  if wire < circuit.innerStart then values wire
  else values (circuit.innerWires.getD (wire - circuit.innerStart) wire)

theorem compactValuation_of_mem_fixedWires {circuit : Circuit} (values : Valuation α)
    {wire : Wire} (isFixed : wire ∈ circuit.fixedWires) :
    circuit.compactValuation values wire = values wire :=
  if_pos (lt_innerStart isFixed)

theorem compactValuation_compactWire {circuit : Circuit} (values : Valuation α) {gate : Gate}
    {wire : Wire} (gateMember : gate ∈ circuit.gates) (member : wire ∈ gate.wires) :
    circuit.compactValuation values (circuit.compactWire wire) = values wire := by
  by_cases isFixed : wire ∈ circuit.fixedWires
  · rw [compactWire_of_mem_fixedWires isFixed]
    exact compactValuation_of_mem_fixedWires values isFixed
  · obtain ⟨place, found, number⟩ :=
      compactWire_of_notMem_fixedWires gateMember member isFixed
    rw [number, compactValuation, if_neg (Nat.not_lt_of_le (Nat.le_add_right _ _)),
      Nat.add_sub_cancel_left, List.getD_eq_getElem?_getD, found]
    rfl

theorem preserves_compact (circuit : Circuit) : Preserves meaning circuit circuit.compact := by
  constructor
  · rfl
  · rfl
  · rfl
  · rintro values ⟨fixes, holds⟩
    refine ⟨circuit.compactValuation values, ⟨?_, ?_⟩,
      fun wire => compactValuation_of_mem_fixedWires values⟩
    · refine fixes.congr fun wire constant => compactValuation_of_mem_fixedWires values ?_
      exact List.mem_append_right _ (List.mem_range.2 constant)
    · intro gate member
      rw [gates_compact] at member
      obtain ⟨original, originalMember, rfl⟩ := List.mem_map.1 member
      rw [Gate.holds_rename_iff]
      refine (Gate.holds_congr fun wire wireMember => ?_).2 (holds original originalMember)
      exact compactValuation_compactWire values originalMember wireMember

/-- What the steps that may be asked for come to. -/
theorem simplify_eq_ok {options : Command.Options} {circuit simplified : Circuit}
    (succeeded : (Command.simplify options circuit).result = .ok simplified) :
    ∃ middle, (middle = circuit ∨ middle = circuit.dropDead) ∧
      (simplified = middle ∨ simplified = middle.compact) := by
  have compacted : ∀ middle : Circuit,
      (if options.compact then middle.compact else middle) = middle ∨
        (if options.compact then middle.compact else middle) = middle.compact := by
    intro middle
    split
    · exact Or.inr rfl
    · exact Or.inl rfl
  unfold Command.simplify at succeeded
  dsimp only at succeeded
  split at succeeded
  · cases succeeded
    exact ⟨_, Or.inr rfl, compacted _⟩
  · cases succeeded
    exact ⟨_, Or.inl rfl, compacted _⟩

theorem preserves_simplify {options : Command.Options} {circuit simplified : Circuit}
    (succeeded : (Command.simplify options circuit).result = .ok simplified) :
    Preserves meaning circuit simplified := by
  obtain ⟨middle, isMiddle, isSimplified⟩ := simplify_eq_ok succeeded
  have first : Preserves meaning circuit middle := by
    rcases isMiddle with rfl | rfl
    · exact Preserves.refl _
    · exact preserves_dropDead circuit
  have second : Preserves meaning middle simplified := by
    rcases isSimplified with rfl | rfl
    · exact Preserves.refl _
    · exact preserves_compact middle
  exact first.trans second

end Netlist.Circuit
