import Mathlib.Data.List.Nodup
import Netlist.Circuit.Schedule
import Netlist.Proofs.Drivers
import Netlist.Valuation

/-!
# Settling

In a schedule each gate comes after the gates that drive its inputs. If moreover all
wires that are read have a driver, and none has two, then each gate in turn reads wires
with known values and makes one more known (`Gate.Settles`). So the values of inputs and
constants extend to all wires of a clean circuit (`Circuit.exists_solves`), in one way
only (`Circuit.Solves.eq_of_mem_wires`).
-/

namespace Netlist

/-! ### Schedules -/

theorem Gate.IsReady.of_subset {first second : List Gate} {gate : Gate}
    (ready : gate.IsReady second) (subset : first ⊆ second) : gate.IsReady first :=
  fun other member => ready other (subset member)

/-- The gates that can be ordered are put into a schedule. -/
theorem isScheduled_scheduleGates (remaining : List Gate) :
    IsScheduled (scheduleGates remaining).1 := by
  fun_induction scheduleGates remaining with
  | case1 => trivial
  | case2 remaining gate found _ ordered stuck result ih =>
    rw [result] at ih
    have ready : gate.IsReady remaining := by simpa using List.find?_some found
    have perm := perm_scheduleGates (remaining.erase gate)
    rw [result] at perm
    refine ⟨ready.of_subset (List.cons_subset.2 ⟨List.mem_of_find?_eq_some found, ?_⟩), ih⟩
    intro other isOrdered
    exact List.mem_of_mem_erase (perm.subset (List.mem_append_left _ isOrdered))

namespace Circuit

/-- A circuit that can be scheduled has the same gates as before, in a schedule. -/
theorem schedule_eq_ok {circuit ordered : Circuit} (scheduled : circuit.schedule = .ok ordered) :
    ∃ gates, ordered = { circuit with gates } ∧ gates.Perm circuit.gates ∧
      IsScheduled gates := by
  have perm := perm_scheduleGates circuit.gates
  have isScheduled := isScheduled_scheduleGates circuit.gates
  unfold schedule at scheduled
  split at scheduled
  · rename_i gates same
    cases scheduled
    rw [same] at perm isScheduled
    rw [List.append_nil] at perm
    exact ⟨gates, rfl, perm, isScheduled⟩
  · cases scheduled

end Circuit

/-! ### Gates that settle -/

/-- Each gate in turn reads wires that are known, and makes one known that was not. -/
def Gate.Settles (known : Wire → Prop) : List Gate → Prop
  | [] => True
  | gate :: rest => (∀ wire ∈ gate.inputs, known wire) ∧ ¬ known gate.output ∧
      Settles (fun wire => wire = gate.output ∨ known wire) rest

/-- A schedule settles if all wires that are read are known or driven by a gate, no wire
that is known is driven, and no wire is driven twice. -/
theorem Gate.settles_of_isScheduled {known : Wire → Prop} {gates : List Gate}
    (scheduled : IsScheduled gates) (single : (gates.map Gate.output).Nodup)
    (fresh : ∀ gate ∈ gates, ¬ known gate.output)
    (driven : ∀ gate ∈ gates, ∀ wire ∈ gate.inputs, known wire ∨ wire ∈ gates.map Gate.output) :
    Gate.Settles known gates := by
  induction gates generalizing known with
  | nil => trivial
  | cons gate rest ih =>
    obtain ⟨ready, others⟩ := scheduled
    obtain ⟨headFresh, restFresh⟩ := List.forall_mem_cons.1 fresh
    rw [List.map_cons, List.nodup_cons] at single
    refine ⟨?_, headFresh, ih others single.2 ?_ ?_⟩
    · intro wire isInput
      rcases driven gate List.mem_cons_self wire isInput with isKnown | isDriven
      · exact isKnown
      · obtain ⟨driver, member, rfl⟩ := List.mem_map.1 isDriven
        exact absurd isInput (ready driver member)
    · rintro other member (same | isKnown)
      · exact single.1 (same ▸ List.mem_map.2 ⟨other, member, rfl⟩)
      · exact restFresh other member isKnown
    · intro other member wire isInput
      rcases driven other (List.mem_cons_of_mem _ member) wire isInput with isKnown | isDriven
      · exact Or.inl (Or.inr isKnown)
      · rw [List.map_cons, List.mem_cons] at isDriven
        rcases isDriven with isHead | inRest
        · exact Or.inl (Or.inl isHead)
        · exact Or.inr inRest

/-- A primitive with as many bits as it takes has a value. -/
theorem Operator.exists_compute? {operator : Operator} {bits : List Bool}
    (arity : operator.arity? = some bits.length) : ∃ bit, operator.compute? bits = some bit := by
  cases operator with
  | and =>
    obtain ⟨left, right, rfl⟩ := List.length_eq_two.1 (Option.some.inj arity).symm
    exact ⟨_, rfl⟩
  | xor =>
    obtain ⟨left, right, rfl⟩ := List.length_eq_two.1 (Option.some.inj arity).symm
    exact ⟨_, rfl⟩
  | inv =>
    obtain ⟨bit, rfl⟩ := List.length_eq_one_iff.1 (Option.some.inj arity).symm
    exact ⟨_, rfl⟩
  | buf =>
    obtain ⟨bit, rfl⟩ := List.length_eq_one_iff.1 (Option.some.inj arity).symm
    exact ⟨_, rfl⟩
  | cell name => cases arity

namespace Gate.Settles

variable {known : Wire → Prop} {gates : List Gate}

/-- The values of known wires extend to values for which all gates hold. -/
theorem exists_holds (settles : Gate.Settles known gates)
    (arity : ∀ gate ∈ gates, gate.operator.arity? = some gate.inputs.length)
    (start : Valuation Bool) :
    ∃ values : Valuation Bool, (∀ wire, known wire → values wire = start wire) ∧
      ∀ gate ∈ gates, gate.Holds .boolean values := by
  induction gates generalizing known start with
  | nil => exact ⟨start, fun _ _ => rfl, List.forall_mem_nil _⟩
  | cons gate rest ih =>
    obtain ⟨reads, fresh, others⟩ := settles
    obtain ⟨headArity, restArity⟩ := List.forall_mem_cons.1 arity
    obtain ⟨bit, computed⟩ : ∃ bit, gate.operator.compute? (gate.inputs.map start) = some bit :=
      Operator.exists_compute? (by rw [List.length_map, headArity])
    obtain ⟨values, same, holds⟩ := ih others restArity (Function.update start gate.output bit)
    have kept : ∀ wire, known wire → values wire = start wire := by
      intro wire isKnown
      rw [same wire (Or.inr isKnown), Function.update_of_ne]
      rintro rfl
      exact fresh isKnown
    refine ⟨values, kept, List.forall_mem_cons.2 ⟨?_, holds⟩⟩
    have inputs : gate.inputs.map values = gate.inputs.map start :=
      List.map_congr_left fun wire isInput => kept wire (reads wire isInput)
    change gate.operator.compute? (gate.inputs.map values) = some (values gate.output)
    rw [inputs, computed, same _ (Or.inl rfl), Function.update_self]

/-- Values for which all gates hold are the same if they are so for known wires. -/
theorem eq_of_holds (settles : Gate.Settles known gates) {one other : Valuation Bool}
    (oneHolds : ∀ gate ∈ gates, gate.Holds .boolean one)
    (otherHolds : ∀ gate ∈ gates, gate.Holds .boolean other)
    (same : ∀ wire, known wire → one wire = other wire) :
    ∀ gate ∈ gates, one gate.output = other gate.output := by
  induction gates generalizing known with
  | nil => exact List.forall_mem_nil _
  | cons gate rest ih =>
    obtain ⟨reads, _, others⟩ := settles
    obtain ⟨oneHead, oneRest⟩ := List.forall_mem_cons.1 oneHolds
    obtain ⟨otherHead, otherRest⟩ := List.forall_mem_cons.1 otherHolds
    have inputs : gate.inputs.map one = gate.inputs.map other :=
      List.map_congr_left fun wire isInput => same wire (reads wire isInput)
    have head : one gate.output = other gate.output := by
      change gate.operator.compute? (gate.inputs.map one) = some (one gate.output) at oneHead
      rw [inputs] at oneHead
      exact Option.some.inj (oneHead.symm.trans otherHead)
    refine List.forall_mem_cons.2 ⟨head, ih others oneRest otherRest ?_⟩
    rintro wire (rfl | isKnown)
    · exact head
    · exact same wire isKnown

end Gate.Settles

/-! ### Clean circuits -/

namespace Circuit

variable {circuit ordered : Circuit}

/-- The wire has its value before any gate is evaluated. -/
def IsGiven (circuit : Circuit) (wire : Wire) : Prop :=
  circuit.domain.IsConstant wire ∨ wire ∈ circuit.inputs

/-- A circuit has no instances that could drive a wire. -/
theorem isDriven_toModule_iff {wire : Wire} :
    circuit.toModule.IsDriven wire ↔
      circuit.IsGiven wire ∨ ∃ gate ∈ circuit.gates, gate.output = wire := by
  have noInstance : wire ∉ circuit.toModule.subcircuitOutputs := by
    simp [Module.subcircuitOutputs, toModule, Wire.ascending]
  have gates : wire ∈ circuit.toModule.gateOutputs ↔
      ∃ gate ∈ circuit.gates, gate.output = wire := Gate.mem_allOutputs_iff
  rw [Module.IsDriven, gates, IsGiven]
  constructor
  · rintro (constant | isGate | isCaller | isInput)
    · exact Or.inl (Or.inl constant)
    · exact Or.inr isGate
    · exact absurd isCaller noInstance
    · exact Or.inl (Or.inr isInput)
  · rintro ((constant | isInput) | isGate)
    · exact Or.inl constant
    · exact Or.inr (Or.inr (Or.inr isInput))
    · exact Or.inr (Or.inl isGate)

/-- The gates of a clean circuit settle in any schedule. -/
theorem settles_of_isClean (clean : circuit.toModule.isClean = true)
    (scheduled : circuit.schedule = .ok ordered) :
    Gate.Settles circuit.IsGiven ordered.gates := by
  obtain ⟨gates, rfl, perm, isScheduled⟩ := schedule_eq_ok scheduled
  have orderly := Module.isClean_iff_isOrderly.1 clean
  have single := orderly.singleDrivers
  apply Gate.settles_of_isScheduled isScheduled
  · exact (perm.map Gate.output).nodup_iff.2 single.gates
  · rintro gate member (constant | isInput)
    · exact single.gate_ne_constant gate (perm.subset member) constant
    · exact single.gate_ne_input gate (perm.subset member) isInput
  · intro gate member wire isInput
    have read : wire ∈ circuit.toModule.gateInputs :=
      Gate.mem_allInputs_iff.2 ⟨gate, perm.subset member, isInput⟩
    rcases isDriven_toModule_iff.1 (orderly.gateInputs wire read) with isGiven | ⟨driver, drives⟩
    · exact Or.inl isGiven
    · exact Or.inr (List.mem_map.2 ⟨driver, perm.symm.subset drives.1, drives.2⟩)

/-- All wires of a clean circuit are driven. -/
theorem isDriven_of_mem_wires (clean : circuit.toModule.isClean = true) {wire : Wire}
    (member : wire ∈ circuit.wires) : circuit.toModule.IsDriven wire := by
  have orderly := Module.isClean_iff_isOrderly.1 clean
  rcases List.mem_append.1 (Wire.mem_ascending_iff.1 member) with inPorts | inGates
  · rcases List.mem_append.1 inPorts with isInput | isOutput
    · exact isDriven_toModule_iff.2 (Or.inl (Or.inr isInput))
    · exact orderly.outputs wire isOutput
  · obtain ⟨gate, gateMember, isWire⟩ := List.mem_flatMap.1 inGates
    rcases Gate.mem_wires_iff.1 isWire with isInput | rfl
    · exact orderly.gateInputs wire (Gate.mem_allInputs_iff.2 ⟨gate, gateMember, isInput⟩)
    · exact isDriven_toModule_iff.2 (Or.inr ⟨gate, gateMember, rfl⟩)

/-- The inputs have the listed values, and the circuit holds. -/
structure Solves (circuit : Circuit) (bits : List Bool) (values : Valuation Bool) : Prop where
  inputs : circuit.inputs.map values = bits
  holds : circuit.Holds .boolean values

/-- Distinct keys are looked up with the values that stand beside them. -/
theorem map_getD_lookup_zip {keys : List Wire} {bits : List Bool} (nodup : keys.Nodup)
    (length : bits.length = keys.length) (others : Wire → Bool) :
    (keys.map fun wire => ((keys.zip bits).lookup wire).getD (others wire)) = bits := by
  induction keys generalizing bits with
  | nil => exact (List.eq_nil_of_length_eq_zero length).symm
  | cons key rest ih =>
    obtain ⟨bit, remaining, rfl⟩ := List.exists_cons_of_length_eq_add_one length
    rw [List.nodup_cons] at nodup
    rw [List.zip_cons_cons, List.map_cons, List.lookup_cons_self, Option.getD_some]
    congr 1
    conv_rhs => rw [← ih nodup.2 (Nat.succ.inj length)]
    apply List.map_congr_left
    intro wire member
    have different : wire ≠ key := by
      rintro rfl
      exact nodup.1 member
    rw [List.lookup_cons, beq_false_of_ne different]

/-- A clean circuit that can be scheduled has a solution for all values of its inputs. -/
theorem exists_solves (isBoolean : circuit.domain = .boolean)
    (clean : circuit.toModule.isClean = true)
    (arity : ∀ gate ∈ circuit.gates, gate.operator.arity? = some gate.inputs.length)
    (inconstant : ∀ wire ∈ circuit.inputs, ¬ Domain.boolean.IsConstant wire)
    (scheduled : circuit.schedule = .ok ordered) {bits : List Bool}
    (length : bits.length = circuit.inputs.length) : ∃ values, circuit.Solves bits values := by
  have settles := settles_of_isClean clean scheduled
  obtain ⟨gates, rfl, perm, _⟩ := schedule_eq_ok scheduled
  have nodup : circuit.inputs.Nodup := by
    have filtered := (Module.isClean_iff_isOrderly.1 clean).singleDrivers.inputs
    rwa [List.filter_eq_self.2] at filtered
    intro wire member
    rw [toModule, isBoolean]
    exact decide_eq_true (inconstant wire member)
  obtain ⟨values, same, holds⟩ := settles.exists_holds
    (fun gate member => arity gate (perm.subset member))
    fun wire => ((circuit.inputs.zip bits).lookup wire).getD (decide (wire = trueWire))
  have constants : ∀ wire, Domain.boolean.IsConstant wire →
      values wire = decide (wire = trueWire) := by
    intro wire constant
    rw [same wire (Or.inl (by rwa [isBoolean]))]
    have absent : (circuit.inputs.zip bits).lookup wire = none := by
      rw [List.lookup_eq_none_iff]
      intro entry member
      rw [bne_iff_ne]
      rintro rfl
      exact inconstant _ (List.of_mem_zip member).1 constant
    rw [absent, Option.getD_none]
  refine ⟨values, ?_, ?_, fun gate member => holds gate (perm.symm.subset member)⟩
  · conv_rhs => rw [← map_getD_lookup_zip nodup length fun wire => decide (wire = trueWire)]
    exact List.map_congr_left fun wire member => same wire (Or.inr member)
  · rw [isBoolean]
    exact ⟨constants falseWire (by decide), constants trueWire (by decide)⟩

/-- Solutions of a clean circuit that can be scheduled agree on all of its wires. -/
theorem Solves.eq_of_mem_wires (clean : circuit.toModule.isClean = true)
    (scheduled : circuit.schedule = .ok ordered) {bits : List Bool} {one other : Valuation Bool}
    (oneSolves : circuit.Solves bits one) (otherSolves : circuit.Solves bits other) {wire : Wire}
    (member : wire ∈ circuit.wires) : one wire = other wire := by
  have settles := settles_of_isClean clean scheduled
  obtain ⟨gates, rfl, perm, _⟩ := schedule_eq_ok scheduled
  have given : ∀ wire, circuit.IsGiven wire → one wire = other wire := by
    rintro wire (constant | isInput)
    · exact oneSolves.holds.1.eq_of_constant otherSolves.holds.1 constant
    · exact List.map_inj_left.1 (oneSolves.inputs.trans otherSolves.inputs.symm) wire isInput
  rcases isDriven_toModule_iff.1 (isDriven_of_mem_wires clean member) with
    isGiven | ⟨gate, gateMember, rfl⟩
  · exact given wire isGiven
  · exact settles.eq_of_holds
      (fun gate isGate => oneSolves.holds.2 gate (perm.subset isGate))
      (fun gate isGate => otherSolves.holds.2 gate (perm.subset isGate)) given gate
      (perm.symm.subset gateMember)

end Circuit

end Netlist
