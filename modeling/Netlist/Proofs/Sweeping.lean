import Netlist.Circuit.Sweep
import Netlist.Proofs.Simplification

/-!
# Sweeps over simplified circuits

Dropping dead gates changes what a sweep finds only at wires that are driven but not live
(`Circuit.sweep_dropDead`), since all drivers of a live wire stay, and read live wires.
Compacting changes it only at wires whose numbers change or go to other wires
(`Circuit.sweep_compact`), since it confuses no two wires of the circuit.
-/

namespace Netlist

/-! ### Gates -/

namespace Gate

theorem mapM_congr {effect : Type → Type} [Monad effect] [LawfulMonad effect]
    {first second : Wire → effect Bool} {wires : List Wire}
    (agree : ∀ wire ∈ wires, first wire = second wire) :
    wires.mapM first = wires.mapM second := by
  induction wires with
  | nil => rfl
  | cons wire rest ih =>
    obtain ⟨head, others⟩ := List.forall_mem_cons.1 agree
    rw [List.mapM_cons, List.mapM_cons, head, ih others]

/-- Only the inputs of a gate matter. -/
theorem value?_congr {first second : Knowledge} {gate : Gate}
    (agree : ∀ wire ∈ gate.inputs, first wire = second wire) :
    gate.value? first = gate.value? second := by
  rw [value?, value?, mapM_congr agree]

theorem value?_rename {known : Knowledge} {relabel : Wire → Wire} {gate : Gate} :
    (gate.rename relabel).value? known = gate.value? (known ∘ relabel) := by
  rw [value?, value?, rename, List.mapM_map]

theorem learn_of_ne {known : Knowledge} {gate : Gate} {wire : Wire}
    (different : wire ≠ gate.output) : gate.learn known wire = known wire := by
  unfold learn
  cases gate.value? known with
  | some bit => exact Function.update_of_ne different _ _
  | none => rfl

theorem learn_output (known : Knowledge) (gate : Gate) :
    gate.learn known gate.output = (gate.value? known).or (known gate.output) := by
  unfold learn
  cases gate.value? known with
  | some bit => exact Function.update_self _ _ _
  | none => rfl

/-- A gate adds the same to what is known of some wires if its inputs are among them. -/
theorem learn_congr {first second : Knowledge} {gate : Gate} {matters : Wire → Prop}
    (agree : ∀ wire, matters wire → first wire = second wire)
    (inputs : ∀ wire ∈ gate.inputs, matters wire) :
    ∀ wire, matters wire → gate.learn first wire = gate.learn second wire := by
  intro wire isMatter
  by_cases isOutput : wire = gate.output
  · rw [isOutput, learn_output, learn_output,
      value?_congr fun input member => agree input (inputs input member),
      agree _ (isOutput ▸ isMatter)]
  · rw [learn_of_ne isOutput, learn_of_ne isOutput, agree wire isMatter]

/-- A gate may be left out if its output does not matter. -/
theorem foldl_learn_filter {keep : Gate → Bool} {matters : Wire → Prop} {gates : List Gate}
    {first second : Knowledge} (agree : ∀ wire, matters wire → first wire = second wire)
    (kept : ∀ gate ∈ gates, keep gate = true → ∀ wire ∈ gate.inputs, matters wire)
    (dropped : ∀ gate ∈ gates, keep gate = false → ¬ matters gate.output) :
    ∀ wire, matters wire →
      (gates.filter keep).foldl learn first wire = gates.foldl learn second wire := by
  induction gates generalizing first second with
  | nil => exact agree
  | cons gate rest ih =>
    obtain ⟨headKept, restKept⟩ := List.forall_mem_cons.1 kept
    obtain ⟨headDropped, restDropped⟩ := List.forall_mem_cons.1 dropped
    cases kept : keep gate with
    | true =>
      rw [List.filter_cons_of_pos kept]
      exact ih (learn_congr agree (headKept kept)) restKept restDropped
    | false =>
      rw [List.filter_cons_of_neg (by rw [kept]; exact Bool.false_ne_true)]
      refine ih (fun wire isMatter => ?_) restKept restDropped
      have different : wire ≠ gate.output := by
        rintro rfl
        exact headDropped kept isMatter
      rw [learn_of_ne different, agree wire isMatter]

/-- Wires may be renamed if no two are confused. -/
theorem foldl_learn_rename {relabel : Wire → Wire} {matters : Wire → Prop} {gates : List Gate}
    {first second : Knowledge} (agree : ∀ wire, matters wire → first (relabel wire) = second wire)
    (apart : ∀ one other, matters one → matters other → relabel one = relabel other → one = other)
    (inside : ∀ gate ∈ gates, ∀ wire ∈ gate.wires, matters wire) :
    ∀ wire, matters wire →
      (gates.map (Gate.rename relabel)).foldl learn first (relabel wire) =
        gates.foldl learn second wire := by
  induction gates generalizing first second with
  | nil => exact agree
  | cons gate rest ih =>
    obtain ⟨headInside, restInside⟩ := List.forall_mem_cons.1 inside
    refine ih (fun wire isMatter => ?_) restInside
    have isOutput := headInside gate.output (mem_wires_iff.2 (Or.inr rfl))
    by_cases same : wire = gate.output
    · have value : (gate.rename relabel).value? first = gate.value? second := by
        rw [value?_rename]
        exact value?_congr fun input member =>
          agree input (headInside input (mem_wires_iff.2 (Or.inl member)))
      subst same
      have renamed := learn_output first (gate.rename relabel)
      rw [value] at renamed
      rw [learn_output, ← agree _ isMatter]
      exact renamed
    · have different : relabel wire ≠ (gate.rename relabel).output := fun collision =>
        same (apart wire gate.output isMatter isOutput collision)
      rw [learn_of_ne different, learn_of_ne same, agree wire isMatter]

end Gate

/-! ### Dead gates -/

/-- All wires that a driver of a live wire reads are live. -/
theorem mem_liveWires_of_driver {gates : List Gate} {front : List Wire} {gate : Gate}
    (member : gate ∈ gates) (drives : gate.output ∈ liveWires gates front) :
    ∀ wire ∈ gate.inputs, wire ∈ liveWires gates front := by
  fun_induction liveWires gates front with
  | case1 gates front finished =>
    have absent : gate ∉ Gate.drivingAny front gates := by
      rw [finished]
      exact List.not_mem_nil
    exact absurd (List.mem_filter.2 ⟨member, decide_eq_true drives⟩) absent
  | case2 gates front _ _ ih =>
    intro wire isInput
    apply List.mem_append_right
    by_cases inFront : gate.output ∈ front
    · apply subset_liveWires
      exact List.mem_flatMap.2 ⟨gate, List.mem_filter.2 ⟨member, decide_eq_true inFront⟩, isInput⟩
    · refine ih (List.mem_filter.2 ⟨member, decide_eq_true inFront⟩) ?_ wire isInput
      exact (List.mem_append.1 drives).resolve_left inFront

namespace Circuit

variable {circuit : Circuit} {wire : Wire}

/-- The search from the outputs comes to all live wires. -/
theorem mem_live_of_live (isLive : circuit.Live wire) : wire ∈ circuit.live := by
  induction isLive with
  | output isOutput => exact subset_liveWires _ _ isOutput
  | input member _ isInput drives => exact mem_liveWires_of_driver member drives _ isInput

/-- A sweep finds the same after dead gates were dropped, at live wires and at those that
no gate drives. -/
theorem sweep_dropDead (assignment : Wire → Bool)
    (kept : circuit.Live wire ∨ ∀ gate ∈ circuit.gates, gate.output ≠ wire) :
    circuit.dropDead.sweep assignment wire = circuit.sweep assignment wire := by
  have swept : ∀ wire, (wire ∈ circuit.live ∨ ∀ gate ∈ circuit.gates, gate.output ≠ wire) →
      circuit.dropDead.sweep assignment wire = circuit.sweep assignment wire := by
    refine Gate.foldl_learn_filter (fun _ _ => rfl) ?_ ?_
    · intro gate member isKept input isInput
      exact Or.inl (mem_liveWires_of_driver member (of_decide_eq_true isKept) input isInput)
    · rintro gate member isDropped (isLive | undriven)
      · exact of_decide_eq_false isDropped isLive
      · exact undriven gate member rfl
  exact swept wire (kept.imp_left mem_live_of_live)

/-! ### Compact numbering -/

/-- Compacting leaves the wire its number, and gives this number to no other wire. -/
def KeepsNumber (circuit : Circuit) (wire : Wire) : Prop :=
  circuit.compactWire wire = wire ∧
    ∀ gate ∈ circuit.gates, ∀ other ∈ gate.wires, circuit.compactWire other = wire → other = wire

/-- The wires that a circuit names. -/
def Names (circuit : Circuit) (wire : Wire) : Prop :=
  wire ∈ circuit.fixedWires ∨ ∃ gate ∈ circuit.gates, wire ∈ gate.wires

theorem innerStart_le_compactWire (named : circuit.Names wire)
    (notFixed : wire ∉ circuit.fixedWires) : circuit.innerStart ≤ circuit.compactWire wire := by
  obtain ⟨gate, gateMember, member⟩ := named.resolve_left notFixed
  obtain ⟨place, _, number⟩ := compactWire_of_notMem_fixedWires gateMember member notFixed
  rw [number]
  exact Nat.le_add_right _ _

/-- No two wires get the same number. -/
theorem eq_of_compactWire_eq {one other : Wire} (oneNamed : circuit.Names one)
    (otherNamed : circuit.Names other)
    (same : circuit.compactWire one = circuit.compactWire other) : one = other := by
  by_cases oneFixed : one ∈ circuit.fixedWires
  · by_cases otherFixed : other ∈ circuit.fixedWires
    · rwa [compactWire_of_mem_fixedWires oneFixed,
        compactWire_of_mem_fixedWires otherFixed] at same
    · have above := innerStart_le_compactWire otherNamed otherFixed
      rw [← same, compactWire_of_mem_fixedWires oneFixed] at above
      exact absurd (lt_innerStart oneFixed) (Nat.not_lt.2 above)
  · by_cases otherFixed : other ∈ circuit.fixedWires
    · have above := innerStart_le_compactWire oneNamed oneFixed
      rw [same, compactWire_of_mem_fixedWires otherFixed] at above
      exact absurd (lt_innerStart otherFixed) (Nat.not_lt.2 above)
    · obtain ⟨oneGate, oneMember, oneWire⟩ := oneNamed.resolve_left oneFixed
      obtain ⟨otherGate, otherMember, otherWire⟩ := otherNamed.resolve_left otherFixed
      obtain ⟨first, firstPlace, firstNumber⟩ :=
        compactWire_of_notMem_fixedWires oneMember oneWire oneFixed
      obtain ⟨second, secondPlace, secondNumber⟩ :=
        compactWire_of_notMem_fixedWires otherMember otherWire otherFixed
      rw [firstNumber, secondNumber] at same
      rw [Nat.add_left_cancel same, secondPlace] at firstPlace
      exact (Option.some.inj firstPlace).symm

/-- Ports and constants keep their numbers. -/
theorem keepsNumber_of_mem_fixedWires (isFixed : wire ∈ circuit.fixedWires) :
    circuit.KeepsNumber wire := by
  have number := compactWire_of_mem_fixedWires isFixed
  refine ⟨number, fun gate member other isWire same => ?_⟩
  exact eq_of_compactWire_eq (Or.inr ⟨gate, member, isWire⟩) (Or.inl isFixed)
    (same.trans number.symm)

theorem given_eq_none (notFixed : wire ∉ circuit.fixedWires) (assignment : Wire → Bool) :
    circuit.given assignment wire = none := by
  unfold given
  rw [if_neg, if_neg]
  · exact fun isInput => notFixed (List.mem_append_left _ (List.mem_append_left _ isInput))
  · exact fun constant => notFixed (List.mem_append_right _ (List.mem_range.2 constant))

theorem given_compactWire (assignment : Wire → Bool)
    (named : circuit.Names wire ∨ circuit.compactWire wire = wire) :
    circuit.given assignment (circuit.compactWire wire) = circuit.given assignment wire := by
  by_cases isFixed : wire ∈ circuit.fixedWires
  · rw [compactWire_of_mem_fixedWires isFixed]
  · rcases named with isNamed | same
    · have above := innerStart_le_compactWire isNamed isFixed
      rw [given_eq_none isFixed, given_eq_none]
      exact fun numbered => Nat.not_lt.2 above (lt_innerStart numbered)
    · rw [same]

/-- A sweep finds the same after compacting, at wires that keep their numbers. -/
theorem sweep_compact (assignment : Wire → Bool) (keeps : circuit.KeepsNumber wire) :
    circuit.compact.sweep assignment wire = circuit.sweep assignment wire := by
  have apart : ∀ one other, circuit.Names one ∨ one = wire → circuit.Names other ∨ other = wire →
      circuit.compactWire one = circuit.compactWire other → one = other := by
    have taken : ∀ other, circuit.Names other → circuit.compactWire other = wire →
        other = wire := by
      rintro other (isFixed | ⟨gate, member, isWire⟩) same
      · exact (compactWire_of_mem_fixedWires isFixed).symm.trans same
      · exact keeps.2 gate member other isWire same
    rintro one other (oneNamed | rfl) (otherNamed | rfl) same
    · exact eq_of_compactWire_eq oneNamed otherNamed same
    · exact taken one oneNamed (same.trans keeps.1)
    · exact (taken other otherNamed (same.symm.trans keeps.1)).symm
    · rfl
  have start : ∀ other, circuit.Names other ∨ other = wire →
      circuit.given assignment (circuit.compactWire other) = circuit.given assignment other := by
    rintro other (isNamed | rfl)
    · exact given_compactWire assignment (Or.inl isNamed)
    · exact given_compactWire assignment (Or.inr keeps.1)
  have swept := Gate.foldl_learn_rename start apart
    (fun gate member other isWire => Or.inl (Or.inr ⟨gate, member, isWire⟩)) wire (Or.inr rfl)
  rw [keeps.1] at swept
  exact swept

/-! ### Simplification -/

/-- The circuit without its dead gates, if they are to be dropped. -/
def pruned (circuit : Circuit) (options : Command.Options) : Circuit :=
  if options.eliminateDead then circuit.dropDead else circuit

theorem result_simplify (options : Command.Options) (circuit : Circuit) :
    (Command.simplify options circuit).result =
      .ok (if options.compact then (circuit.pruned options).compact
        else circuit.pruned options) := by
  unfold Command.simplify pruned
  cases options.eliminateDead <;> rfl

/-- A sweep finds the same after simplification, at wires that keep their drivers and
numbers. -/
theorem sweep_simplify {options : Command.Options} {processed : Circuit}
    (simplified : (Command.simplify options circuit).result = .ok processed)
    (assignment : Wire → Bool)
    (kept : options.eliminateDead = true →
      circuit.Live wire ∨ ∀ gate ∈ circuit.gates, gate.output ≠ wire)
    (keeps : options.compact = true → (circuit.pruned options).KeepsNumber wire) :
    processed.sweep assignment wire = circuit.sweep assignment wire := by
  rw [result_simplify] at simplified
  cases simplified
  have start : (circuit.pruned options).sweep assignment wire = circuit.sweep assignment wire := by
    unfold pruned
    split
    · rename_i eliminates
      exact sweep_dropDead assignment (kept eliminates)
    · rfl
  split
  · rename_i compacts
    exact (sweep_compact assignment (keeps compacts)).trans start
  · exact start

end Circuit

/-- The flat circuit of a design with its gates in order, and what becomes of it. -/
def Design.IsProcessed (design : Design) (options : Command.Options)
    (ordered processed : Circuit) : Prop :=
  ∃ flat, design.flatten.result = .ok flat ∧ flat.schedule = .ok ordered ∧
    (Command.simplify options ordered).result = .ok processed

end Netlist
