import Netlist.Design.Flattening
import Netlist.Proofs.Pruning

/-!
# Histories of passes

A circuit goes through passes in any order, and a sort may fail in between. Whatever it was made
of, by flattening a design or from a module that was built without instances, the sets of wires
that are kept beside it are those of its gates behind every pass, nothing but its gates is changed,
and gates that are in order once stay in order (`KeptCircuit.isExact_afterAll`). Order outlasts
pruning because gates are only left out (`IsScheduled.filter`), and compacting because no two wires
come to have the same number (`IsScheduled.map_rename`).
-/

namespace Netlist

/-- The sets of wires as a module gives them. -/
def Module.wireSets (module : Module) : WireSets :=
  ⟨module.gateInputs, module.gateOutputs, module.subcircuitInputs, module.subcircuitOutputs⟩

/-- As long as a module grows, the directions of its instances are not known. -/
theorem Module.Grows.subcircuits_eq {module : Module} {sets : WireSets}
    (grows : module.Grows sets) : sets.subcircuitInputs = [] ∧ sets.subcircuitOutputs = [] := by
  induction grows with
  | empty => exact ⟨rfl, rfl⟩
  | addInput _ _ ih => exact ih
  | addOutput _ _ ih => exact ih
  | addGate _ _ ih => exact ih
  | addInstance _ _ ih => exact ih

/-! ### Schedules -/

namespace IsScheduled

variable {gates : List Gate}

/-- Gates stay in order if some are left out. -/
theorem filter (scheduled : IsScheduled gates) (keep : Gate → Bool) :
    IsScheduled (gates.filter keep) := by
  induction gates with
  | nil => trivial
  | cons gate rest ih =>
    by_cases isKept : keep gate
    · have subset : gate :: rest.filter keep ⊆ gate :: rest :=
        List.cons_subset_cons gate (List.filter_subset_self _)
      rw [List.filter_cons_of_pos isKept]
      exact ⟨scheduled.1.of_subset subset, ih scheduled.2⟩
    · rw [List.filter_cons_of_neg isKept]
      exact ih scheduled.2

/-- Gates stay in order if their wires are renamed, and no two of them alike. -/
theorem map_rename {relabel : Wire → Wire} (scheduled : IsScheduled gates)
    (injective : ∀ one ∈ gates.flatMap Gate.wires, ∀ other ∈ gates.flatMap Gate.wires,
      relabel one = relabel other → one = other) :
    IsScheduled (gates.map (Gate.rename relabel)) := by
  induction gates with
  | nil => trivial
  | cons gate rest ih =>
    have named {node : Gate} (member : node ∈ gate :: rest) {wire : Wire}
        (isWire : wire ∈ node.wires) : wire ∈ (gate :: rest).flatMap Gate.wires :=
      List.mem_flatMap.2 ⟨node, member, isWire⟩
    constructor
    · intro copy isCopy isInput
      obtain ⟨driver, isDriver, rfl⟩ :=
        List.mem_map.1 (show copy ∈ (gate :: rest).map (Gate.rename relabel) from isCopy)
      obtain ⟨input, isInput, same⟩ := List.mem_map.1 isInput
      have isOutput : input = driver.output :=
        injective input (named List.mem_cons_self (Gate.mem_wires_iff.2 (Or.inl isInput)))
          driver.output (named isDriver (Gate.mem_wires_iff.2 (Or.inr rfl))) same
      exact scheduled.1 driver isDriver (isOutput ▸ isInput)
    · refine ih scheduled.2 fun one oneMember other otherMember => ?_
      exact injective one (List.mem_append_right _ oneMember) other
        (List.mem_append_right _ otherMember)

end IsScheduled

namespace KeptCircuit

/-! ### Passes -/

/-- A pass over a circuit. -/
inductive Pass where
  | sort
  | eliminate
  | compact
  deriving DecidableEq, Repr

variable {kept : KeptCircuit}

/-- What a pass leaves, whether or not it fails. -/
def after (kept : KeptCircuit) : Pass → KeptCircuit
  | .sort => kept.sort.1
  | .eliminate => kept.eliminate.1
  | .compact => kept.compact

/-- What some passes leave, one after the other. -/
def afterAll (kept : KeptCircuit) (passes : List Pass) : KeptCircuit :=
  passes.foldl after kept

/-- A pass changes nothing but the gates. -/
theorem circuit_after (kept : KeptCircuit) (pass : Pass) :
    (kept.after pass).circuit =
      { kept.circuit with gates := (kept.after pass).circuit.gates } := by
  cases pass with
  | sort =>
    rw [after]
    cases scheduled : kept.circuit.schedule with
    | ok ordered =>
      obtain ⟨gates, rfl, _⟩ := Circuit.schedule_eq_ok scheduled
      rw [sort_of_ok scheduled]
    | error error => rw [sort_of_error scheduled]
  | eliminate => rfl
  | compact => rfl

/-- Sorting changes nothing if the gates are in order. -/
theorem sort_of_isScheduled (inOrder : IsScheduled kept.circuit.gates) :
    kept.sort = (kept, .ok ()) :=
  sort_of_ok (Circuit.schedule_of_isScheduled inOrder)

theorem isScheduled_sort (sorted : kept.sort.2 = .ok ()) :
    IsScheduled kept.sort.1.circuit.gates := by
  obtain ⟨ordered, scheduled⟩ := sort_eq_ok_iff.1 sorted
  obtain ⟨gates, rfl, _, inOrder⟩ := Circuit.schedule_eq_ok scheduled
  rw [sort_of_ok scheduled]
  exact inOrder

/-- Gates that are in order are in order behind a pass. -/
theorem isScheduled_after (inOrder : IsScheduled kept.circuit.gates) (pass : Pass) :
    IsScheduled (kept.after pass).circuit.gates := by
  cases pass with
  | sort =>
    rw [after, sort_of_isScheduled inOrder]
    exact inOrder
  | eliminate => exact inOrder.filter _
  | compact =>
    refine inOrder.map_rename fun one oneMember other otherMember same => ?_
    exact Circuit.eq_of_compactWire_eq (Or.inr (List.mem_flatMap.1 oneMember))
      (Or.inr (List.mem_flatMap.1 otherMember)) same

/-! ### Exact sets -/

/-- The sets that are kept beside the circuit are its own. -/
def IsExact (kept : KeptCircuit) : Prop :=
  kept.sets = kept.circuit.toModule.wireSets

/-- Adding all gates anew leaves exact sets, if there were no instances. -/
theorem isExact_recount {sets : WireSets} (noInputs : sets.subcircuitInputs = [])
    (noOutputs : sets.subcircuitOutputs = []) (circuit : Circuit) :
    IsExact ⟨circuit, sets.recount circuit.gates⟩ := by
  rw [IsExact, WireSets.recount_eq, noInputs, noOutputs]
  rfl

theorem IsExact.after (exact : kept.IsExact) (pass : Pass) : (kept.after pass).IsExact := by
  have noInputs : kept.sets.subcircuitInputs = [] := congrArg WireSets.subcircuitInputs exact
  have noOutputs : kept.sets.subcircuitOutputs = [] := congrArg WireSets.subcircuitOutputs exact
  cases pass with
  | sort =>
    rw [KeptCircuit.after]
    cases scheduled : kept.circuit.schedule with
    | ok ordered =>
      -- the sets are left as they are, and the order of the gates does not matter to them
      obtain ⟨gates, rfl, perm, _⟩ := Circuit.schedule_eq_ok scheduled
      have inputs : Gate.allInputs gates = Gate.allInputs kept.circuit.gates :=
        Wire.ascending_perm (perm.flatMap_right _)
      have outputs : Gate.allOutputs gates = Gate.allOutputs kept.circuit.gates :=
        Wire.ascending_perm (perm.map _)
      rw [sort_of_ok scheduled]
      calc
        kept.sets =
            ⟨Gate.allInputs kept.circuit.gates, Gate.allOutputs kept.circuit.gates, [], []⟩ := exact
        _ = ⟨Gate.allInputs gates, Gate.allOutputs gates, [], []⟩ := by rw [inputs, outputs]
    | error error =>
      rw [sort_of_error scheduled]
      exact exact
  | eliminate => exact isExact_recount noInputs noOutputs _
  | compact => exact isExact_recount noInputs noOutputs _

/-! ### Circuits that are made -/

/-- The circuit was made by flattening a module of a design, and its gates were added to no sets,
or it is a module that has grown with its sets and has no instances. -/
inductive IsMade : KeptCircuit → Prop where
  | flattened {design : Design} {name : String} {circuit : Circuit} :
    (design.flattenModule name).result = .ok circuit →
      IsMade ⟨circuit, WireSets.empty.recount circuit.gates⟩
  | ofModule {module : Module} {sets : WireSets} {circuit : Circuit} :
    module.Grows sets → Circuit.ofModule? module = some circuit → IsMade ⟨circuit, sets⟩

theorem IsMade.isExact (made : kept.IsMade) : kept.IsExact := by
  cases made with
  | flattened => exact isExact_recount rfl rfl _
  | @ofModule module sets circuit grows flat =>
    obtain rfl := Circuit.toModule_of_ofModule? flat
    obtain ⟨noInputs, noOutputs⟩ := grows.subcircuits_eq
    calc
      sets = ⟨sets.gateInputs, sets.gateOutputs, sets.subcircuitInputs,
          sets.subcircuitOutputs⟩ := rfl
      _ = ⟨circuit.toModule.gateInputs, circuit.toModule.gateOutputs, [], []⟩ := by
        rw [grows.gateInputs_eq, grows.gateOutputs_eq, noInputs, noOutputs]

/-! ### Histories -/

theorem IsExact.afterAll (exact : kept.IsExact) (passes : List Pass) :
    (kept.afterAll passes).IsExact := by
  induction passes generalizing kept with
  | nil => exact exact
  | cons pass rest ih => exact ih (exact.after pass)

theorem circuit_afterAll (kept : KeptCircuit) (passes : List Pass) :
    (kept.afterAll passes).circuit =
      { kept.circuit with gates := (kept.afterAll passes).circuit.gates } := by
  induction passes generalizing kept with
  | nil => rfl
  | cons pass rest ih =>
    refine (ih (kept.after pass)).trans ?_
    rw [circuit_after]
    rfl

theorem isScheduled_afterAll (inOrder : IsScheduled kept.circuit.gates) (passes : List Pass) :
    IsScheduled (kept.afterAll passes).circuit.gates := by
  induction passes generalizing kept with
  | nil => exact inOrder
  | cons pass rest ih => exact ih (isScheduled_after inOrder pass)

/-- Behind any passes over a circuit that was made by flattening or from a module, some of which
may have failed, the sets that are kept are those of the circuit: there are the wires that its gates
read and write, and none of instances, as it has none. Its name, domain and ports are the ones from
the start. Once it is sorted it is in order behind all further passes, and sorting it again changes
nothing. -/
theorem isExact_afterAll (made : kept.IsMade) (passes : List Pass) :
    let last := kept.afterAll passes
    last.sets = last.circuit.toModule.wireSets ∧
    (∀ wire, wire ∈ last.sets.gateInputs ↔ ∃ gate ∈ last.circuit.gates, wire ∈ gate.inputs) ∧
    (∀ wire, wire ∈ last.sets.gateOutputs ↔ ∃ gate ∈ last.circuit.gates, gate.output = wire) ∧
    last.circuit.toModule.isFlat = true ∧
    last.sets.subcircuitInputs = [] ∧ last.sets.subcircuitOutputs = [] ∧
    last.circuit = { kept.circuit with gates := last.circuit.gates } ∧
    (last.sort.2 = .ok () → ∀ further,
      let later := last.sort.1.afterAll further
      IsScheduled later.circuit.gates ∧ later.sort = (later, .ok ())) := by
  intro last
  have exact : last.sets = last.circuit.toModule.wireSets := made.isExact.afterAll passes
  refine ⟨exact, ?_, ?_, rfl, ?_, ?_, circuit_afterAll kept passes, ?_⟩
  · rw [exact]
    exact fun wire => Gate.mem_allInputs_iff
  · rw [exact]
    exact fun wire => Gate.mem_allOutputs_iff
  · exact congrArg WireSets.subcircuitInputs exact
  · exact congrArg WireSets.subcircuitOutputs exact
  · intro sorted further
    have stays := isScheduled_afterAll (isScheduled_sort sorted) further
    exact ⟨stays, sort_of_isScheduled stays⟩

/-- Two gates out of order, and two that wait for each other and that no output depends on. -/
def deadLoop : KeptCircuit where
  circuit := ⟨"loop", .boolean, [2], [4],
    [⟨.buf, [7], 4⟩, ⟨.inv, [9], 8⟩, ⟨.inv, [8], 9⟩, ⟨.inv, [2], 7⟩]⟩
  sets := ⟨[2, 7, 8, 9], [4, 7, 8, 9], [], []⟩

/-- Sorting fails at first, and succeeds when the loop was dropped. -/
theorem isExact_afterAll_deadLoop :
    let last := deadLoop.afterAll [.sort, .eliminate, .compact]
    deadLoop.IsMade ∧ deadLoop.sort = (deadLoop, .error (.combinationalLoop 8)) ∧
    last = ⟨⟨"loop", .boolean, [2], [4], [⟨.buf, [5], 4⟩, ⟨.inv, [2], 5⟩]⟩,
      ⟨[2, 5], [4, 5], [], []⟩⟩ ∧
    last.sort.2 = .ok () ∧
    ∀ further, IsScheduled (last.sort.1.afterAll further).circuit.gates := by
  intro last
  have made : deadLoop.IsMade :=
    .ofModule (.addGate ⟨.inv, [2], 7⟩ <| .addGate ⟨.inv, [8], 9⟩ <| .addGate ⟨.inv, [9], 8⟩ <|
      .addGate ⟨.buf, [7], 4⟩ <| .addOutput 4 <| .addInput 2 <| .empty "loop" .boolean) rfl
  have failed : deadLoop.circuit.schedule = .error (.combinationalLoop 8) := by cbv
  have pruned : last = ⟨⟨"loop", .boolean, [2], [4], [⟨.buf, [5], 4⟩, ⟨.inv, [2], 5⟩]⟩,
      ⟨[2, 5], [4, 5], [], []⟩⟩ := by
    change deadLoop.afterAll [.sort, .eliminate, .compact] = _
    cbv
  have scheduled : last.circuit.schedule =
      .ok ⟨"loop", .boolean, [2], [4], [⟨.inv, [2], 5⟩, ⟨.buf, [5], 4⟩]⟩ := by
    rw [pruned]
    cbv
  have sorted : last.sort.2 = .ok () := sort_eq_ok_iff.2 ⟨_, scheduled⟩
  obtain ⟨_, _, _, _, _, _, _, stays⟩ := isExact_afterAll made [.sort, .eliminate, .compact]
  exact ⟨made, sort_of_error failed, pruned, sorted, fun further => (stays sorted further).1⟩

end KeptCircuit

end Netlist
