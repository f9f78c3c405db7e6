import Mathlib.Order.Bounds.Basic
import Netlist.Circuit.Marking
import Netlist.Proofs.Pruning

/-!
# Marking and liveness

While gates are marked, all wires that were seen are live, and a gate that drives one of them is
marked, unless the wire is pending or the gate is due (`Marking.Explores`). Once no wire is
pending, the wires that were seen are therefore all live ones, and the gates that are marked are
those that drive them (`Circuit.markedGates_eq`), whatever loops there are and however many
gates drive a wire. So dropping dead gates leaves exactly the gates that drive a wire of the
least set that contains the outputs and, with a wire, all that its drivers read
(`KeptCircuit.eliminate_isLiveness`).
-/

namespace Netlist

theorem Gate.mem_driversOf_iff {gates : List Gate} {wire : Wire} {place : Fin gates.length} :
    place ∈ driversOf gates wire ↔ (gates.get place).output = wire := by
  simp [driversOf]

namespace Marking

/-! ### Seeing wires -/

section

variable {gates : List Gate} {state : Marking gates} {wires : List Wire} {wire : Wire}

theorem mem_seen_see_iff {other : Wire} :
    wire ∈ (state.see other).seen ↔ wire ∈ state.seen ∨ wire = other := by
  unfold see
  split
  · rename_i wasSeen
    constructor
    · exact Or.inl
    · rintro (isSeen | rfl)
      · exact isSeen
      · exact wasSeen
  · rw [Finset.mem_insert, or_comm]

theorem mem_seen_foldl_see_iff :
    wire ∈ (wires.foldl see state).seen ↔ wire ∈ state.seen ∨ wire ∈ wires := by
  induction wires generalizing state with
  | nil => simp
  | cons head rest ih => rw [List.foldl_cons, ih, mem_seen_see_iff, List.mem_cons, or_assoc]

/-- What is pending was seen. -/
theorem mem_seen_of_mem_pending_foldl_see (known : ∀ wire ∈ state.pending, wire ∈ state.seen)
    (isPending : wire ∈ (wires.foldl see state).pending) :
    wire ∈ (wires.foldl see state).seen := by
  induction wires generalizing state with
  | nil => exact known wire isPending
  | cons head rest ih =>
    refine ih (fun other otherPending => ?_) isPending
    rw [mem_seen_see_iff]
    unfold see at otherPending
    split at otherPending
    · exact Or.inl (known other otherPending)
    · exact (List.mem_cons.1 otherPending).symm.imp_left (known other)

/-- A wire that is seen is pending then, unless it was taken before. -/
theorem mem_pending_foldl_see (isSeen : wire ∈ (wires.foldl see state).seen)
    (notTaken : wire ∈ state.seen → wire ∈ state.pending) :
    wire ∈ (wires.foldl see state).pending := by
  induction wires generalizing state with
  | nil => exact notTaken isSeen
  | cons head rest ih =>
    refine ih isSeen fun seenSoFar => ?_
    rw [mem_seen_see_iff] at seenSoFar
    unfold see
    split
    · rename_i headSeen
      rcases seenSoFar with wasSeen | rfl
      · exact notTaken wasSeen
      · exact notTaken headSeen
    · rcases seenSoFar with wasSeen | rfl
      · exact List.mem_cons_of_mem _ (notTaken wasSeen)
      · exact List.mem_cons_self

end

/-! ### What marking keeps -/

variable {circuit : Circuit} {state : Marking circuit.gates}
  {due : List (Fin circuit.gates.length)}

/-- The outputs were seen, and with each gate that is marked its inputs. All that was seen is
live. A gate that drives a wire that was seen is marked, except that the wire may be pending and
the gate may be due; no other gate is marked or due. -/
structure Explores (circuit : Circuit) (state : Marking circuit.gates)
    (due : List (Fin circuit.gates.length)) : Prop where
  outputs : ∀ wire ∈ circuit.outputs, wire ∈ state.seen
  inputs : ∀ place ∈ state.marked, ∀ wire ∈ (circuit.gates.get place).inputs, wire ∈ state.seen
  live : ∀ wire ∈ state.seen, circuit.Live wire
  pending : ∀ wire ∈ state.pending, wire ∈ state.seen
  drives : ∀ place, place ∈ state.marked ∨ place ∈ due →
    (circuit.gates.get place).output ∈ state.seen
  drivers : ∀ place, (circuit.gates.get place).output ∈ state.seen →
    (circuit.gates.get place).output ∈ state.pending ∨ place ∈ state.marked ∨ place ∈ due

theorem explores_start (circuit : Circuit) :
    (start circuit.gates circuit.outputs).Explores circuit [] := by
  have isSeen : ∀ wire, wire ∈ (start circuit.gates circuit.outputs).seen ↔
      wire ∈ circuit.outputs := fun _ => List.mem_toFinset
  have isPending : ∀ wire, wire ∈ (start circuit.gates circuit.outputs).pending ↔
      wire ∈ circuit.outputs := fun _ => List.mem_reverse
  have unmarked : ∀ place, place ∉ (start circuit.gates circuit.outputs).marked :=
    Finset.notMem_empty
  constructor
  · exact fun wire => (isSeen wire).2
  · exact fun place isMarked => absurd isMarked (unmarked place)
  · exact fun wire wasSeen => .output ((isSeen wire).1 wasSeen)
  · exact fun wire waits => (isSeen wire).2 ((isPending wire).1 waits)
  · rintro place (isMarked | isDue)
    · exact absurd isMarked (unmarked place)
    · cases isDue
  · exact fun place wasSeen => Or.inl ((isPending _).2 ((isSeen _).1 wasSeen))

namespace Explores

theorem mark {place : Fin circuit.gates.length} (explores : state.Explores circuit (place :: due)) :
    (state.mark place).Explores circuit due := by
  by_cases wasMarked : place ∈ state.marked
  · rw [mark_of_mem wasMarked]
    refine ⟨explores.outputs, explores.inputs, explores.live, explores.pending, ?_, ?_⟩
    · exact fun other known => explores.drives other (known.imp_right (List.mem_cons_of_mem _))
    · intro other wasSeen
      refine (explores.drivers other wasSeen).imp_right fun known => ?_
      rcases known with isMarked | isDue
      · exact Or.inl isMarked
      · rcases List.mem_cons.1 isDue with rfl | isDue
        · exact Or.inl wasMarked
        · exact Or.inr isDue
  · have seen : ∀ wire, wire ∈ (state.mark place).seen ↔
        wire ∈ state.seen ∨ wire ∈ (circuit.gates.get place).inputs := by
      intro wire
      rw [Marking.mark, if_neg wasMarked]
      exact mem_seen_foldl_see_iff
    have marked : ∀ other, other ∈ (state.mark place).marked ↔
        other = place ∨ other ∈ state.marked := by
      intro other
      rw [marked_mark, Finset.mem_insert]
    constructor
    · exact fun wire isOutput => (seen wire).2 (Or.inl (explores.outputs wire isOutput))
    · intro other isMarked wire isInput
      rcases (marked other).1 isMarked with rfl | isMarked
      · exact (seen wire).2 (Or.inr isInput)
      · exact (seen wire).2 (Or.inl (explores.inputs other isMarked wire isInput))
    · intro wire isSeen
      rcases (seen wire).1 isSeen with wasSeen | isInput
      · exact explores.live wire wasSeen
      · have driven := explores.drives place (Or.inr List.mem_cons_self)
        exact .input (List.get_mem _ _) (explores.live _ driven) isInput
    · intro wire isPending
      rw [Marking.mark, if_neg wasMarked] at isPending ⊢
      exact mem_seen_of_mem_pending_foldl_see explores.pending isPending
    · intro other known
      refine (seen _).2 (Or.inl (explores.drives other ?_))
      rcases known with isMarked | isDue
      · rcases (marked other).1 isMarked with rfl | isMarked
        · exact Or.inr List.mem_cons_self
        · exact Or.inl isMarked
      · exact Or.inr (List.mem_cons_of_mem _ isDue)
    · intro other isSeen
      by_cases notTaken : (circuit.gates.get other).output ∈ state.seen →
          (circuit.gates.get other).output ∈ state.pending
      · rw [Marking.mark, if_neg wasMarked] at isSeen ⊢
        exact Or.inl (mem_pending_foldl_see isSeen notTaken)
      · push Not at notTaken
        right
        rcases (explores.drivers other notTaken.1).resolve_left notTaken.2 with isMarked | isDue
        · exact Or.inl ((marked other).2 (Or.inr isMarked))
        · exact (List.mem_cons.1 isDue).imp_left fun same => (marked other).2 (Or.inl same)

theorem foldl_mark (explores : state.Explores circuit due) :
    (due.foldl Marking.mark state).Explores circuit [] := by
  induction due generalizing state with
  | nil => exact explores
  | cons place rest ih => exact ih explores.mark

/-- When a wire is taken, the gates that drive it are due. -/
theorem take (explores : state.Explores circuit []) {wire : Wire} {others : List Wire}
    (waiting : state.pending = wire :: others) : (state.take wire others).Explores circuit [] := by
  have wasPending : ∀ other, other ∈ state.pending ↔ other = wire ∨ other ∈ others := by
    intro other
    rw [waiting, List.mem_cons]
  refine foldl_mark ⟨explores.outputs, explores.inputs, explores.live, ?_, ?_, ?_⟩
  · exact fun other waits => explores.pending other ((wasPending other).2 (Or.inr waits))
  · rintro place (isMarked | isDue)
    · exact explores.drives place (Or.inl isMarked)
    · rw [Gate.mem_driversOf_iff.1 isDue]
      exact explores.pending wire ((wasPending wire).2 (Or.inl rfl))
  · intro place wasSeen
    rcases explores.drivers place wasSeen with waits | isMarked | isDue
    · rcases (wasPending _).1 waits with drives | waits
      · exact Or.inr (Or.inr (Gate.mem_driversOf_iff.2 drives))
      · exact Or.inl waits
    · exact Or.inr (Or.inl isMarked)
    · cases isDue

theorem run (explores : state.Explores circuit []) :
    state.run.Explores circuit [] ∧ state.run.pending = [] := by
  fun_induction Marking.run state with
  | case1 state noneWaits => exact ⟨explores, noneWaits⟩
  | case2 state wire others waiting ih => exact ih (explores.take waiting)

/-- Once no wire is pending, all live wires were seen. -/
theorem mem_seen (explores : state.Explores circuit []) (noneWaits : state.pending = [])
    {wire : Wire} (isLive : circuit.Live wire) : wire ∈ state.seen := by
  induction isLive with
  | output isOutput => exact explores.outputs _ isOutput
  | input member _ isInput driven =>
    obtain ⟨place, rfl⟩ := List.get_of_mem member
    rcases explores.drivers place driven with waits | isMarked | isDue
    · rw [noneWaits] at waits
      cases waits
    · exact explores.inputs place isMarked _ isInput
    · cases isDue

end Explores

/-- The gates that are marked from the outputs are those that drive a live wire. -/
theorem mem_marked_run_iff {place : Fin circuit.gates.length} :
    place ∈ (start circuit.gates circuit.outputs).run.marked ↔
      circuit.Live (circuit.gates.get place).output := by
  obtain ⟨explores, noneWaits⟩ := (explores_start circuit).run
  constructor
  · exact fun isMarked => explores.live _ (explores.drives place (Or.inl isMarked))
  · intro isLive
    rcases explores.drivers place (explores.mem_seen noneWaits isLive) with waits | isMarked | isDue
    · rw [noneWaits] at waits
      cases waits
    · exact isMarked
    · cases isDue

end Marking

namespace Circuit

variable {circuit : Circuit}

theorem gates_dropDead (circuit : Circuit) :
    circuit.dropDead.gates = circuit.gates.filter fun gate => gate.output ∈ circuit.live :=
  rfl

/-- Marking comes to the same gates as the search for live wires. -/
theorem markedGates_eq (circuit : Circuit) : circuit.markedGates = circuit.dropDead.gates := by
  have same : ∀ place, decide (place ∈ (Marking.start circuit.gates circuit.outputs).run.marked) =
      decide ((circuit.gates.get place).output ∈ circuit.live) := by
    intro place
    rw [decide_eq_decide, Marking.mem_marked_run_iff, mem_live_iff]
  calc circuit.markedGates
    _ = ((List.finRange circuit.gates.length).filter fun place =>
        (circuit.gates.get place).output ∈ circuit.live).map circuit.gates.get :=
      congrArg (List.map circuit.gates.get) (List.filter_congr fun place _ => same place)
    _ = ((List.finRange circuit.gates.length).map circuit.gates.get).filter fun gate =>
        gate.output ∈ circuit.live := by
      rw [List.filter_map]
      rfl
    _ = circuit.dropDead.gates := by
      rw [List.map_get_finRange]
      rfl

/-- What is live is still live once dead gates were dropped, and nothing else is. -/
theorem live_dropDead_iff {wire : Wire} : circuit.dropDead.Live wire ↔ circuit.Live wire := by
  constructor
  · intro isLive
    induction isLive with
    | output isOutput => exact .output isOutput
    | input member _ isInput ih => exact .input (List.mem_of_mem_filter member) ih isInput
  · intro isLive
    induction isLive with
    | output isOutput => exact .output isOutput
    | @input gate _ member driven isInput ih =>
      have isKept : gate ∈ circuit.dropDead.gates :=
        List.mem_filter.2 ⟨member, decide_eq_true (mem_live_iff.2 driven)⟩
      exact .input isKept ih isInput

/-- No gate is dead once dead gates were dropped. -/
theorem dropDead_dropDead (circuit : Circuit) : circuit.dropDead.dropDead = circuit.dropDead := by
  have allLive : ∀ gate ∈ circuit.dropDead.gates, gate.output ∈ circuit.dropDead.live := by
    intro gate member
    rw [mem_live_iff, live_dropDead_iff, ← mem_live_iff]
    exact of_decide_eq_true (List.mem_filter.1 member).2
  have same : circuit.dropDead.dropDead.gates = circuit.dropDead.gates := by
    rw [gates_dropDead circuit.dropDead, List.filter_eq_self]
    exact fun gate member => decide_eq_true (allLive gate member)
  exact congrArg (fun gates => { circuit with gates }) same

theorem deadCount_dropDead (circuit : Circuit) : circuit.dropDead.deadCount = 0 := by
  rw [deadCount, dropDead_dropDead, Nat.sub_self]

theorem deadCount_eq_countP (circuit : Circuit) :
    circuit.deadCount = circuit.gates.countP fun gate => gate.output ∉ circuit.live := by
  have whole := List.length_eq_countP_add_countP (l := circuit.gates) fun gate =>
    decide (gate.output ∈ circuit.live)
  have kept : circuit.dropDead.gates.length =
      circuit.gates.countP fun gate => gate.output ∈ circuit.live :=
    List.countP_eq_length_filter.symm
  simp only [decide_eq_true_eq] at whole
  rw [deadCount, kept, whole, Nat.add_sub_cancel_left]

/-- The wires contain the outputs and, with the output of a gate, all of its inputs. -/
structure IsDependencyClosed (circuit : Circuit) (wires : Set Wire) : Prop where
  outputs : ∀ wire ∈ circuit.outputs, wire ∈ wires
  inputs : ∀ gate ∈ circuit.gates, gate.output ∈ wires → ∀ wire ∈ gate.inputs, wire ∈ wires

/-- The live wires are the least such set. -/
theorem isLeast_live (circuit : Circuit) :
    IsLeast {wires | circuit.IsDependencyClosed wires} {wire | circuit.Live wire} := by
  constructor
  · exact ⟨fun wire => .output, fun gate member isLive wire => .input member isLive⟩
  · intro wires closed wire isLive
    induction isLive with
    | output isOutput => exact closed.outputs _ isOutput
    | input member _ isInput driven => exact closed.inputs _ member driven _ isInput

end Circuit

namespace KeptCircuit

open scoped Classical in
/-- Dropping dead gates leaves the gates, in order, that drive a wire of the least set that
contains the outputs and, with the output of a gate, all of its inputs. These are the gates that
are marked. The number of the other ones is told, and the sets of gate wires are those of the
gates that stay. Doing so again changes nothing. -/
theorem eliminate_isLiveness (kept : KeptCircuit) :
    (∃ live : Set Wire, IsLeast {wires | kept.circuit.IsDependencyClosed wires} live ∧
      kept.eliminate.1.circuit = { kept.circuit with
        gates := kept.circuit.gates.filter fun gate => gate.output ∈ live } ∧
      kept.eliminate.2 = kept.circuit.gates.countP fun gate => gate.output ∉ live) ∧
    kept.eliminate.1.circuit.gates = kept.circuit.markedGates ∧
    kept.eliminate.1.sets = { kept.sets with
      gateInputs := Gate.allInputs kept.eliminate.1.circuit.gates
      gateOutputs := Gate.allOutputs kept.eliminate.1.circuit.gates } ∧
    kept.eliminate.1.eliminate = (kept.eliminate.1, 0) := by
  refine ⟨⟨_, Circuit.isLeast_live _, ?_, ?_⟩, (Circuit.markedGates_eq _).symm,
    WireSets.recount_eq _ _, ?_⟩
  · have same : kept.circuit.dropDead.gates =
        kept.circuit.gates.filter fun gate => gate.output ∈ {wire | kept.circuit.Live wire} := by
      rw [Circuit.gates_dropDead]
      refine List.filter_congr fun gate _ => ?_
      rw [decide_eq_decide, Circuit.mem_live_iff, Set.mem_ofPred_eq]
    exact congrArg (fun gates => { kept.circuit with gates }) same
  · refine (Circuit.deadCount_eq_countP _).trans (List.countP_congr fun gate _ => ?_)
    rw [decide_eq_true_iff, decide_eq_true_iff, Circuit.mem_live_iff, Set.mem_ofPred_eq]
  · unfold eliminate
    rw [Circuit.dropDead_dropDead, Circuit.deadCount_dropDead, WireSets.recount_eq,
      WireSets.recount_eq]

end KeptCircuit

end Netlist
