import Netlist.Proofs.Passes
import Netlist.Proofs.Scheduling
import Netlist.Proofs.Settling
import Netlist.Proofs.Sweeping

/-!
# Pruning and scheduling

Gates may be left out before a run of the scheduler or after it, if every driver of a gate
that stays is a gate that stays: what is left out is then never waited for, so the run takes
the gates that stay in the same order (`Schedules.filter`). The live gates are such gates,
and they are the same in every order (`Circuit.mem_live_iff`, `Circuit.Live.of_perm`). So
sorting and dropping dead gates commute (`KeptCircuit.sort_eliminate`).
-/

namespace Netlist

/-- A gate that waits for some gate waits for one that stays, if all its drivers stay. -/
theorem Gate.not_isReady_filter {gates : List Gate} {gate : Gate} {keep : Gate → Bool}
    (drivers : ∀ driver ∈ gates, driver.output ∈ gate.inputs → keep driver)
    (notReady : ¬ gate.IsReady gates) : ¬ gate.IsReady (gates.filter keep) := by
  intro ready
  apply notReady
  intro driver member isInput
  exact ready driver (List.mem_filter.2 ⟨member, drivers driver member isInput⟩) isInput

/-- Gates may be left out if no gate that stays waits for them. -/
theorem Schedules.filter {remaining ordered stuck : List Gate} {keep : Gate → Bool}
    (schedules : Schedules remaining ordered stuck)
    (closed : ∀ gate ∈ remaining, keep gate → ∀ driver ∈ remaining,
      driver.output ∈ gate.inputs → keep driver) :
    Schedules (remaining.filter keep) (ordered.filter keep) (stuck.filter keep) := by
  induction schedules with
  | @stop remaining notReady =>
    refine .stop fun gate member => ?_
    rcases List.mem_filter.1 member with ⟨isGate, isKept⟩
    exact Gate.not_isReady_filter (closed gate isGate isKept) (notReady gate isGate)
  | @take before after ordered stuck gate notReady isReady _ ih =>
    have subset : before ++ after ⊆ before ++ gate :: after :=
      ((List.sublist_cons_self _ _).append_left _).subset
    have others := ih fun other member isKept driver isDriver =>
      closed other (subset member) isKept driver (subset isDriver)
    rw [List.filter_append] at others
    by_cases isKept : keep gate
    · have inside : (before ++ gate :: after).filter keep =
          before.filter keep ++ gate :: after.filter keep := by
        rw [List.filter_append, List.filter_cons_of_pos isKept]
      rw [inside, List.filter_cons_of_pos isKept]
      refine .take ?_ ?_ others
      · intro earlier member
        rcases List.mem_filter.1 member with ⟨isEarlier, earlierKept⟩
        have isGate := List.mem_append_left (gate :: after) isEarlier
        rw [← inside]
        exact Gate.not_isReady_filter (closed earlier isGate earlierKept)
          (notReady earlier isEarlier)
      · rw [← inside]
        exact isReady.of_subset (List.filter_subset_self _)
    · rwa [List.filter_append, List.filter_cons_of_neg isKept, List.filter_cons_of_neg isKept]

/-- The search for live wires comes to live wires only. -/
theorem live_of_mem_liveWires {circuit : Circuit} {gates : List Gate} {front : List Wire}
    (subset : gates ⊆ circuit.gates) (frontLive : ∀ wire ∈ front, circuit.Live wire)
    {wire : Wire} (member : wire ∈ liveWires gates front) : circuit.Live wire := by
  fun_induction liveWires gates front with
  | case1 => exact frontLive wire member
  | case2 gates front _ _ ih =>
    rcases List.mem_append.1 member with inFront | found
    · exact frontLive wire inFront
    · refine ih (List.Subset.trans (List.filter_subset_self _) subset) ?_ found
      intro input isInput
      rcases List.mem_flatMap.1 isInput with ⟨gate, drives, isInput⟩
      rcases List.mem_filter.1 drives with ⟨isGate, isFront⟩
      exact .input (subset isGate) (frontLive _ (of_decide_eq_true isFront)) isInput

namespace Circuit

variable {circuit : Circuit} {wire : Wire}

/-- The search from the outputs comes to the live wires. -/
theorem mem_live_iff : wire ∈ circuit.live ↔ circuit.Live wire :=
  ⟨live_of_mem_liveWires (List.Subset.refl _) fun _ => .output, mem_live_of_live⟩

/-- The order of the gates does not matter for what is live. -/
theorem Live.of_perm {gates : List Gate} (perm : gates.Perm circuit.gates)
    (isLive : circuit.Live wire) : { circuit with gates }.Live wire := by
  induction isLive with
  | output isOutput => exact .output isOutput
  | input member _ isInput ih => exact .input (perm.mem_iff.2 member) ih isInput

/-- The same gates are dead in every order. -/
theorem dropDead_of_perm {gates : List Gate} (perm : gates.Perm circuit.gates) :
    { circuit with gates }.dropDead =
      { circuit with gates := gates.filter fun gate => gate.output ∈ circuit.live } := by
  have same : ∀ wire, wire ∈ { circuit with gates }.live ↔ wire ∈ circuit.live := by
    intro wire
    rw [mem_live_iff, mem_live_iff]
    exact ⟨Live.of_perm perm.symm, Live.of_perm perm⟩
  simp only [dropDead, same]

/-- Where all gates can be ordered, so can those that are not dead, and their order is the
one that they had among all. -/
theorem schedule_dropDead {ordered : Circuit} (scheduled : circuit.schedule = .ok ordered) :
    circuit.dropDead.schedule = .ok ordered.dropDead ∧
      ordered.dropDead.gates.Perm circuit.dropDead.gates ∧
      ordered.deadCount = circuit.deadCount := by
  rcases schedules_of_schedule scheduled with ⟨gates, rfl, schedules⟩
  have perm := perm_scheduleGates circuit.gates
  rw [schedules.eq, List.append_nil] at perm
  have keptPerm : { circuit with gates }.dropDead.gates.Perm circuit.dropDead.gates := by
    rw [dropDead_of_perm perm]
    exact perm.filter _
  have keptSchedules : Schedules circuit.dropDead.gates
      (gates.filter fun gate => gate.output ∈ circuit.live) [] := by
    refine schedules.filter fun gate isGate isLive driver _ isInput => ?_
    exact decide_eq_true (mem_liveWires_of_driver isGate (of_decide_eq_true isLive) _ isInput)
  refine ⟨?_, keptPerm, ?_⟩
  · rw [dropDead_of_perm perm, schedule_of_schedules keptSchedules]
    rfl
  · unfold deadCount
    rw [keptPerm.length_eq, perm.length_eq]

end Circuit

namespace KeptCircuit

/-- Sorting and dropping dead gates come to the same in both orders: where the gates can be
ordered, they can still be ordered after dead ones were dropped, and then the circuit, the
sets of wires and the number of gates that were dropped are the same. -/
theorem sort_eliminate {kept : KeptCircuit} (sorted : kept.sort.2 = .ok ()) :
    kept.eliminate.1.sort = (kept.sort.1.eliminate.1, .ok ()) ∧
      kept.eliminate.2 = kept.sort.1.eliminate.2 := by
  rcases sort_eq_ok_iff.1 sorted with ⟨ordered, scheduled⟩
  rcases Circuit.schedule_dropDead scheduled with ⟨again, perm, count⟩
  have sortedAgain : kept.eliminate.1.sort =
      ({ kept.eliminate.1 with circuit := ordered.dropDead }, .ok ()) := sort_of_ok again
  rw [sortedAgain, sort_of_ok scheduled]
  unfold eliminate
  rw [WireSets.recount_perm perm, count]
  exact ⟨rfl, rfl⟩

/-- Two gates out of order, with a dead one between them. -/
def strayInverter : KeptCircuit where
  circuit := ⟨"stray", .boolean, [2], [4],
    [⟨.buf, [3], 4⟩, ⟨.inv, [4], 5⟩, ⟨.inv, [2], 3⟩]⟩
  sets := ⟨[2, 3, 4], [3, 4, 5], [], []⟩

theorem sort_eliminate_strayInverter :
    strayInverter.sort.2 = .ok () ∧
      strayInverter.eliminate.1.sort = (strayInverter.sort.1.eliminate.1, .ok ()) ∧
      strayInverter.eliminate.2 = strayInverter.sort.1.eliminate.2 := by
  have scheduled : strayInverter.circuit.schedule =
      .ok ⟨"stray", .boolean, [2], [4], [⟨.inv, [2], 3⟩, ⟨.buf, [3], 4⟩, ⟨.inv, [4], 5⟩]⟩ := by
    cbv
  have sorted : strayInverter.sort.2 = .ok () := sort_eq_ok_iff.2 ⟨_, scheduled⟩
  exact ⟨sorted, sort_eliminate sorted⟩

example : strayInverter.sort.1.eliminate =
    (⟨⟨"stray", .boolean, [2], [4], [⟨.inv, [2], 3⟩, ⟨.buf, [3], 4⟩]⟩,
      ⟨[2, 3], [3, 4], [], []⟩⟩, 1) := by
  cbv

end KeptCircuit

end Netlist
