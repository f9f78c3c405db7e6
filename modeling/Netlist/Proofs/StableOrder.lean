import Mathlib.Data.List.FinRange
import Mathlib.Data.List.Lex
import Netlist.Proofs.Counting
import Netlist.Proofs.Passes
import Netlist.Proofs.Settling

/-!
# Stable order

There may be many schedules of the same gates. The scheduler finds the one in which the
places that the gates had come first in lexicographic order: whatever another schedule begins
with is ready, and the scheduler takes the first gate that is (`Schedules.exists_order`).
So sorting in place is the stable topological sort (`KeptCircuit.sort_isStable`).
-/

namespace Netlist

theorem Gate.IsReady.of_perm {first second : List Gate} {gate : Gate}
    (ready : gate.IsReady second) (perm : first.Perm second) : gate.IsReady first :=
  ready.of_subset perm.subset

/-- A run takes the places of its gates in the least order among all schedules. -/
theorem Schedules.exists_order {size : Nat} {gateAt : Fin size → Gate} {places : List (Fin size)}
    {remaining ordered : List Gate} (schedules : Schedules remaining ordered [])
    (same : places.map gateAt = remaining) (increasing : places.Pairwise (· < ·)) :
    ∃ order : List (Fin size), order.Perm places ∧ order.map gateAt = ordered ∧
      ∀ other : List (Fin size), other.Perm places → IsScheduled (other.map gateAt) →
        order ≤ other := by
  generalize left : ([] : List Gate) = stuck at schedules
  induction schedules generalizing places with
  | @stop remaining _ =>
    subst left
    rw [List.map_eq_nil_iff] at same
    subst same
    exact ⟨[], .refl _, rfl, fun _ _ _ => not_lt.1 (List.not_lt_nil _)⟩
  | @take before after ordered stuck gate notReady isReady _ ih =>
    obtain ⟨early, rest, rfl, rfl, others⟩ := List.map_eq_append_iff.1 same
    obtain ⟨place, late, rfl, rfl, rfl⟩ := List.map_eq_cons_iff.1 others
    have middle : (early ++ place :: late).Perm (place :: (early ++ late)) := List.perm_middle
    obtain ⟨order, perm, taken, least⟩ := ih List.map_append
      (increasing.sublist ((List.sublist_cons_self _ _).append_left _)) left
    refine ⟨place :: order, (perm.cons place).trans middle.symm, by rw [List.map_cons, taken], ?_⟩
    intro other otherPerm scheduled
    cases other with
    | nil => exact absurd (otherPerm.trans middle) (List.not_perm_nil_cons _ _)
    | cons first tail =>
      obtain ⟨firstReady, tailScheduled⟩ := scheduled
      have firstMember : first ∈ early ++ place :: late := otherPerm.subset List.mem_cons_self
      -- The other schedule begins with a gate that is ready, so no earlier than the run does.
      have notEarly : first ∉ early := by
        intro isEarly
        apply notReady _ (List.mem_map_of_mem isEarly)
        rw [← same]
        exact firstReady.of_perm (otherPerm.symm.map gateAt)
      rcases List.mem_cons.1 (middle.subset firstMember) with rfl | isOther
      · exact List.cons_le_cons _ (least tail (otherPerm.trans middle).cons_inv tailScheduled)
      · have isLate := (List.mem_append.1 isOther).resolve_left notEarly
        have below : place < first :=
          List.rel_of_pairwise_cons (increasing.sublist (List.sublist_append_right _ _)) isLate
        exact le_of_lt (List.Lex.rel below)

namespace Circuit

variable {circuit ordered : Circuit}

/-- The gates at the given places, one after the other. -/
def gatesAt (circuit : Circuit) (order : List (Fin circuit.gates.length)) : List Gate :=
  order.map circuit.gates.get

@[simp]
theorem gatesAt_finRange (circuit : Circuit) :
    circuit.gatesAt (List.finRange circuit.gates.length) = circuit.gates :=
  List.map_get_finRange circuit.gates

/-- Every place is there once, each gate comes after all gates that drive one of its inputs,
and no other such order is lexicographically less. -/
structure IsStableOrder (circuit : Circuit) (order : List (Fin circuit.gates.length)) : Prop where
  perm : order.Perm (List.finRange circuit.gates.length)
  isScheduled : IsScheduled (circuit.gatesAt order)
  least : ∀ other : List (Fin circuit.gates.length),
    other.Perm (List.finRange circuit.gates.length) → IsScheduled (circuit.gatesAt other) →
      order ≤ other

/-- The scheduler puts the gates in the stable order. -/
theorem exists_isStableOrder (scheduled : circuit.schedule = .ok ordered) :
    ∃ order, circuit.IsStableOrder order ∧
      ordered = { circuit with gates := circuit.gatesAt order } := by
  rcases schedules_of_schedule scheduled with ⟨gates, rfl, schedules⟩
  have isScheduled := isScheduled_scheduleGates circuit.gates
  rw [schedules.eq] at isScheduled
  rcases schedules.exists_order circuit.gatesAt_finRange (List.pairwise_lt_finRange _)
    with ⟨order, perm, rfl, least⟩
  exact ⟨order, ⟨perm, isScheduled, least⟩, rfl⟩

end Circuit

namespace KeptCircuit

/-- Sorting, which can be done by counting drivers, is the stable topological sort: it
succeeds exactly if no gate reads, over any number of gates, its own output; then it puts the
gates in the stable order, so that gates that are in order stay where they are, and sorting
again changes nothing. If it fails, it changes nothing either. -/
theorem sort_isStable (kept : KeptCircuit) :
    kept.circuit.countedSchedule = some kept.circuit.schedule ∧
    (kept.sort.2 = .ok () ↔ ∀ place, ¬ kept.circuit.OnLoop place) ∧
    (kept.sort.2 = .ok () → ∃ order, kept.circuit.IsStableOrder order ∧
      kept.sort.1 = { kept with
        circuit := { kept.circuit with gates := kept.circuit.gatesAt order } }) ∧
    (IsScheduled kept.circuit.gates → kept.sort = (kept, .ok ())) ∧
    (kept.sort.2 = .ok () → kept.sort.1.sort = (kept.sort.1, .ok ())) ∧
    (kept.sort.2 ≠ .ok () → kept.sort.1 = kept) := by
  have unchanged : ∀ kept : KeptCircuit, IsScheduled kept.circuit.gates →
      kept.sort = (kept, .ok ()) := fun kept inOrder =>
    sort_of_ok (Circuit.schedule_of_isScheduled inOrder)
  refine ⟨Circuit.countedSchedule_eq _, sort_eq_ok_iff.trans Circuit.exists_schedule_iff, ?_,
    unchanged kept, ?_, ?_⟩
  · intro sorted
    obtain ⟨ordered, scheduled⟩ := sort_eq_ok_iff.1 sorted
    obtain ⟨order, isStable, rfl⟩ := Circuit.exists_isStableOrder scheduled
    exact ⟨order, isStable, by rw [sort_of_ok scheduled]⟩
  · intro sorted
    obtain ⟨ordered, scheduled⟩ := sort_eq_ok_iff.1 sorted
    obtain ⟨order, isStable, rfl⟩ := Circuit.exists_isStableOrder scheduled
    rw [sort_of_ok scheduled]
    exact unchanged _ isStable.isScheduled
  · intro failed
    cases scheduled : kept.circuit.schedule with
    | ok ordered => exact absurd (by rw [sort_of_ok scheduled]) failed
    | error error => rw [sort_of_error scheduled]

end KeptCircuit

end Netlist
