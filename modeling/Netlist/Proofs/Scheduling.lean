import Netlist.Circuit.Schedule

/-!
# Runs of the scheduler

A run takes the first gate that is ready, over and over, until no gate that is left is ready
(`Schedules`). The scheduler makes such a run (`schedules_scheduleGates`), and there is only
one from each list (`Schedules.eq`), so what any run comes to is what the scheduler comes to.
If the gates are in order already, the run takes them as they come
(`scheduleGates_of_isScheduled`).
-/

namespace Netlist

/-- Taking gates from the first list, each time the first one that is ready, yields the
second list and leaves the third one, in which no gate is ready. -/
inductive Schedules : List Gate → List Gate → List Gate → Prop where
  | stop {remaining : List Gate} :
    (∀ gate ∈ remaining, ¬ gate.IsReady remaining) → Schedules remaining [] remaining
  | take {before after ordered stuck : List Gate} {gate : Gate} :
    (∀ earlier ∈ before, ¬ earlier.IsReady (before ++ gate :: after)) →
      gate.IsReady (before ++ gate :: after) → Schedules (before ++ after) ordered stuck →
      Schedules (before ++ gate :: after) (gate :: ordered) stuck

/-- The first gate that is ready is taken away where it stands. -/
theorem erase_of_isReady {before after remaining : List Gate} {gate : Gate}
    (notReady : ∀ earlier ∈ before, ¬ earlier.IsReady remaining)
    (isReady : gate.IsReady remaining) :
    (before ++ gate :: after).erase gate = before ++ after := by
  rw [List.erase_append_right _ fun member => notReady gate member isReady, List.erase_cons_head]

theorem schedules_scheduleGates (remaining : List Gate) :
    Schedules remaining (scheduleGates remaining).1 (scheduleGates remaining).2 := by
  fun_induction scheduleGates remaining with
  | case1 remaining found => exact .stop (by simpa using found)
  | case2 remaining gate found _ ordered stuck result ih =>
    rw [result] at ih
    obtain ⟨ready, before, after, rfl, notReady⟩ := List.find?_eq_some_iff_append.1 found
    have isReady : gate.IsReady (before ++ gate :: after) := of_decide_eq_true ready
    have noneReady : ∀ earlier ∈ before, ¬ earlier.IsReady (before ++ gate :: after) := by
      simpa using notReady
    rw [erase_of_isReady noneReady isReady] at ih
    exact .take noneReady isReady ih

/-- There is one run from each list of gates. -/
theorem Schedules.eq {remaining ordered stuck : List Gate}
    (schedules : Schedules remaining ordered stuck) :
    scheduleGates remaining = (ordered, stuck) := by
  induction schedules with
  | stop notReady =>
    apply scheduleGates_of_none
    simpa using notReady
  | @take before after ordered stuck gate notReady isReady _ ih =>
    have found : ((before ++ gate :: after).find? fun other =>
        other.IsReady (before ++ gate :: after)) = some gate := by
      refine List.find?_eq_some_iff_append.2 ⟨decide_eq_true isReady, before, after, rfl, ?_⟩
      simpa using notReady
    rw [scheduleGates_of_some found, erase_of_isReady notReady isReady, ih]

/-- Gates that are in order are taken as they come. -/
theorem scheduleGates_of_isScheduled {gates : List Gate} (scheduled : IsScheduled gates) :
    scheduleGates gates = (gates, []) := by
  apply Schedules.eq
  induction gates with
  | nil => exact .stop (List.forall_mem_nil _)
  | cons gate rest ih =>
    have start : Schedules ([] ++ gate :: rest) (gate :: rest) [] :=
      .take (List.forall_mem_nil _) scheduled.1 (ih scheduled.2)
    exact start

namespace Circuit

variable {circuit ordered : Circuit}

/-- A circuit can be scheduled if a run takes all of its gates. -/
theorem schedule_of_schedules {gates : List Gate} (schedules : Schedules circuit.gates gates []) :
    circuit.schedule = .ok { circuit with gates } := by
  rw [schedule, schedules.eq]

theorem schedules_of_schedule (scheduled : circuit.schedule = .ok ordered) :
    ∃ gates, ordered = { circuit with gates } ∧ Schedules circuit.gates gates [] := by
  have schedules := schedules_scheduleGates circuit.gates
  unfold schedule at scheduled
  split at scheduled
  · rename_i gates same
    cases scheduled
    rw [same] at schedules
    exact ⟨gates, rfl, schedules⟩
  · cases scheduled

/-- Gates that are in order stay where they are. -/
theorem schedule_of_isScheduled (inOrder : IsScheduled circuit.gates) :
    circuit.schedule = .ok circuit := by
  rw [schedule, scheduleGates_of_isScheduled inOrder]

end Circuit

end Netlist
