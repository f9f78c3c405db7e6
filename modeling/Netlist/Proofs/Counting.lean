import Netlist.Circuit.Countdown
import Netlist.Proofs.Loops

/-!
# Counting and scheduling

While gates are counted down, the count of a gate is the number of its drivers that were not
taken, plus how often it is still to be counted down (`Countdown.Counts`). So no count goes
below zero, and a gate is ready exactly if none of the gates that are left drives it. Hence
counting takes the gates that the scheduler takes, and comes to the same circuit or the same
error (`Circuit.countedSchedule_eq`).
-/

namespace Netlist

namespace Gate

variable {gates : List Gate}

theorem mem_waits_iff {driver reader : Fin gates.length} :
    (driver, reader) ∈ waits gates ↔ (gates.get driver).output ∈ (gates.get reader).inputs := by
  simp [waits, driversOf]

/-- How many drivers a gate waits for once some gates were taken. -/
def waiting (gates : List Gate) (order : List (Fin gates.length)) (reader : Fin gates.length) :
    Nat :=
  (waits gates).countP fun wait => wait.2 = reader ∧ wait.1 ∉ order

/-- A driver that is taken is not waited for any more. -/
theorem waiting_eq_add {order : List (Fin gates.length)} {driver : Fin gates.length}
    (isNew : driver ∉ order) (reader : Fin gates.length) :
    waiting gates order reader =
      waiting gates (order ++ [driver]) reader + (successors gates driver).count reader := by
  unfold waiting successors
  rw [List.countP_eq_countP_filter_add _ _ fun wait => wait.1 = driver, Nat.add_comm]
  congr 1
  · rw [List.countP_filter]
    apply List.countP_congr
    simp [and_assoc]
  · rw [List.count_eq_countP, List.countP_map]
    apply List.countP_congr
    intro wait member
    have isDriver : wait.1 = driver := of_decide_eq_true (List.mem_filter.1 member).2
    simp [isDriver, isNew]

end Gate

namespace Countdown

variable {gates : List Gate} {state : Countdown gates}

/-- Each gate is counted with all of its drivers that were not taken and with the given places
where it is still to be counted down, gates that were taken wait for none, and those that are
ready are the others that wait for none. -/
structure Counts (state : Countdown gates) (places : List (Fin gates.length)) : Prop where
  pending : ∀ place, state.pending place =
    Gate.waiting gates state.order place + places.count place
  taken : ∀ place ∈ state.order, state.pending place = 0
  ready : ∀ place, place ∈ state.ready ↔ place ∉ state.order ∧ state.pending place = 0

theorem counts_start (gates : List Gate) : (start gates).Counts [] := by
  constructor
  · intro place
    simp [start, Gate.waiting]
  · exact List.forall_mem_nil _
  · intro place
    simp [start]

theorem Counts.take (counts : state.Counts []) {place : Fin gates.length}
    (isReady : place ∈ state.ready) :
    (state.take place).Counts (Gate.successors gates place) := by
  rcases (counts.ready place).1 isReady with ⟨isNew, waitsForNone⟩
  constructor
  · intro other
    have before := counts.pending other
    rw [List.count_nil, Nat.add_zero] at before
    exact before.trans (Gate.waiting_eq_add isNew other)
  · intro other member
    rcases List.mem_append.1 member with old | new
    · exact counts.taken other old
    · rw [List.mem_singleton.1 new]
      exact waitsForNone
  · intro other
    simp only [Countdown.take, Finset.mem_erase, counts.ready, List.mem_append,
      List.mem_singleton, not_or]
    tauto

theorem Counts.lower {place : Fin gates.length} {rest : List (Fin gates.length)} {left : Nat}
    (counts : state.Counts (place :: rest)) (counted : state.pending place = left + 1) :
    (state.lower place left).Counts rest := by
  have isNew : place ∉ state.order := by
    intro isTaken
    rw [counts.taken place isTaken] at counted
    cases counted
  constructor
  · intro other
    have before := counts.pending other
    by_cases same : other = place
    · subst same
      rw [counted, List.count_cons_self] at before
      simp only [Countdown.lower, Function.update_self]
      omega
    · rw [List.count_cons_of_ne (Ne.symm same)] at before
      simp only [Countdown.lower, Function.update_of_ne same, before]
  · intro other isTaken
    have different : other ≠ place := by
      rintro rfl
      exact isNew isTaken
    simp only [Countdown.lower, Function.update_of_ne different]
    exact counts.taken other isTaken
  · intro other
    by_cases same : other = place
    · subst same
      by_cases isLast : left = 0 <;> simp [Countdown.lower, isLast, isNew, counts.ready, counted]
    · by_cases isLast : left = 0 <;> simp [Countdown.lower, isLast, same, counts.ready]

/-- No count goes below zero. -/
theorem Counts.exists_release {places : List (Fin gates.length)} (counts : state.Counts places) :
    ∃ next, state.release places = some next ∧ next.Counts [] ∧ next.order = state.order := by
  induction places generalizing state with
  | nil => exact ⟨state, rfl, counts, rfl⟩
  | cons place rest ih =>
    have counted := counts.pending place
    rw [List.count_cons_self, ← Nat.add_assoc] at counted
    rcases ih (counts.lower counted) with ⟨next, released, nextCounts, sameOrder⟩
    refine ⟨next, ?_, nextCounts, sameOrder⟩
    rw [release, counted]
    exact released

/-- The places of the gates that were not taken. -/
def left (state : Countdown gates) : List (Fin gates.length) :=
  (List.finRange gates.length).filter fun place => place ∉ state.order

theorem mem_left_iff {place : Fin gates.length} : place ∈ state.left ↔ place ∉ state.order := by
  simp [left]

/-- A gate is ready exactly if it waits for none of the gates that are left. -/
theorem isReady_iff {place : Fin gates.length} :
    (gates.get place).IsReady (state.left.map gates.get) ↔
      Gate.waiting gates state.order place = 0 := by
  rw [Gate.IsReady, List.forall_mem_map, Gate.waiting, List.countP_eq_zero]
  constructor
  · rintro ready ⟨driver, reader⟩ isWait isCounted
    rcases of_decide_eq_true isCounted with ⟨rfl, isLeft⟩
    exact ready driver (mem_left_iff.2 isLeft) (Gate.mem_waits_iff.1 isWait)
  · intro noneCounted driver isLeft isInput
    exact noneCounted (driver, place) (Gate.mem_waits_iff.2 isInput)
      (decide_eq_true ⟨rfl, mem_left_iff.1 isLeft⟩)

/-- With no gate left to be counted down, the ready places are those of ready gates. -/
theorem Counts.mem_ready_iff (counts : state.Counts []) {place : Fin gates.length} :
    place ∈ state.ready ↔
      place ∉ state.order ∧ (gates.get place).IsReady (state.left.map gates.get) := by
  rw [counts.ready, isReady_iff, counts.pending, List.count_nil, Nat.add_zero]

/-- Taking the first place that is ready removes it where it stands, behind places that are
not ready, since the places that are left are ascending. -/
theorem exists_left_eq {place : Fin gates.length} (isLeft : place ∉ state.order)
    (isFirst : ∀ other ∈ state.ready, place ≤ other) :
    ∃ before after, state.left = before ++ place :: after ∧
      (∀ other ∈ before, other ∉ state.ready) ∧ (state.take place).left = before ++ after := by
  have ascending : state.left.Pairwise (· < ·) := (List.pairwise_lt_finRange _).filter _
  have others : (state.take place).left = state.left.filter fun other => other ≠ place := by
    rw [left, left, List.filter_filter]
    apply List.filter_congr
    simp [take, and_comm]
  rcases List.append_of_mem (mem_left_iff.2 isLeft) with ⟨before, after, split⟩
  rw [split] at ascending others
  rcases List.pairwise_append.1 ascending with ⟨_, behind, apart⟩
  have beforeLess : ∀ other ∈ before, other < place :=
    fun other member => apart other member place List.mem_cons_self
  have afterGreater : ∀ other ∈ after, place < other :=
    fun other member => List.rel_of_pairwise_cons behind member
  refine ⟨before, after, split, ?_, ?_⟩
  · intro other member isReady
    exact absurd (isFirst other isReady) (not_le_of_gt (beforeLess other member))
  · rw [others, List.filter_append, List.filter_cons_of_neg (by simp)]
    congr 1
    · exact List.filter_eq_self.2 fun other member =>
        decide_eq_true (beforeLess other member).ne
    · exact List.filter_eq_self.2 fun other member =>
        decide_eq_true (afterGreater other member).ne'

/-- The first place that is ready is that of the gate that a run takes. -/
theorem Counts.schedules_take (counts : state.Counts []) {place : Fin gates.length}
    (isReady : place ∈ state.ready) (isFirst : ∀ other ∈ state.ready, place ≤ other)
    {ordered stuck : List Gate}
    (schedules : Schedules ((state.take place).left.map gates.get) ordered stuck) :
    Schedules (state.left.map gates.get) (gates.get place :: ordered) stuck := by
  rcases counts.mem_ready_iff.1 isReady with ⟨isLeft, gateReady⟩
  rcases exists_left_eq isLeft isFirst with ⟨before, after, split, notReady, others⟩
  have gatesLeft : state.left.map gates.get =
      before.map gates.get ++ gates.get place :: after.map gates.get := by
    rw [split, List.map_append, List.map_cons]
  rw [gatesLeft] at gateReady ⊢
  rw [others, List.map_append] at schedules
  refine .take ?_ gateReady schedules
  rw [← gatesLeft, List.forall_mem_map]
  intro other isEarlier otherReady
  have otherLeft : other ∈ state.left := split ▸ List.mem_append_left _ isEarlier
  exact notReady other isEarlier
    (counts.mem_ready_iff.2 ⟨mem_left_iff.1 otherLeft, otherReady⟩)

/-- Where no place is ready, a run takes nothing. -/
theorem Counts.schedules_stop (counts : state.Counts []) (noneReady : state.ready = ∅) :
    Schedules (state.left.map gates.get) [] (state.left.map gates.get) := by
  apply Schedules.stop
  rw [List.forall_mem_map]
  intro place isLeft gateReady
  have isReady := counts.mem_ready_iff.2 ⟨mem_left_iff.1 isLeft, gateReady⟩
  rw [noneReady] at isReady
  exact Finset.notMem_empty _ isReady

/-- Counting takes the gates that the scheduler takes. -/
theorem Counts.exists_run (counts : state.Counts []) :
    ∃ last taken, state.run = some last ∧ last.Counts [] ∧ last.order = state.order ++ taken ∧
      last.ready = ∅ ∧
      Schedules (state.left.map gates.get) (taken.map gates.get) (last.left.map gates.get) := by
  fun_induction run state with
  | case1 state nonempty place refused =>
    rcases (counts.take (state.ready.min'_mem nonempty)).exists_release with ⟨next, released, _⟩
    rw [refused] at released
    cases released
  | case2 state nonempty place next released _ ih =>
    have isReady := state.ready.min'_mem nonempty
    rcases (counts.take isReady).exists_release with ⟨other, same, nextCounts, nextOrder⟩
    rw [released] at same
    cases same
    rcases ih nextCounts with ⟨last, taken, ran, lastCounts, lastOrder, noneReady, schedules⟩
    refine ⟨last, place :: taken, ran, lastCounts, ?_, noneReady, ?_⟩
    · rw [lastOrder, nextOrder, Countdown.take, List.append_assoc, List.singleton_append]
    · have nextLeft : next.left = (state.take place).left := by
        rw [left, left, nextOrder]
      rw [nextLeft] at schedules
      exact counts.schedules_take isReady (fun other => state.ready.min'_le other) schedules
  | case3 state noneReady =>
    have empty : state.ready = ∅ := Finset.not_nonempty_iff_eq_empty.1 noneReady
    exact ⟨state, [], rfl, counts, (List.append_nil _).symm, empty, counts.schedules_stop empty⟩

/-- When no gate is ready any more, those that wait are those that are left. -/
theorem Counts.find?_eq_head? (counts : state.Counts []) (noneReady : state.ready = ∅) :
    ((List.finRange gates.length).find? fun place => 0 < state.pending place) =
      state.left.head? := by
  have waits_iff : ∀ place, 0 < state.pending place ↔ place ∉ state.order := by
    intro place
    constructor
    · intro waits isTaken
      exact waits.ne' (counts.taken place isTaken)
    · intro isLeft
      rw [Nat.pos_iff_ne_zero]
      intro waitsForNone
      have isReady := (counts.ready place).2 ⟨isLeft, waitsForNone⟩
      rw [noneReady] at isReady
      exact Finset.notMem_empty place isReady
  rw [left, List.head?_filter]
  simp only [waits_iff]

end Countdown

/-- Counting comes to what scheduling comes to, and no count goes below zero on the way. -/
theorem Circuit.countedSchedule_eq (circuit : Circuit) :
    circuit.countedSchedule = some circuit.schedule := by
  rcases (Countdown.counts_start circuit.gates).exists_run with
    ⟨last, taken, ran, counts, sameOrder, noneReady, schedules⟩
  have startOrder : (Countdown.start circuit.gates).order ++ taken = taken := List.nil_append _
  have startLeft : ((Countdown.start circuit.gates).left.map circuit.gates.get) =
      circuit.gates := by
    have all : (Countdown.start circuit.gates).left = List.finRange circuit.gates.length :=
      List.filter_eq_self.2 fun _ _ => rfl
    rw [all]
    exact List.map_get_finRange circuit.gates
  rw [startOrder] at sameOrder
  rw [startLeft, ← sameOrder] at schedules
  have result := schedules.eq
  have total : last.order.length + last.left.length = circuit.gates.length := by
    have perm := (perm_scheduleGates circuit.gates).length_eq
    rwa [result, List.length_append, List.length_map, List.length_map] at perm
  have stuck := counts.find?_eq_head? noneReady
  unfold countedSchedule schedule
  rw [ran, result]
  simp only [Option.bind_eq_bind, Option.bind_some, stuck]
  cases isLeft : last.left with
  | nil =>
    rw [isLeft, List.length_nil] at total
    rw [if_neg (by omega)]
    rfl
  | cons place rest =>
    rw [isLeft, List.length_cons] at total
    rw [if_pos (by omega)]
    simp

end Netlist
