import Mathlib.Data.Fintype.Card
import Mathlib.Data.Fintype.EquivFin
import Mathlib.Order.WellFounded
import Netlist.Proofs.Scheduling

/-!
# Loops

The gate at one place feeds the gate at another one if that one reads its output. Gates that
are fed in a circle, and gates behind such a loop, always wait for each other, and no other
gates do: the gates that the scheduler never takes are exactly those on a loop or behind one
(`Circuit.stuck_eq_filter`). So the scheduler succeeds exactly if there is no loop
(`Circuit.exists_schedule_iff`), and the error names the output of the first gate that is on
a loop or behind one (`Circuit.schedule_eq_error_iff`), which need not be on a loop.
-/

namespace Netlist

/-- Gates that wait for each other are never taken: a run leaves them where they are. -/
theorem Schedules.filter_stuck {remaining ordered stuck : List Gate}
    (schedules : Schedules remaining ordered stuck) {waits : Gate → Prop} [DecidablePred waits]
    (fed : ∀ gate ∈ remaining, waits gate →
      ∃ driver ∈ remaining, waits driver ∧ driver.output ∈ gate.inputs) :
    stuck.filter waits = remaining.filter waits := by
  induction schedules with
  | stop => rfl
  | @take before after ordered stuck gate _ isReady _ ih =>
    have notWaiting : ¬ waits gate := by
      intro isWaiting
      obtain ⟨driver, member, _, isInput⟩ := fed gate (by simp) isWaiting
      exact isReady driver member isInput
    have others : ∀ {other : Gate}, other ∈ before ++ gate :: after → waits other →
        other ∈ before ++ after := by
      intro other member isWaiting
      have different : other ≠ gate := by
        rintro rfl
        exact notWaiting isWaiting
      simpa [different] using member
    rw [ih]
    · simp [List.filter_append, notWaiting]
    · intro other member isWaiting
      obtain ⟨driver, isDriver, driverWaits, isInput⟩ :=
        fed other (List.mem_append.2 ((List.mem_append.1 member).imp_right
          (List.mem_cons_of_mem _))) isWaiting
      exact ⟨driver, others isDriver driverWaits, driverWaits, isInput⟩

/-- Every gate that a run leaves reads the output of a gate that it leaves. -/
theorem Schedules.exists_driver {remaining ordered stuck : List Gate}
    (schedules : Schedules remaining ordered stuck) {gate : Gate} (isStuck : gate ∈ stuck) :
    ∃ driver ∈ stuck, driver.output ∈ gate.inputs := by
  induction schedules with
  | stop notReady =>
    have waits := notReady gate isStuck
    simpa [Gate.IsReady] using waits
  | take _ _ _ ih => exact ih isStuck

namespace Circuit

variable {circuit : Circuit}

/-- The gate at the second place reads the output of the gate at the first one. -/
def Feeds (circuit : Circuit) (driver reader : Fin circuit.gates.length) : Prop :=
  (circuit.gates.get driver).output ∈ (circuit.gates.get reader).inputs

/-- Going on from gates to those that read their outputs leads back to the place. -/
def OnLoop (circuit : Circuit) (place : Fin circuit.gates.length) : Prop :=
  Relation.TransGen circuit.Feeds place place

/-- The gate at the place is on a loop, or reads what comes from one, over any number of
gates. -/
def IsBehindLoop (circuit : Circuit) (place : Fin circuit.gates.length) : Prop :=
  ∃ source, circuit.OnLoop source ∧ Relation.ReflTransGen circuit.Feeds source place

/-- What is behind a loop is fed by something behind a loop. -/
theorem IsBehindLoop.exists_feeds {place : Fin circuit.gates.length}
    (isBehind : circuit.IsBehindLoop place) :
    ∃ driver, circuit.IsBehindLoop driver ∧ circuit.Feeds driver place := by
  obtain ⟨source, onLoop, path⟩ := isBehind
  rcases Relation.ReflTransGen.cases_tail path with rfl | ⟨driver, toDriver, feeds⟩
  · obtain ⟨driver, toDriver, feeds⟩ := Relation.TransGen.tail'_iff.1 onLoop
    exact ⟨driver, ⟨_, onLoop, toDriver⟩, feeds⟩
  · exact ⟨driver, ⟨source, onLoop, toDriver⟩, feeds⟩

theorem IsBehindLoop.of_feeds {driver place : Fin circuit.gates.length}
    (isBehind : circuit.IsBehindLoop driver) (feeds : circuit.Feeds driver place) :
    circuit.IsBehindLoop place := by
  obtain ⟨source, onLoop, path⟩ := isBehind
  exact ⟨source, onLoop, path.tail feeds⟩

/-- Equal gates wait for the same. -/
theorem IsBehindLoop.congr {place other : Fin circuit.gates.length}
    (isBehind : circuit.IsBehindLoop place)
    (same : circuit.gates.get place = circuit.gates.get other) :
    circuit.IsBehindLoop other := by
  obtain ⟨driver, driverBehind, feeds⟩ := isBehind.exists_feeds
  apply driverBehind.of_feeds
  unfold Feeds at feeds ⊢
  rwa [same] at feeds

/-- Both places are on a way to the given one, the first before the second. -/
def LeadsTo (circuit : Circuit) (place first second : Fin circuit.gates.length) : Prop :=
  Relation.TransGen circuit.Feeds first second ∧ Relation.ReflTransGen circuit.Feeds second place

/-- Going back from a place that is not behind a loop comes to an end, since it never comes
to the same place again, and there are finitely many. -/
theorem wellFounded_leadsTo {place : Fin circuit.gates.length}
    (notBehind : ¬ circuit.IsBehindLoop place) : WellFounded (circuit.LeadsTo place) := by
  have transitive : IsTrans _ (circuit.LeadsTo place) :=
    ⟨fun _ _ _ early late => ⟨early.1.trans late.1, late.2⟩⟩
  have irreflexive : Std.Irrefl (circuit.LeadsTo place) :=
    ⟨fun source returns => notBehind ⟨source, returns⟩⟩
  exact Finite.wellFounded_of_trans_of_irrefl _

/-- Where every one of some places is fed by another one of them, all are behind a loop. -/
theorem isBehindLoop_of_fed (waits : Fin circuit.gates.length → Prop)
    (fed : ∀ place, waits place → ∃ driver, waits driver ∧ circuit.Feeds driver place)
    {place : Fin circuit.gates.length} (isWaiting : waits place) : circuit.IsBehindLoop place := by
  by_contra notBehind
  obtain ⟨first, ⟨firstWaits, path⟩, least⟩ := (wellFounded_leadsTo notBehind).has_min
    { source | waits source ∧ Relation.ReflTransGen circuit.Feeds source place }
    ⟨place, isWaiting, .refl⟩
  obtain ⟨driver, driverWaits, feeds⟩ := fed first firstWaits
  exact least driver ⟨driverWaits, .head feeds path⟩ ⟨.single feeds, path⟩

/-- Some gate like this one is on a loop or behind one. -/
def Waits (circuit : Circuit) (gate : Gate) : Prop :=
  ∃ place : Fin circuit.gates.length, circuit.gates.get place = gate ∧ circuit.IsBehindLoop place

theorem waits_get {place : Fin circuit.gates.length} :
    circuit.Waits (circuit.gates.get place) ↔ circuit.IsBehindLoop place :=
  ⟨fun ⟨_, same, isBehind⟩ => isBehind.congr same, fun isBehind => ⟨place, rfl, isBehind⟩⟩

theorem Waits.exists_driver {gate : Gate} (isWaiting : circuit.Waits gate) :
    ∃ driver ∈ circuit.gates, circuit.Waits driver ∧ driver.output ∈ gate.inputs := by
  obtain ⟨place, rfl, isBehind⟩ := isWaiting
  obtain ⟨driver, driverBehind, feeds⟩ := isBehind.exists_feeds
  exact ⟨_, List.get_mem _ _, waits_get.2 driverBehind, feeds⟩

theorem waits_of_mem_stuck {gate : Gate} (isStuck : gate ∈ (scheduleGates circuit.gates).2) :
    circuit.Waits gate := by
  have isGate : ∀ {gate : Gate}, gate ∈ (scheduleGates circuit.gates).2 →
      ∃ place, circuit.gates.get place = gate := fun isStuck =>
    List.get_of_mem ((perm_scheduleGates circuit.gates).subset (List.mem_append_right _ isStuck))
  obtain ⟨place, rfl⟩ := isGate isStuck
  refine waits_get.2 (isBehindLoop_of_fed
    (fun place => circuit.gates.get place ∈ (scheduleGates circuit.gates).2) ?_ isStuck)
  intro place isStuck
  obtain ⟨driver, driverStuck, isInput⟩ :=
    (schedules_scheduleGates circuit.gates).exists_driver isStuck
  obtain ⟨driverPlace, rfl⟩ := isGate driverStuck
  exact ⟨driverPlace, driverStuck, isInput⟩

open scoped Classical in
/-- The gates that the scheduler never takes are those on a loop or behind one. -/
theorem stuck_eq_filter :
    (scheduleGates circuit.gates).2 = circuit.gates.filter circuit.Waits := by
  rw [← (schedules_scheduleGates circuit.gates).filter_stuck
    fun _ _ isWaiting => isWaiting.exists_driver]
  symm
  simpa [List.filter_eq_self] using fun gate => waits_of_mem_stuck

open scoped Classical in
/-- The scheduler leaves nothing exactly if there is no loop. -/
theorem stuck_eq_nil_iff :
    (scheduleGates circuit.gates).2 = [] ↔ ∀ place, ¬ circuit.OnLoop place := by
  rw [stuck_eq_filter, List.filter_eq_nil_iff]
  constructor
  · intro noneWaits place onLoop
    exact noneWaits _ (List.get_mem _ place) (decide_eq_true
      (waits_get.2 ⟨place, onLoop, .refl⟩))
  · rintro noLoop gate _ isWaiting
    obtain ⟨_, _, source, onLoop, _⟩ := of_decide_eq_true isWaiting
    exact noLoop source onLoop

open scoped Classical in
/-- The first gate that the scheduler leaves is the first one on a loop or behind one. -/
theorem head?_stuck_eq_some_iff {gate : Gate} :
    (scheduleGates circuit.gates).2.head? = some gate ↔
      ∃ place : Fin circuit.gates.length, circuit.gates.get place = gate ∧
        circuit.IsBehindLoop place ∧ ∀ earlier < place, ¬ circuit.IsBehindLoop earlier := by
  rw [stuck_eq_filter, List.head?_filter, List.find?_eq_some_iff_getElem]
  constructor
  · rintro ⟨isWaiting, place, inside, rfl, least⟩
    refine ⟨⟨place, inside⟩, rfl, waits_get.1 (of_decide_eq_true isWaiting), ?_⟩
    intro earlier before isBehind
    have notWaiting := least earlier before
    rw [Bool.not_eq_true', decide_eq_false_iff_not] at notWaiting
    exact notWaiting (waits_get.2 isBehind)
  · rintro ⟨place, rfl, isBehind, least⟩
    refine ⟨decide_eq_true (waits_get.2 isBehind), place, place.2, rfl, ?_⟩
    intro earlier before
    rw [Bool.not_eq_true', decide_eq_false_iff_not]
    exact fun isWaiting => least ⟨earlier, before.trans place.2⟩ before (waits_get.1 isWaiting)

theorem schedule_eq_error {error : Error} :
    circuit.schedule = .error error ↔ ∃ gate, (scheduleGates circuit.gates).2.head? = some gate ∧
      error = .combinationalLoop gate.output := by
  unfold schedule
  split
  · rename_i scheduled
    simp [scheduled]
  · rename_i scheduled
    simp [scheduled, eq_comm]

/-- There is a schedule exactly if there is no loop. -/
theorem exists_schedule_iff :
    (∃ ordered, circuit.schedule = .ok ordered) ↔ ∀ place, ¬ circuit.OnLoop place := by
  rw [← stuck_eq_nil_iff]
  unfold schedule
  split <;> rename_i scheduled <;> simp [scheduled]

/-- The error names the output of the first gate that is on a loop or behind one. -/
theorem schedule_eq_error_iff {error : Error} :
    circuit.schedule = .error error ↔
      ∃ place : Fin circuit.gates.length,
        error = .combinationalLoop (circuit.gates.get place).output ∧
        circuit.IsBehindLoop place ∧ ∀ earlier < place, ¬ circuit.IsBehindLoop earlier := by
  rw [schedule_eq_error]
  constructor
  · rintro ⟨gate, found, rfl⟩
    obtain ⟨place, rfl, isFirst⟩ := head?_stuck_eq_some_iff.1 found
    exact ⟨place, rfl, isFirst⟩
  · rintro ⟨place, rfl, isFirst⟩
    exact ⟨_, head?_stuck_eq_some_iff.2 ⟨place, rfl, isFirst⟩, rfl⟩

/-- Two gates that feed each other, after a gate that reads from them. -/
def tailed : Circuit :=
  ⟨"tailed", .boolean, [2], [3], [⟨.buf, [4], 3⟩, ⟨.inv, [5], 4⟩, ⟨.inv, [4], 5⟩]⟩

/-- No loop goes through the wire that the error names. -/
theorem exists_named_tail :
    ∃ (circuit : Circuit) (wire : Wire),
      circuit.schedule = .error (.combinationalLoop wire) ∧
        ∀ place, circuit.OnLoop place → (circuit.gates.get place).output ≠ wire := by
  refine ⟨tailed, 3, ?_, ?_⟩
  · have noneReady : scheduleGates tailed.gates = ([], tailed.gates) :=
      scheduleGates_of_none (by decide)
    rw [schedule_eq_error, noneReady]
    exact ⟨_, rfl, rfl⟩
  · intro place onLoop isNamed
    obtain ⟨reader, feeds, _⟩ := Relation.TransGen.head'_iff.1 onLoop
    have unread : ∀ gate ∈ tailed.gates, 3 ∉ gate.inputs := by decide
    exact unread _ (List.get_mem _ reader) (isNamed ▸ feeds)

end Circuit

end Netlist
