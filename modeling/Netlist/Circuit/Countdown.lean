import Mathlib.Data.Finset.Max
import Mathlib.Data.Fintype.Basic
import Mathlib.Data.List.FinRange
import Netlist.Circuit.Schedule

/-!
# Scheduling by counting

Gates can be ordered by counting for each gate how many drivers it waits for. The first gate
that waits for none is taken, and all gates that it drives are counted down, until no gate is
left that waits for none. A gate that reads a wire twice, or a wire with two drivers, waits
for each of them each time, so a gate may be counted down more than once when a driver is
taken. Counting below zero is not possible, so it is not defined what it comes to.
-/

namespace Netlist

namespace Gate

/-- The places of the gates that drive a wire. -/
def driversOf (gates : List Gate) (wire : Wire) : List (Fin gates.length) :=
  (List.finRange gates.length).filter fun place => (gates.get place).output = wire

/-- Each gate behind each driver that it waits for, as often as it waits for it. -/
def waits (gates : List Gate) : List (Fin gates.length × Fin gates.length) :=
  (List.finRange gates.length).flatMap fun reader =>
    ((gates.get reader).inputs.flatMap (driversOf gates)).map fun driver => (driver, reader)

/-- The gates that wait for a driver, as often as they wait for it. -/
def successors (gates : List Gate) (driver : Fin gates.length) : List (Fin gates.length) :=
  ((waits gates).filter fun wait => wait.1 = driver).map Prod.snd

end Gate

/-- How far the counting has got. -/
structure Countdown (gates : List Gate) where
  /-- How many drivers each gate still waits for. -/
  pending : Fin gates.length → Nat
  /-- The gates that wait for none and were not taken. -/
  ready : Finset (Fin gates.length)
  /-- The gates that were taken, in order. -/
  order : List (Fin gates.length)

namespace Countdown

variable {gates : List Gate}

/-- No gate was taken. -/
def start (gates : List Gate) : Countdown gates :=
  let pending reader := (Gate.waits gates).countP fun wait => wait.2 = reader
  ⟨pending, Finset.univ.filter fun place => pending place = 0, []⟩

/-- Take a gate. Those that wait for it are not counted down yet. -/
def take (state : Countdown gates) (place : Fin gates.length) : Countdown gates :=
  { state with ready := state.ready.erase place, order := state.order ++ [place] }

/-- Leave a gate with a lower count. It is ready if that is zero. -/
def lower (state : Countdown gates) (place : Fin gates.length) (left : Nat) : Countdown gates :=
  { state with
    pending := Function.update state.pending place left
    ready := if left = 0 then insert place state.ready else state.ready }

/-- Count gates down, one after the other. -/
def release (state : Countdown gates) : List (Fin gates.length) → Option (Countdown gates)
  | [] => some state
  | place :: rest =>
    match state.pending place with
    | 0 => none
    | left + 1 => release (state.lower place left) rest

/-- How many gates wait or are ready. -/
def size (state : Countdown gates) : Nat :=
  (Finset.univ.filter fun place => 0 < state.pending place).card + state.ready.card

/-- A gate that becomes ready does not wait any more. -/
theorem size_lower_le {state : Countdown gates} {place : Fin gates.length} {left : Nat}
    (counted : state.pending place = left + 1) : (state.lower place left).size ≤ state.size := by
  unfold size lower
  dsimp only
  by_cases isLast : left = 0
  · have fewer : (Finset.univ.filter fun other => 0 < Function.update state.pending place 0 other) =
        (Finset.univ.filter fun other => 0 < state.pending other).erase place := by
      ext other
      by_cases same : other = place <;> simp [same]
    have waits : place ∈ Finset.univ.filter fun other => 0 < state.pending other := by
      simp [counted]
    have nonempty := Finset.card_pos.2 ⟨place, waits⟩
    have inserted := Finset.card_insert_le place state.ready
    rw [if_pos isLast, isLast, fewer, Finset.card_erase_of_mem waits]
    omega
  · have same : (Finset.univ.filter fun other =>
          0 < Function.update state.pending place left other) =
        Finset.univ.filter fun other => 0 < state.pending other := by
      ext other
      by_cases same : other = place <;> simp [same, counted, Nat.pos_of_ne_zero isLast]
    rw [if_neg isLast, same]

theorem size_release_le {state last : Countdown gates} {places : List (Fin gates.length)}
    (released : state.release places = some last) : last.size ≤ state.size := by
  induction places generalizing state with
  | nil =>
    cases released
    exact Nat.le_refl _
  | cons place rest ih =>
    rw [release] at released
    split at released
    · cases released
    · rename_i left counted
      exact (ih released).trans (size_lower_le counted)

theorem size_take_lt {state : Countdown gates} {place : Fin gates.length}
    (isReady : place ∈ state.ready) : (state.take place).size < state.size :=
  Nat.add_lt_add_left (Finset.card_erase_lt_of_mem isReady) _

/-- Take gates, each time the first that is ready. -/
def run (state : Countdown gates) : Option (Countdown gates) :=
  if isReady : state.ready.Nonempty then
    let place := state.ready.min' isReady
    match released : (state.take place).release (Gate.successors gates place) with
    | none => none
    | some next =>
      have := (size_release_le released).trans_lt (size_take_lt (state.ready.min'_mem isReady))
      run next
  else some state
termination_by state.size

end Countdown

/-- The circuit with its gates in the order in which they are taken. The error names the
output of the first gate that waits in the end. -/
def Circuit.countedSchedule (circuit : Circuit) : Option (Except Error Circuit) := do
  let last ← (Countdown.start circuit.gates).run
  if last.order.length < circuit.gates.length then
    let stuck := (List.finRange circuit.gates.length).find? fun place => 0 < last.pending place
    let gate ← circuit.gates[stuck.elim 0 Fin.val]?
    return .error (.combinationalLoop gate.output)
  else
    return .ok { circuit with gates := last.order.map circuit.gates.get }

end Netlist
