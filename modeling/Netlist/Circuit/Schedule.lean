import Netlist.Circuit
import Netlist.Error

/-!
# Scheduling gates

`Circuit.schedule` orders the gates of a circuit such that each comes after all
gates that drive one of its inputs. It takes, again and again, the first gate
that no remaining gate has to precede, so gates that may trade places keep their
order. Gates on a loop, and gates that depend on one, are never taken.
-/

namespace Netlist

/-- No gate among the remaining ones drives an input of the gate. -/
def Gate.IsReady (remaining : List Gate) (gate : Gate) : Prop :=
  ∀ other ∈ remaining, other.output ∉ gate.inputs

instance (remaining : List Gate) (gate : Gate) : Decidable (gate.IsReady remaining) :=
  inferInstanceAs (Decidable (∀ other ∈ remaining, other.output ∉ gate.inputs))

/-- Each gate of the list comes after all gates that drive one of its inputs. -/
def IsScheduled : List Gate → Prop
  | [] => True
  | gate :: rest => gate.IsReady (gate :: rest) ∧ IsScheduled rest

/-- The gates that can be ordered, in their order, and the gates that remain. -/
def scheduleGates (remaining : List Gate) : List Gate × List Gate :=
  match found : remaining.find? fun gate => gate.IsReady remaining with
  | none => ([], remaining)
  | some gate =>
    have : (remaining.erase gate).length < remaining.length := by
      have member := List.mem_of_find?_eq_some found
      have := List.length_pos_of_mem member
      rw [List.length_erase_of_mem member]
      omega
    let (ordered, stuck) := scheduleGates (remaining.erase gate)
    (gate :: ordered, stuck)
termination_by remaining.length

/-- The circuit with its gates in order, if no gate depends on itself. The error
names the output of the first gate that cannot be ordered. -/
def Circuit.schedule (circuit : Circuit) : Except Error Circuit :=
  match scheduleGates circuit.gates with
  | (ordered, []) => .ok { circuit with gates := ordered }
  | (_, gate :: _) => .error (.combinationalLoop gate.output)

theorem scheduleGates_of_none {remaining : List Gate}
    (found : (remaining.find? fun gate => gate.IsReady remaining) = none) :
    scheduleGates remaining = ([], remaining) := by
  rw [scheduleGates]
  split
  · rfl
  · rename_i gate taken
    rw [found] at taken
    cases taken

theorem scheduleGates_of_some {remaining : List Gate} {gate : Gate}
    (found : (remaining.find? fun gate => gate.IsReady remaining) = some gate) :
    scheduleGates remaining = (gate :: (scheduleGates (remaining.erase gate)).1,
      (scheduleGates (remaining.erase gate)).2) := by
  rw [scheduleGates]
  split
  · rename_i missing
    rw [found] at missing
    cases missing
  · rename_i other taken
    rw [found] at taken
    cases taken
    rfl

/-- No gate is lost, and none is invented. -/
theorem perm_scheduleGates (remaining : List Gate) :
    ((scheduleGates remaining).1 ++ (scheduleGates remaining).2).Perm remaining := by
  fun_induction scheduleGates remaining with
  | case1 => simp
  | case2 remaining gate found _ ordered stuck result ih =>
    rw [result] at ih
    have member := List.mem_of_find?_eq_some found
    exact (ih.cons gate).trans (List.perm_cons_erase member).symm

end Netlist
