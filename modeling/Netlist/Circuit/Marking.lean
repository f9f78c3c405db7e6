import Mathlib.Data.Finset.BooleanAlgebra
import Netlist.Circuit.Countdown

/-!
# Marking gates

The gates that the outputs depend on can be found by marking. A wire that is seen for the first
time is pending until it is taken, and the one that came last is taken first. Then the gates
that drive it are marked, and the inputs of each of them are seen. No gate is marked twice, so
the marking ends, even if there are loops.
-/

namespace Netlist

/-- How far the marking has got. -/
structure Marking (gates : List Gate) where
  /-- The gates that were marked. -/
  marked : Finset (Fin gates.length)
  /-- The wires that were seen and not taken, the latest in front. -/
  pending : List Wire
  /-- The wires that were seen. -/
  seen : Finset Wire

namespace Marking

variable {gates : List Gate}

/-- Only the given wires were seen, and none was taken. The last of them is taken first. -/
def start (gates : List Gate) (wires : List Wire) : Marking gates :=
  ⟨∅, wires.reverse, wires.toFinset⟩

/-- See a wire. It is pending if it was not seen before. -/
def see (state : Marking gates) (wire : Wire) : Marking gates :=
  if wire ∈ state.seen then state
  else { state with pending := wire :: state.pending, seen := insert wire state.seen }

/-- Mark a gate and see its inputs, unless the gate is marked already. -/
def mark (state : Marking gates) (place : Fin gates.length) : Marking gates :=
  if place ∈ state.marked then state
  else (gates.get place).inputs.foldl see { state with marked := insert place state.marked }

/-- Take a wire: mark the gates that drive it. The others are pending still. -/
def take (state : Marking gates) (wire : Wire) (others : List Wire) : Marking gates :=
  (Gate.driversOf gates wire).foldl mark { state with pending := others }

/-- How many gates are not marked. -/
def unmarked (state : Marking gates) : Nat :=
  state.markedᶜ.card

@[simp]
theorem marked_see (state : Marking gates) (wire : Wire) :
    (state.see wire).marked = state.marked := by
  unfold see
  split <;> rfl

@[simp]
theorem marked_foldl_see (state : Marking gates) (wires : List Wire) :
    (wires.foldl see state).marked = state.marked := by
  induction wires generalizing state with
  | nil => rfl
  | cons wire rest ih => rw [List.foldl_cons, ih, marked_see]

theorem mark_of_mem {state : Marking gates} {place : Fin gates.length}
    (isMarked : place ∈ state.marked) : state.mark place = state :=
  if_pos isMarked

theorem marked_mark (state : Marking gates) (place : Fin gates.length) :
    (state.mark place).marked = insert place state.marked := by
  by_cases isMarked : place ∈ state.marked
  · rw [mark_of_mem isMarked, Finset.insert_eq_self.2 isMarked]
  · rw [mark, if_neg isMarked, marked_foldl_see]

theorem subset_marked_foldl_mark (state : Marking gates) (places : List (Fin gates.length)) :
    state.marked ⊆ (places.foldl mark state).marked := by
  induction places generalizing state with
  | nil => exact Finset.Subset.refl _
  | cons place rest ih =>
    have head : state.marked ⊆ (state.mark place).marked := by
      rw [marked_mark]
      exact Finset.subset_insert _ _
    exact head.trans (ih _)

/-- Marking gates changes nothing if all of them are marked already. -/
theorem foldl_mark_eq_or (state : Marking gates) (places : List (Fin gates.length)) :
    places.foldl mark state = state ∨ (places.foldl mark state).unmarked < state.unmarked := by
  by_cases areMarked : ∀ place ∈ places, place ∈ state.marked
  · left
    induction places with
    | nil => rfl
    | cons place rest ih =>
      obtain ⟨head, others⟩ := List.forall_mem_cons.1 areMarked
      rw [List.foldl_cons, mark_of_mem head, ih others]
  · right
    push Not at areMarked
    obtain ⟨place, member, isNew⟩ := areMarked
    have isMarked : place ∈ (places.foldl mark state).marked := by
      obtain ⟨before, after, rfl⟩ := List.append_of_mem member
      rw [List.foldl_append, List.foldl_cons]
      apply subset_marked_foldl_mark
      rw [marked_mark]
      exact Finset.mem_insert_self _ _
    have more : state.marked ⊂ (places.foldl mark state).marked :=
      (Finset.ssubset_iff_of_subset (subset_marked_foldl_mark _ _)).2 ⟨place, isMarked, isNew⟩
    exact Finset.card_lt_card (Finset.compl_ssubset_compl.2 more)

/-- Take wires until none is pending. -/
def run (state : Marking gates) : Marking gates :=
  match _ : state.pending with
  | [] => state
  | wire :: others => (state.take wire others).run
termination_by (state.unmarked, state.pending.length)
decreasing_by
  rename_i waiting
  rcases foldl_mark_eq_or { state with pending := others } (Gate.driversOf gates wire) with
    same | fewer
  · rw [take, same, waiting]
    exact Prod.Lex.right _ (Nat.lt_succ_self _)
  · exact Prod.Lex.left _ _ fewer

end Marking

/-- The gates that are marked from the outputs, in order. -/
def Circuit.markedGates (circuit : Circuit) : List Gate :=
  let last := (Marking.start circuit.gates circuit.outputs).run
  ((List.finRange circuit.gates.length).filter fun place => place ∈ last.marked).map
    circuit.gates.get

end Netlist
