import Netlist.Wire

/-!
# Wires in ascending order

Sets of wires are shown as ascending lists without repeats. `ascending` brings
any list into that form; it keeps the members (`mem_ascending_iff`) and its
result is strictly increasing (`pairwise_ascending`), which determines it. More
wires can join such a list (`insertAll`).
-/

namespace Netlist.Wire

/-- Put a wire into an ascending list, unless it is already there. -/
def insertAscending (wire : Wire) : List Wire → List Wire
  | [] => [wire]
  | head :: tail =>
    if wire < head then wire :: head :: tail
    else if wire = head then head :: tail
    else head :: insertAscending wire tail

/-- Put some wires into an ascending list, unless they are already there. -/
def insertAll (wires set : List Wire) : List Wire :=
  wires.foldr insertAscending set

/-- The members of a list of wires, each once, in ascending order. -/
def ascending (wires : List Wire) : List Wire :=
  wires.foldr insertAscending []

@[simp]
theorem mem_insertAscending_iff {wire other : Wire} {wires : List Wire} :
    other ∈ insertAscending wire wires ↔ other = wire ∨ other ∈ wires := by
  induction wires with
  | nil => simp [insertAscending]
  | cons head tail ih =>
    unfold insertAscending
    split
    · simp
    · split
      · subst_vars
        simp
      · simp only [List.mem_cons, ih]
        exact or_left_comm

@[simp]
theorem mem_ascending_iff {other : Wire} {wires : List Wire} :
    other ∈ ascending wires ↔ other ∈ wires := by
  induction wires with
  | nil => simp [ascending]
  | cons head tail ih =>
    have unfolded : ascending (head :: tail) = insertAscending head (ascending tail) := rfl
    rw [unfolded, mem_insertAscending_iff, ih, List.mem_cons]

theorem pairwise_insertAscending {wire : Wire} {wires : List Wire}
    (increasing : wires.Pairwise (· < ·)) :
    (insertAscending wire wires).Pairwise (· < ·) := by
  induction wires with
  | nil => simp [insertAscending]
  | cons head tail ih =>
    have headBelow := (List.pairwise_cons.1 increasing).1
    have tailIncreasing := (List.pairwise_cons.1 increasing).2
    unfold insertAscending
    split
    · rename_i below
      refine List.pairwise_cons.2 ⟨fun other member => ?_, increasing⟩
      rcases List.mem_cons.1 member with rfl | inTail
      · exact below
      · exact Nat.lt_trans below (headBelow other inTail)
    · split
      · exact increasing
      · refine List.pairwise_cons.2 ⟨fun other member => ?_, ih tailIncreasing⟩
        rcases mem_insertAscending_iff.1 member with rfl | inTail
        · grind
        · exact headBelow other inTail

@[simp]
theorem mem_insertAll_iff {wires set : List Wire} {wire : Wire} :
    wire ∈ insertAll wires set ↔ wire ∈ wires ∨ wire ∈ set := by
  induction wires with
  | nil => simp [insertAll]
  | cons head tail ih =>
    have unfolded : insertAll (head :: tail) set = insertAscending head (insertAll tail set) := rfl
    rw [unfolded, mem_insertAscending_iff, ih, List.mem_cons, or_assoc]

theorem pairwise_insertAll {wires set : List Wire} (increasing : set.Pairwise (· < ·)) :
    (insertAll wires set).Pairwise (· < ·) := by
  induction wires with
  | nil => exact increasing
  | cons head tail ih => exact pairwise_insertAscending ih

theorem pairwise_ascending (wires : List Wire) : (ascending wires).Pairwise (· < ·) := by
  induction wires with
  | nil => simp [ascending]
  | cons head tail ih => exact pairwise_insertAscending ih

end Netlist.Wire
