import Mathlib.Data.List.Perm.Basic
import Mathlib.Data.List.SplitBy
import Netlist.Blif.Record

/-!
# Runs of buses

The tokens of a port list fall into runs of bits of one bus each. There is one way to cut them
into runs that are as long as they can be (`areRuns_iff`), and bus order reverses each of these
runs in its place. The reversed runs are those of the result (`AreRuns.map_reverse`), as a run
has one bus however its bits are ordered. So the buses stand where they stood, and bus order
undoes itself (`busOrder_isReversal`).
-/

namespace Netlist.Blif

/-- The tokens are cut into runs: each run has at least one token and is of one bus, and runs next
to each other are of different buses. -/
structure AreRuns (runs : List (List String)) (tokens : List String) : Prop where
  flatten : runs.flatten = tokens
  nonempty : [] ∉ runs
  sameBus : ∀ run ∈ runs, ∃ bus, ∀ token ∈ run, busName token = bus
  maximal : runs.IsChain fun left right =>
    ∀ one ∈ left, ∀ other ∈ right, busName one ≠ busName other

/-- The tokens are bits of one bus. -/
def inOneBus (left right : String) : Bool :=
  busName left == busName right

theorem busOrder_eq (tokens : List String) :
    busOrder tokens = (tokens.splitBy inOneBus).flatMap List.reverse :=
  rfl

theorem map_busName_eq_replicate {run : List String} {bus : String}
    (own : ∀ token ∈ run, busName token = bus) :
    run.map busName = List.replicate run.length bus :=
  List.eq_replicate_iff.2 ⟨List.length_map _, List.forall_mem_map.2 own⟩

/-- Neighbours are of one bus exactly if all tokens are. -/
theorem isChain_inOneBus_iff {run : List String} :
    (run.IsChain fun left right => inOneBus left right) ↔
      ∃ bus, ∀ token ∈ run, busName token = bus := by
  have names : (run.IsChain fun left right => inOneBus left right) ↔
      (run.map busName).IsChain (· = ·) := by
    rw [List.isChain_map]
    exact List.IsChain.iff fun _ _ => beq_iff_eq
  rw [names]
  constructor
  · intro chain
    cases run with
    | nil => exact ⟨"", List.forall_mem_nil _⟩
    | cons first rest =>
      refine ⟨busName first, List.forall_mem_cons.2 ⟨rfl, fun token member => ?_⟩⟩
      exact (chain.rel_cons (List.mem_map_of_mem member)).symm
  · rintro ⟨bus, own⟩
    rw [map_busName_eq_replicate own]
    exact List.isChain_replicate_of_rel _ rfl

/-- Tokens are cut into runs in one way. -/
theorem areRuns_iff {runs : List (List String)} {tokens : List String} :
    AreRuns runs tokens ↔ tokens.splitBy inOneBus = runs := by
  rw [List.splitBy_eq_iff]
  constructor
  · intro areRuns
    refine ⟨areRuns.flatten.symm, areRuns.nonempty,
      fun run member => isChain_inOneBus_iff.2 (areRuns.sameBus run member), ?_⟩
    refine areRuns.maximal.imp_of_mem_imp fun left right isLeft isRight different => ?_
    have leftNonempty : left ≠ [] := fun empty => areRuns.nonempty (empty ▸ isLeft)
    have rightNonempty : right ≠ [] := fun empty => areRuns.nonempty (empty ▸ isRight)
    exact ⟨leftNonempty, rightNonempty, beq_false_of_ne
      (different _ (List.getLast_mem leftNonempty) _ (List.head_mem rightNonempty))⟩
  · rintro ⟨flatten, nonempty, chains, boundaries⟩
    have sameBus := fun run member => isChain_inOneBus_iff.1 (chains run member)
    refine ⟨flatten.symm, nonempty, sameBus, ?_⟩
    refine boundaries.imp_of_mem_imp fun left right isLeft isRight boundary => ?_
    rintro one isOne other isOther same
    obtain ⟨leftNonempty, rightNonempty, different⟩ := boundary
    obtain ⟨leftBus, leftOwn⟩ := sameBus left isLeft
    obtain ⟨rightBus, rightOwn⟩ := sameBus right isRight
    apply ne_of_beq_false different
    rw [leftOwn _ (List.getLast_mem leftNonempty), ← leftOwn one isOne, same,
      rightOwn other isOther, rightOwn _ (List.head_mem rightNonempty)]

namespace AreRuns

variable {runs : List (List String)} {tokens : List String}

theorem busOrder (areRuns : AreRuns runs tokens) :
    busOrder tokens = runs.flatMap List.reverse := by
  rw [busOrder_eq, areRuns_iff.1 areRuns]

/-- The runs of the result are the reversed runs. -/
theorem map_reverse (areRuns : AreRuns runs tokens) :
    AreRuns (runs.map List.reverse) (Blif.busOrder tokens) := by
  refine ⟨areRuns.busOrder.symm, ?_, ?_, ?_⟩
  · intro isEmpty
    obtain ⟨run, member, reversed⟩ := List.mem_map.1 isEmpty
    exact areRuns.nonempty (List.reverse_eq_nil_iff.1 reversed ▸ member)
  · refine List.forall_mem_map.2 fun run member => ?_
    obtain ⟨bus, own⟩ := areRuns.sameBus run member
    exact ⟨bus, fun token isToken => own token (List.mem_reverse.1 isToken)⟩
  · rw [List.isChain_map]
    refine areRuns.maximal.imp fun left right different one isOne other isOther => ?_
    exact different one (List.mem_reverse.1 isOne) other (List.mem_reverse.1 isOther)

/-- The order of the bits does not matter for the bus of a run. -/
theorem map_busName (areRuns : AreRuns runs tokens) {run : List String} (member : run ∈ runs) :
    run.reverse.map busName = run.map busName := by
  obtain ⟨bus, own⟩ := areRuns.sameBus run member
  rw [List.map_reverse, map_busName_eq_replicate own, List.reverse_replicate]

end AreRuns

/-- Bus order permutes the tokens, and leaves the bus at each place as it was: it cuts the tokens
into runs, which can be done in one way, and reverses each run in its place. Doing so twice
changes nothing. -/
theorem busOrder_isReversal (tokens : List String) :
    (busOrder tokens).Perm tokens ∧
    (busOrder tokens).map busName = tokens.map busName ∧
    (∃ runs, (∀ others, AreRuns others tokens ↔ others = runs) ∧
      busOrder tokens = runs.flatMap List.reverse) ∧
    busOrder (busOrder tokens) = tokens := by
  obtain ⟨runs, areRuns⟩ : ∃ runs, AreRuns runs tokens := ⟨_, areRuns_iff.2 rfl⟩
  have unique : ∀ others, AreRuns others tokens ↔ others = runs := by
    intro others
    rw [areRuns_iff, areRuns_iff.1 areRuns, eq_comm]
  have reversed := areRuns.busOrder
  have whole : tokens = runs.flatMap id := by rw [List.flatMap_id, areRuns.flatten]
  refine ⟨?_, ?_, ⟨runs, unique, reversed⟩, ?_⟩
  · rw [reversed, whole]
    exact .flatMap_left runs fun run _ => List.reverse_perm run
  · rw [reversed, whole, List.map_flatMap, List.map_flatMap]
    exact List.flatMap_congr fun run => areRuns.map_busName
  · rw [areRuns.map_reverse.busOrder, List.flatMap_map, whole]
    exact List.flatMap_congr fun run _ => List.reverse_reverse run

/-- Bits of one bus that are not next to each other are runs of their own. -/
example : busOrder ["x[0]", "x[1]", "x[2]", "c", "x[3]", "x[4]"] =
    ["x[2]", "x[1]", "x[0]", "c", "x[4]", "x[3]"] := by
  decide +kernel

end Netlist.Blif
