import Netlist.Proofs.Agreement
import Netlist.Proofs.KeptTexts
import Netlist.Proofs.Marking

/-!
# Evaluating pruned circuits

Leaving out dead gates changes no live wire at any point of an evaluation, though it may change
every other wire, and outputs are live (`Circuit.exists_follow_dropDead`). So if a circuit is
evaluated, it is evaluated to the same without its dead gates (`KeptCircuit.evaluate_eliminate`),
in whatever order its gates are and whichever wires they drive.
-/

namespace Netlist

open Bristol

namespace Circuit

variable {circuit : Circuit}

theorem HasArities.of_subset {gates : List Gate} (arities : circuit.HasArities)
    (subset : gates ⊆ circuit.gates) : HasArities { circuit with gates } :=
  fun gate member => arities gate (subset member)

theorem FitsWords.of_sublist {gates : List Gate} (counts : circuit.FitsWords)
    (sublist : gates.Sublist circuit.gates) : FitsWords { circuit with gates } :=
  have wires : wireCount { circuit with gates } ≤ circuit.wireCount :=
    wireCount_le_of_gates_subset rfl rfl rfl sublist.subset
  ⟨sublist.length_le.trans_lt counts.gates, wires.trans_lt counts.wires⟩

/-- If the lines of a circuit can be followed, so can those without its dead gates, and then the
live wires hold the same, and the same was put out. -/
theorem exists_follow_dropDead {evaluator last : Evaluator}
    (followed : evaluator.follow circuit.undeclaredLines = .ok last) :
    ∃ other, evaluator.follow circuit.dropDead.undeclaredLines = .ok other ∧
      last.AgreesOn (· ∈ circuit.live) other := by
  obtain ⟨given, computed, inputs, gates, outputs⟩ := follow_undeclaredLines_iff.1 followed
  obtain ⟨otherComputed, keptGates, agrees⟩ :
      ∃ other, given.follow (circuit.dropDead.gates.map .gate) = .ok other ∧
        computed.AgreesOn (· ∈ circuit.live) other := by
    rw [gates_dropDead]
    refine (Evaluator.AgreesOn.refl _ given).exists_follow_filter ?_ ?_ gates
    · intro gate isGate isLive wire isInput
      exact mem_liveWires_of_driver isGate (of_decide_eq_true isLive) wire isInput
    · exact fun gate _ isDead => of_decide_eq_false isDead
  have outputsLive : ∀ line ∈ circuit.outputs.map Line.output, ∀ wire ∈ line.reads,
      wire ∈ circuit.live := by
    intro line member wire isRead
    obtain ⟨output, isOutput, rfl⟩ := List.mem_map.1 member
    rw [List.mem_singleton.1 isRead]
    exact subset_liveWires _ _ isOutput
  obtain ⟨other, otherOutputs, agreesLast⟩ := agrees.exists_follow outputsLive outputs
  exact ⟨other, follow_undeclaredLines_iff.2
    ⟨given, otherComputed, inputs, keptGates, otherOutputs⟩, agreesLast⟩

end Circuit

namespace KeptCircuit

/-- If a text of primitives is evaluated with constants that are held, then the text without dead
gates is evaluated to the same outputs. The gates need not be in order, any number of them may
drive a wire, be it an input or a constant, and the kept sets may be any. -/
theorem evaluate_eliminate {kept : KeptCircuit} (isBoolean : kept.circuit.domain = .boolean)
    (primitive : ∀ gate ∈ kept.circuit.gates, gate.operator.IsPrimitive) :
    ∃ text rest, kept.toBristol = .ok text ∧ kept.eliminate.1.toBristol = .ok rest ∧
      ∀ witness outputs, (evaluate text witness true).result = .ok outputs →
        (evaluate rest witness true).result = .ok outputs := by
  have written := toBristol_of_boolean isBoolean
  have keptWritten : kept.eliminate.1.toBristol = .ok _ := toBristol_of_boolean isBoolean
  refine ⟨_, _, written, keptWritten, ?_⟩
  intro witness outputs evaluated
  have sublist : kept.eliminate.1.circuit.gates.Sublist kept.circuit.gates := List.filter_sublist
  have keptPrimitive : ∀ gate ∈ kept.eliminate.1.circuit.gates, gate.operator.IsPrimitive :=
    fun gate member => primitive gate (sublist.subset member)
  rw [evaluate_bound_iff primitive written] at evaluated
  rw [evaluate_bound_iff keptPrimitive keptWritten]
  obtain ⟨counts, arities, bits, last, lists, followed, rfl⟩ := evaluated
  obtain ⟨other, otherFollowed, agrees⟩ := Circuit.exists_follow_dropDead followed
  exact ⟨counts.of_sublist sublist, arities.of_subset sublist.subset, bits, other, lists,
    otherFollowed, agrees.outputs.symm⟩

/-- A wire that is driven twice, and a dead gate that drives a constant and reads another one. -/
def overdriven : KeptCircuit where
  circuit := ⟨"overdriven", .boolean, [2], [4],
    [⟨.and, [2, 0], 1⟩, ⟨.inv, [2], 3⟩, ⟨.xor, [3, 2], 4⟩, ⟨.buf, [4], 3⟩]⟩
  sets := ⟨[0, 2, 3, 4], [1, 3, 4], [], []⟩

def overdrivenText : String :=
  "4 5\n0\n0\n0 1 0 INPUT\n0 1 1 INPUT\n0 1 2 INPUT\n2 1 0 2 1 AND\n1 1 2 3 INV\n" ++
  "2 1 2 3 4 XOR\n1 1 4 3 BUF\n1 0 4 OUTPUT\n"

/-- The text of `overdriven` without its dead gates, which declares no constants. -/
def prunedText : String :=
  "3 5\n0\n0\n0 1 2 INPUT\n1 1 2 3 INV\n2 1 2 3 4 XOR\n1 1 4 3 BUF\n1 0 4 OUTPUT\n"

theorem evaluate_eliminate_overdriven :
    overdriven.circuit.domain = .boolean ∧
      (∀ gate ∈ overdriven.circuit.gates, gate.operator.IsPrimitive) ∧
      overdriven.toBristol = .ok overdrivenText ∧
      overdriven.eliminate.1.toBristol = .ok prunedText ∧
      (evaluate overdrivenText "1" true).result = .ok [(4, true)] ∧
      (evaluate prunedText "1" true).result = .ok [(4, true)] := by
  have primitive : ∀ gate ∈ overdriven.circuit.gates, gate.operator.IsPrimitive := by decide
  have whole : overdriven.toBristol = .ok overdrivenText := by cbv
  have pruned : overdriven.eliminate.1.toBristol = .ok prunedText := by cbv
  have evaluated : (evaluate overdrivenText "1" true).result = .ok [(4, true)] := by cbv
  obtain ⟨text, rest, written, restWritten, same⟩ := evaluate_eliminate rfl primitive
  cases whole.symm.trans written
  cases pruned.symm.trans restWritten
  exact ⟨rfl, primitive, whole, pruned, evaluated, same _ _ evaluated⟩

end KeptCircuit

end Netlist
