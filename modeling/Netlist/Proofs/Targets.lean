import Netlist.Proofs.Bindings
import Netlist.Proofs.Collisions
import Netlist.Proofs.Settling
import Netlist.Proofs.SizeHints

/-!
# Targets of a composite circuit

An arithmetic wire of a composite circuit gets its value from a bridge or from a gate. No
two gates have one target, since flattening a clean arithmetic netlist makes no second
driver (`Design.nodup_outputs_of_flatten`), but a bridge goes wherever the connection says:
each conversion is a target of its own (`Composite.targets_eq`). So all targets are distinct
exactly if the conversions name distinct wires that no gate drives
(`Composite.count_targets_compose`), and they need not (`Composite.exists_two_targets`).
-/

namespace Netlist

/-- The outputs of the gates are distinct in the flat circuit of a clean netlist without
constants. -/
theorem Design.nodup_outputs_of_flatten {design : Design} (wellFormed : design.IsWellFormed)
    (clean : ∀ module ∈ design.modules, module.isClean = true) {flat : Circuit}
    (flattened : design.flatten.result = .ok flat) (isArithmetic : flat.domain = .arithmetic) :
    (flat.gates.map Gate.output).Nodup := by
  obtain ⟨top, isTop⟩ : ∃ top, design.topModule = .ok top := by
    unfold flatten at flattened
    split at flattened
    · cases flattened
    · exact ⟨_, by assumption⟩
  obtain ⟨found, topFlattened⟩ := flatten_eq_ok isTop flattened
  obtain ⟨route, unfolds, isRouting, rfl⟩ := exists_routing found topFlattened
  have single : ∀ module ∈ design.modules, module.SingleDrivers :=
    fun module member => (Module.isClean_iff_isOrderly.1 (clean module member)).singleDrivers
  have none : (design.routedCircuit top route).toModule.multiplyDriven = [] := by
    apply List.eq_nil_iff_forall_not_mem.2
    intro wire member
    have constant := isConstant_of_mem_multiplyDriven isRouting wellFormed (mem_of_find? found)
      unfolds single member
    rw [← wellFormed.uniform top (mem_of_find? found)] at constant
    rw [show top.domain = .arithmetic from isArithmetic] at constant
    exact absurd constant (Nat.not_lt_zero wire)
  exact (Module.singleDrivers_of_nodup (Module.multiplyDriven_eq_nil_iff.1 none)).gates

/-- The arithmetic wire that a step gives a value to. -/
def Step.target? : Step → Option Wire
  | .bridge other => some other.arithmetic
  | .arithmetic node => some node.output
  | _ => none

namespace Composite

open Connection (convertedNames)

/-- The arithmetic wires that steps give values to, one for each such step. -/
def targets (composite : Composite) : List Wire :=
  composite.filterMap Step.target?

theorem targets_steps (boolean arithmetic : Circuit) (connection : Connection) :
    targets (steps boolean arithmetic connection) =
      connection.bridges.map Bridge.arithmetic ++ arithmetic.gates.map Gate.output := by
  have none {α : Type} (step : α → Step) (apart : ∀ item, (step item).target? = none)
      (items : List α) : (items.map step).filterMap Step.target? = [] := by
    rw [List.filterMap_map, List.filterMap_eq_nil_iff]
    exact fun item _ => apart item
  have all {α : Type} (step : α → Step) {target : α → Wire}
      (same : ∀ item, (step item).target? = some (target item)) (items : List α) :
      (items.map step).filterMap Step.target? = items.map target := by
    rw [List.filterMap_map, ← List.filterMap_eq_map]
    exact List.filterMap_congr fun item _ => same item
  rw [targets, steps, List.filterMap_cons_none rfl]
  simp only [List.filterMap_append]
  rw [none Step.input (fun _ => rfl), none Step.boolean (fun _ => rfl),
    none Step.assertZero (fun _ => rfl), all Step.bridge (fun _ => rfl),
    all Step.arithmetic (fun _ => rfl)]
  rw [List.nil_append, List.nil_append, List.append_nil]

section

variable {designs : Domain → Design} {flats circuits : Domain → Circuit}
  {tops : Domain → String} {text : String} {connection : Connection} {composite : Composite}

/-- The bridges lead to the wires that the conversions name. -/
theorem map_arithmetic_bridges
    (accepted : (Connection.read text (tops .boolean) (tops .arithmetic)
      (designs .boolean).allocator (designs .arithmetic).allocator).result = .ok connection) :
    (connection.bridges.map Bridge.arithmetic).map some =
      (convertedNames tops (Blif.records text)).map fun name =>
        (connection.table .arithmetic).lookup name := by
  have bridges := (@Connection.reflects_of_read tops (fun domain => (designs domain).allocator) _ _
    accepted).2.2
  rw [List.map_map, ← List.forall₂_eq_eq_eq, List.forall₂_map_left_iff, List.forall₂_map_right_iff]
  exact bridges.flip.imp fun bridge name stands => stands.symm

/-- A composite circuit of two clean netlists gives a value to an arithmetic wire once for
each conversion that names it, and once more if a gate drives it, so never twice exactly if
the conversions name distinct wires that no gate drives. -/
theorem count_targets_compose (wellFormed : ∀ domain, (designs domain).IsWellFormed)
    (clean : ∀ domain, ∀ module ∈ (designs domain).modules, module.isClean = true)
    (flattened : ∀ domain, (designs domain).flatten.result = .ok (flats domain))
    (scheduled : ∀ domain, (flats domain).schedule = .ok (circuits domain))
    (accepted : (Connection.read text (tops .boolean) (tops .arithmetic)
      (designs .boolean).allocator (designs .arithmetic).allocator).result = .ok connection)
    (composed : (compose (circuits .boolean) (circuits .arithmetic) connection).result =
      .ok composite) :
    ((circuits .arithmetic).gates.map Gate.output).Nodup ∧
    (∀ wire, composite.targets.count wire =
      (convertedNames tops (Blif.records text)).countP (fun name =>
        (connection.table .arithmetic).lookup name = some wire) +
      if wire ∈ (circuits .arithmetic).gates.map Gate.output then 1 else 0) ∧
    (composite.targets.Nodup ↔
      (convertedNames tops (Blif.records text)).Pairwise (fun one other =>
        (connection.table .arithmetic).lookup one ≠ (connection.table .arithmetic).lookup other) ∧
      ∀ name ∈ convertedNames tops (Blif.records text), ∀ gate ∈ (circuits .arithmetic).gates,
        (connection.table .arithmetic).lookup name ≠ some gate.output) := by
  obtain ⟨domains, rfl⟩ := compose_eq_ok composed
  have bridges := map_arithmetic_bridges accepted
  obtain ⟨gates, ordered, perm, _⟩ := Circuit.schedule_eq_ok (scheduled .arithmetic)
  have single : ((circuits .arithmetic).gates.map Gate.output).Nodup := by
    have isArithmetic := domains .arithmetic
    rw [ordered] at isArithmetic ⊢
    exact (perm.map Gate.output).nodup_iff.2 (Design.nodup_outputs_of_flatten
      (wellFormed .arithmetic) (clean .arithmetic) (flattened .arithmetic) isArithmetic)
  have isTarget (wire : Wire) : wire ∈ connection.bridges.map Bridge.arithmetic ↔
      ∃ name ∈ convertedNames tops (Blif.records text),
        (connection.table .arithmetic).lookup name = some wire := by
    rw [← List.mem_map, ← bridges, List.mem_map_of_injective (Option.some_injective _)]
  rw [targets_steps]
  refine ⟨single, fun wire => ?_, ?_⟩
  · rw [List.count_append, single.count,
      ← List.count_map_of_injective _ some (Option.some_injective _), bridges,
      List.count_eq_countP, List.countP_map]
    congr 1
    exact List.countP_congr fun name _ => by simp
  · rw [List.nodup_append, ← List.nodup_map_iff (Option.some_injective _), bridges, List.Nodup,
      List.pairwise_map]
    refine and_congr_right fun _ => ⟨fun apart name isConverted gate isGate stands => ?_,
      fun apart => ⟨single, fun wire isBridged output isOutput same => ?_⟩⟩
    · exact apart.2 _ ((isTarget _).2 ⟨name, isConverted, stands⟩) _
        (List.mem_map_of_mem isGate) rfl
    · obtain ⟨name, isConverted, stands⟩ := (isTarget wire).1 isBridged
      obtain ⟨gate, isGate, rfl⟩ := List.mem_map.1 isOutput
      exact apart name isConverted gate isGate (same ▸ stands)

end

/-! ### A wire with two values -/

open Connection (probedWord probedCircuit product productTops merged mergedRows)

/-- The netlists that are joined. -/
def mergedDesigns : Domain → Design
  | .boolean => probedWord
  | .arithmetic => product

/-- Their circuits. -/
def mergedCircuits : Domain → Circuit
  | .boolean => probedCircuit
  | .arithmetic => ⟨"product", .arithmetic, [0, 1], [2], [⟨.cell "MUL", [0, 1], 2⟩]⟩

/-- The circuits joined. -/
def mergedComposite : Composite :=
  steps (mergedCircuits .boolean) (mergedCircuits .arithmetic) merged

theorem isWellFormed_mergedDesigns (domain : Domain) : (mergedDesigns domain).IsWellFormed := by
  cases domain
  · exact ⟨by decide, by decide, by decide +kernel⟩
  · exact ⟨by decide, by decide, by decide⟩

theorem isClean_mergedDesigns (domain : Domain) :
    ∀ module ∈ (mergedDesigns domain).modules, module.isClean = true := by
  cases domain
  · decide +kernel
  · decide

theorem flatten_mergedDesigns (domain : Domain) :
    (mergedDesigns domain).flatten.result = .ok (mergedCircuits domain) := by
  cases domain <;> cbv

theorem schedule_mergedCircuits (domain : Domain) :
    (mergedCircuits domain).schedule = .ok (mergedCircuits domain) := by
  cases domain <;> cbv

/-- The output of `product` gets a value from its gate and from the bridge. -/
theorem count_targets_compose_merged :
    (∀ domain, (mergedDesigns domain).IsWellFormed) ∧
    (∀ domain, ∀ module ∈ (mergedDesigns domain).modules, module.isClean = true) ∧
    (∀ domain, (mergedDesigns domain).flatten.result = .ok (mergedCircuits domain)) ∧
    (∀ domain, (mergedCircuits domain).schedule = .ok (mergedCircuits domain)) ∧
    (Connection.read (Blif.written mergedRows) (productTops .boolean) (productTops .arithmetic)
      (mergedDesigns .boolean).allocator (mergedDesigns .arithmetic).allocator).result =
        .ok merged ∧
    (compose (mergedCircuits .boolean) (mergedCircuits .arithmetic) merged).result =
      .ok mergedComposite ∧
    mergedComposite.targets.count 2 = 1 + 1 := by
  have accepted : (Connection.read (Blif.written mergedRows) (productTops .boolean)
      (productTops .arithmetic) (mergedDesigns .boolean).allocator
        (mergedDesigns .arithmetic).allocator).result = .ok merged :=
    Connection.read_mergedRows
  have settled := count_targets_compose isWellFormed_mergedDesigns isClean_mergedDesigns
    flatten_mergedDesigns schedule_mergedCircuits accepted rfl
  refine ⟨isWellFormed_mergedDesigns, isClean_mergedDesigns, flatten_mergedDesigns,
    schedule_mergedCircuits, accepted, rfl, ?_⟩
  refine (settled.2.1 2).trans ?_
  rw [Connection.bindings_mergedRows.2]
  rfl

/-- An arithmetic wire of a composite circuit of clean netlists can get two values. -/
theorem exists_two_targets :
    ∃ (designs : Domain → Design) (flats circuits : Domain → Circuit) (tops : Domain → String)
      (text : String) (connection : Connection) (composite : Composite),
      (∀ domain, (designs domain).IsWellFormed) ∧
      (∀ domain, ∀ module ∈ (designs domain).modules, module.isClean = true) ∧
      (∀ domain, (designs domain).flatten.result = .ok (flats domain)) ∧
      (∀ domain, (flats domain).schedule = .ok (circuits domain)) ∧
      (Connection.read text (tops .boolean) (tops .arithmetic) (designs .boolean).allocator
        (designs .arithmetic).allocator).result = .ok connection ∧
      (compose (circuits .boolean) (circuits .arithmetic) connection).result = .ok composite ∧
      ∃ wire, 1 < composite.targets.count wire := by
  refine ⟨mergedDesigns, mergedCircuits, mergedCircuits, productTops, Blif.written mergedRows,
    merged, mergedComposite, isWellFormed_mergedDesigns, isClean_mergedDesigns,
    flatten_mergedDesigns, schedule_mergedCircuits, Connection.read_mergedRows, rfl, 2, ?_⟩
  rw [mergedComposite, targets_steps]
  decide

end Composite

end Netlist
