import Netlist.Proofs.Allocation
import Netlist.Proofs.Bridges
import Netlist.Proofs.Routing
import Netlist.Statistics

/-!
# Size hints

The hint at the front of a composite circuit tells the sizes of the two wire spaces. It is
taken from the circuits alone, and the wires of their ports and gates are below it. Bridges
come from the names of the netlists, which may have named wires that are in neither
circuit, so the hint bounds all wires exactly if it bounds those of the bridges
(`bounds_compose_iff`), and it need not (`exists_unbounded_bridge`).
-/

namespace Netlist

theorem Module.mem_wires_iff {module : Module} {wire : Wire} :
    wire ∈ module.wires ↔
      wire ∈ module.inputs ∨ wire ∈ module.outputs ∨ ∃ gate ∈ module.gates, wire ∈ gate.wires := by
  simp only [Module.wires, Wire.mem_ascending_iff, List.mem_append, List.mem_flatMap, or_assoc]

/-- The flat circuit has the ports and gates of the top. -/
theorem Design.wires_subset_of_flatten {design : Design} {top : Module} {circuit : Circuit}
    (isTop : design.topModule = .ok top) (flattened : design.flatten.result = .ok circuit) :
    top.wires ⊆ circuit.wires := by
  obtain ⟨found, flattened⟩ := flatten_eq_ok isTop flattened
  obtain ⟨expansion, _, rfl⟩ := flattenModule_eq_ok found flattened
  intro wire member
  refine Module.mem_wires_iff.2 ((Module.mem_wires_iff.1 member).imp_right (Or.imp_right ?_))
  exact fun ⟨gate, isGate, isWire⟩ => ⟨gate, List.mem_append_left _ isGate, isWire⟩

namespace Composite

open Statistics (stepWires)

/-- The size of the wire space of a domain by the hint at the front. -/
def hintedSize? : Domain → Composite → Option Nat
  | .boolean, .sizeHint _ boolean :: _ => some boolean
  | .arithmetic, .sizeHint arithmetic _ :: _ => some arithmetic
  | _, _ => none

/-- The hint of the composite circuit bounds the wires of a domain that a step names. -/
def Bounds (composite : Composite) (domain : Domain) (step : Step) : Prop :=
  ∃ size, hintedSize? domain composite = some size ∧ ∀ wire ∈ stepWires domain step, wire < size

variable {circuits : Domain → Circuit} {connection : Connection} {composite : Composite}

theorem compose_eq_ok
    (composed : (compose (circuits .boolean) (circuits .arithmetic) connection).result =
      .ok composite) :
    (∀ domain, (circuits domain).domain = domain) ∧
      composite = steps (circuits .boolean) (circuits .arithmetic) connection := by
  unfold compose at composed
  split at composed
  · cases composed
  · rename_i isBoolean
    split at composed
    · cases composed
    · rename_i isArithmetic
      cases composed
      refine ⟨fun domain => ?_, rfl⟩
      cases domain with
      | boolean => exact not_not.1 isBoolean
      | arithmetic => exact not_not.1 isArithmetic

/-- The hint is the number of wires of the circuit. -/
theorem hintedSize?_steps (domain : Domain) :
    hintedSize? domain (steps (circuits .boolean) (circuits .arithmetic) connection) =
      some (circuits domain).wireCount := by
  cases domain <;> rfl

theorem mem_steps_iff {boolean arithmetic : Circuit} {step : Step} :
    step ∈ steps boolean arithmetic connection ↔
      step = .sizeHint arithmetic.wireCount boolean.wireCount ∨
      (∃ wire ∈ boolean.inputs, .input wire = step) ∨
      (∃ node ∈ boolean.gates, .boolean node = step) ∨
      (∃ bridge ∈ connection.bridges, .bridge bridge = step) ∨
      (∃ node ∈ arithmetic.gates, .arithmetic node = step) ∨
      ∃ wire ∈ arithmetic.outputs, .assertZero wire = step := by
  simp only [steps, List.mem_cons, List.mem_append, List.mem_map, List.mem_mergeSort, or_assoc]

theorem bridge_mem_steps_iff {boolean arithmetic : Circuit} {bridge : Bridge} :
    .bridge bridge ∈ steps boolean arithmetic connection ↔ bridge ∈ connection.bridges := by
  simp [mem_steps_iff]

/-- A step that is no bridge names no wires but those of the circuits. -/
theorem mem_wires_of_mem_steps {step : Step}
    (isStep : step ∈ steps (circuits .boolean) (circuits .arithmetic) connection)
    (noBridge : ∀ bridge, step ≠ .bridge bridge) {domain : Domain} {wire : Wire}
    (named : wire ∈ stepWires domain step) : wire ∈ (circuits domain).wires := by
  refine Module.mem_wires_iff.2 ?_
  rcases mem_steps_iff.1 isStep with rfl | ⟨input, isInput, rfl⟩ | ⟨node, isGate, rfl⟩ |
    ⟨bridge, _, rfl⟩ | ⟨node, isGate, rfl⟩ | ⟨output, isOutput, rfl⟩
  · cases domain <;> cases named
  · cases domain with
    | boolean => exact Or.inl (List.mem_singleton.1 named ▸ isInput)
    | arithmetic => cases named
  · cases domain with
    | boolean => exact Or.inr (Or.inr ⟨node, isGate, named⟩)
    | arithmetic => cases named
  · exact absurd rfl (noBridge bridge)
  · cases domain with
    | boolean => cases named
    | arithmetic => exact Or.inr (Or.inr ⟨node, isGate, named⟩)
  · cases domain with
    | boolean => cases named
    | arithmetic => exact Or.inr (Or.inl (List.mem_singleton.1 named ▸ isOutput))

section

variable (composed : (compose (circuits .boolean) (circuits .arithmetic) connection).result =
  .ok composite)

include composed

/-- The hint bounds the wires of a step exactly if they are constants or not above all wires
of the circuit. -/
theorem bounds_iff {domain : Domain} {step : Step} :
    composite.Bounds domain step ↔ ∀ wire ∈ stepWires domain step,
      domain.IsConstant wire ∨ ∃ used ∈ (circuits domain).wires, wire ≤ used := by
  obtain ⟨domains, rfl⟩ := compose_eq_ok composed
  -- the constants are those of the domain only since both circuits have been checked
  unfold Bounds
  rw [hintedSize?_steps]
  have inside (wire : Wire) : wire < (circuits domain).wireCount ↔
      domain.IsConstant wire ∨ ∃ used ∈ (circuits domain).wires, wire ≤ used := by
    rw [Circuit.lt_wireCount_iff, domains]
  constructor
  · rintro ⟨size, hinted, below⟩ wire named
    cases hinted
    exact (inside wire).1 (below wire named)
  · intro covered
    exact ⟨_, rfl, fun wire named => (inside wire).2 (covered wire named)⟩

/-- The hint bounds the wires of all steps but bridges. -/
theorem bounds_of_not_bridge {step : Step} (isStep : step ∈ composite)
    (noBridge : ∀ bridge, step ≠ .bridge bridge) (domain : Domain) :
    composite.Bounds domain step := by
  refine (bounds_iff composed).2 fun wire named => Or.inr ⟨wire, ?_, Nat.le_refl wire⟩
  rw [(compose_eq_ok composed).2] at isStep
  exact mem_wires_of_mem_steps isStep noBridge named

/-- The hint bounds all wires exactly if it bounds those of the bridges. -/
theorem forall_bounds_iff (domain : Domain) :
    (∀ step ∈ composite, composite.Bounds domain step) ↔
      ∀ bridge ∈ connection.bridges, ∀ wire ∈ stepWires domain (.bridge bridge),
        domain.IsConstant wire ∨ ∃ used ∈ (circuits domain).wires, wire ≤ used := by
  have isStep (bridge : Bridge) : .bridge bridge ∈ composite ↔ bridge ∈ connection.bridges := by
    rw [(compose_eq_ok composed).2, bridge_mem_steps_iff]
  constructor
  · intro bounded bridge isBridge
    exact (bounds_iff composed).1 (bounded _ ((isStep bridge).2 isBridge))
  · intro covered step member
    by_cases noBridge : ∀ bridge, step ≠ .bridge bridge
    · exact bounds_of_not_bridge composed member noBridge domain
    · obtain ⟨bridge, same⟩ := not_forall_not.1 noBridge
      subst same
      exact (bounds_iff composed).2 (covered bridge ((isStep bridge).1 member))

end

/-- The wires of a bridge are in use by the netlists whose names the connection has. -/
theorem lt_next_of_mem_bridge {allocators : Domain → Allocator}
    (named : connection.IsNamed allocators) {bridge : Bridge}
    (isBridge : bridge ∈ connection.bridges) {domain : Domain} {wire : Wire}
    (bridged : wire ∈ stepWires domain (.bridge bridge)) : wire < (allocators domain).next := by
  cases domain with
  | boolean =>
    obtain ⟨pin, isPin⟩ := named.bridges bridge isBridge wire bridged
    exact Allocator.lt_next_of_nameOf isPin
  | arithmetic =>
    obtain ⟨pin, isPin⟩ := named.targets bridge isBridge
    exact List.mem_singleton.1 bridged ▸ Allocator.lt_next_of_nameOf isPin

/-- The hint bounds the wires of everything but bridges. The wires of bridges are in use by
the netlists; the hint bounds them as well exactly if none is above all wires of its
circuit, which is so if they are wires of ports or gates of the tops. -/
theorem bounds_compose_iff {designs : Domain → Design}
    (flattened : ∀ domain, (designs domain).flatten.result = .ok (circuits domain))
    {text booleanTop arithmeticTop : String}
    (accepted : (Connection.read text booleanTop arithmeticTop (designs .boolean).allocator
      (designs .arithmetic).allocator).result = .ok connection)
    (composed : (compose (circuits .boolean) (circuits .arithmetic) connection).result =
      .ok composite) (domain : Domain) :
    (∀ step ∈ composite, (∀ bridge, step ≠ .bridge bridge) → composite.Bounds domain step) ∧
    (∀ bridge ∈ connection.bridges, ∀ wire ∈ stepWires domain (.bridge bridge),
      wire < (designs domain).allocator.next) ∧
    ((∀ step ∈ composite, composite.Bounds domain step) ↔
      ∀ bridge ∈ connection.bridges, ∀ wire ∈ stepWires domain (.bridge bridge),
        domain.IsConstant wire ∨ ∃ used ∈ (circuits domain).wires, wire ≤ used) ∧
    (∀ top, (designs domain).topModule = .ok top →
      (∀ bridge ∈ connection.bridges, ∀ wire ∈ stepWires domain (.bridge bridge),
        wire ∈ top.wires) →
      ∀ step ∈ composite, composite.Bounds domain step) := by
  have named : connection.IsNamed fun domain => (designs domain).allocator :=
    Connection.isNamed_of_read accepted
  have covered := forall_bounds_iff composed domain
  refine ⟨fun step isStep noBridge => bounds_of_not_bridge composed isStep noBridge domain,
    fun bridge isBridge wire bridged => lt_next_of_mem_bridge named isBridge bridged, covered, ?_⟩
  intro top isTop inside
  refine covered.2 fun bridge isBridge wire bridged => Or.inr ⟨wire, ?_, Nat.le_refl wire⟩
  exact Design.wires_subset_of_flatten isTop (flattened domain)
    (inside bridge isBridge wire bridged)

/-! ### A bridge outside of the circuits -/

open Connection (probedNames probedWord probedCircuit)

/-- A netlist with a module that squares a wire, and another one that the top does not
use. -/
def spareSquare : Design :=
  ⟨⟨.arithmetic, ["v", "z", "w", "u"], by decide, by decide⟩,
    [⟨"square", .arithmetic, [0], [1], [⟨.cell "MUL", [0, 0], 1⟩], []⟩,
      ⟨"spare", .arithmetic, [2], [3], [⟨.cell "MUL", [2, 2], 3⟩], []⟩],
    some "square", true⟩

/-- A connection of all wires of `probedWord` to an input of the spare module of
`spareSquare`. -/
def strayRows : List (List String) :=
  [[".model", "join"],
    ".gate" :: "word" :: probedNames.map fun name => name ++ "=" ++ name,
    [".gate", "square", "w=p"],
    ".gate" :: "BtoA" :: "o=p" :: probedNames.map fun name => "i=" ++ name,
    [".end"]]

/-- What is read of the connection. -/
def stray : Connection :=
  ⟨probedNames.zipIdx 2, [("p", 2)], [⟨2, 2, 66⟩]⟩

theorem read_strayRows :
    (Connection.read (Blif.written strayRows) "word" "square" probedWord.allocator
      spareSquare.allocator).result = .ok stray := by
  apply eq_ok_of_toOption
  have plain : ∀ row ∈ strayRows, ∀ word ∈ row, Blif.IsPlain word.toList :=
    Connection.forall_isPlain_of_converts (Blif.forall_isPlain_of_all (by decide))
  rw [Connection.read, Blif.records_written plain]
  decide +kernel

/-- The netlists that are joined. -/
def strayDesigns : Domain → Design
  | .boolean => probedWord
  | .arithmetic => spareSquare

/-- Their circuits. -/
def strayCircuits : Domain → Circuit
  | .boolean => probedCircuit
  | .arithmetic => ⟨"square", .arithmetic, [0], [1], [⟨.cell "MUL", [0, 0], 1⟩]⟩

/-- The circuits joined. -/
def strayComposite : Composite :=
  steps (strayCircuits .boolean) (strayCircuits .arithmetic) stray

theorem flatten_strayDesigns (domain : Domain) :
    (strayDesigns domain).flatten.result = .ok (strayCircuits domain) := by
  cases domain <;> cbv

theorem compose_stray :
    (compose (strayCircuits .boolean) (strayCircuits .arithmetic) stray).result =
      .ok strayComposite :=
  rfl

/-- The hint bounds the Boolean wires of the bridge of `stray`, and not its arithmetic one. -/
theorem bounds_compose_iff_stray :
    (∀ domain, (strayDesigns domain).flatten.result = .ok (strayCircuits domain)) ∧
    (Connection.read (Blif.written strayRows) "word" "square" (strayDesigns .boolean).allocator
      (strayDesigns .arithmetic).allocator).result = .ok stray ∧
    (compose (strayCircuits .boolean) (strayCircuits .arithmetic) stray).result =
      .ok strayComposite ∧
    (∀ step ∈ strayComposite, strayComposite.Bounds .boolean step) ∧
    ¬ ∀ step ∈ strayComposite, strayComposite.Bounds .arithmetic step := by
  have settled := bounds_compose_iff flatten_strayDesigns read_strayRows compose_stray
  refine ⟨flatten_strayDesigns, read_strayRows, compose_stray, ?_, ?_⟩
  · refine (settled .boolean).2.2.1.2 (List.forall_mem_singleton.2 fun wire bridged => ?_)
    have below : wire < 66 := (List.mem_range'_1.1 bridged).2
    exact Or.inr ⟨65, by decide, Nat.le_of_lt_succ below⟩
  · rw [(settled .arithmetic).2.2.1]
    decide

/-- The wire of a bridge can be outside of the wire space of the hint. -/
theorem exists_unbounded_bridge :
    ∃ (designs : Domain → Design) (circuits : Domain → Circuit) (text : String)
      (connection : Connection) (composite : Composite),
      (∀ domain, (designs domain).flatten.result = .ok (circuits domain)) ∧
      (Connection.read text "word" "square" (designs .boolean).allocator
        (designs .arithmetic).allocator).result = .ok connection ∧
      (compose (circuits .boolean) (circuits .arithmetic) connection).result = .ok composite ∧
      ∃ bridge ∈ connection.bridges, .bridge bridge ∈ composite ∧
        ∃ size, hintedSize? .arithmetic composite = some size ∧ ¬ bridge.arithmetic < size := by
  refine ⟨strayDesigns, strayCircuits, _, stray, strayComposite, flatten_strayDesigns,
    read_strayRows, compose_stray, ⟨2, 2, 66⟩, List.mem_singleton_self _, ?_, 2, rfl, by decide⟩
  exact bridge_mem_steps_iff.2 (List.mem_singleton_self _)

end Composite

end Netlist
