import Mathlib.Logic.Basic
import Netlist.Proofs.Sources
import Netlist.Proofs.YosysReading

/-!
# Starved wires

A wire that is bound to an output port gets nothing from it if a later pairing of the
same port takes its place. Such a wire starves, and with it all wires that it feeds, up
and down the hierarchy (`Design.Starved`). When all modules of a design are clean and all
inputs of instances are bound, the flat circuit is driven exactly if every starved wire
that is read leads to a constant (`Design.driven_iff`).
-/

namespace Netlist.Design

/-- A gate reads the wire, or it is an output of the top. -/
inductive Reads (design : Design) (top : Module) : InstancePath → Wire → Prop where
  | gate {path : InstancePath} {module : Module} {gate : Gate} {wire : Wire} :
    design.At top path module → gate ∈ module.gates → wire ∈ gate.inputs →
      Reads design top path wire
  | output {wire : Wire} : wire ∈ top.outputs → Reads design top [] wire

/-- Nothing feeds the wire: it is displaced, or it is bound to a port that starves, as
an output of an instance or as an input. -/
inductive Starved (design : Design) (top : Module) : InstancePath → Wire → Prop where
  | displaced {path : InstancePath} {wire : Wire} :
    design.IsDisplaced top (path, wire) → Starved design top path wire
  | output {path : InstancePath} {module : Module} {place : Nat} {inner : Instance}
    {pairing : Pairing} : design.At top path module → module.instances[place]? = some inner →
      pairing ∈ inner.outputs → ¬ design.domain.IsConstant pairing.callee →
        Starved design top (place :: path) pairing.callee →
          Starved design top path pairing.caller
  | input {path : InstancePath} {module callee : Module} {place : Nat} {inner : Instance}
    {wire source : Wire} : design.At top path module → module.instances[place]? = some inner →
      design.find? inner.callee = some callee → wire ∈ callee.inputs →
        source? inner.pairings wire = some source → Starved design top path source →
          Starved design top (place :: path) wire

/-- The wire is a constant, or its port is bound to one, over any number of levels. -/
inductive Grounded (design : Design) (top : Module) : InstancePath → Wire → Prop where
  | constant {path : InstancePath} {wire : Wire} : design.domain.IsConstant wire →
    Grounded design top path wire
  | bound {path : InstancePath} {module : Module} {place : Nat} {inner : Instance}
    {wire source : Wire} : design.At top path module → module.instances[place]? = some inner →
      source? inner.pairings wire = some source → Grounded design top path source →
        Grounded design top (place :: path) wire

/-- All instances bind the inputs of their callees that are no constants. -/
def BindsInputs (design : Design) (top : Module) : Prop :=
  ∀ occurrence, design.Occurs top occurrence → ∀ wire ∈ occurrence.callee.inputs,
    ¬ design.domain.IsConstant wire → source? occurrence.inner.pairings wire ≠ none

section

variable {design : Design} {top : Module} {route : Route} (isRouting : design.IsRouting top route)
  (wellFormed : design.IsWellFormed) (topMember : top ∈ design.modules)

include isRouting wellFormed topMember

/-- Grounded wires are those whose flat wires are constants. -/
theorem grounded_iff {path : InstancePath} {module : Module} (reached : design.At top path module)
    {wire : Wire} :
    design.Grounded top path wire ↔ design.domain.IsConstant (route path wire) := by
  constructor
  · intro grounded
    induction grounded generalizing module with
    | constant constant =>
      rw [isRouting.constant _ constant]
      exact constant
    | @bound path module place inner wire source above here bound _ ih =>
      by_cases constant : design.domain.IsConstant wire
      · rw [isRouting.constant _ constant]
        exact constant
      · rw [route_of_source isRouting wellFormed topMember above here constant bound]
        exact ih above
  · intro constant
    induction reached generalizing wire with
    | top =>
      rw [isRouting.top_wire] at constant
      exact Grounded.constant constant
    | @inner path caller callee place inner above here found ih =>
      by_cases wireConstant : design.domain.IsConstant wire
      · exact Grounded.constant wireConstant
      · cases bound : source? inner.pairings wire with
        | none =>
          have fresh := isRouting.fresh
            (⟨place, path, caller, rfl, above, here, found⟩ :
              design.Occurs top ⟨place :: path, inner, callee⟩) ⟨wireConstant, bound⟩
          exact absurd (Allocator.lt_next_of_constant constant) (Nat.not_lt_of_le fresh)
        | some source =>
          rw [route_of_source isRouting wellFormed topMember above here wireConstant bound]
            at constant
          exact Grounded.bound above here bound (ih constant)

/-- A starved wire has the flat wire of a displaced one, unless that is a constant. -/
theorem Starved.exists_isDisplaced {path : InstancePath} {wire : Wire}
    (starved : design.Starved top path wire)
    (inconstant : ¬ design.domain.IsConstant (route path wire)) :
    ∃ site, design.IsDisplaced top site ∧ route site.1 site.2 = route path wire := by
  have unrouted : ∀ {path wire}, ¬ design.domain.IsConstant (route path wire) →
      ¬ design.domain.IsConstant wire := by
    intro path wire inconstant constant
    rw [isRouting.constant _ constant] at inconstant
    exact inconstant constant
  induction starved with
  | displaced displaced => exact ⟨_, displaced, rfl⟩
  | @output path module place inner pairing reached here member inconstantPort _ ih =>
    by_cases bound : source? inner.pairings pairing.callee = some pairing.caller
    · have same :=
        route_of_source isRouting wellFormed topMember reached here inconstantPort bound
      rw [← same] at inconstant ⊢
      exact ih inconstant
    · exact ⟨_, IsDisplaced.mk reached here member inconstantPort (unrouted inconstant) bound, rfl⟩
  | input reached here _ _ bound _ ih =>
    have same := route_of_source isRouting wellFormed topMember reached here (unrouted inconstant)
      bound
    rw [same] at inconstant ⊢
    exact ih inconstant

end

section

variable {design : Design} {top : Module} {route : Route} (isRouting : design.IsRouting top route)
  (wellFormed : design.IsWellFormed) (topMember : top ∈ design.modules)
  (unfolds : design.Unfolds [top.name] top.instances)
  (orderly : ∀ module ∈ design.modules, module.IsOrderly)

include isRouting wellFormed topMember unfolds orderly

omit orderly in
theorem isDriven_of_isSettled {site : Site} (settled : design.IsSettled top site) :
    (design.routedCircuit top route).toModule.IsDriven (route site.1 site.2) :=
  (isDriven_routedCircuit_iff isRouting wellFormed topMember unfolds).2
    (Or.inr ⟨site, settled, rfl⟩)

omit orderly in
theorem isDriven_of_constant {path : InstancePath} {wire : Wire}
    (constant : design.domain.IsConstant wire) :
    (design.routedCircuit top route).toModule.IsDriven (route path wire) := by
  rw [isRouting.constant _ constant]
  exact (isDriven_routedCircuit_iff isRouting wellFormed topMember unfolds).2 (Or.inl constant)

/-- What a gate or an instance drives starves if the flat circuit does not drive it. From
the leaves up: a port of an instance is driven inside the callee. -/
theorem starved_of_supplied {path : InstancePath} {module : Module}
    (reached : design.At top path module) :
    ∀ wire, wire ∈ module.gateOutputs ∨ wire ∈ module.subcircuitOutputs →
      ¬ (design.routedCircuit top route).toModule.IsDriven (route path wire) →
        design.Starved top path wire := by
  refine At.leavesFirst unfolds ?_ reached
  intro path module reached ih wire supplied undriven
  rcases supplied with isGate | isCaller
  · obtain ⟨gate, member, rfl⟩ := Gate.mem_allOutputs_iff.1 isGate
    exact absurd (isDriven_of_isSettled isRouting wellFormed topMember unfolds
      (IsSettled.gate reached member)) undriven
  · obtain ⟨inner, innerMember, pairing, member, rfl⟩ :=
      Module.mem_subcircuitOutputs_iff.1 isCaller
    obtain ⟨place, here⟩ := List.mem_iff_getElem?.1 innerMember
    by_cases constant : design.domain.IsConstant pairing.caller
    · exact absurd (isDriven_of_constant isRouting wellFormed topMember unfolds constant) undriven
    · by_cases constantPort : design.domain.IsConstant pairing.callee
      · exact absurd (isDriven_of_isSettled isRouting wellFormed topMember unfolds
          (IsSettled.port reached here member constantPort constant)) undriven
      · by_cases bound : source? inner.pairings pairing.callee = some pairing.caller
        · obtain ⟨callee, found, directions⟩ :=
            wellFormed.resolved module (reached.mem topMember) inner innerMember
          have isOutput := (directions.mem_outputs_iff.1 member).2
          have calleeMember := mem_of_find? found
          rw [← route_of_source isRouting wellFormed topMember reached here constantPort bound]
            at undriven
          apply Starved.output reached here member constantPort
          apply ih place inner callee here found _ _ undriven
          rw [← wellFormed.uniform callee calleeMember] at constantPort
          exact (orderly callee calleeMember).drives isOutput constantPort
        · exact Starved.displaced
            (IsDisplaced.mk reached here member constantPort constant bound)

/-- What a module drives starves if the flat circuit does not drive it. From the top
down: an input of an instance is driven by the caller. -/
theorem starved_of_undriven (bindsInputs : design.BindsInputs top) {path : InstancePath}
    {module : Module} (reached : design.At top path module) {wire : Wire}
    (driven : module.IsDriven wire)
    (undriven : ¬ (design.routedCircuit top route).toModule.IsDriven (route path wire)) :
    design.Starved top path wire := by
  induction reached generalizing wire with
  | top =>
    rcases driven with constant | isGate | isCaller | isInput
    · rw [wellFormed.uniform top topMember] at constant
      exact absurd (isDriven_of_constant isRouting wellFormed topMember unfolds constant) undriven
    · exact starved_of_supplied isRouting wellFormed topMember unfolds orderly At.top _
        (Or.inl isGate) undriven
    · exact starved_of_supplied isRouting wellFormed topMember unfolds orderly At.top _
        (Or.inr isCaller) undriven
    · by_cases constant : design.domain.IsConstant wire
      · exact absurd (isDriven_of_constant isRouting wellFormed topMember unfolds constant)
          undriven
      · exact absurd (isDriven_of_isSettled isRouting wellFormed topMember unfolds
          (IsSettled.input isInput constant)) undriven
  | @inner path caller callee place inner above here found ih =>
    have reached : design.At top (place :: path) callee := At.inner above here found
    by_cases constant : design.domain.IsConstant wire
    · exact absurd (isDriven_of_constant isRouting wellFormed topMember unfolds constant) undriven
    · rcases driven with isConstant | isGate | isCaller | isInput
      · rw [wellFormed.uniform callee (reached.mem topMember)] at isConstant
        exact absurd isConstant constant
      · exact starved_of_supplied isRouting wellFormed topMember unfolds orderly reached _
          (Or.inl isGate) undriven
      · exact starved_of_supplied isRouting wellFormed topMember unfolds orderly reached _
          (Or.inr isCaller) undriven
      · cases bound : source? inner.pairings wire with
        | none =>
          exact absurd bound
            (bindsInputs ⟨place :: path, inner, callee⟩
              ⟨place, path, caller, rfl, above, here, found⟩ wire isInput constant)
        | some source =>
          rw [route_of_source isRouting wellFormed topMember above here constant bound]
            at undriven
          refine Starved.input above here found isInput bound (ih ?_ undriven)
          -- the caller feeds the instance, and it is clean
          obtain ⟨pairing, member, rfl, rfl⟩ := exists_pairing_of_source? bound
          have directions := wellFormed.resolved.directions (above.mem topMember)
            (List.mem_of_getElem? here) found
          have isInputPairing := directions.mem_inputs_iff.2 ⟨member, isInput⟩
          apply (orderly caller (above.mem topMember)).subcircuitInputs
          exact Wire.mem_ascending_iff.2 (List.mem_flatMap.2 ⟨inner, List.mem_of_getElem? here,
            List.mem_map.2 ⟨pairing, isInputPairing, rfl⟩⟩)

/-- The flat circuit drives all that is read exactly if every starved wire that is read
is grounded. -/
theorem driven_iff (bindsInputs : design.BindsInputs top) :
    (∀ path wire, design.Reads top path wire →
        (design.routedCircuit top route).toModule.IsDriven (route path wire)) ↔
      ∀ path wire, design.Reads top path wire → design.Starved top path wire →
        design.Grounded top path wire := by
  have reached : ∀ {path wire}, design.Reads top path wire →
      ∃ module, design.At top path module ∧ module.IsDriven wire := by
    intro path wire reads
    cases reads with
    | gate reached member isInput =>
      refine ⟨_, reached, (orderly _ (reached.mem topMember)).gateInputs wire ?_⟩
      exact Gate.mem_allInputs_iff.2 ⟨_, member, isInput⟩
    | output isOutput => exact ⟨top, At.top, (orderly top topMember).outputs wire isOutput⟩
  have flatDriven : ∀ {wire}, (design.routedCircuit top route).toModule.IsDriven wire ↔ _ :=
    isDriven_routedCircuit_iff isRouting wellFormed topMember unfolds
  constructor
  · intro driven path wire reads starved
    obtain ⟨module, reached, _⟩ := reached reads
    rw [grounded_iff isRouting wellFormed topMember reached]
    by_contra inconstant
    obtain ⟨displaced, isDisplaced, same⟩ :=
      starved.exists_isDisplaced isRouting wellFormed topMember inconstant
    rcases flatDriven.1 (driven path wire reads) with constant | ⟨settled, isSettled, routed⟩
    · exact inconstant constant
    · have single : ∀ module ∈ design.modules, module.SingleDrivers :=
        fun module member => (orderly module member).singleDrivers
      obtain rfl := eq_of_route isRouting wellFormed topMember single (Or.inl isSettled)
        (Or.inr isDisplaced) (routed.trans same.symm) (routed ▸ inconstant)
      exact isDisplaced.not_isSettled wellFormed topMember single isSettled
  · intro grounded path wire reads
    obtain ⟨module, reached, driven⟩ := reached reads
    by_contra undriven
    have starved := starved_of_undriven isRouting wellFormed topMember unfolds orderly bindsInputs
      reached driven undriven
    have constant := (grounded_iff isRouting wellFormed topMember reached).1
      (grounded path wire reads starved)
    exact undriven (flatDriven.2 (Or.inl constant))

end

/-- In the flat circuit of a clean design, all gate inputs and all outputs are driven
exactly if every starved wire that is read is grounded. -/
theorem undriven_flatten_eq_nil_iff {design : Design} (wellFormed : design.IsWellFormed)
    (clean : ∀ module ∈ design.modules, module.isClean = true) {top : Module}
    (isTop : design.topModule = .ok top) (bindsInputs : design.BindsInputs top) {flat : Circuit}
    (flattened : design.flatten.result = .ok flat) :
    flat.toModule.offenders .undrivenGateInput = [] ∧
        flat.toModule.offenders .undrivenOutput = [] ↔
      ∀ path wire, design.Reads top path wire → design.Starved top path wire →
        design.Grounded top path wire := by
  obtain ⟨found, topFlattened⟩ := flatten_eq_ok isTop flattened
  obtain ⟨route, unfolds, isRouting, rfl⟩ := exists_routing found topFlattened
  have topMember := mem_of_find? found
  have orderly : ∀ module ∈ design.modules, module.IsOrderly :=
    fun module member => Module.isClean_iff_isOrderly.1 (clean module member)
  rw [← driven_iff isRouting wellFormed topMember unfolds orderly bindsInputs]
  unfold Module.offenders
  rw [Module.undriven_eq_nil_iff, Module.undriven_eq_nil_iff]
  constructor
  · rintro ⟨gateInputs, outputs⟩ path wire reads
    cases reads with
    | @gate path module gate wire reached member isInput =>
      apply gateInputs
      refine Gate.mem_allInputs_iff.2 ⟨gate.rename (route path), ?_, ?_⟩
      · exact (mem_routedGates_iff unfolds isRouting).2
          (Or.inl ⟨path, module, gate, reached, member, rfl⟩)
      · exact List.mem_map.2 ⟨wire, isInput, rfl⟩
    | output isOutput =>
      rw [isRouting.top_wire]
      exact outputs wire isOutput
  · intro driven
    constructor
    · intro wire member
      obtain ⟨gate, gateMember, isInput⟩ := Gate.mem_allInputs_iff.1 member
      rcases (mem_routedGates_iff unfolds isRouting).1 gateMember with
        ⟨path, module, original, reached, originalMember, rfl⟩ | ⟨occurrence, occurs, isCopy⟩
      · obtain ⟨source, sourceMember, rfl⟩ := List.mem_map.1 isInput
        exact driven path source (Reads.gate reached originalMember sourceMember)
      · obtain ⟨pairing, _, constant, _, _, rfl⟩ := mem_portCopies_iff.1 isCopy
        rw [List.mem_singleton.1 isInput]
        exact (isDriven_routedCircuit_iff isRouting wellFormed topMember unfolds).2
          (Or.inl constant)
    · intro wire isOutput
      have outputDriven := driven [] wire (Reads.output isOutput)
      rw [isRouting.top_wire] at outputDriven
      exact outputDriven

/-- It is enough that all instances of the design bind their inputs, reached or not. -/
theorem bindsInputs_of_forall {design : Design} {top : Module} (topMember : top ∈ design.modules)
    (binds : ∀ module ∈ design.modules, ∀ inner ∈ module.instances,
      ∀ callee ∈ design.find? inner.callee, ∀ wire ∈ callee.inputs,
        ¬ design.domain.IsConstant wire → source? inner.pairings wire ≠ none) :
    design.BindsInputs top := by
  rintro _ ⟨place, path, module, -, reached, here, found⟩ wire isInput inconstant
  exact binds module (reached.mem topMember) _ (List.mem_of_getElem? here) _ found wire isInput
    inconstant

end Netlist.Design

namespace Netlist.Yosys

/-- In the flat circuit of a clean design that was read from JSON, the linter finds no
gate input and no output without a driver exactly if every starved wire that is read is
grounded. -/
theorem flatten_driven_iff {allocator : Allocator} {name : Option String} {text : String}
    {design : Design} (read : readText allocator name text = .ok design)
    (clean : ∀ module ∈ design.modules, module.isClean = true) {top : Module}
    (isTop : design.topModule = .ok top) (bindsInputs : design.BindsInputs top) {flat : Circuit}
    (flattened : design.flatten.result = .ok flat) :
    (∀ diagnostic ∈ Linter.diagnose design.allocator flat.toModule,
        diagnostic.check ≠ .undrivenGateInput ∧ diagnostic.check ≠ .undrivenOutput) ↔
      ∀ path wire, design.Reads top path wire → design.Starved top path wire →
        design.Grounded top path wire := by
  have wellFormed := (isWellFormed_of_readText read).1
  rw [← Design.undriven_flatten_eq_nil_iff wellFormed clean isTop bindsInputs flattened,
    ← Linter.forall_diagnose_ne_iff, ← Linter.forall_diagnose_ne_iff]
  exact forall₂_and

/-- A netlist whose leaf has two outputs on one net. The later one takes the place of
the one that the top reads. -/
def sharedNet : String :=
  "\x7b\"modules\":\x7b" ++
  "\"top\":\x7b\"ports\":\x7b\"a\":[\"input\",[2]],\"y\":[\"output\",[3]]\x7d," ++
  "\"cells\":\x7b\"u\":[\"leaf\",null,\x7b\"i\":[2],\"o\":[3],\"p\":[4]\x7d]\x7d\x7d," ++
  "\"leaf\":\x7b\"ports\":\x7b\"i\":[\"input\",[5]],\"o\":[\"output\",[6]],\"p\":[\"output\",[6]]\x7d," ++
  "\"cells\":\x7b\"g\":[\"NOT\",\x7b\"A\":\"input\",\"Y\":\"output\"\x7d,\x7b\"A\":[5],\"Y\":[6]\x7d]\x7d\x7d\x7d\x7d"

/-- The top of the netlist with a shared net. -/
def sharedNetTop : Module :=
  ⟨"top", .boolean, [2], [3], [],
    [⟨"leaf", [⟨2, 4⟩, ⟨3, 5⟩, ⟨6, 5⟩], [⟨2, 4⟩], [⟨3, 5⟩, ⟨6, 5⟩]⟩]⟩

/-- The design that the netlist with a shared net describes. -/
def sharedNetDesign : Design :=
  ⟨⟨.boolean, ["2", "3", "5", "6", "4"], by decide, by decide⟩,
    [sharedNetTop, ⟨"leaf", .boolean, [4], [5], [⟨.inv, [4], 5⟩], []⟩], some "top", true⟩

set_option maxRecDepth 4000 in
theorem readText_sharedNet :
    readText (Allocator.empty .boolean) (some "top") sharedNet = .ok sharedNetDesign := by
  -- piece by piece, as the kernel needs quadratic time for the characters of one text
  simp only [readText, Json.read, sharedNet, String.toList_append]
  cbv

theorem flatten_sharedNetDesign :
    sharedNetDesign.flatten.result = .ok ⟨"top", .boolean, [2], [3], [⟨.inv, [2], 6⟩]⟩ := by
  cbv

theorem bindsInputs_sharedNetDesign : sharedNetDesign.BindsInputs sharedNetTop := by
  apply Design.bindsInputs_of_forall
  · decide
  · decide

theorem flatten_driven_iff_sharedNet :
    (∀ module ∈ sharedNetDesign.modules, module.isClean = true) ∧
      sharedNetDesign.topModule = .ok sharedNetTop ∧
      sharedNetDesign.BindsInputs sharedNetTop ∧
      ((∀ diagnostic ∈ Linter.diagnose sharedNetDesign.allocator
            (Circuit.toModule ⟨"top", .boolean, [2], [3], [⟨.inv, [2], 6⟩]⟩),
          diagnostic.check ≠ .undrivenGateInput ∧ diagnostic.check ≠ .undrivenOutput) ↔
        ∀ path wire, sharedNetDesign.Reads sharedNetTop path wire →
          sharedNetDesign.Starved sharedNetTop path wire →
            sharedNetDesign.Grounded sharedNetTop path wire) := by
  have clean : ∀ module ∈ sharedNetDesign.modules, module.isClean = true := by decide
  exact ⟨clean, rfl, bindsInputs_sharedNetDesign,
    flatten_driven_iff readText_sharedNet clean rfl bindsInputs_sharedNetDesign
      flatten_sharedNetDesign⟩

/-- That modules are clean and inputs bound is not enough. -/
theorem exists_clean_undriven :
    ∃ design top flat,
      readText (Allocator.empty .boolean) (some "top") sharedNet = .ok design ∧
        (∀ module ∈ design.modules, module.isClean = true) ∧
        design.topModule = .ok top ∧ design.BindsInputs top ∧
        design.flatten.result = .ok flat ∧
        (⟨.undrivenOutput, "top", ["3"]⟩ : Diagnostic) ∈
          Linter.diagnose design.allocator flat.toModule := by
  refine ⟨sharedNetDesign, sharedNetTop, _, readText_sharedNet, by decide, rfl,
    bindsInputs_sharedNetDesign, flatten_sharedNetDesign, ?_⟩
  decide

end Netlist.Yosys
