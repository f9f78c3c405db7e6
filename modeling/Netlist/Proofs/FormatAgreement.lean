import Netlist.Proofs.AlikeCircuits
import Netlist.Proofs.Extension
import Netlist.Proofs.WrittenRecords
import Netlist.Proofs.WrittenRows
import Netlist.Proofs.WrittenValues

/-!
# The agreement of formats

A blueprint may be written in BLIF and in JSON. Both texts are read, or neither is, and the
designs that are read behave the same, wherever the wires got their numbers from
(`Blueprint.readTexts_agrees_readText`): the same modules are clean, the same circuits come
about, and these yield the same values.
-/

namespace Netlist

namespace Design

/-! ### Flat circuits -/

/-- The gates of all modules are primitives with as many inputs as these take. -/
def HasArities (design : Design) : Prop :=
  ∀ module ∈ design.modules, ∀ gate ∈ module.gates,
    gate.operator.arity? = some gate.inputs.length

/-- Directions of instances do not matter. -/
theorem HasArities.of_resolved? {source design : Design} (arities : source.HasArities)
    (resolved : source.resolved? = .ok design) : design.HasArities := by
  intro module isModule gate isGate
  obtain ⟨_, _, modules⟩ := resolved?_eq_ok resolved
  obtain ⟨original, isOriginal, resolves⟩ := exists_of_mem_right modules isModule
  rw [resolves.same.gates] at isGate
  exact arities original isOriginal gate isGate

/-- The flat circuit of the design with its gates in order. -/
def IsScheduledAs (design : Design) (circuit : Circuit) : Prop :=
  ∃ flat, design.flatten.result = .ok flat ∧ flat.schedule = .ok circuit

variable {design : Design} {circuit : Circuit}

theorem exists_routing_of_flatten (flattened : design.flatten.result = .ok circuit) :
    ∃ top route, top ∈ design.modules ∧ design.Unfolds [top.name] top.instances ∧
      design.IsRouting top route ∧ circuit = design.routedCircuit top route := by
  cases isTop : design.topModule with
  | error error =>
    unfold flatten at flattened
    rw [isTop] at flattened
    cases flattened
  | ok top =>
    obtain ⟨found, topFlattened⟩ := flatten_eq_ok isTop flattened
    obtain ⟨route, routed⟩ := exists_routing found topFlattened
    exact ⟨top, route, mem_of_find? found, routed⟩

/-- Flattening renames gates and adds buffers, and scheduling gates moves them. -/
theorem HasArities.of_isScheduledAs (arities : design.HasArities)
    (scheduled : design.IsScheduledAs circuit) : circuit.HasArities := by
  obtain ⟨flat, flattened, ordered⟩ := scheduled
  obtain ⟨top, route, isModule, unfolds, isRouting, rfl⟩ := exists_routing_of_flatten flattened
  obtain ⟨gates, rfl, perm, _⟩ := Circuit.schedule_eq_ok ordered
  intro gate isGate
  rcases (mem_routedGates_iff unfolds isRouting).1 (perm.mem_iff.1 isGate) with
    ⟨path, module, original, reached, isOriginal, rfl⟩ | ⟨occurrence, _, isCopy⟩
  · have arity := arities module (reached.mem isModule) original isOriginal
    rwa [← List.length_map (route path)] at arity
  · obtain ⟨_, _, _, _, _, rfl⟩ := mem_portCopies_iff.1 isCopy
    rfl

theorem IsUniform.domain_of_isScheduledAs (uniform : design.IsUniform)
    (scheduled : design.IsScheduledAs circuit) : circuit.domain = design.domain := by
  obtain ⟨flat, flattened, ordered⟩ := scheduled
  have flatDomain : flat.domain = design.domain := uniform.domain_of_flatten flattened
  obtain ⟨gates, rfl, _⟩ := Circuit.schedule_eq_ok ordered
  exact flatDomain

/-- What two designs have in common if nobody can tell their wires apart: the same modules are
clean, both are made into circuits or neither is, these are both written if flattening has
numbered their wires with words, and the texts yield the same values. -/
structure BehavesLike (design image : Design) : Prop where
  isClean : ∀ name, (design.find? name).map Module.isClean = (image.find? name).map Module.isClean
  isScheduled : (∃ circuit, design.IsScheduledAs circuit) ↔ ∃ copy, image.IsScheduledAs copy
  isWritten : design.NumbersBelow Decimal.wordLimit → image.NumbersBelow Decimal.wordLimit →
    ∀ circuit copy, design.IsScheduledAs circuit → image.IsScheduledAs copy →
      ∃ text copyText, circuit.writeBristol? = some (.ok text) ∧
        copy.writeBristol? = some (.ok copyText)
  values : ∀ circuit copy, design.IsScheduledAs circuit → image.IsScheduledAs copy →
    ∀ text copyText, circuit.writeBristol? = some (.ok text) →
      copy.writeBristol? = some (.ok copyText) →
        ∀ witness constants, Bristol.outputValues? text witness constants =
          Bristol.outputValues? copyText witness constants

namespace Alike

variable {relation : String → Wire → Wire → Prop} {image : Design}

/-- If the first design is made into a circuit, so is the second one, and the circuits are
alike. Their wires can be counted if flattening has numbered them with words. -/
theorem exists_isScheduledAs (alike : design.Alike relation image)
    (scheduled : design.IsScheduledAs circuit) :
    ∃ copy flat, image.IsScheduledAs copy ∧ design.domain.Matching flat ∧
      circuit.Alike flat copy ∧
      (design.NumbersBelow Decimal.wordLimit → image.NumbersBelow Decimal.wordLimit →
        circuit.wireCount < Decimal.wordLimit ∧ copy.wireCount < Decimal.wordLimit) := by
  obtain ⟨before, flattened, ordered⟩ := scheduled
  obtain ⟨imageBefore, flat, imageFlattened, matching, same, bounded⟩ :=
    alike.exists_flatten flattened
  obtain ⟨copy, imageOrdered, orderedSame⟩ := same.exists_schedule matching ordered
  refine ⟨copy, flat, ⟨imageBefore, imageFlattened, imageOrdered⟩, matching, orderedSame, ?_⟩
  intro below imageBelow
  constructor
  · refine Circuit.wireCount_lt_iff.2 fun wire member => ?_
    obtain ⟨partner, related⟩ := orderedSame.exists_of_mem_wires member
    exact (bounded _ below imageBelow wire partner related).1
  · refine Circuit.wireCount_lt_iff.2 fun partner member => ?_
    obtain ⟨wire, related⟩ := orderedSame.flip.exists_of_mem_wires member
    exact (bounded _ below imageBelow wire partner related).2

/-- The circuits of both designs are alike, whichever they are. -/
theorem isScheduledAs_alike (alike : design.Alike relation image) {copy : Circuit}
    (scheduled : design.IsScheduledAs circuit) (imageScheduled : image.IsScheduledAs copy) :
    ∃ flat, design.domain.Matching flat ∧ circuit.Alike flat copy ∧
      (design.NumbersBelow Decimal.wordLimit → image.NumbersBelow Decimal.wordLimit →
        circuit.wireCount < Decimal.wordLimit ∧ copy.wireCount < Decimal.wordLimit) := by
  obtain ⟨other, flat, ⟨otherBefore, otherFlattened, otherOrdered⟩, matching, same⟩ :=
    alike.exists_isScheduledAs scheduled
  obtain ⟨before, flattened, ordered⟩ := imageScheduled
  cases flattened.symm.trans otherFlattened
  cases ordered.symm.trans otherOrdered
  exact ⟨flat, matching, same⟩

theorem map_isClean_find? (alike : design.Alike relation image) (uniform : design.IsUniform)
    (name : String) :
    (design.find? name).map Module.isClean = (image.find? name).map Module.isClean := by
  have related := alike.find? name
  cases found : design.find? name with
  | none =>
    rw [found] at related
    generalize image.find? name = other at related ⊢
    cases related
    rfl
  | some module =>
    rw [found] at related
    obtain ⟨copy, imageFound, same⟩ := exists_of_rel_some related
    have matching := alike.matching module.name
    rw [← uniform module (mem_of_find? found)] at matching
    rw [imageFound, Option.map_some, Option.map_some, same.isClean_eq matching]

/-- Alike Boolean designs behave the same. -/
theorem behavesLike (alike : design.Alike relation image) (isBoolean : design.domain = .boolean)
    (uniform : design.IsUniform) (arities : design.HasArities) : design.BehavesLike image := by
  have domain {circuit copy : Circuit} {flat : Wire → Wire → Prop}
      (scheduled : design.IsScheduledAs circuit) (same : circuit.Alike flat copy) :
      circuit.domain = .boolean ∧ copy.domain = .boolean := by
    have isBoolean := (uniform.domain_of_isScheduledAs scheduled).trans isBoolean
    exact ⟨isBoolean, same.domain.symm.trans isBoolean⟩
  refine ⟨alike.map_isClean_find? uniform, ⟨?_, ?_⟩, ?_, ?_⟩
  · rintro ⟨circuit, scheduled⟩
    obtain ⟨copy, _, imageScheduled, _⟩ := alike.exists_isScheduledAs scheduled
    exact ⟨copy, imageScheduled⟩
  · rintro ⟨copy, imageScheduled⟩
    obtain ⟨circuit, _, scheduled, _⟩ := alike.flip.exists_isScheduledAs imageScheduled
    exact ⟨circuit, scheduled⟩
  · intro below imageBelow circuit copy scheduled imageScheduled
    obtain ⟨flat, _, same, counted⟩ := alike.isScheduledAs_alike scheduled imageScheduled
    obtain ⟨isBoolean, copyIsBoolean⟩ := domain scheduled same
    obtain ⟨inWords, copyInWords⟩ := counted below imageBelow
    exact ⟨_, _, (Circuit.writeBristol?_eq_some_iff isBoolean).2 ⟨inWords, if_pos isBoolean⟩,
      (Circuit.writeBristol?_eq_some_iff copyIsBoolean).2 ⟨copyInWords, if_pos copyIsBoolean⟩⟩
  · intro circuit copy scheduled imageScheduled text copyText written imageWritten
    obtain ⟨flat, matching, same, _⟩ := alike.isScheduledAs_alike scheduled imageScheduled
    rw [isBoolean] at matching
    exact same.outputValues?_eq matching (arities.of_isScheduledAs scheduled)
      (domain scheduled same).1 written imageWritten

end Alike

end Design

namespace Blueprint

variable {blueprint : Blueprint} {spell imageSpell : Plan → Signal → String}

/-- The gates of a design that realizes a blueprint have as many inputs as those of it. -/
theorem hasArities_of_realizes {source : Design} (realizes : source.Realizes spell blueprint)
    (arities : blueprint.HasArities) : source.HasArities := by
  intro module isModule gate isGate
  rw [realizes.modules] at isModule
  obtain ⟨plan, isPlan, rfl⟩ := List.mem_map.1 isModule
  obtain ⟨part, isPart, isGate⟩ := List.mem_filterMap.1 isGate
  cases part with
  | use => cases isGate
  | gate label kind inputs output =>
    cases isGate
    have arity : (Operator.ofName kind).arity? = some inputs.length :=
      arities plan isPlan _ isPart
    rwa [← List.length_map fun pin => source.numbering spell plan pin.2] at arity

/-- If one text of a blueprint is read, so is the other one. -/
theorem IsReadAs.exists_ok {top : String} {outcome imageOutcome : Except Error Design}
    (isRead : blueprint.IsReadAs spell top outcome)
    (imageIsRead : blueprint.IsReadAs imageSpell top imageOutcome)
    (names : (blueprint.map Plan.name).Nodup) (spelling : blueprint.IsSpelling spell)
    (imageSpelling : blueprint.IsSpelling imageSpell) {design : Design}
    (read : outcome = .ok design) :
    ∃ image relation, imageOutcome = .ok image ∧ design.Alike relation image ∧
      design.HasArities := by
  have arities := isRead.hasArities design read
  have isTop := isRead.hasTop design read
  obtain ⟨source, realizes, hasTop, rfl⟩ := isRead.realizes arities isTop
  obtain ⟨imageSource, imageRealizes, imageHasTop, rfl⟩ := imageIsRead.realizes arities isTop
  obtain ⟨relation, alike⟩ := realizes.exists_alike imageRealizes names spelling imageSpelling
    (hasTop.trans imageHasTop.symm)
  have resolvable := alike.isResolvable (Design.exists_resolved?_iff.1 ⟨design, read⟩)
  obtain ⟨image, imageRead⟩ := Design.exists_resolved?_iff.2 resolvable
  exact ⟨image, relation, imageRead, alike.of_resolved? read imageRead,
    (hasArities_of_realizes realizes arities).of_resolved? read⟩

/-- A netlist in BLIF and a netlist in JSON are both read, with some top, or neither of them
is, and the designs behave the same. -/
def Agree (allocator imageAllocator : Allocator) (top text json : String) : Prop :=
  ((∃ design, Blif.readTexts allocator (some top) [text] = .ok design) ↔
    ∃ image, Yosys.readText imageAllocator (some top) json = .ok image) ∧
  ∀ design image, Blif.readTexts allocator (some top) [text] = .ok design →
    Yosys.readText imageAllocator (some top) json = .ok image → design.BehavesLike image

/-- The formats agree on each valid blueprint that was written in both of them. -/
theorem agree_of_written (valid : blueprint.IsValid) {text json : String}
    (written : (Blif.records text).map Blif.Record.words = blueprint.rows)
    (encoded : Json.read json = .ok blueprint.value) {allocator imageAllocator : Allocator}
    (isBoolean : allocator.domain = .boolean) (imageIsBoolean : imageAllocator.domain = .boolean)
    (top : String) : Agree allocator imageAllocator top text json := by
  have isRead := Blif.isReadAs_readTexts valid isBoolean written top
  have imageIsRead := Yosys.isReadAs_readText valid imageIsBoolean encoded top
  have spelling := isSpelling_blifName valid
  have imageSpelling := isSpelling_jsonName blueprint
  refine ⟨⟨?_, ?_⟩, fun design image read imageRead => ?_⟩
  · rintro ⟨design, read⟩
    obtain ⟨image, _, imageRead, _⟩ :=
      isRead.exists_ok imageIsRead valid.names spelling imageSpelling read
    exact ⟨image, imageRead⟩
  · rintro ⟨image, imageRead⟩
    obtain ⟨design, _, read, _⟩ :=
      imageIsRead.exists_ok isRead valid.names imageSpelling spelling imageRead
    exact ⟨design, read⟩
  · obtain ⟨other, relation, otherRead, alike, arities⟩ :=
      isRead.exists_ok imageIsRead valid.names spelling imageSpelling read
    cases imageRead.symm.trans otherRead
    obtain ⟨wellFormed, _, domain⟩ := Blif.isWellFormed_of_readTexts read
    exact alike.behavesLike (domain.trans isBoolean) wellFormed.uniform arities

/-! ### Names that matter -/

/-- Names in a small blueprint. -/
structure ProbeNames where
  /-- A port of the top. -/
  outer : String
  /-- A port of the module that the top uses. -/
  inner : String
  /-- A pin of the gate of this module. -/
  pin : String

/-- A top that inverts one bit of a port, by way of another module. -/
def probe (names : ProbeNames) : Blueprint :=
  [{ name := "leaf"
     ports := [⟨names.inner, .input, [2]⟩, ⟨"y", .output, [3]⟩]
     parts := [.gate "g" "INV" [(names.pin, .net 2)] ("Y", .net 3)]
     netName := toString },
   { name := "top"
     ports := [⟨names.outer, .input, [2, 3]⟩, ⟨"y", .output, [4]⟩]
     parts := [.use "u" "leaf" [(names.inner, [.net 2]), ("y", [.net 4])]]
     netName := toString }]

/-- The blueprint in BLIF. -/
def probeText (names : ProbeNames) : String :=
  ".model leaf\n" ++
  ".inputs " ++ names.inner ++ "[0]\n" ++
  ".outputs y[0]\n" ++
  ".gate INV " ++ names.pin ++ "=" ++ names.inner ++ "[0] Y=y[0]\n" ++
  ".end\n" ++
  ".model top\n" ++
  ".inputs " ++ names.outer ++ "[0] " ++ names.outer ++ "[1]\n" ++
  ".outputs y[0]\n" ++
  ".subckt leaf " ++ names.inner ++ "[0]=" ++ names.outer ++ "[0] y[0]=y[0]\n" ++
  ".end\n"

/-- The blueprint in JSON. -/
def probeJson (names : ProbeNames) : String :=
  "\x7b\"modules\":\x7b" ++
  "\"leaf\":\x7b\"ports\":\x7b" ++
  "\"" ++ names.inner ++ "\":\x7b\"direction\":\"input\",\"bits\":[2]\x7d," ++
  "\"y\":\x7b\"direction\":\"output\",\"bits\":[3]\x7d\x7d," ++
  "\"cells\":\x7b\"g\":\x7b\"type\":\"INV\"," ++
  "\"port_directions\":\x7b\"" ++ names.pin ++ "\":\"input\",\"Y\":\"output\"\x7d," ++
  "\"connections\":\x7b\"" ++ names.pin ++ "\":[2],\"Y\":[3]\x7d\x7d\x7d\x7d," ++
  "\"top\":\x7b\"ports\":\x7b" ++
  "\"" ++ names.outer ++ "\":\x7b\"direction\":\"input\",\"bits\":[2,3]\x7d," ++
  "\"y\":\x7b\"direction\":\"output\",\"bits\":[4]\x7d\x7d," ++
  "\"cells\":\x7b\"u\":\x7b\"type\":\"leaf\",\"port_directions\":\x7b\x7d," ++
  "\"connections\":\x7b\"" ++ names.inner ++ "\":[2],\"y\":[4]\x7d\x7d\x7d\x7d\x7d\x7d"

/-- Names that are fine. -/
def evenNames : ProbeNames := ⟨"a", "p", "A"⟩

/-- Names that are fine but for one: a nameless port of two bits, an equality sign in the name
of a port that is connected or in that of a pin, and a nameless pin. -/
def oddNames : List ProbeNames :=
  [⟨"", "p", "A"⟩, ⟨"a", "p=q", "A"⟩, ⟨"a", "p", "A=B"⟩, ⟨"a", "p", ""⟩]

/-- The blueprint in BLIF, with the records on one line each. -/
def probeRecords (names : ProbeNames) : List Blif.Record :=
  (probe names).rows.zipIdx.flatMap fun (row, index) => Blif.Record.ofRow (index + 1) row

theorem records_probeText : ∀ names ∈ evenNames :: oddNames,
    Blif.records (probeText names) = probeRecords names := by
  simp only [evenNames, oddNames, List.forall_mem_cons, List.not_mem_nil, false_implies,
    implies_true, and_true]
  refine ⟨?_, ?_, ?_, ?_, ?_⟩ <;>
  · unfold Blif.records probeText
    repeat rw [String.toList_append]
    cbv

theorem written_probe : ∀ names ∈ evenNames :: oddNames,
    (Blif.records (probeText names)).map Blif.Record.words = (probe names).rows := by
  intro names member
  rw [records_probeText names member]
  rfl

set_option maxRecDepth 4000 in
theorem read_probeJson : ∀ names ∈ evenNames :: oddNames,
    Json.read (probeJson names) = .ok (probe names).value := by
  simp only [evenNames, oddNames, List.forall_mem_cons, List.not_mem_nil, false_implies,
    implies_true, and_true]
  refine ⟨?_, ?_, ?_, ?_, ?_⟩ <;>
  · unfold Json.read probeJson
    repeat rw [String.toList_append]
    cbv

theorem isValid_probe_even : (probe evenNames).IsValid := by
  decide +kernel

/-- The design that is read from the blueprint in JSON. -/
def probeDesign : Design :=
  ⟨⟨.boolean, ["2", "3", "4"], by decide, by decide⟩,
    [⟨"leaf", .boolean, [2], [3], [⟨.inv, [2], 3⟩], []⟩,
      ⟨"top", .boolean, [3, 2], [4], [], [⟨"leaf", [⟨2, 2⟩, ⟨4, 3⟩], [⟨2, 2⟩], [⟨4, 3⟩]⟩]⟩],
    some "top", true⟩

theorem readText_probeJson : ∀ names ∈ evenNames :: oddNames,
    Yosys.readText (.empty .boolean) (some "top") (probeJson names) = .ok probeDesign := by
  intro names member
  unfold Yosys.readText
  rw [read_probeJson names member]
  revert names
  simp only [evenNames, oddNames, List.forall_mem_cons, List.not_mem_nil, false_implies,
    implies_true, and_true]
  refine ⟨?_, ?_, ?_, ?_, ?_⟩ <;> cbv

theorem agree_of_written_probe :
    (probe evenNames).IsValid ∧
      (Blif.records (probeText evenNames)).map Blif.Record.words = (probe evenNames).rows ∧
      Json.read (probeJson evenNames) = .ok (probe evenNames).value ∧
      (Allocator.empty .boolean).domain = .boolean ∧
      (∃ design, Blif.readTexts (.empty .boolean) (some "top") [probeText evenNames] =
        .ok design) ∧
      Agree (.empty .boolean) (.empty .boolean) "top" (probeText evenNames)
        (probeJson evenNames) := by
  have written := written_probe evenNames List.mem_cons_self
  have encoded := read_probeJson evenNames List.mem_cons_self
  have isBoolean : (Allocator.empty .boolean).domain = .boolean := rfl
  have agree := agree_of_written isValid_probe_even written encoded isBoolean isBoolean "top"
  exact ⟨isValid_probe_even, written, encoded, isBoolean,
    agree.1.2 ⟨probeDesign, readText_probeJson evenNames List.mem_cons_self⟩, agree⟩

/-! ### Disagreement -/

/-- Nothing is read from the records of the names in BLIF, although something is in JSON. -/
theorem not_agree_of_refused {names : ProbeNames} (member : names ∈ evenNames :: oddNames)
    {error : Error} (refused : Blif.readTexts (.empty .boolean) (some "top") [probeText names] =
      .error error) :
    ¬ Agree (.empty .boolean) (.empty .boolean) "top" (probeText names) (probeJson names) := by
  rintro ⟨both, _⟩
  obtain ⟨design, read⟩ := both.2 ⟨probeDesign, readText_probeJson names member⟩
  cases refused.symm.trans read

/-- An equality sign in the name of a port that is connected. The pin ends in front of it. -/
theorem readTexts_signed :
    Blif.readTexts (.empty .boolean) (some "top") [probeText ⟨"a", "p=q", "A"⟩] =
      .error (.unmatchedPairing "top" "leaf" "p") := by
  have taken : (Blif.records (probeText ⟨"a", "p=q", "A"⟩)).forM Blif.Reader.take
      (Blif.Reader.start (.empty .boolean)) = (.ok ⟨⟩,
        ⟨⟨⟨.boolean, ["p=q[0]", "y[0]", "a[1]", "a[0]", "p", "q[0]=a[0]"], by decide, by decide⟩,
          [⟨"leaf", .boolean, [2], [3], [⟨.inv, [2], 3⟩], []⟩,
            ⟨"top", .boolean, [4, 5], [3], [], [.unresolved "leaf" [⟨7, 6⟩, ⟨3, 3⟩]]⟩],
          some "leaf", false⟩, none, none, 10, [⟨[2], [3], [], []⟩, .empty], .empty⟩) := by
    rw [records_probeText _ (by simp [oddNames])]
    cbv
  rw [Blif.readTexts_of_taken taken rfl]
  cbv

/-- A pin without a name. -/
theorem readTexts_pinless :
    Blif.readTexts (.empty .boolean) (some "top") [probeText ⟨"a", "p", ""⟩] =
      .error (.parse 4 (.binding "=p[0]")) := by
  have refused : (Blif.records (probeText ⟨"a", "p", ""⟩)).forM Blif.Reader.take
      (Blif.Reader.start (.empty .boolean)) = (.error (.parse 4 (.binding "=p[0]")),
        ⟨Design.empty ⟨.boolean, ["p[0]", "y[0]"], by decide, by decide⟩,
          some ⟨"leaf", .boolean, [2], [3], [], []⟩, none, 4, [], .empty⟩) := by
    rw [records_probeText _ (by simp [oddNames])]
    cbv
  exact Blif.readTexts_of_refused refused "top"

/-- The design that is read in BLIF if the name of a pin has an equality sign. The gate reads a
wire that nothing drives. -/
def undrivenDesign : Design :=
  ⟨⟨.boolean, ["p[0]", "y[0]", "B=p[0]", "a[1]", "a[0]"], by decide, by decide⟩,
    [⟨"leaf", .boolean, [2], [3], [⟨.inv, [4], 3⟩], []⟩,
      ⟨"top", .boolean, [5, 6], [3], [], [⟨"leaf", [⟨6, 2⟩, ⟨3, 3⟩], [⟨6, 2⟩], [⟨3, 3⟩]⟩]⟩],
    some "top", true⟩

theorem readTexts_undriven :
    Blif.readTexts (.empty .boolean) (some "top") [probeText ⟨"a", "p", "A=B"⟩] =
      .ok undrivenDesign := by
  have taken : (Blif.records (probeText ⟨"a", "p", "A=B"⟩)).forM Blif.Reader.take
      (Blif.Reader.start (.empty .boolean)) = (.ok ⟨⟩,
        ⟨⟨undrivenDesign.allocator,
          [⟨"leaf", .boolean, [2], [3], [⟨.inv, [4], 3⟩], []⟩,
            ⟨"top", .boolean, [5, 6], [3], [], [.unresolved "leaf" [⟨6, 2⟩, ⟨3, 3⟩]]⟩],
          some "leaf", false⟩, none, none, 10, [⟨[4], [3], [], []⟩, .empty], .empty⟩) := by
    rw [records_probeText _ (by simp [oddNames])]
    cbv
  rw [Blif.readTexts_of_taken taken rfl]
  cbv

/-- The design that is read in BLIF if a port of two bits has no name. The bits are numbered
as they come. -/
def namelessDesign : Design :=
  ⟨⟨.boolean, ["p[0]", "y[0]", "[0]", "[1]"], by decide, by decide⟩,
    [⟨"leaf", .boolean, [2], [3], [⟨.inv, [2], 3⟩], []⟩,
      ⟨"top", .boolean, [4, 5], [3], [], [⟨"leaf", [⟨4, 2⟩, ⟨3, 3⟩], [⟨4, 2⟩], [⟨3, 3⟩]⟩]⟩],
    some "top", true⟩

theorem readTexts_nameless :
    Blif.readTexts (.empty .boolean) (some "top") [probeText ⟨"", "p", "A"⟩] =
      .ok namelessDesign := by
  have taken : (Blif.records (probeText ⟨"", "p", "A"⟩)).forM Blif.Reader.take
      (Blif.Reader.start (.empty .boolean)) = (.ok ⟨⟩,
        ⟨⟨namelessDesign.allocator,
          [⟨"leaf", .boolean, [2], [3], [⟨.inv, [2], 3⟩], []⟩,
            ⟨"top", .boolean, [4, 5], [3], [], [.unresolved "leaf" [⟨4, 2⟩, ⟨3, 3⟩]]⟩],
          some "leaf", false⟩, none, none, 10, [⟨[2], [3], [], []⟩, .empty], .empty⟩) := by
    rw [records_probeText _ (by simp [oddNames])]
    cbv
  rw [Blif.readTexts_of_taken taken rfl]
  cbv

/-- A circuit that inverts one of its two inputs. -/
def inverter (first second output input : Wire) : Circuit :=
  ⟨"top", .boolean, [first, second], [output], [⟨.inv, [input], output⟩]⟩

theorem not_behavesLike_nameless : ¬ namelessDesign.BehavesLike probeDesign := by
  intro behaves
  have scheduled : namelessDesign.IsScheduledAs (inverter 4 5 3 4) :=
    ⟨inverter 4 5 3 4, by cbv, by cbv⟩
  have imageScheduled : probeDesign.IsScheduledAs (inverter 3 2 4 2) :=
    ⟨inverter 3 2 4 2, by cbv, by cbv⟩
  have written : (inverter 4 5 3 4).writeBristol? =
      some (.ok "1 6\n0\n0\n0 1 4 INPUT\n0 1 5 INPUT\n1 1 4 3 INV\n1 0 3 OUTPUT\n") := by cbv
  have imageWritten : (inverter 3 2 4 2).writeBristol? =
      some (.ok "1 5\n0\n0\n0 1 3 INPUT\n0 1 2 INPUT\n1 1 2 4 INV\n1 0 4 OUTPUT\n") := by cbv
  have same := behaves.values _ _ scheduled imageScheduled _ _ written imageWritten
  have left : Bristol.outputValues?
      "1 6\n0\n0\n0 1 4 INPUT\n0 1 5 INPUT\n1 1 4 3 INV\n1 0 3 OUTPUT\n" "10" true =
        some [false] := by cbv
  have right : Bristol.outputValues?
      "1 5\n0\n0\n0 1 3 INPUT\n0 1 2 INPUT\n1 1 2 4 INV\n1 0 4 OUTPUT\n" "10" true =
        some [true] := by cbv
  cases left.symm.trans ((same "10" true).trans right)

/-- The formats disagree on the blueprint, although its modules and ports have different
names, without brackets, and different nets. -/
structure Disagrees (names : ProbeNames) : Prop where
  modules : ((probe names).map Plan.name).Nodup
  ports : ∀ plan ∈ probe names, (plan.ports.map Port.name).Nodup ∧
    (∀ port ∈ plan.ports, '[' ∉ port.name.toList) ∧ (plan.ports.flatMap Port.nets).Nodup
  written : (Blif.records (probeText names)).map Blif.Record.words = (probe names).rows
  encoded : Json.read (probeJson names) = .ok (probe names).value
  disagree : ¬ Agree (.empty .boolean) (.empty .boolean) "top" (probeText names)
    (probeJson names)

theorem disagrees_of_not_agree {names : ProbeNames} (member : names ∈ oddNames)
    (disagree : ¬ Agree (.empty .boolean) (.empty .boolean) "top" (probeText names)
      (probeJson names)) : Disagrees names := by
  have listed : names ∈ evenNames :: oddNames := List.mem_cons_of_mem _ member
  refine ⟨?_, ?_, written_probe names listed, read_probeJson names listed, disagree⟩
  · exact (by decide : ["leaf", "top"].Nodup)
  · clear disagree listed
    revert names
    decide +kernel

/-- Each of the odd names makes a difference. -/
theorem disagrees_odd :
    Disagrees ⟨"", "p", "A"⟩ ∧ Disagrees ⟨"a", "p=q", "A"⟩ ∧ Disagrees ⟨"a", "p", "A=B"⟩ ∧
      Disagrees ⟨"a", "p", ""⟩ := by
  have nameless : (⟨"", "p", "A"⟩ : ProbeNames) ∈ oddNames := by simp [oddNames]
  have signed : (⟨"a", "p=q", "A"⟩ : ProbeNames) ∈ oddNames := by simp [oddNames]
  have undriven : (⟨"a", "p", "A=B"⟩ : ProbeNames) ∈ oddNames := by simp [oddNames]
  have pinless : (⟨"a", "p", ""⟩ : ProbeNames) ∈ oddNames := by simp [oddNames]
  have image {names : ProbeNames} (member : names ∈ oddNames) :=
    readText_probeJson names (List.mem_cons_of_mem _ member)
  refine ⟨disagrees_of_not_agree nameless fun agree => ?_,
    disagrees_of_not_agree signed (not_agree_of_refused (List.mem_cons_of_mem _ signed)
      readTexts_signed),
    disagrees_of_not_agree undriven fun agree => ?_,
    disagrees_of_not_agree pinless (not_agree_of_refused (List.mem_cons_of_mem _ pinless)
      readTexts_pinless)⟩
  · exact not_behavesLike_nameless (agree.2 _ _ readTexts_nameless (image nameless))
  · have isClean := (agree.2 _ _ readTexts_undriven (image undriven)).isClean "leaf"
    exact absurd isClean (by decide +kernel)

end Blueprint

end Netlist
