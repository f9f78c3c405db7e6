import Mathlib.Logic.Function.Basic
import Netlist.Connection.Reader
import Netlist.Proofs.Blocks
import Netlist.Proofs.NameTables
import Netlist.Proofs.Resolution
import Netlist.Proofs.Sweeping
import Netlist.Proofs.WrittenRecords

/-!
# Bridges

The wires of a bridge are wires that a connection names, since 64 distinct wires without
gaps leave out no wire between them, and a connection names no wires but those that have a
name in the netlist (`Connection.exists_name_of_mem_bridge`). A bridge does not follow its
wires when a circuit is simplified: their values stay the same where dead gates are kept
and numbers do not change (`Connection.sweep_of_mem_bridge`), and only there
(`Connection.exists_lost_wire`).
-/

namespace Netlist

/-- A bridge has the wires that it was made of. -/
theorem Bridge.mem_of_ofWires {arithmetic : Wire} {wires : List Wire} {bridge : Bridge}
    (made : Bridge.ofWires arithmetic wires = .ok bridge) :
    ∀ wire ∈ bridge.wires, wire ∈ wires := by
  obtain ⟨perm, same⟩ := perm_of_ofWires made
  intro wire member
  rw [same, Bridge.wires, Nat.add_sub_cancel_left] at member
  exact perm.symm.subset member

/-- A bridge leads to the arithmetic wire that it was made with. -/
theorem Bridge.arithmetic_of_ofWires {arithmetic : Wire} {wires : List Wire} {bridge : Bridge}
    (made : Bridge.ofWires arithmetic wires = .ok bridge) : bridge.arithmetic = arithmetic :=
  congrArg Bridge.arithmetic (perm_of_ofWires made).2

theorem eq_ok_of_toOption {ε α : Type} {outcome : Except ε α} {value : α}
    (accepted : outcome.toOption = some value) : outcome = .ok value := by
  cases outcome with
  | error fault => cases accepted
  | ok other => exact congrArg Except.ok (Option.some.inj accepted)

namespace Connection

/-- All wires that a connection names or bridges have names in their netlists. -/
structure IsNamed (allocators : Domain → Allocator) (connection : Connection) : Prop where
  names : ∀ domain name wire, (connection.table domain).lookup name = some wire →
    ∃ pin, (allocators domain).nameOf wire = some pin
  bridges : ∀ bridge ∈ connection.bridges, ∀ wire ∈ bridge.wires,
    ∃ pin, (allocators .boolean).nameOf wire = some pin
  targets : ∀ bridge ∈ connection.bridges,
    ∃ pin, (allocators .arithmetic).nameOf bridge.arithmetic = some pin

/-- The allocators of both sides. -/
def sideWires (booleanWires arithmeticWires : Allocator) : Domain → Allocator
  | .boolean => booleanWires
  | .arithmetic => arithmeticWires

variable {allocators : Domain → Allocator} {connection : Connection}

theorem isNamed_empty (allocators : Domain → Allocator) : empty.IsNamed allocators := by
  constructor
  · intro domain name wire found
    cases domain <;> cases found
  · exact List.forall_mem_nil _
  · exact List.forall_mem_nil _

/-- Only the name that is bound gets another wire, and only on its side. -/
theorem lookup_table_bind (connection : Connection) (domain side : Domain) (name other : String)
    (wire : Wire) :
    ((connection.bind domain name wire).table side).lookup other =
      if side = domain ∧ other = name then some wire
      else (connection.table side).lookup other := by
  cases domain <;> cases side <;> simp [Connection.bind, table, WireTable.lookup_set]

theorem IsNamed.bind (named : connection.IsNamed allocators) {domain : Domain} {wire : Wire}
    {pin : String} (isWire : (allocators domain).nameOf wire = some pin) (name : String) :
    (connection.bind domain name wire).IsNamed allocators := by
  constructor
  · intro side other otherWire found
    rw [lookup_table_bind] at found
    split at found
    · rename_i here
      cases found
      rw [here.1]
      exact ⟨pin, isWire⟩
    · exact named.names side other otherWire found
  · cases domain
    · exact named.bridges
    · exact named.bridges
  · cases domain
    · exact named.targets
    · exact named.targets

theorem IsNamed.bindToken (named : connection.IsNamed allocators) {side : Side}
    (same : allocators side.domain = side.wires) {line : Nat} {token : String}
    {next : Connection} (bound : bindToken side line connection token = .ok next) :
    next.IsNamed allocators := by
  obtain ⟨⟨pin, name⟩, _, bound⟩ := eq_ok_of_bind bound
  dsimp only at bound
  split at bound
  · rename_i wire found
    cases bound
    have isWire : (allocators side.domain).nameOf wire = some pin := by
      rw [same]
      exact Allocator.lookup_eq_some_iff.1 found
    exact named.bind isWire name
  · cases bound

/-- A gate names no wires but those of the side that it means. -/
theorem IsNamed.takeGate {sides : List Side}
    (same : ∀ side ∈ sides, allocators side.domain = side.wires) {draft next : Draft}
    (named : draft.connection.IsNamed allocators) {line : Nat} {args : List String}
    (taken : takeGate sides draft line args = .ok next) : next.connection.IsNamed allocators := by
  unfold Connection.takeGate at taken
  split at taken
  · cases taken
  · split at taken
    · rename_i side found
      have matching := same side (List.mem_of_find?_eq_some found)
      obtain ⟨connection, bound, taken⟩ := eq_ok_of_bind taken
      cases taken
      have keeps : ∀ (state : Connection) token next, state.IsNamed allocators →
          Connection.bindToken side line state token = .ok next → next.IsNamed allocators :=
        fun _ _ _ kept step => kept.bindToken matching step
      exact foldlM_invariant keeps named bound
    · split at taken
      · obtain ⟨conversion, _, taken⟩ := eq_ok_of_bind taken
        cases taken
        exact named
      · cases taken

/-- A record names no wires but those of the sides. -/
theorem IsNamed.takeRecord {sides : List Side}
    (same : ∀ side ∈ sides, allocators side.domain = side.wires) {draft next : Draft}
    (named : draft.connection.IsNamed allocators) {record : Blif.Record}
    (taken : takeRecord sides draft record = .ok next) : next.connection.IsNamed allocators := by
  unfold Connection.takeRecord at taken
  split at taken
  · cases taken
    exact named
  · cases taken
    exact named
  · cases taken
    exact named
  · cases taken
    exact named
  · cases taken
  · exact named.takeGate same taken
  · cases taken

/-- A wire that a name stands for has a name in its netlist. -/
theorem IsNamed.exists_name_of_wire (named : connection.IsNamed allocators) {domain : Domain}
    {name : String} {wire : Wire} (isWire : connection.wire domain name = .ok wire) :
    ∃ pin, (allocators domain).nameOf wire = some pin := by
  unfold Connection.wire at isWire
  split at isWire
  · rename_i found
    cases isWire
    exact named.names domain name wire found
  · cases isWire

/-- The wires of a bridge have names in their netlists. -/
theorem IsNamed.bridgeOf (named : connection.IsNamed allocators) {conversion : Conversion}
    {bridge : Bridge} (made : connection.bridgeOf conversion = .ok bridge) :
    (∀ wire ∈ bridge.wires, ∃ pin, (allocators .boolean).nameOf wire = some pin) ∧
      ∃ pin, (allocators .arithmetic).nameOf bridge.arithmetic = some pin := by
  obtain ⟨arithmetic, target, made⟩ := eq_ok_of_bind made
  obtain ⟨wires, read, made⟩ := eq_ok_of_bind made
  constructor
  · intro wire member
    obtain ⟨name, _, isWire⟩ := exists_of_mem_right (mapM_eq_ok read)
      (Bridge.mem_of_ofWires made wire member)
    exact named.exists_name_of_wire isWire
  · rw [Bridge.arithmetic_of_ofWires made]
    exact named.exists_name_of_wire target

theorem IsNamed.makeBridges (named : connection.IsNamed allocators) {conversions : List Conversion}
    {last : Connection} (made : (makeBridges connection conversions).result = .ok last) :
    last.IsNamed allocators := by
  induction conversions generalizing connection with
  | nil =>
    cases made
    exact named
  | cons conversion rest ih =>
    unfold Connection.makeBridges at made
    cases first : connection.bridgeOf conversion with
    | error error =>
      rw [first] at made
      cases made
    | ok bridge =>
      rw [first] at made
      obtain ⟨_, _, others⟩ := Report.result_bind_eq_ok_iff.1 made
      obtain ⟨isNamed, isTarget⟩ := named.bridgeOf first
      refine ih ⟨?_, ?_, ?_⟩ others
      · intro domain
        cases domain with
        | boolean => exact named.names .boolean
        | arithmetic => exact named.names .arithmetic
      · exact List.forall_mem_append.2 ⟨named.bridges, List.forall_mem_singleton.2 isNamed⟩
      · exact List.forall_mem_append.2 ⟨named.targets, List.forall_mem_singleton.2 isTarget⟩

/-- A connection that was read names and bridges no wires but those with names. -/
theorem isNamed_of_read {text booleanTop arithmeticTop : String}
    (accepted : (read text booleanTop arithmeticTop (allocators .boolean)
      (allocators .arithmetic)).result = .ok connection) : connection.IsNamed allocators := by
  unfold read at accepted
  dsimp only at accepted
  split at accepted
  · cases accepted
  · rename_i draft taken
    have matching : ∀ side ∈ [(⟨.boolean, booleanTop, allocators .boolean⟩ : Side),
        ⟨.arithmetic, arithmeticTop, allocators .arithmetic⟩],
        allocators side.domain = side.wires :=
      List.forall_mem_cons.2 ⟨rfl, List.forall_mem_singleton.2 rfl⟩
    have keeps : ∀ (state : Draft) record next, state.connection.IsNamed allocators →
        Connection.takeRecord _ state record = .ok next → next.connection.IsNamed allocators :=
      fun _ _ _ kept step => kept.takeRecord matching step
    exact (foldlM_invariant keeps (isNamed_empty _) taken).makeBridges accepted

/-- All Boolean wires of a bridge have names in the Boolean netlist. -/
theorem exists_name_of_mem_bridge {text booleanTop arithmeticTop : String}
    {booleanWires arithmeticWires : Allocator}
    (accepted : (read text booleanTop arithmeticTop booleanWires arithmeticWires).result =
      .ok connection) :
    ∀ bridge ∈ connection.bridges, ∀ wire ∈ bridge.wires,
      ∃ name, booleanWires.nameOf wire = some name := by
  have named : connection.IsNamed (sideWires booleanWires arithmeticWires) :=
    isNamed_of_read accepted
  exact named.bridges

/-! ### Bridges to simplified circuits -/

/-- A wire of a bridge has a name in the Boolean netlist. It has the same value, or none,
in the circuit that was simplified, if no driver of it was dropped, its number was kept
and no other wire has its number now. -/
theorem sweep_of_mem_bridge {boolean arithmetic : Design}
    {text booleanTop arithmeticTop : String}
    (accepted : (read text booleanTop arithmeticTop boolean.allocator
      arithmetic.allocator).result = .ok connection)
    {options : Command.Options} {ordered processed : Circuit}
    (isProcessed : boolean.IsProcessed options ordered processed) (assignment : Wire → Bool) :
    ∀ bridge ∈ connection.bridges, ∀ wire ∈ bridge.wires,
      (∃ name, boolean.allocator.nameOf wire = some name) ∧
      ((options.eliminateDead = true →
          ordered.Live wire ∨ ∀ gate ∈ ordered.gates, gate.output ≠ wire) →
        (options.compact = true → (ordered.pruned options).KeepsNumber wire) →
        processed.sweep assignment wire = ordered.sweep assignment wire) := by
  obtain ⟨_, _, _, simplified⟩ := isProcessed
  intro bridge isBridge wire inBridge
  refine ⟨exists_name_of_mem_bridge accepted bridge isBridge wire inBridge, fun kept keeps => ?_⟩
  exact Circuit.sweep_simplify simplified assignment kept keeps

/-- The names of a netlist with 62 inputs, an inner net and an output. -/
def probedNames : List String :=
  (List.range 62).map (fun bit => s!"x{bit}") ++ ["n", "y"]

theorem nodup_probedNames : probedNames.Nodup := by
  decide +kernel

theorem not_isConstantName_probedNames : ∀ name ∈ probedNames, ¬ IsConstantName name := by
  decide +kernel

theorem isPlain_probedNames : ∀ name ∈ probedNames, Blif.IsPlain name.toList :=
  Blif.forall_isPlain_of_all (by decide +kernel)

/-- Rows that bind all names and convert them have plain words if the row between has. -/
theorem forall_isPlain_of_converts {between : List String} {target : String}
    (plain : ∀ word ∈ target :: between, Blif.IsPlain word.toList) :
    ∀ row ∈ [[".model", "join"],
      ".gate" :: "word" :: probedNames.map (fun name => name ++ "=" ++ name),
      between, ".gate" :: "BtoA" :: target :: probedNames.map (fun name => "i=" ++ name), [".end"]],
      ∀ word ∈ row, Blif.IsPlain word.toList := by
  have fixed : ∀ word ∈ [".model", "join", ".gate", "word", "=", "BtoA", "i=", ".end"],
      Blif.IsPlain word.toList :=
    Blif.forall_isPlain_of_all (by decide)
  simp only [List.forall_mem_cons] at fixed plain ⊢
  obtain ⟨model, join, gate, word, equals, conversion, input, isEnd, _⟩ := fixed
  have bound : ∀ token ∈ probedNames.map (fun name => name ++ "=" ++ name),
      Blif.IsPlain token.toList := by
    refine List.forall_mem_map.2 fun name member => ?_
    have named := isPlain_probedNames name member
    rw [String.toList_append, String.toList_append]
    exact (named.append equals).append named
  have converted : ∀ token ∈ probedNames.map (fun name => "i=" ++ name),
      Blif.IsPlain token.toList := by
    refine List.forall_mem_map.2 fun name member => ?_
    rw [String.toList_append]
    exact input.append (isPlain_probedNames name member)
  exact ⟨⟨model, join, List.forall_mem_nil _⟩, ⟨gate, word, bound⟩, plain.2,
    ⟨gate, conversion, plain.1, converted⟩, ⟨isEnd, List.forall_mem_nil _⟩, List.forall_mem_nil _⟩

/-- A netlist with a gate on which no output depends. -/
def probedWord : Design :=
  ⟨⟨.boolean, probedNames, nodup_probedNames, not_isConstantName_probedNames⟩,
    [⟨"word", .boolean, List.range' 2 62, [65], [⟨.inv, [2], 64⟩, Gate.copy 3 65], []⟩],
    some "word", true⟩

/-- A netlist with one wire. -/
def singleWire : Design :=
  ⟨⟨.arithmetic, ["v"], by decide, by decide⟩, [⟨"sum", .arithmetic, [0], [0], [], []⟩],
    some "sum", true⟩

/-- A connection of all wires of `probedWord` to the one of `singleWire`. -/
def probingRows : List (List String) :=
  [[".model", "join"],
    ".gate" :: "word" :: probedNames.map fun name => name ++ "=" ++ name,
    [".gate", "sum", "v=w"],
    ".gate" :: "BtoA" :: "o=w" :: probedNames.map fun name => "i=" ++ name,
    [".end"]]

/-- What is read of the connection. -/
def probing : Connection :=
  ⟨probedNames.zipIdx 2, [("w", 0)], [⟨0, 2, 66⟩]⟩

theorem read_probingRows :
    (read (Blif.written probingRows) "word" "sum" probedWord.allocator
      singleWire.allocator).result = .ok probing := by
  apply eq_ok_of_toOption
  have plain : ∀ row ∈ probingRows, ∀ word ∈ row, Blif.IsPlain word.toList :=
    forall_isPlain_of_converts (Blif.forall_isPlain_of_all (by decide))
  rw [read, Blif.records_written plain]
  decide +kernel

/-- The circuit of `probedWord`. -/
def probedCircuit : Circuit :=
  ⟨"word", .boolean, List.range' 2 62, [65], [⟨.inv, [2], 64⟩, Gate.copy 3 65]⟩

theorem isProcessed_probedWord (options : Command.Options) :
    probedWord.IsProcessed options probedCircuit
      (if options.compact then (probedCircuit.pruned options).compact
        else probedCircuit.pruned options) :=
  ⟨probedCircuit, by cbv, by cbv, Circuit.result_simplify options probedCircuit⟩

/-- Drop dead gates and number the wires compactly. -/
def allPasses : Command.Options :=
  .ofGiven ⟨[], [.compact, .eliminateDead], [], none⟩

/-- The output of `probedWord` keeps its value when dead gates are dropped and the others
are renumbered. -/
theorem sweep_of_mem_bridge_probedWord :
    (read (Blif.written probingRows) "word" "sum" probedWord.allocator
        singleWire.allocator).result = .ok probing ∧
      probedWord.IsProcessed allPasses probedCircuit (probedCircuit.pruned allPasses).compact ∧
      probedCircuit.Live 65 ∧ (probedCircuit.pruned allPasses).KeepsNumber 65 ∧
      probedCircuit.sweep (fun _ => true) 65 = some true ∧
      (probedCircuit.pruned allPasses).compact.sweep (fun _ => true) 65 =
        probedCircuit.sweep (fun _ => true) 65 := by
  have isOutput : 65 ∈ probedCircuit.outputs := List.mem_singleton_self _
  have isProcessed : probedWord.IsProcessed allPasses probedCircuit
      (probedCircuit.pruned allPasses).compact := isProcessed_probedWord allPasses
  have live : probedCircuit.Live 65 := .output isOutput
  have keeps : (probedCircuit.pruned allPasses).KeepsNumber 65 :=
    Circuit.keepsNumber_of_mem_fixedWires
      (List.mem_append_left _ (List.mem_append_right _ isOutput))
  have kept := sweep_of_mem_bridge read_probingRows isProcessed (fun _ => true) ⟨0, 2, 66⟩
    (List.mem_singleton_self _) 65 (by decide)
  exact ⟨read_probingRows, isProcessed, live, keeps, by cbv,
    kept.2 (fun _ => Or.inl live) fun _ => keeps⟩

/-- A bridge can lose a wire that is no port: its driver is dropped, or gets another
number. -/
theorem exists_lost_wire :
    ∃ (boolean arithmetic : Design) (text : String) (connection : Connection),
      (read text "word" "sum" boolean.allocator arithmetic.allocator).result = .ok connection ∧
      ∀ options : Command.Options, options.eliminateDead = true ∨ options.compact = true →
        ∃ ordered processed, boolean.IsProcessed options ordered processed ∧
          ∃ bridge ∈ connection.bridges, ∃ wire ∈ bridge.wires, ∃ assignment : Wire → Bool,
            ordered.sweep assignment wire = some true ∧
            processed.sweep assignment wire = none := by
  refine ⟨probedWord, singleWire, _, probing, read_probingRows, fun options chosen => ?_⟩
  refine ⟨_, _, isProcessed_probedWord options, ⟨0, 2, 66⟩, List.mem_singleton_self _, 64,
    by decide, fun _ => false, by cbv, ?_⟩
  unfold Circuit.pruned
  cases eliminates : options.eliminateDead <;> cases compacts : options.compact
  · rw [eliminates, compacts] at chosen
    exact absurd chosen (by decide)
  · cbv
  · cbv
  · cbv

end Connection

end Netlist
