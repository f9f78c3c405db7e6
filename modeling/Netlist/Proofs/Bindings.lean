import Netlist.Proofs.Bridges

/-!
# Bindings of a connection

A gate that stands for a circuit binds names to its pins, token by token, and a name that
is bound again leaves its earlier pin (`Connection.Reflects.bindToken`). So when a
connection has been read, each name stands for the last pin that it was bound to, and the
conversions, which are looked up only then, bridge to that pin and to no other
(`Connection.lookup_table_eq_lastPin`). A binding can be lost in this way
(`Connection.exists_lost_binding`).
-/

namespace Netlist.Connection

open Blif

/-! ### Bindings in a text -/

/-- The circuit that gates with an operator stand for, if they stand for one. -/
def domainOf? (tops : Domain → String) (operator : String) : Option Domain :=
  if tops .boolean = operator then some .boolean
  else if tops .arithmetic = operator then some .arithmetic
  else none

/-- The names in the tokens of a gate, each with the pin that it is bound to. -/
def boundNames (line : Nat) (tokens : List String) : List (String × String) :=
  tokens.filterMap fun token => (splitBinding line token).toOption.map Prod.swap

/-- The names that a record binds to pins of one circuit. -/
def recordBindings (tops : Domain → String) (domain : Domain) (record : Record) :
    List (String × String) :=
  match record.args with
  | [] => []
  | operator :: tokens =>
    if record.keyword = ".gate" ∧ domainOf? tops operator = some domain then
      boundNames record.line tokens
    else []

/-- The names that are bound to pins of one circuit, in the order of the text. -/
def sideBindings (tops : Domain → String) (records : List Record) (domain : Domain) :
    List (String × String) :=
  records.flatMap (recordBindings tops domain)

/-- The name that a record puts a converted value on: a list of at most one. -/
def recordConversions (tops : Domain → String) (record : Record) : List String :=
  match record.args with
  | [] => []
  | operator :: tokens =>
    if record.keyword = ".gate" ∧ domainOf? tops operator = none then
      ((boundNames record.line tokens).map Prod.fst).take 1
    else []

/-- The names that conversions put their values on, in the order of the text. -/
def convertedNames (tops : Domain → String) (records : List Record) : List String :=
  records.flatMap (recordConversions tops)

/-- The pin in the last binding of a name. -/
def lastPin? (bindings : List (String × String)) (name : String) : Option String :=
  bindings.reverse.lookup name

theorem lastPin?_concat (bindings : List (String × String)) (name pin other : String) :
    lastPin? (bindings ++ [(name, pin)]) other =
      if other = name then some pin else lastPin? bindings other := by
  rw [lastPin?, List.reverse_append, List.reverse_singleton, List.singleton_append,
    List.lookup_cons]
  by_cases here : other = name
  · rw [here, beq_self_eq_true, if_pos rfl]
  · rw [beq_false_of_ne here, if_neg here]
    rfl

theorem mem_of_lastPin? {bindings : List (String × String)} {name pin : String}
    (isLast : lastPin? bindings name = some pin) : (name, pin) ∈ bindings := by
  obtain ⟨before, after, same, _⟩ := List.lookup_eq_some_iff.1 isLast
  rw [← List.mem_reverse, same]
  exact List.mem_append_right _ List.mem_cons_self

theorem exists_lastPin? {bindings : List (String × String)} {name pin : String}
    (member : (name, pin) ∈ bindings) : ∃ last, lastPin? bindings name = some last := by
  rw [← Option.isSome_iff_exists, lastPin?, List.lookup_isSome_iff]
  exact ⟨_, List.mem_reverse.2 member, by simp⟩

/-! ### Bindings that were read -/

/-- The side of a domain. -/
def sideOf (tops : Domain → String) (wires : Domain → Allocator) (domain : Domain) : Side :=
  ⟨domain, tops domain, wires domain⟩

theorem find?_sides (tops : Domain → String) (wires : Domain → Allocator) (operator : String) :
    [sideOf tops wires .boolean, sideOf tops wires .arithmetic].find?
        (fun side => side.top = operator) =
      (domainOf? tops operator).map (sideOf tops wires) := by
  unfold domainOf?
  by_cases isBoolean : tops .boolean = operator
  · simp [sideOf, isBoolean]
  · by_cases isArithmetic : tops .arithmetic = operator
    · simp [sideOf, isBoolean, isArithmetic]
    · simp [sideOf, isBoolean, isArithmetic]

variable {tops : Domain → String} {wires : Domain → Allocator}

/-- Each name stands for the last pin that it was bound to, and there are no bridges. -/
structure Reflects (wires : Domain → Allocator) (bindings : Domain → List (String × String))
    (connection : Connection) : Prop where
  known : ∀ domain, ∀ binding ∈ bindings domain,
    ∃ wire, (wires domain).lookup binding.2 = some wire
  table : ∀ domain name, (connection.table domain).lookup name =
    (lastPin? (bindings domain) name).bind (wires domain).lookup
  bridges : connection.bridges = []

theorem reflects_empty (wires : Domain → Allocator) : empty.Reflects wires fun _ => [] := by
  constructor
  · exact fun _ => List.forall_mem_nil _
  · intro domain name
    cases domain <;> rfl
  · rfl

theorem splitBinding_of_bindToken {side : Side} {line : Nat} {connection next : Connection}
    {token : String} (bound : bindToken side line connection token = .ok next) :
    ∃ pin name wire, splitBinding line token = .ok (pin, name) ∧
      side.wires.lookup pin = some wire ∧ next = connection.bind side.domain name wire := by
  obtain ⟨⟨pin, name⟩, isSplit, bound⟩ := eq_ok_of_bind bound
  dsimp only at bound
  split at bound
  · rename_i wire found
    cases bound
    exact ⟨pin, name, wire, isSplit, found, rfl⟩
  · cases bound

theorem boundNames_cons {line : Nat} {token pin name : String}
    (isSplit : splitBinding line token = .ok (pin, name)) (tokens : List String) :
    boundNames line (token :: tokens) = (name, pin) :: boundNames line tokens := by
  rw [boundNames, List.filterMap_cons, isSplit]
  rfl

section

variable {bindings : Domain → List (String × String)} {connection next : Connection}

/-- A name that is bound stands for its new pin, and no other name changes. -/
theorem Reflects.bind (reflects : connection.Reflects wires bindings) {domain : Domain}
    {pin : String} {wire : Wire} (found : (wires domain).lookup pin = some wire) (name : String) :
    (connection.bind domain name wire).Reflects wires fun side =>
      bindings side ++ if side = domain then [(name, pin)] else [] := by
  constructor
  · intro side binding member
    rcases List.mem_append.1 member with earlier | new
    · exact reflects.known side binding earlier
    · split at new
      · rename_i here
        rw [List.mem_singleton.1 new, here]
        exact ⟨wire, found⟩
      · cases new
  · intro side other
    rw [lookup_table_bind, reflects.table]
    by_cases here : side = domain
    · rw [if_pos here, lastPin?_concat]
      by_cases same : other = name
      · rw [if_pos ⟨here, same⟩, if_pos same, here]
        exact found.symm
      · rw [if_neg fun both => same both.2, if_neg same]
    · rw [if_neg here, if_neg fun both => here both.1, List.append_nil]
  · cases domain
    · exact reflects.bridges
    · exact reflects.bridges

theorem Reflects.bindTokens {domain : Domain} {line : Nat} {tokens : List String}
    (reflects : connection.Reflects wires bindings)
    (bound : tokens.foldlM (bindToken (sideOf tops wires domain) line) connection = .ok next) :
    next.Reflects wires fun side =>
      bindings side ++ if side = domain then boundNames line tokens else [] := by
  induction tokens generalizing connection bindings with
  | nil =>
    cases bound
    simpa [boundNames] using reflects
  | cons token rest ih =>
    rw [List.foldlM_cons] at bound
    obtain ⟨middle, first, others⟩ := eq_ok_of_bind bound
    obtain ⟨pin, name, wire, isSplit, found, rfl⟩ := splitBinding_of_bindToken first
    have all := ih (reflects.bind found name) others
    have same (side : Domain) : (bindings side ++ if side = domain then [(name, pin)] else []) ++
        (if side = domain then boundNames line rest else []) =
          bindings side ++ if side = domain then boundNames line (token :: rest) else [] := by
      split
      · rw [boundNames_cons isSplit, List.append_assoc, List.singleton_append]
      · rw [List.append_nil]
    simpa only [same] using all

end

/-! ### Records that were read -/

/-- A conversion puts its value on the first name that it binds. -/
theorem take_boundNames_of_readConversion {line : Nat} {tokens : List String}
    {conversion : Conversion} (read : readConversion line tokens = .ok conversion) :
    ((boundNames line tokens).map Prod.fst).take 1 = [conversion.arithmetic] := by
  obtain ⟨names, split, read⟩ := eq_ok_of_bind read
  have each := mapM_eq_ok split
  cases each with
  | nil => cases read
  | cons first _ =>
    obtain ⟨⟨pin, name⟩, isSplit, named⟩ := eq_ok_of_bind first
    cases named
    cases read
    rw [boundNames_cons isSplit]
    rfl

/-- What taking a gate comes to: a gate that stands for a circuit binds names, and any other
is a conversion. -/
theorem takeGate_eq_ok {draft next : Draft} {line : Nat} {args : List String}
    (taken : takeGate [sideOf tops wires .boolean, sideOf tops wires .arithmetic] draft line args =
      .ok next) :
    ∃ operator tokens, args = operator :: tokens ∧
      ((∃ domain connection, domainOf? tops operator = some domain ∧
          tokens.foldlM (bindToken (sideOf tops wires domain) line) draft.connection =
            .ok connection ∧ next = { draft with connection }) ∨
        (domainOf? tops operator = none ∧
          ∃ conversion, readConversion line tokens = .ok conversion ∧
            next = { draft with conversions := draft.conversions ++ [conversion] })) := by
  unfold takeGate at taken
  split at taken
  · cases taken
  · rename_i operator tokens
    refine ⟨operator, tokens, rfl, ?_⟩
    rw [find?_sides] at taken
    cases means : domainOf? tops operator with
    | some domain =>
      rw [means] at taken
      obtain ⟨connection, bound, taken⟩ := eq_ok_of_bind taken
      cases taken
      exact Or.inl ⟨domain, connection, rfl, bound, rfl⟩
    | none =>
      rw [means] at taken
      dsimp only [Option.map_none] at taken
      split at taken
      · obtain ⟨conversion, read, taken⟩ := eq_ok_of_bind taken
        cases taken
        exact Or.inr ⟨rfl, conversion, read, rfl⟩
      · cases taken

/-- A record that is no gate changes nothing. -/
theorem takeRecord_eq_ok {sides : List Side} {draft next : Draft} {record : Record}
    (taken : takeRecord sides draft record = .ok next) :
    record.keyword ≠ ".gate" ∧ next = draft ∨
      record.keyword = ".gate" ∧ takeGate sides draft record.line record.args = .ok next := by
  unfold takeRecord at taken
  split at taken
  case h_6 isGate => exact Or.inr ⟨isGate, taken⟩
  all_goals first | cases taken; done | skip
  all_goals
    rename_i keyword
    cases taken
    exact Or.inl ⟨by rw [keyword]; decide, rfl⟩

theorem recordBindings_of_no_gate {record : Record} (noGate : record.keyword ≠ ".gate")
    (domain : Domain) : recordBindings tops domain record = [] := by
  unfold recordBindings
  split
  · rfl
  · exact if_neg fun both => noGate both.1

theorem recordConversions_of_no_gate {record : Record} (noGate : record.keyword ≠ ".gate") :
    recordConversions tops record = [] := by
  unfold recordConversions
  split
  · rfl
  · exact if_neg fun both => noGate both.1

/-- The names that some records bind, and those that they convert to, are those of a draft. -/
structure Draft.Reflects (tops : Domain → String) (wires : Domain → Allocator)
    (records : List Record) (draft : Draft) : Prop where
  bound : draft.connection.Reflects wires (sideBindings tops records)
  converted : draft.conversions.map Conversion.arithmetic = convertedNames tops records

theorem Draft.Reflects.takeRecord {records : List Record} {record : Record} {draft next : Draft}
    (reflects : draft.Reflects tops wires records)
    (taken : takeRecord [sideOf tops wires .boolean, sideOf tops wires .arithmetic] draft record =
      .ok next) : next.Reflects tops wires (records ++ [record]) := by
  have bindings : sideBindings tops (records ++ [record]) = fun domain =>
      sideBindings tops records domain ++ recordBindings tops domain record := by
    funext domain
    simp [sideBindings]
  have conversions : convertedNames tops (records ++ [record]) =
      convertedNames tops records ++ recordConversions tops record := by
    simp [convertedNames]
  rcases takeRecord_eq_ok taken with ⟨noGate, rfl⟩ | ⟨isGate, taken⟩
  · constructor
    · simpa only [bindings, recordBindings_of_no_gate noGate, List.append_nil] using reflects.bound
    · rw [conversions, recordConversions_of_no_gate noGate, List.append_nil]
      exact reflects.converted
  · obtain ⟨operator, tokens, args, binds | converts⟩ := takeGate_eq_ok taken
    · obtain ⟨domain, connection, means, bound, rfl⟩ := binds
      have all := reflects.bound.bindTokens bound
      constructor
      · have same (side : Domain) : recordBindings tops side record =
            if side = domain then boundNames record.line tokens else [] := by
          simp only [recordBindings, args, isGate, means, true_and, Option.some.injEq, eq_comm]
        simpa only [bindings, same] using all
      · have none : recordConversions tops record = [] := by
          simp [recordConversions, args, means]
        rw [conversions, none, List.append_nil]
        exact reflects.converted
    · obtain ⟨means, conversion, read, rfl⟩ := converts
      constructor
      · have none (side : Domain) : recordBindings tops side record = [] := by
          simp [recordBindings, args, means]
        simpa only [bindings, none, List.append_nil] using reflects.bound
      · have one : recordConversions tops record = [conversion.arithmetic] := by
          simp only [recordConversions, args, isGate, means, and_self, if_true]
          exact take_boundNames_of_readConversion read
        rw [conversions, one, List.map_append, reflects.converted]
        rfl

theorem Draft.Reflects.takeRecords {done rest : List Record} {draft last : Draft}
    (reflects : draft.Reflects tops wires done)
    (taken : rest.foldlM
      (Connection.takeRecord [sideOf tops wires .boolean, sideOf tops wires .arithmetic]) draft =
        .ok last) : last.Reflects tops wires (done ++ rest) := by
  induction rest generalizing done draft with
  | nil =>
    cases taken
    rwa [List.append_nil]
  | cons record rest ih =>
    rw [List.foldlM_cons] at taken
    obtain ⟨middle, first, others⟩ := eq_ok_of_bind taken
    have all := ih (reflects.takeRecord first) others
    rwa [List.append_assoc, List.singleton_append] at all

/-! ### Bridges that were made -/

/-- Each conversion makes one bridge, by the names as they stand in the end. -/
theorem makeBridges_eq_ok {connection last : Connection} {conversions : List Conversion}
    (made : (makeBridges connection conversions).result = .ok last) :
    (∀ domain, last.table domain = connection.table domain) ∧
      ∃ bridges, last.bridges = connection.bridges ++ bridges ∧
        List.Forall₂ (fun conversion bridge => connection.bridgeOf conversion = .ok bridge)
          conversions bridges := by
  induction conversions generalizing connection with
  | nil =>
    cases made
    exact ⟨fun _ => rfl, [], (List.append_nil _).symm, .nil⟩
  | cons conversion rest ih =>
    unfold makeBridges at made
    cases first : connection.bridgeOf conversion with
    | error error =>
      rw [first] at made
      cases made
    | ok bridge =>
      rw [first] at made
      obtain ⟨_, _, others⟩ := Report.result_bind_eq_ok_iff.1 made
      obtain ⟨tables, bridges, all, each⟩ := ih others
      refine ⟨fun domain => ?_, bridge :: bridges, ?_, .cons first each⟩
      · cases domain
        · exact tables .boolean
        · exact tables .arithmetic
      · rw [all, List.append_assoc, List.singleton_append]

theorem lookup_of_bridgeOf {connection : Connection} {conversion : Conversion} {bridge : Bridge}
    (made : connection.bridgeOf conversion = .ok bridge) :
    (connection.table .arithmetic).lookup conversion.arithmetic = some bridge.arithmetic := by
  obtain ⟨arithmetic, target, made⟩ := eq_ok_of_bind made
  obtain ⟨_, _, made⟩ := eq_ok_of_bind made
  rw [Bridge.arithmetic_of_ofWires made]
  unfold Connection.wire at target
  split at target
  · rename_i found
    cases target
    exact found
  · cases target

/-- Two names of one wire are the same. -/
theorem eq_of_lookup_eq {allocator : Allocator} {first second : String} {wire : Wire}
    (isFirst : allocator.lookup first = some wire)
    (isSecond : allocator.lookup second = some wire) : first = second := by
  have named := Allocator.lookup_eq_some_iff.1 isFirst
  rw [Allocator.lookup_eq_some_iff.1 isSecond] at named
  exact (Option.some.inj named).symm

section

variable {text : String} {connection : Connection}
  (accepted : (read text (tops .boolean) (tops .arithmetic) (wires .boolean)
    (wires .arithmetic)).result = .ok connection)

include accepted

/-- What a connection says when it has been read: its tables have the last binding of each
name, and its bridges are those of its conversions. -/
theorem reflects_of_read :
    (∀ domain, ∀ binding ∈ sideBindings tops (records text) domain,
      ∃ wire, (wires domain).lookup binding.2 = some wire) ∧
    (∀ domain name, (connection.table domain).lookup name =
      (lastPin? (sideBindings tops (records text) domain) name).bind (wires domain).lookup) ∧
    List.Forall₂ (fun name bridge =>
        (connection.table .arithmetic).lookup name = some bridge.arithmetic)
      (convertedNames tops (records text)) connection.bridges := by
  unfold read at accepted
  dsimp only at accepted
  split at accepted
  · cases accepted
  · rename_i draft taken
    have start : (⟨empty, []⟩ : Draft).Reflects tops wires [] := ⟨reflects_empty wires, rfl⟩
    obtain ⟨bound, converted⟩ := start.takeRecords taken
    obtain ⟨tables, bridges, all, each⟩ := makeBridges_eq_ok accepted
    rw [List.nil_append] at bound converted
    refine ⟨bound.known, fun domain name => ?_, ?_⟩
    · rw [tables, bound.table]
    · rw [← converted, all, bound.bridges, List.nil_append, List.forall₂_map_left_iff, tables]
      exact each.imp fun _ _ made => lookup_of_bridgeOf made

/-- A name stands for the wire of a pin exactly if the pin is the last that it was bound
to. -/
theorem lookup_table_iff {domain : Domain} {name pin : String} {wire : Wire}
    (found : (wires domain).lookup pin = some wire) :
    (connection.table domain).lookup name = some wire ↔
      lastPin? (sideBindings tops (records text) domain) name = some pin := by
  rw [(reflects_of_read accepted).2.1, Option.bind_eq_some_iff]
  constructor
  · rintro ⟨last, isLast, same⟩
    rw [isLast, eq_of_lookup_eq same found]
  · exact fun isLast => ⟨pin, isLast, found⟩

/-- No binding is lost exactly if no name is bound to two pins. -/
theorem forall_lookup_table_iff (domain : Domain) :
    (∀ binding ∈ sideBindings tops (records text) domain,
      (connection.table domain).lookup binding.1 = (wires domain).lookup binding.2) ↔
    ∀ one ∈ sideBindings tops (records text) domain,
      ∀ other ∈ sideBindings tops (records text) domain, one.1 = other.1 → one.2 = other.2 := by
  have known := (reflects_of_read accepted).1 domain
  constructor
  · intro kept one isOne other isOther same
    obtain ⟨wire, found⟩ := known one isOne
    apply eq_of_lookup_eq found
    rw [← kept other isOther, ← same, kept one isOne, found]
  · rintro single ⟨name, pin⟩ member
    obtain ⟨wire, found⟩ := known _ member
    obtain ⟨last, isLast⟩ := exists_lastPin? member
    have same : last = pin := single _ (mem_of_lastPin? isLast) _ member rfl
    rw [found]
    exact (lookup_table_iff accepted found).2 (same ▸ isLast)

/-- A pin gets a bridge exactly if a conversion puts its value on a name whose last binding
is to that pin. -/
theorem exists_bridge_iff {pin : String} {wire : Wire}
    (found : (wires .arithmetic).lookup pin = some wire) :
    (∃ bridge ∈ connection.bridges, bridge.arithmetic = wire) ↔
      ∃ name ∈ convertedNames tops (records text),
        lastPin? (sideBindings tops (records text) .arithmetic) name = some pin := by
  have bridges := (reflects_of_read accepted).2.2
  constructor
  · rintro ⟨bridge, isBridge, rfl⟩
    obtain ⟨name, isConverted, stands⟩ := exists_of_mem_right bridges isBridge
    exact ⟨name, isConverted, (lookup_table_iff accepted found).1 stands⟩
  · rintro ⟨name, isConverted, isLast⟩
    obtain ⟨bridge, isBridge, stands⟩ := exists_of_mem_right bridges.flip isConverted
    refine ⟨bridge, isBridge, Option.some.inj ?_⟩
    rw [← stands]
    exact (lookup_table_iff accepted found).2 isLast

/-- When a connection has been read, a name stands for the last pin that it was bound to, so
no binding is lost exactly if no name is bound to two pins. There is one bridge for each
conversion, to the pin of the last binding of its name, so a pin gets a bridge exactly if
its binding was the last one of such a name. -/
theorem lastPin?_of_read :
    (∀ domain, ∀ binding ∈ sideBindings tops (records text) domain,
      ∃ wire, (wires domain).lookup binding.2 = some wire ∧
        ((connection.table domain).lookup binding.1 = some wire ↔
          lastPin? (sideBindings tops (records text) domain) binding.1 = some binding.2)) ∧
    (∀ domain, (∀ binding ∈ sideBindings tops (records text) domain,
        (connection.table domain).lookup binding.1 = (wires domain).lookup binding.2) ↔
      ∀ one ∈ sideBindings tops (records text) domain,
        ∀ other ∈ sideBindings tops (records text) domain, one.1 = other.1 → one.2 = other.2) ∧
    List.Forall₂ (fun name bridge => ∃ pin,
        lastPin? (sideBindings tops (records text) .arithmetic) name = some pin ∧
          (wires .arithmetic).lookup pin = some bridge.arithmetic)
      (convertedNames tops (records text)) connection.bridges ∧
    ∀ binding ∈ sideBindings tops (records text) .arithmetic,
      (∃ bridge ∈ connection.bridges,
          (wires .arithmetic).lookup binding.2 = some bridge.arithmetic) ↔
        ∃ name ∈ convertedNames tops (records text),
          lastPin? (sideBindings tops (records text) .arithmetic) name = some binding.2 := by
  obtain ⟨known, table, bridges⟩ := reflects_of_read accepted
  refine ⟨?_, forall_lookup_table_iff accepted, ?_, ?_⟩
  · intro domain binding member
    obtain ⟨wire, found⟩ := known domain binding member
    exact ⟨wire, found, lookup_table_iff accepted found⟩
  · refine bridges.imp fun name bridge stands => ?_
    rwa [table, Option.bind_eq_some_iff] at stands
  · intro binding member
    obtain ⟨wire, found⟩ := known .arithmetic binding member
    rw [← exists_bridge_iff accepted found, found]
    simp only [Option.some.injEq, eq_comm]

end

/-! ### A binding that is lost -/

/-- A netlist that multiplies two wires. -/
def product : Design :=
  ⟨⟨.arithmetic, ["v", "w", "z"], by decide, by decide⟩,
    [⟨"product", .arithmetic, [0, 1], [2], [⟨.cell "MUL", [0, 1], 2⟩], []⟩],
    some "product", true⟩

/-- The names of the two circuits. -/
def productTops : Domain → String
  | .boolean => "word"
  | .arithmetic => "product"

/-- The wires of the two circuits. -/
def productWires : Domain → Allocator
  | .boolean => probedWord.allocator
  | .arithmetic => product.allocator

/-- A connection of all wires of `probedWord` to a name for two wires of `product`, an input
and the output. -/
def mergedRows : List (List String) :=
  [[".model", "join"],
    ".gate" :: "word" :: probedNames.map fun name => name ++ "=" ++ name,
    [".gate", "product", "v=p", "z=p"],
    ".gate" :: "BtoA" :: "o=p" :: probedNames.map fun name => "i=" ++ name,
    [".end"]]

/-- What is read of it: the name stands for the output only, and the bridge leads there. -/
def merged : Connection :=
  ⟨probedNames.zipIdx 2, [("p", 2)], [⟨2, 2, 66⟩]⟩

theorem records_mergedRows : records (written mergedRows) =
    mergedRows.zipIdx.flatMap fun (row, index) => Record.ofRow (index + 1) row :=
  records_written (forall_isPlain_of_converts (forall_isPlain_of_all (by decide)))

theorem read_mergedRows :
    (read (written mergedRows) (productTops .boolean) (productTops .arithmetic)
      (productWires .boolean) (productWires .arithmetic)).result = .ok merged := by
  apply eq_ok_of_toOption
  rw [read, records_mergedRows]
  decide +kernel

theorem bindings_mergedRows :
    sideBindings productTops (records (written mergedRows)) .arithmetic =
        [("p", "v"), ("p", "z")] ∧
      convertedNames productTops (records (written mergedRows)) = ["p"] := by
  rw [records_mergedRows]
  decide +kernel

/-- Of the two wires with one name, only the last gets the bridge. -/
theorem lastPin?_of_read_merged :
    (read (written mergedRows) (productTops .boolean) (productTops .arithmetic)
        (productWires .boolean) (productWires .arithmetic)).result = .ok merged ∧
      merged.arithmetic.lookup "p" = some 2 ∧
      ∃ bridge ∈ merged.bridges, product.allocator.lookup "z" = some bridge.arithmetic := by
  obtain ⟨bindings, conversions⟩ := bindings_mergedRows
  obtain ⟨each, _, _, bridges⟩ := lastPin?_of_read read_mergedRows
  have isBinding : ("p", "z") ∈
      sideBindings productTops (records (written mergedRows)) .arithmetic := by
    rw [bindings]
    decide
  have isLast : lastPin? (sideBindings productTops (records (written mergedRows)) .arithmetic) "p" =
      some "z" := by
    rw [bindings]
    decide
  refine ⟨read_mergedRows, ?_, ?_⟩
  · obtain ⟨wire, found, kept⟩ := each .arithmetic _ isBinding
    cases found
    exact kept.2 isLast
  · refine (bridges _ isBinding).2 ⟨"p", ?_, isLast⟩
    rw [conversions]
    exact List.mem_singleton_self _

/-- A binding of an accepted connection can be lost, although its name is converted to. -/
theorem exists_lost_binding :
    ∃ (tops : Domain → String) (wires : Domain → Allocator) (text : String)
      (connection : Connection),
      (read text (tops .boolean) (tops .arithmetic) (wires .boolean) (wires .arithmetic)).result =
        .ok connection ∧
      ∃ binding ∈ sideBindings tops (records text) .arithmetic,
        (connection.table .arithmetic).lookup binding.1 ≠
          (wires .arithmetic).lookup binding.2 ∧
        binding.1 ∈ convertedNames tops (records text) ∧
        ∀ bridge ∈ connection.bridges,
          (wires .arithmetic).lookup binding.2 ≠ some bridge.arithmetic := by
  obtain ⟨bindings, conversions⟩ := bindings_mergedRows
  refine ⟨productTops, productWires, _, merged, read_mergedRows, ("p", "v"), ?_, by decide, ?_, ?_⟩
  · rw [bindings]
    exact List.mem_cons_self
  · rw [conversions]
    exact List.mem_singleton_self _
  · exact List.forall_mem_singleton.2 (by decide)

end Netlist.Connection
