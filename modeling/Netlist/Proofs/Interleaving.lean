import Netlist.Proofs.Bindings

/-!
# Interleaved records

A record of a connection offers names for wires of the circuits, or a conversion, and what it
offers depends on nothing but its words (`Connection.takeRecord_eq_ok_iff`). Names and
conversions are collected apart, and conversions are looked up when all names are known. So it
does not matter how the records of both kinds, and those that mean nothing, are interleaved
(`Connection.read_reordered`).
-/

namespace Netlist.Connection

open Blif

variable {tops : Domain → String} {wires : Domain → Allocator}

/-! ### Offers -/

/-- A name for a wire of one circuit. -/
structure NamedWire where
  domain : Domain
  name : String
  wire : Wire
  deriving DecidableEq, Repr

/-- What a record says: names for wires, and conversions by the names of their wires. -/
structure Offer where
  names : List NamedWire
  conversions : List (String × List String)
  deriving DecidableEq, Repr

/-- The pin and the name of a token, if it binds one to the other. -/
def pinAndName? (token : String) : Option (String × String) :=
  (splitBinding 0 token).toOption

/-- The name that a token gives to a wire of a circuit. -/
def namedWire? (domain : Domain) (wires : Allocator) (token : String) : Option NamedWire := do
  let (pin, name) ← pinAndName? token
  let wire ← wires.lookup pin
  return ⟨domain, name, wire⟩

/-- The name that a token binds, whatever its pin. -/
def boundName? (token : String) : Option String :=
  (pinAndName? token).map Prod.snd

/-- The conversion to the first of some names from the others. -/
def conversionTo? : List String → Option (String × List String)
  | [] => none
  | arithmetic :: boolean => some (arithmetic, boolean)

/-- What a gate says. -/
def gateOffer? (tops : Domain → String) (wires : Domain → Allocator) (operator : String)
    (tokens : List String) : Option Offer :=
  match domainOf? tops operator with
  | some domain => do
    let names ← tokens.mapM (namedWire? domain (wires domain))
    return ⟨names, []⟩
  | none =>
    if isConversion operator then do
      let names ← tokens.mapM boundName?
      let conversion ← conversionTo? names
      return ⟨[], [conversion]⟩
    else none

/-- What the words of a record say, if they are accepted. -/
def offer? (tops : Domain → String) (wires : Domain → Allocator) : List String → Option Offer
  | ".model" :: _ | ".inputs" :: _ | ".outputs" :: _ | ".end" :: _ => some ⟨[], []⟩
  | ".gate" :: operator :: tokens => gateOffer? tops wires operator tokens
  | _ => none

/-- The words are those of a gate that stands for one of the circuits. -/
def bindsNames (tops : Domain → String) : List String → Bool
  | ".gate" :: operator :: _ => (domainOf? tops operator).isSome
  | _ => false

/-- The words are those of a conversion. -/
def converts (tops : Domain → String) : List String → Bool
  | ".gate" :: operator :: _ => (domainOf? tops operator).isNone && isConversion operator
  | _ => false

/-- Let a name stand for its wire. -/
def bindNamed (connection : Connection) (named : NamedWire) : Connection :=
  connection.bind named.domain named.name named.wire

/-- A draft with what the record on a line says. -/
def Draft.add (draft : Draft) (line : Nat) (offer : Offer) : Draft where
  connection := offer.names.foldl bindNamed draft.connection
  conversions := draft.conversions ++
    offer.conversions.map fun (arithmetic, boolean) => ⟨line, arithmetic, boolean⟩

/-! ### Steps that read their items one by one -/

/-- If each step reads its item, whatever the state, and then changes the state by what was
read, then so does the run: it reads all items and makes all changes. -/
theorem foldlM_eq_ok_iff {σ α β : Type} {step : σ → α → Except Error σ} {read : α → Option β}
    {change : σ → β → σ}
    (each : ∀ state item next,
      step state item = .ok next ↔ ∃ value, read item = some value ∧ next = change state value)
    {items : List α} {state last : σ} :
    items.foldlM step state = .ok last ↔
      ∃ values, items.mapM read = some values ∧ last = values.foldl change state := by
  induction items generalizing state with
  | nil => simp [pure, Except.pure, eq_comm]
  | cons item rest ih =>
    rw [List.foldlM_cons, List.mapM_cons]
    constructor
    · intro run
      obtain ⟨next, first, others⟩ := eq_ok_of_bind run
      obtain ⟨value, isRead, rfl⟩ := (each state item next).1 first
      obtain ⟨values, areRead, rfl⟩ := ih.1 others
      exact ⟨value :: values, by simp [isRead, areRead], rfl⟩
    · rintro ⟨values, areRead, rfl⟩
      obtain ⟨value, isRead, areRead⟩ := Option.bind_eq_some_iff.1 areRead
      obtain ⟨others, othersRead, same⟩ := Option.bind_eq_some_iff.1 areRead
      cases same
      rw [(each state item _).2 ⟨value, isRead, rfl⟩]
      exact ih.2 ⟨others, othersRead, rfl⟩

/-- Whether a token binds a name does not depend on its line. -/
theorem splitBinding_eq_ok_iff {line : Nat} {token : String} {pair : String × String} :
    splitBinding line token = .ok pair ↔ pinAndName? token = some pair := by
  unfold pinAndName? splitBinding
  split
  · simp [Except.toOption]
  · simp [Except.toOption]

theorem bindToken_eq_ok_iff {domain : Domain} {line : Nat} (connection : Connection)
    (token : String) (next : Connection) :
    bindToken (sideOf tops wires domain) line connection token = .ok next ↔
      ∃ named, namedWire? domain (wires domain) token = some named ∧
        next = connection.bindNamed named := by
  unfold namedWire?
  constructor
  · intro bound
    obtain ⟨pin, name, wire, isSplit, found, rfl⟩ := splitBinding_of_bindToken bound
    have known : (wires domain).lookup pin = some wire := found
    exact ⟨⟨domain, name, wire⟩, by simp [splitBinding_eq_ok_iff.1 isSplit, known], rfl⟩
  · rintro ⟨named, isNamed, rfl⟩
    obtain ⟨⟨pin, name⟩, isSplit, isNamed⟩ := Option.bind_eq_some_iff.1 isNamed
    obtain ⟨wire, found, same⟩ := Option.bind_eq_some_iff.1 isNamed
    cases same
    have known : (sideOf tops wires domain).wires.lookup pin = some wire := found
    simp only [bindToken, splitBinding_eq_ok_iff.2 isSplit, Bind.bind, Except.bind]
    rw [known]
    rfl

/-- Items that are read one by one, with errors or without. -/
theorem mapM_eq_ok_iff {α β : Type} {step : α → Except Error β} {read : α → Option β}
    (each : ∀ item value, step item = .ok value ↔ read item = some value) {items : List α}
    {values : List β} : items.mapM step = .ok values ↔ items.mapM read = some values := by
  induction items generalizing values with
  | nil => simp [pure, Except.pure]
  | cons item rest ih =>
    rw [List.mapM_cons, List.mapM_cons]
    constructor
    · intro succeeded
      obtain ⟨value, first, succeeded⟩ := eq_ok_of_bind succeeded
      obtain ⟨others, areOthers, succeeded⟩ := eq_ok_of_bind succeeded
      cases succeeded
      simp [(each item value).1 first, ih.1 areOthers]
    · intro succeeded
      obtain ⟨value, first, succeeded⟩ := Option.bind_eq_some_iff.1 succeeded
      obtain ⟨others, areOthers, succeeded⟩ := Option.bind_eq_some_iff.1 succeeded
      cases succeeded
      rw [(each item value).2 first, ih.2 areOthers]
      rfl

theorem readConversion_eq_ok_iff {line : Nat} {tokens : List String} {conversion : Conversion} :
    readConversion line tokens = .ok conversion ↔
      ∃ names, tokens.mapM boundName? = some names ∧
        conversionTo? names = some (conversion.arithmetic, conversion.boolean) ∧
          conversion.line = line := by
  have each : ∀ token name,
      (do let (_, name) ← splitBinding line token; return name : Except Error String) = .ok name ↔
        boundName? token = some name := by
    intro token name
    have split (pair : String × String) := @splitBinding_eq_ok_iff line token pair
    rw [boundName?, Option.map_eq_some_iff]
    simp only [← split]
    cases splitBinding line token with
    | error error => simp [Bind.bind, Except.bind]
    | ok pair => simp [Bind.bind, Except.bind, pure, Except.pure]
  rw [readConversion]
  constructor
  · intro read
    obtain ⟨names, areNames, read⟩ := eq_ok_of_bind read
    refine ⟨names, (mapM_eq_ok_iff each).1 areNames, ?_⟩
    cases names with
    | nil => cases read
    | cons arithmetic boolean =>
      cases read
      exact ⟨rfl, rfl⟩
  · rintro ⟨names, areNames, isConversion, rfl⟩
    rw [(mapM_eq_ok_iff each).2 areNames]
    cases names with
    | nil => cases isConversion
    | cons arithmetic boolean =>
      cases isConversion
      rfl

/-! ### Records -/

/-- A gate is taken exactly if its words are accepted, and adds what they say. -/
theorem takeGate_eq_ok_iff {draft next : Draft} {line : Nat} {operator : String}
    {tokens : List String} :
    takeGate [sideOf tops wires .boolean, sideOf tops wires .arithmetic] draft line
        (operator :: tokens) = .ok next ↔
      ∃ offer, gateOffer? tops wires operator tokens = some offer ∧
        next = draft.add line offer := by
  rw [takeGate, find?_sides]
  unfold gateOffer?
  cases domainOf? tops operator with
  | some domain =>
    constructor
    · intro taken
      obtain ⟨connection, bound, taken⟩ := eq_ok_of_bind taken
      cases taken
      obtain ⟨names, areNames, rfl⟩ := (foldlM_eq_ok_iff bindToken_eq_ok_iff).1 bound
      exact ⟨⟨names, []⟩, by simp [areNames], by simp [Draft.add]⟩
    · rintro ⟨offer, isOffer, rfl⟩
      obtain ⟨names, areNames, same⟩ := Option.bind_eq_some_iff.1 isOffer
      cases same
      dsimp only [Option.map_some]
      rw [(foldlM_eq_ok_iff bindToken_eq_ok_iff).2 ⟨names, areNames, rfl⟩]
      simp [Draft.add, Bind.bind, Except.bind, pure, Except.pure]
  | none =>
    dsimp only [Option.map_none]
    split
    · constructor
      · intro taken
        obtain ⟨conversion, read, taken⟩ := eq_ok_of_bind taken
        cases taken
        obtain ⟨names, areNames, isConversion, rfl⟩ := readConversion_eq_ok_iff.1 read
        exact ⟨⟨[], [(conversion.arithmetic, conversion.boolean)]⟩,
          by simp [areNames, isConversion], by simp [Draft.add]⟩
      · rintro ⟨offer, isOffer, rfl⟩
        obtain ⟨names, areNames, isOffer⟩ := Option.bind_eq_some_iff.1 isOffer
        obtain ⟨⟨arithmetic, boolean⟩, isConversion, same⟩ := Option.bind_eq_some_iff.1 isOffer
        cases same
        have read : readConversion line tokens = .ok ⟨line, arithmetic, boolean⟩ :=
          readConversion_eq_ok_iff.2 ⟨names, areNames, isConversion, rfl⟩
        rw [read]
        simp [Draft.add, Bind.bind, Except.bind, pure, Except.pure]
    · simp

/-- A record is taken exactly if its words are accepted, and adds what they say. -/
theorem takeRecord_eq_ok_iff (draft : Draft) (record : Record) (next : Draft) :
    takeRecord [sideOf tops wires .boolean, sideOf tops wires .arithmetic] draft record = .ok next ↔
      ∃ offer, offer? tops wires record.words = some offer ∧
        next = draft.add record.line offer := by
  obtain ⟨line, keyword, args⟩ := record
  have nothing : draft.add line ⟨[], []⟩ = draft := by simp [Draft.add]
  unfold takeRecord Record.words
  split
  case h_6 isGate =>
    rw [show keyword = ".gate" from isGate]
    cases args with
    | nil => simp [takeGate, offer?]
    | cons operator tokens => exact takeGate_eq_ok_iff
  case h_5 isInstance =>
    rw [show keyword = ".subckt" from isInstance]
    simp [offer?]
  case h_7 noModel noInputs noOutputs noEnd _ noGate =>
    simp only [reduceCtorEq, false_iff, not_exists, not_and]
    intro offer isOffer
    unfold offer? at isOffer
    split at isOffer <;> simp_all
  all_goals
    rename_i isFrame
    rw [show keyword = _ from isFrame]
    simp [offer?, nothing, eq_comm]

/-! ### Runs -/

/-- The words of the records of a text. -/
def rows (text : String) : List (List String) :=
  (records text).map Record.words

/-- The names that some rows give, in their order. -/
def namesIn (tops : Domain → String) (wires : Domain → Allocator) (rows : List (List String)) :
    List NamedWire :=
  (rows.filterMap (offer? tops wires)).flatMap Offer.names

/-- The conversions that some rows ask for, in their order. -/
def conversionsIn (tops : Domain → String) (wires : Domain → Allocator)
    (rows : List (List String)) : List (String × List String) :=
  (rows.filterMap (offer? tops wires)).flatMap Offer.conversions

section

variable {row : List String} {offer : Offer} (isOffer : offer? tops wires row = some offer)
  (rows : List (List String))

include isOffer

theorem namesIn_cons :
    namesIn tops wires (row :: rows) = offer.names ++ namesIn tops wires rows := by
  rw [namesIn, List.filterMap_cons_some isOffer, List.flatMap_cons, namesIn]

theorem conversionsIn_cons : conversionsIn tops wires (row :: rows) =
    offer.conversions ++ conversionsIn tops wires rows := by
  rw [conversionsIn, List.filterMap_cons_some isOffer, List.flatMap_cons, conversionsIn]

end

/-- The names of a conversion. -/
def Conversion.names (conversion : Conversion) : String × List String :=
  (conversion.arithmetic, conversion.boolean)

/-- The records are taken exactly if the words of each are accepted. Names and conversions are
then those of the words, in order. -/
theorem foldlM_takeRecord_eq_ok {taken : List Record} {draft last : Draft}
    (run : taken.foldlM (takeRecord [sideOf tops wires .boolean, sideOf tops wires .arithmetic])
      draft = .ok last) :
    (∀ row ∈ taken.map Record.words, (offer? tops wires row).isSome) ∧
      last.connection =
        (namesIn tops wires (taken.map Record.words)).foldl bindNamed draft.connection ∧
      last.conversions.map Conversion.names =
        draft.conversions.map Conversion.names ++
          conversionsIn tops wires (taken.map Record.words) := by
  induction taken generalizing draft with
  | nil =>
    cases run
    simp [namesIn, conversionsIn]
  | cons record rest ih =>
    rw [List.foldlM_cons] at run
    obtain ⟨middle, first, others⟩ := eq_ok_of_bind run
    obtain ⟨offer, isOffer, rfl⟩ := (takeRecord_eq_ok_iff draft record middle).1 first
    obtain ⟨accepted, connection, conversions⟩ := ih others
    refine ⟨?_, ?_, ?_⟩
    · exact List.forall_mem_cons.2 ⟨by rw [isOffer]; rfl, accepted⟩
    · rw [connection, List.map_cons, namesIn_cons isOffer, List.foldl_append]
      rfl
    · have added : (draft.add record.line offer).conversions.map Conversion.names =
          draft.conversions.map Conversion.names ++ offer.conversions := by
        rw [Draft.add, List.map_append, List.map_map]
        exact congrArg _ (List.map_id _)
      rw [conversions, added, List.map_cons, conversionsIn_cons isOffer, List.append_assoc]

theorem exists_foldlM_takeRecord {taken : List Record}
    (accepted : ∀ row ∈ taken.map Record.words, (offer? tops wires row).isSome) (draft : Draft) :
    ∃ last, taken.foldlM
      (takeRecord [sideOf tops wires .boolean, sideOf tops wires .arithmetic]) draft =
        .ok last := by
  induction taken generalizing draft with
  | nil => exact ⟨draft, rfl⟩
  | cons record rest ih =>
    obtain ⟨first, others⟩ := List.forall_mem_cons.1 accepted
    obtain ⟨offer, isOffer⟩ := Option.isSome_iff_exists.1 first
    rw [List.foldlM_cons, (takeRecord_eq_ok_iff draft record _).2 ⟨offer, isOffer, rfl⟩]
    exact ih others _

/-- The line of a conversion matters to no bridge. -/
theorem makeBridges_congr {first second : List Conversion} {connection : Connection}
    (same : first.map Conversion.names = second.map Conversion.names) :
    (makeBridges connection first).result = (makeBridges connection second).result := by
  induction first generalizing second connection with
  | nil => rw [List.map_eq_nil_iff.1 same.symm]
  | cons conversion rest ih =>
    obtain ⟨other, others, rfl, isOther, areOthers⟩ := List.map_eq_cons_iff.1 same.symm
    have alike : connection.bridgeOf other = connection.bridgeOf conversion := by
      unfold bridgeOf
      rw [show other.arithmetic = conversion.arithmetic from congrArg Prod.fst isOther,
        show other.boolean = conversion.boolean from congrArg Prod.snd isOther]
    unfold makeBridges
    rw [alike]
    cases connection.bridgeOf conversion with
    | error error => rfl
    | ok bridge => exact ih areOthers.symm

/-- A connection is read exactly if the words of each record are accepted and the bridges can
be made, with the names of the whole text. -/
theorem result_read_eq_ok_iff {text : String} {connection : Connection} :
    (read text (tops .boolean) (tops .arithmetic) (wires .boolean) (wires .arithmetic)).result =
        .ok connection ↔
      (∀ row ∈ rows text, (offer? tops wires row).isSome) ∧
        (makeBridges ((namesIn tops wires (rows text)).foldl bindNamed empty)
          ((conversionsIn tops wires (rows text)).map fun (arithmetic, boolean) =>
            ⟨0, arithmetic, boolean⟩)).result = .ok connection := by
  have same {draft : Draft} (run : (records text).foldlM
        (takeRecord [sideOf tops wires .boolean, sideOf tops wires .arithmetic]) ⟨empty, []⟩ =
          .ok draft) :
      (∀ row ∈ rows text, (offer? tops wires row).isSome) ∧
        (makeBridges ((namesIn tops wires (rows text)).foldl bindNamed empty)
          ((conversionsIn tops wires (rows text)).map fun (arithmetic, boolean) =>
            ⟨0, arithmetic, boolean⟩)).result =
          (makeBridges draft.connection draft.conversions).result := by
    obtain ⟨accepted, connection, conversions⟩ := foldlM_takeRecord_eq_ok run
    refine ⟨accepted, ?_⟩
    rw [connection]
    apply makeBridges_congr
    rw [conversions, List.map_map]
    exact List.map_id _
  unfold read
  dsimp only
  constructor
  · intro accepted
    split at accepted
    · cases accepted
    · rename_i draft run
      obtain ⟨each, bridges⟩ := same run
      exact ⟨each, bridges.trans accepted⟩
  · rintro ⟨each, made⟩
    obtain ⟨draft, run⟩ := exists_foldlM_takeRecord each ⟨empty, []⟩
    split
    · rename_i failed
      cases failed.symm.trans run
    · rename_i done
      exact (same done).2.symm.trans made

/-! ### Reorderings -/

/-- The same rows, in an order that keeps those that give names, and those that ask for
conversions. -/
structure Reorders (tops : Domain → String) (first second : List (List String)) : Prop where
  perm : first.Perm second
  names : first.filter (bindsNames tops) = second.filter (bindsNames tops)
  conversions : first.filter (converts tops) = second.filter (converts tops)

/-- Only gates that stand for a circuit give names, and only conversions ask for any. -/
theorem kind_of_offer {row : List String} {offer : Offer}
    (isOffer : offer? tops wires row = some offer) :
    (offer.names ≠ [] → bindsNames tops row = true) ∧
      (offer.conversions ≠ [] → converts tops row = true) := by
  unfold offer? at isOffer
  split at isOffer
  case h_5 operator tokens =>
    unfold gateOffer? at isOffer
    split at isOffer
    · rename_i domain means
      obtain ⟨names, _, same⟩ := Option.bind_eq_some_iff.1 isOffer
      cases same
      exact ⟨fun _ => by simp [bindsNames, means], fun some => absurd rfl some⟩
    · rename_i means
      split at isOffer
      · rename_i isConversion
        obtain ⟨names, _, isOffer⟩ := Option.bind_eq_some_iff.1 isOffer
        obtain ⟨conversion, _, same⟩ := Option.bind_eq_some_iff.1 isOffer
        cases same
        exact ⟨fun some => absurd rfl some, fun _ => by simp [converts, means, isConversion]⟩
      · cases isOffer
  case h_6 => cases isOffer
  all_goals
    cases isOffer
    exact ⟨fun some => absurd rfl some, fun some => absurd rfl some⟩

/-- Rows that offer nothing of a kind can be left out. -/
theorem flatMap_filter_offers {α : Type} {keep : List String → Bool} {part : Offer → List α}
    (kept : ∀ row offer, offer? tops wires row = some offer → part offer ≠ [] → keep row = true)
    (rows : List (List String)) :
    ((rows.filter keep).filterMap (offer? tops wires)).flatMap part =
      (rows.filterMap (offer? tops wires)).flatMap part := by
  induction rows with
  | nil => rfl
  | cons row rest ih =>
    cases isKept : keep row with
    | true =>
      rw [List.filter_cons_of_pos isKept, List.filterMap_cons, List.filterMap_cons]
      split
      · exact ih
      · rw [List.flatMap_cons, List.flatMap_cons, ih]
    | false =>
      rw [List.filter_cons_of_neg (by simp [isKept]), ih, List.filterMap_cons]
      split
      · rfl
      · rename_i offer isOffer
        have nothing : part offer = [] := by
          by_contra something
          simp [kept row offer isOffer something] at isKept
        rw [List.flatMap_cons, nothing, List.nil_append]

namespace Reorders

variable {first second : List (List String)}

theorem namesIn_eq (reorders : Reorders tops first second) (wires : Domain → Allocator) :
    namesIn tops wires first = namesIn tops wires second := by
  have kept (row : List String) (offer : Offer) (isOffer : offer? tops wires row = some offer) :
      offer.names ≠ [] → bindsNames tops row = true := (kind_of_offer isOffer).1
  rw [namesIn, ← flatMap_filter_offers kept, reorders.names, flatMap_filter_offers kept, namesIn]

theorem conversionsIn_eq (reorders : Reorders tops first second) (wires : Domain → Allocator) :
    conversionsIn tops wires first = conversionsIn tops wires second := by
  have kept (row : List String) (offer : Offer) (isOffer : offer? tops wires row = some offer) :
      offer.conversions ≠ [] → converts tops row = true := (kind_of_offer isOffer).2
  rw [conversionsIn, ← flatMap_filter_offers kept, reorders.conversions,
    flatMap_filter_offers kept, conversionsIn]

end Reorders

/-- A connection can be read exactly if it can be with its records reordered, as long as those
that give names keep their order, and conversions keep theirs. Its names and bridges are the
same. -/
theorem read_reordered {first second : String}
    (reorders : Reorders tops (rows first) (rows second)) (wires : Domain → Allocator)
    (connection : Connection) :
    (read first (tops .boolean) (tops .arithmetic) (wires .boolean)
        (wires .arithmetic)).result = .ok connection ↔
      (read second (tops .boolean) (tops .arithmetic) (wires .boolean)
        (wires .arithmetic)).result = .ok connection := by
  rw [result_read_eq_ok_iff, result_read_eq_ok_iff, reorders.namesIn_eq, reorders.conversionsIn_eq]
  simp only [reorders.perm.mem_iff]

/-- The rows of `mergedRows` with the conversion in front, among records that mean nothing. -/
def hastyRows : List (List String) :=
  [[".end"],
    ".gate" :: "BtoA" :: "o=p" :: probedNames.map fun name => "i=" ++ name,
    ".gate" :: "word" :: probedNames.map fun name => name ++ "=" ++ name,
    [".model", "join"],
    [".gate", "product", "v=p", "z=p"]]

theorem perm_hastyRows : hastyRows.Perm mergedRows := by
  decide +kernel

theorem records_hastyRows : records (written hastyRows) =
    hastyRows.zipIdx.flatMap fun (row, index) => Record.ofRow (index + 1) row := by
  have plain : ∀ row ∈ mergedRows, ∀ word ∈ row, IsPlain word.toList :=
    forall_isPlain_of_converts (forall_isPlain_of_all (by decide))
  exact records_written fun row member => plain row (perm_hastyRows.mem_iff.1 member)

theorem reorders_hastyRows :
    Reorders productTops (rows (written mergedRows)) (rows (written hastyRows)) := by
  rw [rows, rows, records_mergedRows, records_hastyRows]
  constructor <;> decide +kernel

/-- The same names and the same bridge are read. -/
theorem read_reordered_hastyRows :
    Reorders productTops (rows (written mergedRows)) (rows (written hastyRows)) ∧
      (read (written hastyRows) (productTops .boolean) (productTops .arithmetic)
        (productWires .boolean) (productWires .arithmetic)).result = .ok merged :=
  ⟨reorders_hastyRows, (read_reordered reorders_hastyRows productWires merged).1 read_mergedRows⟩

end Netlist.Connection
