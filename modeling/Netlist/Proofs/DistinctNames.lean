import Netlist.Json.Reader
import Netlist.Proofs.Resolution
import Netlist.Yosys.Schema

/-!
# Distinct names in JSON

A value that was read names no member of an object twice, however deep it is nested
(`Json.hasDistinctNames_of_read`). So the modules of a netlist have distinct names, and so have
the ports of a module and the connections of a cell (`Yosys.hasDistinctNames_of_moduleSources`).
-/

namespace Netlist

namespace Json

/-- No object in the value has two members of one name. -/
inductive Value.HasDistinctNames : Value → Prop
  | null : HasDistinctNames .null
  | bool (value : Bool) : HasDistinctNames (.bool value)
  | number (value : Number) : HasDistinctNames (.number value)
  | string (value : String) : HasDistinctNames (.string value)
  | array {elements : List Value} (each : ∀ element ∈ elements, HasDistinctNames element) :
    HasDistinctNames (.array elements)
  | object {members : List (String × Value)} (distinct : (members.map Prod.fst).Nodup)
    (each : ∀ member ∈ members, HasDistinctNames member.2) : HasDistinctNames (.object members)

/-- The members of an object have distinct names, and so have those of their values. -/
structure AreDistinct (members : List (String × Value)) : Prop where
  names : (members.map Prod.fst).Nodup
  values : ∀ member ∈ members, member.2.HasDistinctNames

namespace Value.HasDistinctNames

theorem of_array {elements : List Value} (distinct : (Value.array elements).HasDistinctNames) :
    ∀ element ∈ elements, element.HasDistinctNames := by
  cases distinct with
  | array each => exact each

theorem of_object {members : List (String × Value)}
    (distinct : (Value.object members).HasDistinctNames) : AreDistinct members := by
  cases distinct with
  | object names each => exact ⟨names, each⟩

end Value.HasDistinctNames

namespace AreDistinct

variable {members : List (String × Value)} {name : String} {value : Value}

theorem lookup (distinct : AreDistinct members) (found : members.lookup name = some value) :
    value.HasDistinctNames := by
  obtain ⟨before, after, rfl, _⟩ := List.lookup_eq_some_iff.1 found
  exact distinct.values _ (List.mem_append_right _ List.mem_cons_self)

theorem getD_lookup (distinct : AreDistinct members) (name : String) :
    ((members.lookup name).getD .null).HasDistinctNames := by
  cases found : members.lookup name with
  | none => exact .null
  | some value => exact distinct.lookup found

theorem mem_setMember {member : String × Value} (isMember : member ∈ setMember name value members) :
    member.2 = value ∨ member ∈ members := by
  induction members with
  | nil =>
    rw [setMember, List.mem_singleton] at isMember
    exact Or.inl (congrArg Prod.snd isMember)
  | cons first rest ih =>
    rw [setMember] at isMember
    split at isMember
    · rcases List.mem_cons.1 isMember with rfl | inRest
      · exact Or.inl rfl
      · exact Or.inr (List.mem_cons_of_mem _ inRest)
    · rcases List.mem_cons.1 isMember with rfl | inRest
      · exact Or.inr List.mem_cons_self
      · exact (ih inRest).imp_right (List.mem_cons_of_mem _)

/-- Setting a member repeats no name. -/
theorem setMember (distinct : AreDistinct members) (name : String)
    (isDistinct : value.HasDistinctNames) : AreDistinct (setMember name value members) := by
  refine ⟨nodup_names_setMember distinct.names, fun member isMember => ?_⟩
  rcases mem_setMember isMember with isNew | isOld
  · rwa [isNew]
  · exact distinct.values member isOld

end AreDistinct

/-! ### Values that were read -/

namespace Reader

/-- What the reader finds is good. -/
def Yields {α : Type} (reader : Reader α) (good : α → Prop) : Prop :=
  ∀ text found rest, reader text = .ok (found, rest) → good found

theorem Yields.map {α β : Type} {reader : Reader α} {good : α → Prop} {better : β → Prop}
    (yields : Yields reader good) {make : α → β}
    (makes : ∀ found, good found → better (make found)) :
    Yields (fun text => (reader text).map fun (found, left) => (make found, left)) better := by
  intro text found rest read
  dsimp only at read
  cases inner : reader text with
  | error fault =>
    rw [inner] at read
    cases read
  | ok result =>
    rw [inner] at read
    cases read
    exact makes _ (yields _ _ _ inner)

theorem yields_literal (value : Value) (word : List Char) :
    Yields (literal value word) fun found => found = value := by
  induction word with
  | nil =>
    rintro text found rest ⟨⟩
    rfl
  | cons expected word ih =>
    intro text found rest read
    cases text with
    | nil => cases read
    | cons character text =>
      rw [literal] at read
      split at read
      · exact ih text found rest read
      · cases read

theorem yields_number (negative : Bool) :
    Yields (number negative) Value.HasDistinctNames := by
  intro text found rest read
  obtain ⟨_, _, read⟩ := eq_ok_of_bind read
  obtain ⟨_, _, read⟩ := eq_ok_of_bind read
  obtain ⟨_, _, read⟩ := eq_ok_of_bind read
  dsimp only at read
  split at read
  · cases read
    exact .number _
  · cases read

theorem yields_scalar : Yields scalar Value.HasDistinctNames := by
  intro text found rest read
  unfold scalar at read
  split at read
  · cases read
  · rw [yields_literal _ _ _ _ _ read]
    exact .null
  · rw [yields_literal _ _ _ _ _ read]
    exact .bool _
  · rw [yields_literal _ _ _ _ _ read]
    exact .bool _
  · exact yields_number true _ _ _ read
  · have yields : Yields stringBody fun _ => True := fun _ _ _ _ => trivial
    exact yields.map (fun _ _ => .string _) _ _ _ read
  · split at read
    · exact yields_number false _ _ _ read
    · cases read

section

variable {element : Reader Value} (yields : Yields element Value.HasDistinctNames)

include yields

theorem yields_moreElements (bound : Nat) :
    Yields (moreElements element bound) fun found => ∀ value ∈ found, value.HasDistinctNames := by
  induction bound with
  | zero =>
    intro text found rest read
    cases read
  | succ bound ih =>
    intro text found rest read
    rw [moreElements] at read
    split at read
    · cases read
    · cases read
      exact List.forall_mem_nil _
    · split at read
      · cases read
      · obtain ⟨⟨first, left⟩, isFirst, read⟩ := eq_ok_of_bind read
        obtain ⟨⟨others, _⟩, areOthers, read⟩ := eq_ok_of_bind read
        cases read
        exact List.forall_mem_cons.2 ⟨yields _ _ _ isFirst, ih _ _ _ areOthers⟩
    · cases read

theorem yields_elements (bound : Nat) :
    Yields (elements element bound) fun found => ∀ value ∈ found, value.HasDistinctNames := by
  intro text found rest read
  unfold elements at read
  split at read
  · cases read
  · cases read
    exact List.forall_mem_nil _
  · obtain ⟨⟨first, left⟩, isFirst, read⟩ := eq_ok_of_bind read
    obtain ⟨⟨others, _⟩, areOthers, read⟩ := eq_ok_of_bind read
    cases read
    exact List.forall_mem_cons.2
      ⟨yields _ _ _ isFirst, yields_moreElements yields bound _ _ _ areOthers⟩

theorem yields_member : Yields (member element) fun found => found.2.HasDistinctNames := by
  intro text found rest read
  obtain ⟨⟨name, left⟩, _, read⟩ := eq_ok_of_bind read
  dsimp only at read
  split at read
  · obtain ⟨⟨value, _⟩, isValue, read⟩ := eq_ok_of_bind read
    cases read
    exact yields _ _ _ isValue
  · cases read

theorem yields_moreMembers (bound : Nat) {before : List (String × Value)}
    (distinct : AreDistinct before) : Yields (moreMembers element bound before) AreDistinct := by
  induction bound generalizing before with
  | zero =>
    intro text found rest read
    cases read
  | succ bound ih =>
    intro text found rest read
    rw [moreMembers] at read
    split at read
    · cases read
    · cases read
      exact distinct
    · split at read
      · obtain ⟨⟨⟨name, value⟩, left⟩, isMember, read⟩ := eq_ok_of_bind read
        exact ih (distinct.setMember name (yields_member yields _ _ _ isMember)) _ _ _ read
      · cases read
    · cases read

theorem yields_members (bound : Nat) : Yields (members element bound) AreDistinct := by
  have none : AreDistinct [] := ⟨List.nodup_nil, List.forall_mem_nil _⟩
  intro text found rest read
  unfold members at read
  split at read
  · cases read
    exact none
  · obtain ⟨⟨⟨name, value⟩, left⟩, isMember, read⟩ := eq_ok_of_bind read
    exact yields_moreMembers yields bound
      (none.setMember name (yields_member yields _ _ _ isMember)) _ _ _ read
  · cases read

end

theorem yields_value (bound room : Nat) : Yields (value bound room) Value.HasDistinctNames := by
  induction room with
  | zero =>
    intro text found rest read
    rw [value] at read
    split at read
    · cases read
    · cases read
    · exact yields_scalar _ _ _ read
  | succ room ih =>
    intro text found rest read
    rw [value] at read
    split at read
    · exact (yields_elements ih bound).map (fun _ each => .array each) _ _ _ read
    · exact (yields_members ih bound).map
        (fun _ distinct => .object distinct.names distinct.values) _ _ _ read
    · exact yields_scalar _ _ _ read

end Reader

/-- A value that was read from a text names no member of an object twice. -/
theorem hasDistinctNames_of_read {text : String} {found : Value} (isRead : read text = .ok found) :
    found.HasDistinctNames := by
  unfold read at isRead
  dsimp only at isRead
  cases outcome : Reader.value text.toList.length Reader.depthLimit text.toList with
  | error fault =>
    rw [outcome] at isRead
    cases isRead
  | ok result =>
    obtain ⟨value, left⟩ := result
    rw [outcome] at isRead
    simp only [Bind.bind, Except.bind] at isRead
    split at isRead
    · cases isRead
      exact Reader.yields_value _ _ _ _ _ outcome
    · cases isRead

end Json

/-! ### Modules that were decoded -/

namespace Yosys

open Json (Value)

/-- What was decoded from an object has the names of its members, in their order. -/
theorem entries_eq_ok {α : Type} {decode : Decoder α} {listing : Section} {value : Value}
    {found : List (String × α)} (decoded : entries decode listing value = .ok found) :
    value = .null ∧ found = [] ∨ ∃ members, value = .object members ∧
      List.Forall₂ (fun member entry => entry.1 = member.1 ∧ decode member.2 = .ok entry.2)
        members found := by
  unfold entries at decoded
  split at decoded
  · cases decoded
    exact Or.inl ⟨rfl, rfl⟩
  · rename_i members
    refine Or.inr ⟨members, rfl, (mapM_eq_ok decoded).imp fun member entry each => ?_⟩
    dsimp only at each
    split at each
    · rename_i isDecoded
      cases each
      exact ⟨rfl, isDecoded⟩
    · cases each
  · cases decoded

theorem nodup_of_entries {α : Type} {decode : Decoder α} {listing : Section} {value : Value}
    {found : List (String × α)} (decoded : entries decode listing value = .ok found)
    (distinct : value.HasDistinctNames) : (found.map Prod.fst).Nodup := by
  rcases entries_eq_ok decoded with ⟨_, rfl⟩ | ⟨members, rfl, each⟩
  · exact List.nodup_nil
  · have names : found.map Prod.fst = members.map Prod.fst := by
      rw [← List.forall₂_eq_eq_eq, List.forall₂_map_left_iff, List.forall₂_map_right_iff]
      exact each.flip.imp fun _ _ entry => entry.1
    rw [names]
    exact distinct.of_object.names

/-- What was decoded from an object with distinct names is good if this follows from its
value. -/
theorem forall_of_entries {α : Type} {decode : Decoder α} {listing : Section} {value : Value}
    {found : List (String × α)} (decoded : entries decode listing value = .ok found)
    (distinct : value.HasDistinctNames) {good : α → Prop}
    (makes : ∀ inner result, inner.HasDistinctNames → decode inner = .ok result → good result) :
    ∀ entry ∈ found, good entry.2 := by
  rcases entries_eq_ok decoded with ⟨_, rfl⟩ | ⟨members, rfl, each⟩
  · exact List.forall_mem_nil _
  · intro entry isEntry
    obtain ⟨member, isMember, _, isDecoded⟩ := exists_of_mem_right each isEntry
    exact makes _ _ (distinct.of_object.values member isMember) isDecoded

/-- The connections of a cell are as they stand in its value, or there are none. -/
theorem hasDistinctNames_connections {value : Value} {found : Cell}
    (decoded : cell value = .ok found) (distinct : value.HasDistinctNames) :
    found.connections.HasDistinctNames := by
  unfold cell at decoded
  split at decoded
  · obtain ⟨_, _, decoded⟩ := eq_ok_of_bind decoded
    obtain ⟨_, _, decoded⟩ := eq_ok_of_bind decoded
    cases decoded
    exact distinct.of_object.getD_lookup _
  · unfold cellOfElements at decoded
    split at decoded
    · cases decoded
    · obtain ⟨_, _, decoded⟩ := eq_ok_of_bind decoded
      split at decoded
      · cases decoded
        exact .null
      · cases decoded
        exact .null
      · cases decoded
        exact distinct.of_array _ (by simp)
      · cases decoded
  · cases decoded

/-- The ports of the module have distinct names, and so have the connections of each of its
cells. -/
structure ModuleSource.HasDistinctNames (source : ModuleSource) : Prop where
  ports : (source.ports.map Prod.fst).Nodup
  connections : ∀ entry ∈ source.cells, entry.2.connections.HasDistinctNames

theorem hasDistinctNames_memberOrNull {value : Value} (distinct : value.HasDistinctNames)
    (name : String) : (memberOrNull name value).HasDistinctNames := by
  cases value with
  | object members => exact distinct.of_object.getD_lookup name
  | _ => exact .null

theorem name_of_moduleSource {name : String} {body : Value} {source : ModuleSource}
    (decoded : moduleSource name body = .ok source) : source.name = name := by
  obtain ⟨ports, _, decoded⟩ := eq_ok_of_bind decoded
  obtain ⟨cells, _, decoded⟩ := eq_ok_of_bind decoded
  cases decoded
  rfl

theorem hasDistinctNames_of_moduleSource {name : String} {body : Value} {source : ModuleSource}
    (decoded : moduleSource name body = .ok source) (distinct : body.HasDistinctNames) :
    source.HasDistinctNames := by
  obtain ⟨ports, arePorts, decoded⟩ := eq_ok_of_bind decoded
  obtain ⟨cells, areCells, decoded⟩ := eq_ok_of_bind decoded
  cases decoded
  exact ⟨nodup_of_entries arePorts (hasDistinctNames_memberOrNull distinct _),
    forall_of_entries areCells (hasDistinctNames_memberOrNull distinct _)
      fun _ _ inner isCell => hasDistinctNames_connections isCell inner⟩

/-- Modules of a value with distinct names have distinct names, and so have their ports and the
connections of their cells. -/
theorem hasDistinctNames_of_moduleSources {root : Value} {sources : List ModuleSource}
    (decoded : moduleSources root = .ok sources) (distinct : root.HasDistinctNames) :
    (sources.map ModuleSource.name).Nodup ∧ ∀ source ∈ sources, source.HasDistinctNames := by
  unfold moduleSources at decoded
  split at decoded
  · cases decoded
  · rename_i modules isMember
    obtain ⟨bodies, areBodies, decoded⟩ := eq_ok_of_bind decoded
    have inner : modules.HasDistinctNames := by
      have same : memberOrNull "modules" root = modules := by rw [memberOrNull, isMember]; rfl
      rw [← same]
      exact hasDistinctNames_memberOrNull distinct _
    have each := mapM_eq_ok decoded
    have names : sources.map ModuleSource.name = bodies.map Prod.fst := by
      rw [← List.forall₂_eq_eq_eq, List.forall₂_map_left_iff, List.forall₂_map_right_iff]
      exact each.flip.imp fun _ _ decoded => name_of_moduleSource decoded
    have good : ∀ body ∈ bodies, body.2.HasDistinctNames :=
      forall_of_entries areBodies inner fun _ _ isDistinct same => Except.ok.inj same ▸ isDistinct
    refine ⟨names ▸ nodup_of_entries areBodies inner, fun source isSource => ?_⟩
    obtain ⟨body, isBody, isDecoded⟩ := exists_of_mem_right each isSource
    exact hasDistinctNames_of_moduleSource isDecoded (good body isBody)

end Yosys

end Netlist
