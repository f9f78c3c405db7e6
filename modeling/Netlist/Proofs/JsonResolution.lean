import Mathlib
import Netlist.Proofs.Instantiation
import Netlist.Proofs.TextFaults
import Netlist.Proofs.WrittenValues

/-!
# Resolving instances from JSON

An instance that was built from JSON has a callee and binds only ports of this one, so when its
directions are resolved nothing can fail but the rule for ports that are constants
(`Design.resolved?_of_binds`). A JSON netlist whose modules can be built is thus read unless
this rule is broken, or a top is asked for that is not there (`Yosys.readText_resolution`).
-/

namespace Netlist

/-! ### Why resolution fails -/

/-- An instance in one module binds a port of another one that is a constant there to a wire
other than the same constant, although the port is an input or the wire is a constant. -/
structure Clashes (domain : Domain) (modules : List Module) (module callee : Module)
    (pairing : Pairing) : Prop where
  isModule : module ∈ modules
  isCallee : callee ∈ modules
  isBound : ∃ inner ∈ module.instances, inner.callee = callee.name ∧ pairing ∈ inner.pairings
  isConstant : domain.IsConstant pairing.callee
  differs : pairing.caller ≠ pairing.callee
  isForbidden : pairing.callee ∈ callee.inputs ∨ domain.IsConstant pairing.caller

namespace Design

variable {design : Design}

theorem splitPairings_eq_error {module callee : Module} {pairings : List Pairing} {error : Error}
    (failed : design.splitPairings module callee pairings = .error error) :
    ∃ pairing ∈ pairings, design.direction module callee pairing = .error error := by
  induction pairings with
  | nil => cases failed
  | cons pairing rest ih =>
    rw [splitPairings] at failed
    rcases bind_eq_error failed with head | ⟨direction, _, failed⟩
    · exact ⟨pairing, List.mem_cons_self, head⟩
    · rcases bind_eq_error failed with others | ⟨parts, _, failed⟩
      · obtain ⟨other, member, atOther⟩ := ih others
        exact ⟨other, List.mem_cons_of_mem _ member, atOther⟩
      · cases failed

/-- The instance has no callee, or one of its pairings has no direction. -/
theorem resolveInstance_eq_error {module : Module} {inner : Instance} {error : Error}
    (failed : design.resolveInstance module inner = .error error) :
    design.find? inner.callee = none ∨ ∃ callee, design.find? inner.callee = some callee ∧
      ∃ pairing ∈ inner.pairings, design.direction module callee pairing = .error error := by
  unfold resolveInstance at failed
  split at failed
  · rename_i missing
    exact Or.inl missing
  · rename_i callee found
    rcases bind_eq_error failed with split | ⟨parts, _, failed⟩
    · exact Or.inr ⟨callee, found, splitPairings_eq_error split⟩
    · cases failed

theorem resolveModules_eq_error {modules : List Module} {error : Error}
    (failed : (design.resolveModules modules).2 = .error error) :
    ∃ module ∈ modules, ∃ inner ∈ module.instances,
      design.resolveInstance module inner = .error error := by
  induction modules with
  | nil => cases failed
  | cons module rest ih =>
    rw [resolveModules] at failed
    cases outcome : design.resolveModule module with
    | error other =>
      rw [outcome] at failed
      cases failed
      rcases bind_eq_error outcome with instances | ⟨_, _, atEnd⟩
      · exact ⟨module, List.mem_cons_self, exists_of_mapM_eq_error instances⟩
      · cases atEnd
    | ok resolved =>
      rw [outcome] at failed
      obtain ⟨other, member, atOther⟩ := ih failed
      exact ⟨other, List.mem_cons_of_mem _ member, atOther⟩

theorem resolved?_eq_error {error : Error} (failed : design.resolved? = .error error) :
    ∃ module ∈ design.modules, ∃ inner ∈ module.instances,
      design.resolveInstance module inner = .error error := by
  apply resolveModules_eq_error
  unfold resolved? resolve at failed
  rcases outcome : design.resolveModules design.modules with ⟨modules, other | done⟩
  · rw [outcome] at failed
    cases failed
    rfl
  · rw [outcome] at failed
    cases failed

/-- A pairing to a port fails only where the port is a constant. -/
theorem direction_eq_error {module callee : Module} {pairing : Pairing} {error : Error}
    (isPort : pairing.callee ∈ callee.inputs ∨ pairing.callee ∈ callee.outputs)
    (failed : design.direction module callee pairing = .error error) :
    error = .constantPort module.name callee.name (design.allocator.describe pairing.caller) ∧
      design.domain.IsConstant pairing.callee ∧ pairing.caller ≠ pairing.callee ∧
        (pairing.callee ∈ callee.inputs ∨ design.domain.IsConstant pairing.caller) := by
  unfold direction at failed
  dsimp only at failed
  split at failed
  · rename_i noPort
    rw [Bool.and_eq_true, Bool.not_eq_true', Bool.not_eq_true', decide_eq_false_iff_not,
      decide_eq_false_iff_not] at noPort
    exact absurd isPort (not_or.2 noPort)
  · split at failed
    · rename_i breaks
      rw [decide_eq_true_iff] at breaks
      cases failed
      exact ⟨rfl, breaks⟩
    · cases failed

/-- If all instances have callees and bind only ports of theirs, directions can be resolved
unless a pairing clashes with a constant, and the error is of such a pairing. -/
theorem resolved?_of_binds (distinct : (design.modules.map Module.name).Nodup)
    (binds : ∀ module ∈ design.modules, ∀ inner ∈ module.instances,
      ∃ callee ∈ design.modules, callee.name = inner.callee ∧ ∀ pairing ∈ inner.pairings,
        pairing.callee ∈ callee.inputs ∨ pairing.callee ∈ callee.outputs) :
    ((∃ resolved, design.resolved? = .ok resolved) ↔
      ∀ module callee pairing, ¬ Clashes design.domain design.modules module callee pairing) ∧
    ∀ error, design.resolved? = .error error → ∃ module callee pairing,
      Clashes design.domain design.modules module callee pairing ∧
        error = .constantPort module.name callee.name
          (design.allocator.describe pairing.caller) := by
  have fails : ∀ error, design.resolved? = .error error → ∃ module callee pairing,
      Clashes design.domain design.modules module callee pairing ∧
        error = .constantPort module.name callee.name
          (design.allocator.describe pairing.caller) := by
    intro error failed
    obtain ⟨module, isModule, inner, isInner, atInner⟩ := resolved?_eq_error failed
    obtain ⟨callee, isCallee, named, arePorts⟩ := binds module isModule inner isInner
    have found := find?_name_of_mem distinct isCallee
    rw [named] at found
    rcases resolveInstance_eq_error atInner with missing | ⟨other, isOther, pairing, member, failed⟩
    · rw [found] at missing
      cases missing
    · rw [found] at isOther
      cases isOther
      obtain ⟨isError, constant, differs, forbidden⟩ :=
        direction_eq_error (arePorts pairing member) failed
      exact ⟨module, callee, pairing,
        ⟨isModule, isCallee, ⟨inner, isInner, named.symm, member⟩, constant, differs, forbidden⟩,
        isError⟩
  refine ⟨⟨?_, fun free => ?_⟩, fails⟩
  · intro succeeds module callee pairing clash
    obtain ⟨inner, isInner, named, member⟩ := clash.isBound
    obtain ⟨other, found, admits⟩ :=
      exists_resolved?_iff.1 succeeds module clash.isModule inner isInner
    rw [named, find?_name_of_mem distinct clash.isCallee] at found
    cases found
    rcases (admits pairing member).constantPort clash.isConstant with same | ⟨noInput, noConstant⟩
    · exact clash.differs same
    · exact clash.isForbidden.elim noInput noConstant
  · cases outcome : design.resolved? with
    | ok resolved => exact ⟨resolved, rfl⟩
    | error error =>
      obtain ⟨module, callee, pairing, clash, _⟩ := fails error outcome
      exact absurd clash (free module callee pairing)

/-- A module can be made the top exactly if it is there. -/
theorem setTop_cases (design : Design) (name : String) :
    (name ∈ design.modules.map Module.name ∧ ∃ asked, design.setTop name = .ok asked) ∨
      (name ∉ design.modules.map Module.name ∧
        design.setTop name = .error (.unresolvedSubcircuit name topParent)) := by
  unfold setTop findTop
  cases found : design.find? name with
  | some module =>
    exact Or.inl ⟨List.mem_map.2 ⟨module, mem_of_find? found, name_of_find? found⟩, _, rfl⟩
  | none =>
    refine Or.inr ⟨fun isName => ?_, rfl⟩
    obtain ⟨module, isModule, named⟩ := List.mem_map.1 isName
    exact List.find?_eq_none.1 found module isModule (decide_eq_true named)

end Design

namespace Yosys

/-! ### The top -/

/-- The busiest module is one of them. -/
theorem mem_of_busiest? {sources : List ModuleSource} {source : ModuleSource}
    (isBusiest : busiest? sources = some source) : source ∈ sources := by
  cases sources with
  | nil => cases isBusiest
  | cons first rest =>
    rw [← Option.some.inj isBusiest]
    have each : ∀ best ∈ first :: rest, ∀ others ⊆ first :: rest,
        others.foldl (fun best source =>
          if best.cells.length < source.cells.length then source else best) best ∈
            first :: rest := by
      intro best isOne others among
      induction others generalizing best with
      | nil => exact isOne
      | cons other others ih =>
        rw [List.cons_subset] at among
        rw [List.foldl_cons]
        split
        · exact ih other among.1 among.2
        · exact ih best isOne among.2
    exact each first List.mem_cons_self rest (List.subset_cons_self first rest)

/-- The design with the top that is asked for, or else with the busiest module as its top. -/
def withTop (top : Option String) (sources : List ModuleSource) (design : Design) :
    Except Error Design :=
  match top.or ((busiest? sources).map ModuleSource.name) with
  | some name => design.setTop name
  | none => pure design

theorem readText_eq (allocator : Allocator) (top : Option String) (text : String) :
    readText allocator top text = (do
      let sources ← sourcesOf text
      let (modules, last) ← buildModules sources allocator
      let design ← withTop top sources (modules.foldl Design.insert (Design.empty last))
      design.resolved?) := by
  unfold readText sourcesOf withTop
  rw [bind_assoc]
  refine bind_congr fun root => bind_congr fun sources => bind_congr fun (modules, last) => ?_
  dsimp only
  cases top.or ((busiest? sources).map ModuleSource.name) with
  | some name => rfl
  | none => rfl

/-- Asking for a top fails only if it is not there. -/
theorem withTop_cases (top : Option String) {sources : List ModuleSource} {design : Design}
    (names : design.modules.map Module.name = sources.map ModuleSource.name) :
    (∃ asked, withTop top sources design = .ok asked ∧ asked.allocator = design.allocator ∧
      asked.modules = design.modules ∧ ∀ name, top = some name →
        name ∈ sources.map ModuleSource.name) ∨
    ∃ name, top = some name ∧ name ∉ sources.map ModuleSource.name ∧
      withTop top sources design = .error (.unresolvedSubcircuit name Design.topParent) := by
  rw [← names]
  unfold withTop
  cases top with
  | some name =>
    dsimp only [Option.some_or]
    rcases design.setTop_cases name with ⟨isName, asked, isAsked⟩ | ⟨isMissing, failed⟩
    · obtain ⟨sameAllocator, sameModules⟩ := Design.setTop_eq_ok isAsked
      refine Or.inl ⟨asked, isAsked, sameAllocator, sameModules, ?_⟩
      rintro _ ⟨⟩
      exact isName
    · exact Or.inr ⟨name, rfl, isMissing, failed⟩
  | none =>
    left
    rw [Option.none_or]
    cases isBusiest : busiest? sources with
    | none => exact ⟨design, rfl, rfl, rfl, fun name none => nomatch none⟩
    | some source =>
      have isName : source.name ∈ design.modules.map Module.name := by
        rw [names]
        exact List.mem_map_of_mem (mem_of_busiest? isBusiest)
      rcases design.setTop_cases source.name with ⟨_, asked, isAsked⟩ | ⟨isMissing, _⟩
      · obtain ⟨sameAllocator, sameModules⟩ := Design.setTop_eq_ok isAsked
        exact ⟨asked, isAsked, sameAllocator, sameModules, fun name none => nomatch none⟩
      · exact absurd isName isMissing

/-! ### Reading -/

theorem hasDistinctNames_of_sourcesOf {text : String} {sources : List ModuleSource}
    (decoded : sourcesOf text = .ok sources) :
    (sources.map ModuleSource.name).Nodup ∧ ∀ source ∈ sources, source.HasDistinctNames := by
  obtain ⟨root, isRoot, decoded⟩ := eq_ok_of_bind decoded
  cases read : Json.read text with
  | error line =>
    rw [read] at isRoot
    cases isRoot
  | ok value =>
    rw [read] at isRoot
    cases isRoot
    exact hasDistinctNames_of_moduleSources decoded (Json.hasDistinctNames_of_read read)

/-- Reading fails for a fault of the text unless all modules can be built. -/
theorem failsTextually_or_built (allocator : Allocator) (top : Option String) (text : String) :
    FailsTextually (readText allocator top text) ∨ ∃ sources modules last,
      sourcesOf text = .ok sources ∧ buildModules sources allocator = .ok (modules, last) := by
  rw [readText_eq]
  cases decoded : sourcesOf text with
  | error error =>
    left
    rintro _ ⟨⟩
    exact failsTextually_sourcesOf text error decoded
  | ok sources =>
    cases built : buildModules sources allocator with
    | error error =>
      left
      intro other failed
      change (buildModules sources allocator >>= _) = _ at failed
      rw [built] at failed
      cases failed
      exact failsTextually_buildModules sources allocator error built
    | ok outcome => exact Or.inr ⟨sources, outcome.1, outcome.2, rfl, built⟩

section

variable {allocator last : Allocator} {text : String} {sources : List ModuleSource}
  {modules : List Module} (decoded : sourcesOf text = .ok sources)
  (built : buildModules sources allocator = .ok (modules, last))

include decoded built

theorem isBuilt_of_sourcesOf : List.Forall₂ (IsBuilt sources last) sources modules :=
  (makes_buildModules_isBuilt (hasDistinctNames_of_sourcesOf decoded).2 modules last built).2

theorem names_of_built : modules.map Module.name = sources.map ModuleSource.name := by
  rw [← List.forall₂_eq_eq_eq, List.forall₂_map_left_iff, List.forall₂_map_right_iff]
  exact (isBuilt_of_sourcesOf decoded built).flip.imp fun _ _ ofSource => ofSource.name

/-- Modules that were built are resolved in the end, unless a top is asked for that is not
there. -/
theorem readText_of_built (top : Option String) :
    (∃ asked : Design, asked.allocator = last ∧ asked.modules = modules ∧
      readText allocator top text = asked.resolved? ∧
        ∀ name, top = some name → name ∈ sources.map ModuleSource.name) ∨
    ∃ name, top = some name ∧ name ∉ sources.map ModuleSource.name ∧
      readText allocator top text = .error (.unresolvedSubcircuit name Design.topParent) := by
  have names := names_of_built decoded built
  have distinct : ((Design.empty last).modules.map Module.name ++
      modules.map Module.name).Nodup := by
    rw [names]
    exact (hasDistinctNames_of_sourcesOf decoded).1
  have sameModules := modules_foldl_insert distinct
  have sameAllocator := allocator_foldl_insert modules (Design.empty last)
  have reads : readText allocator top text =
      withTop top sources (modules.foldl Design.insert (Design.empty last)) >>=
        Design.resolved? := by
    rw [readText_eq, decoded]
    change (buildModules sources allocator >>= _) = _
    rw [built]
    rfl
  have designNames : (modules.foldl Design.insert (Design.empty last)).modules.map Module.name =
      sources.map ModuleSource.name := by
    rw [sameModules]
    exact names
  rcases withTop_cases top designNames with ⟨asked, isAsked, askedAllocator, askedModules, isTop⟩ |
      ⟨name, isTop, isMissing, failed⟩
  · refine Or.inl ⟨asked, askedAllocator.trans sameAllocator, askedModules.trans sameModules, ?_,
      isTop⟩
    rw [reads, isAsked]
    rfl
  · refine Or.inr ⟨name, isTop, isMissing, ?_⟩
    rw [reads, failed]
    rfl

/-- A design with the modules that were built is resolved unless a pairing clashes with a
constant. -/
theorem resolved?_of_built {asked : Design} (sameAllocator : asked.allocator = last)
    (sameModules : asked.modules = modules) :
    ((∃ design, asked.resolved? = .ok design) ↔
      ∀ module callee pairing, ¬ Clashes last.domain modules module callee pairing) ∧
    ∀ error, asked.resolved? = .error error → ∃ module callee pairing,
      Clashes last.domain modules module callee pairing ∧
        error = .constantPort module.name callee.name (last.describe pairing.caller) := by
  subst sameAllocator sameModules
  apply Design.resolved?_of_binds
  · rw [names_of_built decoded built]
    exact (hasDistinctNames_of_sourcesOf decoded).1
  · exact fun module isModule inner isInner =>
      exists_callee_of_isBuilt (isBuilt_of_sourcesOf decoded built) isModule isInner

end

/-- Reading fails for a fault of the text, for a top that is not there, or for a constant
port. -/
theorem error_of_readText {allocator : Allocator} {top : Option String} {text : String}
    {error : Error} (failed : readText allocator top text = .error error) :
    error.IsTextual ∨
      (∃ name sources, top = some name ∧ sourcesOf text = .ok sources ∧
        name ∉ sources.map ModuleSource.name ∧
        error = .unresolvedSubcircuit name Design.topParent) ∨
      ∃ module callee wire, error = .constantPort module callee wire := by
  rcases failsTextually_or_built allocator top text with
    textual | ⟨sources, modules, last, decoded, built⟩
  · exact Or.inl (textual error failed)
  · rcases readText_of_built decoded built top with
      ⟨asked, sameAllocator, sameModules, reads, _⟩ | ⟨name, isTop, isMissing, missing⟩
    · rw [reads] at failed
      obtain ⟨module, callee, pairing, _, isError⟩ :=
        (resolved?_of_built decoded built sameAllocator sameModules).2 error failed
      exact Or.inr (Or.inr ⟨_, _, _, isError⟩)
    · rw [missing] at failed
      cases failed
      exact Or.inr (Or.inl ⟨name, sources, isTop, decoded, isMissing, rfl⟩)

/-- Whatever stands in a text, no pairing of an instance is unmatched, and only a top that is
asked for can be missing. If all modules can be built, each instance has one pairing for each bit
of each connection, to the bit of the callee's port in its place. They are then resolved, and stay
as they are otherwise, unless one of these pairings clashes with a constant. -/
theorem readText_resolution (allocator : Allocator) (top : Option String) (text : String) :
    (∀ module callee wire,
      readText allocator top text ≠ .error (.unmatchedPairing module callee wire)) ∧
    (∀ callee parent, readText allocator top text = .error (.unresolvedSubcircuit callee parent) →
      top = some callee ∧ ∃ sources, sourcesOf text = .ok sources ∧
        callee ∉ sources.map ModuleSource.name) ∧
    ∀ sources modules last, sourcesOf text = .ok sources →
      buildModules sources allocator = .ok (modules, last) →
      List.Forall₂ (IsBuilt sources last) sources modules ∧
      ((∀ name, top = some name → name ∈ sources.map ModuleSource.name) →
        ((∃ design, readText allocator top text = .ok design) ↔
          ∀ module callee pairing, ¬ Clashes last.domain modules module callee pairing) ∧
        (∀ error, readText allocator top text = .error error → ∃ module callee pairing,
          Clashes last.domain modules module callee pairing ∧
            error = .constantPort module.name callee.name (last.describe pairing.caller)) ∧
        ∀ design, readText allocator top text = .ok design → design.allocator = last ∧
          List.Forall₂ Module.SameButDirections modules design.modules) := by
  refine ⟨?_, ?_, ?_⟩
  · intro module callee wire failed
    rcases error_of_readText failed with textual | ⟨_, _, _, _, _, isError⟩ | ⟨_, _, _, isError⟩
    · exact textual
    · cases isError
    · cases isError
  · intro callee parent failed
    rcases error_of_readText failed with
      textual | ⟨name, sources, isTop, decoded, isMissing, isError⟩ | ⟨_, _, _, isError⟩
    · exact textual.elim
    · cases isError
      exact ⟨isTop, sources, decoded, isMissing⟩
    · cases isError
  · intro sources modules last decoded built
    refine ⟨isBuilt_of_sourcesOf decoded built, fun isThere => ?_⟩
    rcases readText_of_built decoded built top with ⟨asked, sameAllocator, sameModules, reads, _⟩ |
      ⟨name, isTop, isMissing, _⟩
    · obtain ⟨succeeds, fails⟩ := resolved?_of_built decoded built sameAllocator sameModules
      rw [reads]
      refine ⟨succeeds, fails, fun design resolved => ?_⟩
      obtain ⟨allocator, _, resolves⟩ := Design.resolved?_eq_ok resolved
      rw [sameModules] at resolves
      exact ⟨allocator.trans sameAllocator, resolves.imp fun _ _ step => step.same⟩
    · exact absurd (isThere name isTop) isMissing

/-- A module with a port that is a constant, which another one binds to the given bit. -/
def tiedText (bit : String) : String :=
  "\x7b\"modules\":\x7b" ++
  "\"top\":\x7b\"ports\":\x7b\"a\":\x7b\"direction\":\"input\",\"bits\":[2]\x7d\x7d," ++
  "\"cells\":\x7b\"u\":\x7b\"type\":\"leaf\"," ++
  "\"connections\":\x7b\"p\":[2,\"" ++ bit ++ "\"]\x7d\x7d\x7d\x7d," ++
  "\"leaf\":\x7b\"ports\":\x7b\"p\":\x7b\"direction\":\"input\"," ++
  "\"bits\":[3,\"1\"]\x7d\x7d\x7d\x7d\x7d"

def tiedSources (bit : String) : List ModuleSource :=
  [⟨"top", [("a", ⟨"input", [.net 2]⟩)],
      [("u", ⟨"leaf", .null, .object [("p", .array [.number (.natural 2), .string bit])]⟩)]⟩,
    ⟨"leaf", [("p", ⟨"input", [.net 3, .constant "1"]⟩)], []⟩]

def tiedModules (wire : Wire) : List Module :=
  [⟨"top", .boolean, [2], [], [], [.unresolved "leaf" [⟨2, 3⟩, ⟨wire, 1⟩]]⟩,
    ⟨"leaf", .boolean, [1, 3], [], [], []⟩]

def tiedAllocator : Allocator :=
  ⟨.boolean, ["2", "3"], by decide, by decide⟩

/-- The value of the text. -/
def tiedValue (bit : String) : Json.Value :=
  .object [("modules", .object [
    ("top", .object [
      ("ports", .object [("a", .object [("direction", .string "input"),
        ("bits", .array [.number (.natural 2)])])]),
      ("cells", .object [("u", .object [("type", .string "leaf"),
        ("connections", .object [("p", .array [.number (.natural 2), .string bit])])])])]),
    ("leaf", .object [
      ("ports", .object [("p", .object [("direction", .string "input"),
        ("bits", .array [.number (.natural 3), .string "1"])])])])])]

set_option maxRecDepth 4000 in
theorem read_tiedText :
    Json.read (tiedText "0") = .ok (tiedValue "0") ∧ Json.read (tiedText "1") = .ok (tiedValue "1")
    := by
  constructor <;>
  · unfold Json.read tiedText
    repeat rw [String.toList_append]
    cbv

theorem sourcesOf_tiedText : sourcesOf (tiedText "0") = .ok (tiedSources "0") ∧
    sourcesOf (tiedText "1") = .ok (tiedSources "1") := by
  obtain ⟨zero, one⟩ := read_tiedText
  rw [sourcesOf, sourcesOf, zero, one]
  exact ⟨rfl, rfl⟩

theorem buildModules_tiedSources :
    buildModules (tiedSources "0") (.empty .boolean) = .ok (tiedModules 0, tiedAllocator) ∧
      buildModules (tiedSources "1") (.empty .boolean) = .ok (tiedModules 1, tiedAllocator) := by
  constructor <;> cbv

/-- Only the pairing to the constant can clash, and it does unless it is to the same one. -/
theorem clashes_tiedModules {wire : Wire} {module callee : Module} {pairing : Pairing}
    (clash : Clashes .boolean (tiedModules wire) module callee pairing) :
    module.name = "top" ∧ callee.name = "leaf" ∧ pairing = ⟨wire, 1⟩ ∧ wire ≠ 1 := by
  obtain ⟨inner, isInner, named, member⟩ := clash.isBound
  rcases List.mem_pair.1 clash.isModule with rfl | rfl
  · rw [List.mem_singleton.1 isInner] at named member
    rcases List.mem_pair.1 member with rfl | rfl
    · exact absurd clash.isConstant (by decide)
    · exact ⟨rfl, named.symm, rfl, clash.differs⟩
  · cases isInner

theorem exists_clash_tiedModules : ∃ module callee pairing,
    Clashes .boolean (tiedModules 0) module callee pairing :=
  ⟨_, _, ⟨0, 1⟩, List.mem_cons_self, List.mem_cons_of_mem _ List.mem_cons_self,
    ⟨_, List.mem_cons_self, rfl, by decide⟩, by decide, by decide, Or.inl (by decide)⟩

/-- A constant port may be bound to the same constant, but not to another one. -/
theorem readText_resolution_tied :
    sourcesOf (tiedText "0") = .ok (tiedSources "0") ∧
      sourcesOf (tiedText "1") = .ok (tiedSources "1") ∧
      buildModules (tiedSources "0") (.empty .boolean) = .ok (tiedModules 0, tiedAllocator) ∧
      buildModules (tiedSources "1") (.empty .boolean) = .ok (tiedModules 1, tiedAllocator) ∧
      readText (.empty .boolean) none (tiedText "0") =
        .error (.constantPort "top" "leaf" falseName) ∧
      ∃ design, readText (.empty .boolean) none (tiedText "1") = .ok design := by
  obtain ⟨zero, one⟩ := sourcesOf_tiedText
  obtain ⟨zeroBuilt, oneBuilt⟩ := buildModules_tiedSources
  refine ⟨zero, one, zeroBuilt, oneBuilt, ?_, ?_⟩
  · obtain ⟨_, resolution⟩ :=
      (readText_resolution (.empty .boolean) none (tiedText "0")).2.2 _ _ _ zero zeroBuilt
    obtain ⟨succeeds, fails, _⟩ := resolution fun name none => nomatch none
    cases outcome : readText (.empty .boolean) none (tiedText "0") with
    | ok design =>
      obtain ⟨module, callee, pairing, clash⟩ := exists_clash_tiedModules
      exact absurd clash (succeeds.1 ⟨design, outcome⟩ module callee pairing)
    | error error =>
      obtain ⟨module, callee, pairing, clash, rfl⟩ := fails error outcome
      obtain ⟨isTop, isLeaf, rfl, _⟩ := clashes_tiedModules clash
      rw [isTop, isLeaf]
      rfl
  · obtain ⟨_, resolution⟩ :=
      (readText_resolution (.empty .boolean) none (tiedText "1")).2.2 _ _ _ one oneBuilt
    obtain ⟨succeeds, _, _⟩ := resolution fun name none => nomatch none
    exact succeeds.2 fun module callee pairing clash => (clashes_tiedModules clash).2.2.2 rfl

end Yosys

end Netlist
