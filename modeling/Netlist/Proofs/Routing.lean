import Mathlib.Data.List.Pairwise
import Mathlib.Logic.Equiv.List
import Netlist.Proofs.Occurrences
import Netlist.Proofs.Scopes

/-!
# Routing

A routing says which flat wire each wire of each occurrence became. Wires of the
top and constants stay what they are, a bound wire goes where its source goes, and
every other wire has a flat wire of its own above all wires in use
(`Design.IsRouting`). Flattening follows some routing: its gates are the gates of
the top and then those of all occurrences, routed (`exists_routing`).

The proof runs along the expansion and collects the last scope of every
occurrence (`Design.Traces`); the routing reads the flat wires off these scopes.
-/

namespace Netlist

/-- The flat wires of all wires at all paths. -/
abbrev Route := Design.InstancePath → Wire → Wire

namespace Occurrence

/-- The gates of an occurrence: copies for its constant output ports, then the
gates of its callee. -/
def gates (domain : Domain) (route : Route) (occurrence : Occurrence) : List Gate :=
  portCopies domain occurrence.inner.outputs (route occurrence.path.tail)
      occurrence.inner.pairings ++
    occurrence.callee.gates.map (Gate.rename (route occurrence.path))

/-- The wire is the callee's own: it is no constant, and no pairing binds it. -/
def IsOwn (domain : Domain) (occurrence : Occurrence) (wire : Wire) : Prop :=
  ¬ domain.IsConstant wire ∧ source? occurrence.inner.pairings wire = none

end Occurrence

namespace Design

/-- A routing of the wires below a top. -/
structure IsRouting (design : Design) (top : Module) (route : Route) : Prop where
  top_wire : ∀ wire, route [] wire = wire
  constant : ∀ path {wire}, design.domain.IsConstant wire → route path wire = wire
  bound : ∀ {occurrence}, design.Occurs top occurrence → ∀ {wire source},
    ¬ design.domain.IsConstant wire → source? occurrence.inner.pairings wire = some source →
      route occurrence.path wire = route occurrence.path.tail source
  fresh : ∀ {occurrence}, design.Occurs top occurrence → ∀ {wire},
    occurrence.IsOwn design.domain wire → design.allocator.next ≤ route occurrence.path wire
  distinct : ∀ {one other}, design.Occurs top one → design.Occurs top other →
    ∀ {first second}, one.IsOwn design.domain first → other.IsOwn design.domain second →
      route one.path first = route other.path second → one.path = other.path ∧ first = second

/-- The gates of the top, then those of all occurrences below it, routed. -/
def routedGates (design : Design) (top : Module) (route : Route) : List Gate :=
  top.gates ++ (design.occurrencesBelow top).flatMap (Occurrence.gates design.domain route)

/-- The flat circuit of a top, along a routing. -/
def routedCircuit (design : Design) (top : Module) (route : Route) : Circuit :=
  ⟨top.name, top.domain, top.inputs, top.outputs, design.routedGates top route⟩

/-- Routed gates are the gates of all modules of the hierarchy, and copies for constant
output ports. -/
theorem mem_routedGates_iff {design : Design} {top : Module} {route : Route}
    (unfolds : design.Unfolds [top.name] top.instances) (isRouting : design.IsRouting top route)
    {gate : Gate} :
    gate ∈ design.routedGates top route ↔
      (∃ path module original, design.At top path module ∧ original ∈ module.gates ∧
        original.rename (route path) = gate) ∨
      ∃ occurrence, design.Occurs top occurrence ∧
        gate ∈ portCopies design.domain occurrence.inner.outputs (route occurrence.path.tail)
          occurrence.inner.pairings := by
  have topGate : ∀ gate : Gate, gate.rename (route []) = gate := by
    intro gate
    have same : route [] = id := funext isRouting.top_wire
    rw [same, Gate.rename_id]
  rw [routedGates, List.mem_append, List.mem_flatMap]
  constructor
  · rintro (inTop | ⟨occurrence, member, inGates⟩)
    · exact Or.inl ⟨[], top, gate, At.top, inTop, topGate gate⟩
    · have occurs := (mem_occurrencesBelow_iff unfolds).1 member
      rcases List.mem_append.1 inGates with isCopy | isGate
      · exact Or.inr ⟨occurrence, occurs, isCopy⟩
      · obtain ⟨original, originalMember, same⟩ := List.mem_map.1 isGate
        exact Or.inl ⟨_, _, original, occurs.at, originalMember, same⟩
  · rintro (⟨path, module, original, reached, originalMember, rfl⟩ | ⟨occurrence, occurs, isCopy⟩)
    · cases reached with
      | top =>
        rw [topGate]
        exact Or.inl originalMember
      | @inner path caller callee place inner above here found =>
        refine Or.inr ⟨⟨place :: path, inner, module⟩, ?_, ?_⟩
        · exact (mem_occurrencesBelow_iff unfolds).2 ⟨place, path, caller, rfl, above, here, found⟩
        · exact List.mem_append_right _ (List.mem_map.2 ⟨original, originalMember, rfl⟩)
    · exact Or.inr ⟨occurrence, (mem_occurrencesBelow_iff unfolds).2 occurs,
        List.mem_append_left _ isCopy⟩

/-! ### Scopes of occurrences -/

/-- The scope of the occurrence gives a flat wire to a wire of its own. -/
def Owns (domain : Domain) (entry : Occurrence × Scope) (wire flat : Wire) : Prop :=
  entry.1.IsOwn domain wire ∧ entry.2.known? domain wire = some flat

/-- Two occurrences share a flat wire only if they are the same, and so are the
wires. -/
def Apart (domain : Domain) (one other : Occurrence × Scope) : Prop :=
  ∀ first second flat, Owns domain one first flat → Owns domain other second flat →
    one.1.path = other.1.path ∧ first = second

instance (domain : Domain) : Std.Symm (Apart domain) where
  symm one other apart second first flat secondOwns firstOwns := by
    obtain ⟨samePath, sameWire⟩ := apart first second flat firstOwns secondOwns
    exact ⟨samePath.symm, sameWire.symm⟩

/-- The last scopes of the occurrences that an expansion came to. -/
structure Traces (domain : Domain) (path : InstancePath) (caller : Numbering)
    (expansion : Expansion) (entries : List (Occurrence × Scope)) : Prop where
  /-- The gates are those of the occurrences, for each route that agrees with what
  is known in the end. -/
  gates : ∀ route : Route, expansion.caller.scope.Agrees domain (route path) →
    (∀ entry ∈ entries, entry.2.Agrees domain (route entry.1.path)) →
      expansion.gates = (entries.map Prod.fst).flatMap (Occurrence.gates domain route)
  /-- Bound wires follow their sources. -/
  bound : ∀ route : Route, expansion.caller.scope.Agrees domain (route path) →
    (∀ entry ∈ entries, entry.2.Agrees domain (route entry.1.path)) →
      ∀ entry ∈ entries, ∀ wire source, ¬ domain.IsConstant wire →
        source? entry.1.inner.pairings wire = some source →
          entry.2.known? domain wire = some (route entry.1.path.tail source)
  /-- Own wires have flat wires that the expansion took. -/
  between : ∀ entry ∈ entries, ∀ wire flat, Owns domain entry wire flat →
    caller.next ≤ flat ∧ flat < expansion.caller.next
  /-- No wire that became known to the caller shares one of them. -/
  unshared : ∀ entry ∈ entries, ∀ wire flat, Owns domain entry wire flat →
    ∀ other, caller.scope.known? domain other = none →
      expansion.caller.scope.known? domain other ≠ some flat
  apart : entries.Pairwise (Apart domain)
  apart_self : ∀ entry ∈ entries, Apart domain entry entry

/-- Nothing is to be accounted for where there are no instances. -/
theorem Traces.nil (domain : Domain) (path : InstancePath) (caller : Numbering) :
    Traces domain path caller ⟨[], caller⟩ [] :=
  ⟨fun _ _ _ => rfl, by simp, by simp, by simp, List.Pairwise.nil, by simp⟩

/-! ### One instance -/

/-- The expansion of an instance and of those behind it: its ports are bound, its
gates translated, its own instances expanded, and then the others. -/
structure Expands (domain : Domain) (caller : Numbering) (inner : Instance) (callee : Module)
    (binding : Binding) (translated : List Gate × Numbering) (nested others : Expansion) :
    Prop where
  binds : Numbering.Extends domain caller binding.caller
  ports : ∀ relabel, binding.caller.scope.Agrees domain relabel →
    binding.copies = portCopies domain inner.outputs relabel inner.pairings ∧
      binding.bindings = portBindings domain relabel inner.pairings
  translates : Numbering.Extends domain ⟨.inner binding.bindings, binding.caller.next⟩ translated.2
  gates : ∀ relabel, translated.2.scope.Agrees domain relabel →
    translated.1 = callee.gates.map (Gate.rename relabel)
  below : Numbering.Extends domain translated.2 nested.caller
  behind : Numbering.Extends domain ⟨binding.caller.scope, nested.caller.next⟩ others.caller

namespace Expands

variable {domain : Domain} {caller : Numbering} {inner : Instance} {callee : Module}
  {binding : Binding} {translated : List Gate × Numbering} {nested others : Expansion}
  (step : Expands domain caller inner callee binding translated nested others)

include step

/-- The scope of the instance only grows. -/
theorem grows :
    Numbering.Extends domain ⟨.inner binding.bindings, binding.caller.next⟩ nested.caller :=
  step.translates.trans step.below

/-- The scope of the caller only grows. -/
theorem callerGrows : Numbering.Extends domain caller others.caller :=
  step.binds.trans ((Numbering.Extends.skip _ step.grows.next_le).trans step.behind)

theorem agrees {relabel : Wire → Wire} (agrees : others.caller.scope.Agrees domain relabel) :
    binding.caller.scope.Agrees domain relabel :=
  step.behind.agrees agrees

theorem known?_of_source {relabel : Wire → Wire}
    (agrees : binding.caller.scope.Agrees domain relabel) {wire : Wire}
    (inconstant : ¬ domain.IsConstant wire) :
    (Scope.inner binding.bindings).known? domain wire =
      (source? inner.pairings wire).map relabel := by
  rw [(step.ports relabel agrees).2]
  exact known?_portBindings relabel inner.pairings inconstant

/-- Own wires get fresh flat wires while the instance is expanded. -/
theorem between {path : InstancePath} {wire flat : Wire}
    (owns : Owns domain (⟨path, inner, callee⟩, nested.caller.scope) wire flat) :
    binding.caller.next ≤ flat ∧ flat < nested.caller.next := by
  obtain ⟨⟨inconstant, unbound⟩, known⟩ := owns
  obtain ⟨relabel, agrees⟩ := binding.caller.scope.exists_agrees domain
  refine step.grows.fresh ?_ known
  rw [step.known?_of_source agrees inconstant, unbound, Option.map_none]

theorem apart_self {path : InstancePath} :
    Apart domain (⟨path, inner, callee⟩, nested.caller.scope)
      (⟨path, inner, callee⟩, nested.caller.scope) := by
  intro first second flat firstOwns secondOwns
  obtain ⟨⟨firstInconstant, firstUnbound⟩, firstKnown⟩ := firstOwns
  obtain ⟨⟨secondInconstant, secondUnbound⟩, secondKnown⟩ := secondOwns
  obtain ⟨relabel, agrees⟩ := binding.caller.scope.exists_agrees domain
  refine ⟨rfl, step.grows.distinct ?_ ?_ firstKnown secondKnown⟩
  · rw [step.known?_of_source agrees firstInconstant, firstUnbound, Option.map_none]
  · rw [step.known?_of_source agrees secondInconstant, secondUnbound, Option.map_none]

/-- The caller learns nothing of the flat wires taken inside the instance. -/
theorem unshared {flat other : Wire} (low : binding.caller.next ≤ flat)
    (high : flat < nested.caller.next) (unknown : caller.scope.known? domain other = none) :
    others.caller.scope.known? domain other ≠ some flat := by
  intro known
  cases early : binding.caller.scope.known? domain other with
  | some earlier =>
    have kept := step.behind.keeps early
    rw [known] at kept
    cases kept
    exact absurd (step.binds.fresh unknown early).2 (Nat.not_lt_of_le low)
  | none =>
    exact absurd high (Nat.not_lt_of_le (step.behind.fresh early known).1)

end Expands

section

variable {domain : Domain} {path : InstancePath} {place : Nat} {caller : Numbering}
  {inner : Instance} {callee : Module} {binding : Binding} {translated : List Gate × Numbering}
  {nested others : Expansion} {belowEntries behindEntries : List (Occurrence × Scope)}
  (step : Expands domain caller inner callee binding translated nested others)
  (below : Traces domain (place :: path) translated.2 nested belowEntries)

include step below

/-- Own wires of the instance and of all occurrences below it get their flat wires while
it is expanded. -/
theorem Expands.inside {entry : Occurrence × Scope}
    (member : entry ∈ (⟨place :: path, inner, callee⟩, nested.caller.scope) :: belowEntries)
    {wire flat : Wire} (owns : Owns domain entry wire flat) :
    binding.caller.next ≤ flat ∧ flat < nested.caller.next := by
  rcases List.mem_cons.1 member with rfl | inBelow
  · exact step.between owns
  · obtain ⟨low, high⟩ := below.between entry inBelow wire flat owns
    exact ⟨Nat.le_trans step.translates.next_le low, high⟩

/-- An instance shares no flat wire with the occurrences below it. -/
theorem Expands.apart_below {entry : Occurrence × Scope} (member : entry ∈ belowEntries) :
    Apart domain (⟨place :: path, inner, callee⟩, nested.caller.scope) entry := by
  intro first second flat headOwns owns
  exfalso
  cases known : translated.2.scope.known? domain first with
  | none => exact below.unshared entry member second flat owns first known headOwns.2
  | some earlier =>
    -- the instance knew the flat wire before those below it took theirs
    have kept := step.below.keeps known
    rw [headOwns.2] at kept
    cases kept
    obtain ⟨⟨inconstant, unbound⟩, _⟩ := headOwns
    obtain ⟨relabel, agrees⟩ := binding.caller.scope.exists_agrees domain
    have unknown : (Scope.inner binding.bindings).known? domain first = none := by
      rw [step.known?_of_source agrees inconstant, unbound, Option.map_none]
    have tooLow := (step.translates.fresh unknown known).2
    exact absurd tooLow (Nat.not_lt_of_le (below.between entry member second flat owns).1)

variable (behind : Traces domain path ⟨binding.caller.scope, nested.caller.next⟩ others
  behindEntries)

include behind

omit below in
/-- The caller learns nothing of the flat wires taken behind the instance. -/
theorem Expands.unshared_behind {entry : Occurrence × Scope} (member : entry ∈ behindEntries)
    {wire flat other : Wire} (owns : Owns domain entry wire flat)
    (unknown : caller.scope.known? domain other = none) :
    others.caller.scope.known? domain other ≠ some flat := by
  cases known : binding.caller.scope.known? domain other with
  | none => exact behind.unshared entry member wire flat owns other known
  | some earlier =>
    rw [step.behind.keeps known]
    rintro ⟨⟩
    have tooLow := (step.binds.fresh unknown known).2
    have low := (behind.between entry member wire flat owns).1
    exact absurd tooLow (Nat.not_lt_of_le (Nat.le_trans step.grows.next_le low))

/-- The scopes of an instance, of the occurrences below it, and of those behind it
account for the whole expansion. -/
theorem Traces.cons :
    Traces domain path caller
      ⟨binding.copies ++ translated.1 ++ nested.gates ++ others.gates, others.caller⟩
      ((⟨place :: path, inner, callee⟩, nested.caller.scope) ::
        (belowEntries ++ behindEntries)) := by
  -- an entry is inside the instance or behind it
  have parts : ∀ entry, entry ∈ (⟨place :: path, inner, callee⟩, nested.caller.scope) ::
      (belowEntries ++ behindEntries) →
        entry ∈ (⟨place :: path, inner, callee⟩, nested.caller.scope) :: belowEntries ∨
          entry ∈ behindEntries :=
    fun _ member => List.mem_append.1 member
  constructor
  case gates =>
    intro route callerAgrees agrees
    have headAgrees := agrees _ List.mem_cons_self
    have belowAgrees := fun entry member =>
      agrees entry (List.mem_cons_of_mem _ (List.mem_append_left _ member))
    have behindAgrees := fun entry member =>
      agrees entry (List.mem_cons_of_mem _ (List.mem_append_right _ member))
    dsimp only at headAgrees ⊢
    rw [(step.ports _ (step.agrees callerAgrees)).1, step.gates _ (step.below.agrees headAgrees),
      below.gates route headAgrees belowAgrees, behind.gates route callerAgrees behindAgrees,
      List.map_cons, List.map_append, List.flatMap_cons, List.flatMap_append, ← List.append_assoc]
    rfl
  case bound =>
    intro route callerAgrees agrees entry member wire source inconstant bound
    have headAgrees := agrees _ List.mem_cons_self
    rcases List.mem_cons.1 member with rfl | member
    · apply step.grows.keeps
      rw [step.known?_of_source (step.agrees callerAgrees) inconstant, bound]
      rfl
    · rcases List.mem_append.1 member with inBelow | inBehind
      · exact below.bound route headAgrees (fun entry member =>
          agrees entry (List.mem_cons_of_mem _ (List.mem_append_left _ member)))
          entry inBelow wire source inconstant bound
      · exact behind.bound route callerAgrees (fun entry member =>
          agrees entry (List.mem_cons_of_mem _ (List.mem_append_right _ member)))
          entry inBehind wire source inconstant bound
  case between =>
    intro entry member wire flat owns
    have start := step.binds.next_le
    have finish := step.behind.next_le
    rcases parts entry member with isInside | inBehind
    · obtain ⟨low, high⟩ := step.inside below isInside owns
      exact ⟨Nat.le_trans start low, Nat.lt_of_lt_of_le high finish⟩
    · obtain ⟨low, high⟩ := behind.between entry inBehind wire flat owns
      exact ⟨Nat.le_trans start (Nat.le_trans step.grows.next_le low), high⟩
  case unshared =>
    intro entry member wire flat owns other unknown
    rcases parts entry member with isInside | inBehind
    · obtain ⟨low, high⟩ := step.inside below isInside owns
      exact step.unshared low high unknown
    · exact step.unshared_behind behind inBehind owns unknown
  case apart =>
    rw [← List.cons_append, List.pairwise_append, List.pairwise_cons]
    refine ⟨⟨fun entry => step.apart_below below, below.apart⟩, behind.apart, ?_⟩
    intro one isInside other inBehind first second flat oneOwns otherOwns
    have high := (step.inside below isInside oneOwns).2
    exact absurd high (Nat.not_lt_of_le (behind.between other inBehind second flat otherOwns).1)
  case apart_self =>
    intro entry member
    rcases List.mem_cons.1 member with rfl | member
    · exact step.apart_self
    · rcases List.mem_append.1 member with inBelow | inBehind
      · exact below.apart_self entry inBelow
      · exact behind.apart_self entry inBehind

end

/-- Every successful expansion leaves scopes that account for it. -/
theorem exists_traces {design : Design} {active : List String} {instances : List Instance}
    (unfolds : design.Unfolds active instances) {caller : Numbering} {expansion : Expansion}
    (expanded : (design.expand active caller instances).result = .ok expansion)
    (path : InstancePath) (place : Nat) :
    Numbering.Extends design.domain caller expansion.caller ∧
      ∃ entries, entries.map Prod.fst = design.occurrences active path place instances ∧
        Traces design.domain path caller expansion entries := by
  induction unfolds generalizing caller expansion path place with
  | nil =>
    rw [expand] at expanded
    cases expanded
    exact ⟨Numbering.Extends.refl _, [], by rw [occurrences, List.map_nil], Traces.nil _ _ _⟩
  | cons found inactive _ _ below behind =>
    obtain ⟨callee, nested, others, binding, translated, calleeFound, _, bindingEq, translatedEq,
      nestedOk, othersOk, rfl⟩ := expand_cons_eq_ok expanded
    rw [found] at calleeFound
    cases calleeFound
    obtain ⟨belowGrows, belowEntries, belowSame, belowTraces⟩ := below nestedOk (place :: path) 0
    obtain ⟨behindGrows, behindEntries, behindSame, behindTraces⟩ :=
      behind othersOk path (place + 1)
    obtain ⟨binds, ports⟩ := bindPairings_spec design.domain _ _ [] caller
    obtain ⟨translates, gates⟩ := Numbering.flatGates_spec design.domain _
      ⟨.inner binding.bindings, binding.caller.next⟩
    rw [← bindingEq] at binds ports
    rw [← translatedEq] at translates gates
    simp only [List.append_nil] at ports
    have step : Expands design.domain caller _ _ binding translated nested others :=
      ⟨binds, ports, translates, gates, belowGrows, behindGrows⟩
    refine ⟨step.callerGrows, _, ?_, Traces.cons step belowTraces behindTraces⟩
    rw [occurrences_cons found inactive, List.map_cons, List.map_append, belowSame, behindSame]

/-! ### The routing of a flat circuit -/

/-- The flat wires that some scopes give. Wires that no scope knows get distinct
flat wires from a limit on. -/
def routeOf (domain : Domain) (limit : Wire) (entries : List (Occurrence × Scope)) : Route :=
  fun path wire =>
    if path = [] ∨ domain.IsConstant wire then wire
    else ((entries.find? fun entry => entry.1.path = path).bind fun entry =>
      entry.2.known? domain wire).getD (limit + Encodable.encode (path, wire))

theorem routeOf_nil (domain : Domain) (limit : Wire) (entries : List (Occurrence × Scope))
    (wire : Wire) : routeOf domain limit entries [] wire = wire := by
  simp [routeOf]

theorem routeOf_of_constant {domain : Domain} (limit : Wire) (entries : List (Occurrence × Scope))
    (path : InstancePath) {wire : Wire} (constant : domain.IsConstant wire) :
    routeOf domain limit entries path wire = wire := by
  simp [routeOf, constant]

section Entries

variable {domain : Domain} {entries : List (Occurrence × Scope)} {entry : Occurrence × Scope}
  (limit : Wire) (nodup : (entries.map fun entry => entry.1.path).Nodup)
  (member : entry ∈ entries) (inner : entry.1.path ≠ []) {wire : Wire}

include nodup member

theorem find?_of_mem :
    entries.find? (fun other => other.1.path = entry.1.path) = some entry := by
  induction entries with
  | nil => cases member
  | cons head rest ih =>
    rw [List.map_cons, List.nodup_cons] at nodup
    rw [List.find?_cons]
    rcases List.mem_cons.1 member with rfl | inRest
    · simp
    · have different : head.1.path ≠ entry.1.path := by
        intro same
        exact nodup.1 (same ▸ List.mem_map.2 ⟨entry, inRest, rfl⟩)
      simp only [different, decide_false]
      exact ih nodup.2 inRest

include inner

theorem routeOf_of_mem (inconstant : ¬ domain.IsConstant wire) :
    routeOf domain limit entries entry.1.path wire =
      (entry.2.known? domain wire).getD (limit + Encodable.encode (entry.1.path, wire)) := by
  simp [routeOf, inner, inconstant, find?_of_mem nodup member]

/-- The routing agrees with all scopes. -/
theorem agrees_routeOf : entry.2.Agrees domain (routeOf domain limit entries entry.1.path) := by
  intro wire flat known
  by_cases constant : domain.IsConstant wire
  · rw [Scope.known?_of_constant constant] at known
    cases known
    exact routeOf_of_constant limit entries _ constant
  · rw [routeOf_of_mem limit nodup member inner constant, known, Option.getD_some]

/-- An own wire has the flat wire that the scope knows, or one behind the limit. -/
theorem routeOf_of_isOwn (own : entry.1.IsOwn domain wire) :
    (∃ flat, Owns domain entry wire flat ∧
        routeOf domain limit entries entry.1.path wire = flat) ∨
      routeOf domain limit entries entry.1.path wire =
        limit + Encodable.encode (entry.1.path, wire) := by
  have value := routeOf_of_mem limit nodup member inner own.1
  cases known : entry.2.known? domain wire with
  | some flat =>
    rw [known, Option.getD_some] at value
    exact Or.inl ⟨flat, ⟨own, known⟩, value⟩
  | none =>
    rw [known, Option.getD_none] at value
    exact Or.inr value

end Entries

/-- The scopes of all occurrences below a top yield a routing, and the gates of the
expansion are the routed gates of the occurrences. -/
theorem Traces.isRouting {design : Design} {top : Module} {expansion : Expansion}
    {entries : List (Occurrence × Scope)} (unfolds : design.Unfolds [top.name] top.instances)
    (grows : Numbering.Extends design.domain ⟨.top, design.allocator.next⟩ expansion.caller)
    (same : entries.map Prod.fst = design.occurrencesBelow top)
    (traces : Traces design.domain [] ⟨.top, design.allocator.next⟩ expansion entries) :
    design.IsRouting top (routeOf design.domain expansion.caller.next entries) ∧
      expansion.gates = (design.occurrencesBelow top).flatMap (Occurrence.gates design.domain
        (routeOf design.domain expansion.caller.next entries)) := by
  have nodup : (entries.map fun entry => entry.1.path).Nodup := by
    have paths := nodup_paths unfolds [] 0
    change ((design.occurrencesBelow top).map Occurrence.path).Nodup at paths
    rwa [← same, List.map_map] at paths
  have inner : ∀ {entry}, entry ∈ entries → entry.1.path ≠ [] := by
    intro entry member
    have occurs := (mem_occurrencesBelow_iff unfolds).1
      (same ▸ List.mem_map.2 ⟨entry, member, rfl⟩)
    exact occurs.path_ne_nil
  have entryOf : ∀ {occurrence}, design.Occurs top occurrence →
      ∃ scope, (occurrence, scope) ∈ entries := by
    intro occurrence occurs
    obtain ⟨⟨_, scope⟩, member, rfl⟩ :=
      List.mem_map.1 (same ▸ (mem_occurrencesBelow_iff unfolds).2 occurs)
    exact ⟨scope, member⟩
  have agrees : ∀ entry ∈ entries, entry.2.Agrees design.domain
      (routeOf design.domain expansion.caller.next entries entry.1.path) :=
    fun entry member => agrees_routeOf _ nodup member (inner member)
  have topAgrees : expansion.caller.scope.Agrees design.domain
      (routeOf design.domain expansion.caller.next entries []) := by
    intro wire flat known
    have kept : expansion.caller.scope.known? design.domain wire = some wire := grows.keeps rfl
    rw [kept] at known
    cases known
    exact routeOf_nil _ _ _ wire
  have owned := fun {entry} (member : entry ∈ entries) {wire}
      (own : entry.1.IsOwn design.domain wire) =>
    routeOf_of_isOwn expansion.caller.next nodup member (inner member) own
  refine ⟨⟨routeOf_nil _ _ _, routeOf_of_constant _ _, ?bound, ?fresh, ?distinct⟩, ?gates⟩
  case bound =>
    intro occurrence occurs wire source inconstant bound
    obtain ⟨scope, member⟩ := entryOf occurs
    exact agrees _ member wire _
      (traces.bound _ topAgrees agrees _ member wire source inconstant bound)
  case fresh =>
    intro occurrence occurs wire own
    obtain ⟨scope, member⟩ := entryOf occurs
    rcases owned member own with ⟨flat, owns, value⟩ | value
    · rw [value]
      exact (traces.between _ member wire flat owns).1
    · rw [value]
      exact Nat.le_trans grows.next_le (Nat.le_add_right _ _)
  case distinct =>
    intro one other oneOccurs otherOccurs first second firstOwn secondOwn shared
    obtain ⟨oneScope, oneMember⟩ := entryOf oneOccurs
    obtain ⟨otherScope, otherMember⟩ := entryOf otherOccurs
    rcases owned oneMember firstOwn with ⟨flat, oneOwns, oneValue⟩ | oneValue <;>
      rcases owned otherMember secondOwn with ⟨otherFlat, otherOwns, otherValue⟩ | otherValue
    · have sameFlat : flat = otherFlat := oneValue.symm.trans (shared.trans otherValue)
      exact traces.apart.forall_of_forall traces.apart_self oneMember otherMember first second flat
        oneOwns (sameFlat ▸ otherOwns)
    · have high := (traces.between _ oneMember first flat oneOwns).2
      rw [← oneValue, shared, otherValue] at high
      exact absurd high (Nat.not_lt_of_le (Nat.le_add_right _ _))
    · have high := (traces.between _ otherMember second otherFlat otherOwns).2
      rw [← otherValue, ← shared, oneValue] at high
      exact absurd high (Nat.not_lt_of_le (Nat.le_add_right _ _))
    · rw [oneValue, otherValue] at shared
      exact Prod.mk.inj (Encodable.encode_injective (Nat.add_left_cancel shared))
  case gates =>
    rw [traces.gates _ topAgrees agrees, same]

/-- Flattening a design is flattening its top. -/
theorem flatten_eq_ok {design : Design} {top : Module} {circuit : Circuit}
    (isTop : design.topModule = .ok top) (flattened : design.flatten.result = .ok circuit) :
    design.find? top.name = some top ∧ (design.flattenModule top.name).result = .ok circuit := by
  unfold flatten at flattened
  rw [isTop] at flattened
  refine ⟨?_, flattened⟩
  unfold topModule findTop at isTop
  split at isTop
  · rename_i found
    cases isTop
    rw [name_of_find? found]
    exact found
  · cases isTop

theorem flattenModule_eq_ok {design : Design} {name : String} {top : Module} {circuit : Circuit}
    (found : design.find? name = some top)
    (flattened : (design.flattenModule name).result = .ok circuit) :
    ∃ expansion,
      (design.expand [top.name] ⟨.top, design.allocator.next⟩ top.instances).result =
        .ok expansion ∧
      circuit = ⟨top.name, top.domain, top.inputs, top.outputs, top.gates ++ expansion.gates⟩ := by
  unfold flattenModule findTop at flattened
  rw [found] at flattened
  obtain ⟨expansion, expanded, same⟩ := Report.result_bind_eq_ok_iff.1 flattened
  cases same
  exact ⟨expansion, expanded, rfl⟩

theorem flattenModule_eq_ok_of_expand {design : Design} {name : String} {top : Module}
    (found : design.find? name = some top) {expansion : Expansion}
    (expanded : (design.expand [top.name] ⟨.top, design.allocator.next⟩ top.instances).result =
      .ok expansion) :
    (design.flattenModule name).result =
      .ok ⟨top.name, top.domain, top.inputs, top.outputs, top.gates ++ expansion.gates⟩ := by
  unfold flattenModule findTop
  rw [found]
  exact Report.result_bind_eq_ok_iff.2 ⟨expansion, expanded, rfl⟩

/-- A flat circuit has the ports of its top and the routed gates of the top and of
all occurrences below it. -/
theorem exists_routing {design : Design} {name : String} {top : Module} {circuit : Circuit}
    (found : design.find? name = some top)
    (flattened : (design.flattenModule name).result = .ok circuit) :
    ∃ route, design.Unfolds [top.name] top.instances ∧ design.IsRouting top route ∧
      circuit = design.routedCircuit top route := by
  obtain ⟨expansion, expanded, rfl⟩ := flattenModule_eq_ok found flattened
  have unfolds := unfolds_of_expand expanded
  obtain ⟨grows, entries, same, traces⟩ := exists_traces unfolds expanded [] 0
  obtain ⟨isRouting, gates⟩ := traces.isRouting unfolds grows same
  exact ⟨_, unfolds, isRouting, by rw [gates]; rfl⟩

end Design

end Netlist
