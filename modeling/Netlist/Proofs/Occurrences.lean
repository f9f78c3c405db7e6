import Mathlib.Data.List.Nodup
import Netlist.Design.Flattening
import Netlist.Design.Hierarchy

/-!
# Occurrences of modules

Flattening comes to every instance of a hierarchy once, depth first and in order.
`Design.occurrences` lists them with the paths at which their callees stand.
Where flattening succeeds (`Design.Unfolds`), the list holds each path that leads
to a module once (`nodup_paths`) and holds all of them but that of the top
(`mem_occurrencesBelow_iff`). So paths are bounded, and facts may be proved from the
leaves up (`At.leavesFirst`).
-/

namespace Netlist

/-- An instance of a hierarchy, and the path at which its callee stands. -/
structure Occurrence where
  path : Design.InstancePath
  inner : Instance
  callee : Module

namespace Design

/-- The occurrences of some instances of the module at a path, and of all below
them. The first of the instances has the given place in that module. -/
def occurrences (design : Design) (active : List String) (path : InstancePath) (place : Nat) :
    List Instance → List Occurrence
  | [] => []
  | inner :: rest =>
    match found : design.find? inner.callee with
    | none => occurrences design active path (place + 1) rest
    | some callee =>
      if isActive : callee.name ∈ active then occurrences design active path (place + 1) rest
      else
        have := length_inactive_cons_lt (mem_of_find? found) isActive
        ⟨place :: path, inner, callee⟩ ::
          (occurrences design (callee.name :: active) (place :: path) 0 callee.instances ++
            occurrences design active path (place + 1) rest)
termination_by instances => ((design.inactive active).length, instances.length)

/-- All occurrences below a top. -/
def occurrencesBelow (design : Design) (top : Module) : List Occurrence :=
  design.occurrences [top.name] [] 0 top.instances

/-- The instances can be replaced by gates: all callees are there, and none is
entered while it is active. -/
inductive Unfolds (design : Design) : List String → List Instance → Prop where
  | nil {active : List String} : Unfolds design active []
  | cons {active : List String} {inner : Instance} {callee : Module} {rest : List Instance} :
    design.find? inner.callee = some callee → callee.name ∉ active →
      Unfolds design (callee.name :: active) callee.instances → Unfolds design active rest →
        Unfolds design active (inner :: rest)

theorem occurrences_cons {design : Design} {active : List String} {path : InstancePath}
    {place : Nat} {inner : Instance} {callee : Module} {rest : List Instance}
    (found : design.find? inner.callee = some callee) (inactive : callee.name ∉ active) :
    design.occurrences active path place (inner :: rest) =
      ⟨place :: path, inner, callee⟩ ::
        (design.occurrences (callee.name :: active) (place :: path) 0 callee.instances ++
          design.occurrences active path (place + 1) rest) := by
  rw [occurrences]
  split
  · rename_i missing
    rw [found] at missing
    cases missing
  · rename_i other otherFound
    rw [found] at otherFound
    cases otherFound
    rw [dif_neg inactive]

theorem result_expand_nil (design : Design) (active : List String) (caller : Numbering) :
    (design.expand active caller []).result = .ok ⟨[], caller⟩ := by
  rw [expand]
  rfl

section

variable {design : Design} {active : List String} {caller : Numbering} {inner : Instance}
  {rest : List Instance} {callee : Module} (found : design.find? inner.callee = some callee)

include found

/-- An active callee is not entered again. -/
theorem result_expand_cons_of_mem (isActive : callee.name ∈ active) :
    (design.expand active caller (inner :: rest)).result =
      .error (.recursiveInstance callee.name (active.reverse ++ [callee.name])) := by
  rw [expand]
  split
  · rename_i missing
    rw [found] at missing
    cases missing
  · rename_i other otherFound
    rw [found] at otherFound
    cases otherFound
    rw [dif_pos isActive]
    rfl

/-- What an expansion comes to if the callee of its first instance is entered. -/
theorem result_expand_cons (inactive : callee.name ∉ active) {binding : Binding}
    (isBinding : bindPairings design.domain inner.outputs [] caller inner.pairings = binding)
    {translated : List Gate × Numbering}
    (isTranslated : Numbering.flatGates design.domain
      ⟨.inner binding.bindings, binding.caller.next⟩ callee.gates = translated) :
    (design.expand active caller (inner :: rest)).result =
      (design.expand (callee.name :: active) translated.2 callee.instances).result.bind
        fun nested =>
          (design.expand active ⟨binding.caller.scope, nested.caller.next⟩ rest).result.bind
            fun others => .ok
              ⟨binding.copies ++ translated.1 ++ nested.gates ++ others.gates, others.caller⟩ := by
  subst isBinding isTranslated
  rw [expand]
  split
  · rename_i missing
    rw [found] at missing
    cases missing
  · rename_i other otherFound
    rw [found] at otherFound
    cases otherFound
    rw [dif_neg inactive]
    simp only [Report.result_bind]
    rfl

/-- The callee of the first instance is entered, and the expansions below and behind it
succeed. -/
theorem expand_cons_eq_ok_of_find? (inactive : callee.name ∉ active) {binding : Binding}
    (isBinding : bindPairings design.domain inner.outputs [] caller inner.pairings = binding)
    {translated : List Gate × Numbering}
    (isTranslated : Numbering.flatGates design.domain
      ⟨.inner binding.bindings, binding.caller.next⟩ callee.gates = translated)
    {nested others : Expansion}
    (below : (design.expand (callee.name :: active) translated.2 callee.instances).result =
      .ok nested)
    (behind : (design.expand active ⟨binding.caller.scope, nested.caller.next⟩ rest).result =
      .ok others) :
    (design.expand active caller (inner :: rest)).result =
      .ok ⟨binding.copies ++ translated.1 ++ nested.gates ++ others.gates, others.caller⟩ := by
  rw [result_expand_cons found inactive isBinding isTranslated, below, Except.bind, behind,
    Except.bind]

end

/-- What a successful expansion of an instance comes to. -/
theorem expand_cons_eq_ok {design : Design} {active : List String} {caller : Numbering}
    {inner : Instance} {rest : List Instance} {expansion : Expansion}
    (expanded : (design.expand active caller (inner :: rest)).result = .ok expansion) :
    ∃ callee nested others binding translated,
      design.find? inner.callee = some callee ∧ callee.name ∉ active ∧
      binding = bindPairings design.domain inner.outputs [] caller inner.pairings ∧
      translated = Numbering.flatGates design.domain
        ⟨.inner binding.bindings, binding.caller.next⟩ callee.gates ∧
      (design.expand (callee.name :: active) translated.2 callee.instances).result = .ok nested ∧
      (design.expand active ⟨binding.caller.scope, nested.caller.next⟩ rest).result = .ok others ∧
      expansion =
        ⟨binding.copies ++ translated.1 ++ nested.gates ++ others.gates, others.caller⟩ := by
  rw [expand] at expanded
  split at expanded
  · cases expanded
  · rename_i callee found
    split at expanded
    · cases expanded
    · rename_i inactive
      dsimp only at expanded
      obtain ⟨_, _, expanded⟩ := Report.result_bind_eq_ok_iff.1 expanded
      obtain ⟨nested, below, expanded⟩ := Report.result_bind_eq_ok_iff.1 expanded
      obtain ⟨others, behind, expanded⟩ := Report.result_bind_eq_ok_iff.1 expanded
      cases expanded
      exact ⟨callee, nested, others, _, _, found, inactive, rfl, rfl, below, behind, rfl⟩

theorem unfolds_of_expand {design : Design} {active : List String} {caller : Numbering}
    {instances : List Instance} {expansion : Expansion}
    (expanded : (design.expand active caller instances).result = .ok expansion) :
    design.Unfolds active instances := by
  fun_induction design.occurrences active [] 0 instances generalizing caller expansion with
  | case1 => exact Unfolds.nil
  | case2 _ _ _ _ _ missing =>
    obtain ⟨callee, _, _, _, _, found, _⟩ := expand_cons_eq_ok expanded
    rw [missing] at found
    cases found
  | case3 _ _ _ _ _ _ found isActive =>
    obtain ⟨other, _, _, _, _, otherFound, inactive, _⟩ := expand_cons_eq_ok expanded
    rw [found] at otherFound
    cases otherFound
    exact absurd isActive inactive
  | case4 _ _ _ _ _ _ found inactive _ below behind =>
    obtain ⟨other, nested, others, _, _, otherFound, _, _, _, nestedOk, othersOk, _⟩ :=
      expand_cons_eq_ok expanded
    rw [found] at otherFound
    cases otherFound
    exact Unfolds.cons found inactive (below nestedOk) (behind othersOk)

/-! ### Paths -/

/-- The path to an occurrence begins with the step into one of the instances. -/
theorem exists_suffix_of_mem {design : Design} {active : List String} {instances : List Instance}
    (unfolds : design.Unfolds active instances) {path : InstancePath} {place : Nat}
    {occurrence : Occurrence}
    (member : occurrence ∈ design.occurrences active path place instances) :
    ∃ step, place ≤ step ∧ (step :: path) <:+ occurrence.path := by
  induction unfolds generalizing path place with
  | nil => simp [occurrences] at member
  | cons found inactive _ _ below behind =>
    rw [occurrences_cons found inactive, List.mem_cons, List.mem_append] at member
    rcases member with rfl | inBelow | inRest
    · exact ⟨place, Nat.le_refl _, List.suffix_refl _⟩
    · obtain ⟨_, _, suffix⟩ := below inBelow
      exact ⟨place, Nat.le_refl _, (List.suffix_cons _ _).trans suffix⟩
    · obtain ⟨step, later, suffix⟩ := behind inRest
      exact ⟨step, Nat.le_of_succ_le later, suffix⟩

/-- Different steps lead to different paths. -/
theorem step_unique {path target : InstancePath} {one other : Nat}
    (first : (one :: path) <:+ target) (second : (other :: path) <:+ target) : one = other := by
  have same := (List.suffix_of_suffix_length_le first second (by simp)).eq_of_length (by simp)
  exact (List.cons.inj same).1

theorem nodup_paths {design : Design} {active : List String} {instances : List Instance}
    (unfolds : design.Unfolds active instances) (path : InstancePath) (place : Nat) :
    ((design.occurrences active path place instances).map Occurrence.path).Nodup := by
  induction unfolds generalizing path place with
  | nil => simp [occurrences]
  | @cons _ _ _ _ found inactive belowUnfolds restUnfolds below behind =>
    rw [occurrences_cons found inactive, List.map_cons, List.map_append, List.nodup_cons]
    constructor
    · intro again
      rcases List.mem_append.1 again with inBelow | inRest
      · obtain ⟨occurrence, member, samePath⟩ := List.mem_map.1 inBelow
        obtain ⟨_, _, suffix⟩ := exists_suffix_of_mem belowUnfolds member
        have shorter := suffix.length_le
        rw [samePath, List.length_cons, List.length_cons] at shorter
        omega
      · obtain ⟨occurrence, member, samePath⟩ := List.mem_map.1 inRest
        obtain ⟨step, later, suffix⟩ := exists_suffix_of_mem restUnfolds member
        rw [samePath] at suffix
        have := step_unique suffix (List.suffix_refl _)
        omega
    · refine List.nodup_append.2 ⟨below _ _, behind _ _, ?_⟩
      intro one inBelow other inRest same
      obtain ⟨first, firstMember, rfl⟩ := List.mem_map.1 inBelow
      obtain ⟨second, secondMember, rfl⟩ := List.mem_map.1 inRest
      obtain ⟨_, _, suffix⟩ := exists_suffix_of_mem belowUnfolds firstMember
      obtain ⟨step, later, otherSuffix⟩ := exists_suffix_of_mem restUnfolds secondMember
      rw [← same] at otherSuffix
      have := step_unique otherSuffix ((List.suffix_cons _ _).trans suffix)
      omega

/-! ### Occurrences and paths -/

/-- The occurrence is an instance of the module at some path. -/
def Occurs (design : Design) (top : Module) (occurrence : Occurrence) : Prop :=
  ∃ place path caller, occurrence.path = place :: path ∧ design.At top path caller ∧
    caller.instances[place]? = some occurrence.inner ∧
    design.find? occurrence.inner.callee = some occurrence.callee

theorem Occurs.at {design : Design} {top : Module} {occurrence : Occurrence}
    (occurs : design.Occurs top occurrence) : design.At top occurrence.path occurrence.callee := by
  obtain ⟨place, path, caller, samePath, above, inner, found⟩ := occurs
  rw [samePath]
  exact At.inner above inner found

theorem Occurs.path_ne_nil {design : Design} {top : Module} {occurrence : Occurrence}
    (occurs : design.Occurs top occurrence) : occurrence.path ≠ [] := by
  obtain ⟨_, _, _, samePath, _⟩ := occurs
  rw [samePath]
  exact List.cons_ne_nil _ _

theorem occurs_of_mem {design : Design} {top : Module} {active : List String}
    {instances : List Instance} (unfolds : design.Unfolds active instances) {path : InstancePath}
    {place : Nat} {caller : Module} (above : design.At top path caller)
    (same : caller.instances.drop place = instances) {occurrence : Occurrence}
    (member : occurrence ∈ design.occurrences active path place instances) :
    design.Occurs top occurrence := by
  induction unfolds generalizing path place caller with
  | nil => simp [occurrences] at member
  | @cons _ inner callee rest found inactive _ _ below behind =>
    have here : caller.instances[place]? = some inner := by
      rw [← List.head?_drop, same, List.head?_cons]
    rw [occurrences_cons found inactive, List.mem_cons, List.mem_append] at member
    rcases member with rfl | inBelow | inRest
    · exact ⟨place, path, caller, rfl, above, here, found⟩
    · exact below (At.inner above here found) rfl inBelow
    · refine behind above ?_ inRest
      rw [← List.tail_drop, same, List.tail_cons]

theorem mem_occurrences_of_place {design : Design} {active : List String}
    {instances : List Instance} (unfolds : design.Unfolds active instances) (path : InstancePath)
    (place : Nat) {offset : Nat} {inner : Instance} {callee : Module}
    (here : instances[offset]? = some inner) (found : design.find? inner.callee = some callee) :
    ⟨(place + offset) :: path, inner, callee⟩ ∈
      design.occurrences active path place instances := by
  induction unfolds generalizing place offset with
  | nil => simp at here
  | cons headFound inactive _ _ _ behind =>
    rw [occurrences_cons headFound inactive]
    cases offset with
    | zero =>
      rw [List.getElem?_cons_zero] at here
      cases here
      rw [headFound] at found
      cases found
      exact List.mem_cons_self
    | succ offset =>
      rw [List.getElem?_cons_succ] at here
      have later := behind (place + 1) here
      rw [Nat.add_right_comm] at later
      exact List.mem_cons_of_mem _ (List.mem_append_right _ later)

/-- Below an occurrence stand the instances of its callee. -/
theorem mem_occurrences_of_mem {design : Design} {active : List String}
    {instances : List Instance} (unfolds : design.Unfolds active instances) {path : InstancePath}
    {place : Nat} {occurrence : Occurrence}
    (member : occurrence ∈ design.occurrences active path place instances) {step : Nat}
    {inner : Instance} {callee : Module} (here : occurrence.callee.instances[step]? = some inner)
    (found : design.find? inner.callee = some callee) :
    ⟨step :: occurrence.path, inner, callee⟩ ∈ design.occurrences active path place instances := by
  induction unfolds generalizing path place with
  | nil => simp [occurrences] at member
  | cons headFound inactive belowUnfolds _ below behind =>
    rw [occurrences_cons headFound inactive, List.mem_cons, List.mem_append] at member
    rw [occurrences_cons headFound inactive, List.mem_cons, List.mem_append]
    rcases member with rfl | inBelow | inRest
    · have child := mem_occurrences_of_place belowUnfolds (place :: path) 0 here found
      rw [Nat.zero_add] at child
      exact Or.inr (Or.inl child)
    · exact Or.inr (Or.inl (below inBelow))
    · exact Or.inr (Or.inr (behind inRest))

section Below

variable {design : Design} {top : Module} (unfolds : design.Unfolds [top.name] top.instances)

include unfolds

theorem mem_occurrencesBelow_of_at {path : InstancePath} {module : Module}
    (reached : design.At top path module) :
    path = [] ∧ module = top ∨ ∃ inner, ⟨path, inner, module⟩ ∈ design.occurrencesBelow top := by
  induction reached with
  | top => exact Or.inl ⟨rfl, rfl⟩
  | @inner path caller callee place inner _ here found ih =>
    right
    rcases ih with ⟨rfl, rfl⟩ | ⟨outer, member⟩
    · have child := mem_occurrences_of_place unfolds [] 0 here found
      rw [Nat.zero_add] at child
      exact ⟨inner, child⟩
    · exact ⟨inner, mem_occurrences_of_mem unfolds member here found⟩

/-- The occurrences below a top are all instances at all paths. -/
theorem mem_occurrencesBelow_iff {occurrence : Occurrence} :
    occurrence ∈ design.occurrencesBelow top ↔ design.Occurs top occurrence := by
  constructor
  · exact occurs_of_mem unfolds At.top rfl
  · rintro ⟨place, path, caller, samePath, above, here, found⟩
    obtain ⟨_, inner, callee⟩ := occurrence
    dsimp only at samePath here found
    subst samePath
    rcases mem_occurrencesBelow_of_at unfolds above with ⟨rfl, rfl⟩ | ⟨outer, member⟩
    · have child := mem_occurrences_of_place unfolds [] 0 here found
      rwa [Nat.zero_add] at child
    · exact mem_occurrences_of_mem unfolds member here found

theorem exists_depth : ∃ depth, ∀ path module, design.At top path module → path.length ≤ depth := by
  refine ⟨((design.occurrencesBelow top).map fun occurrence =>
    occurrence.path.length).max?.getD 0, ?_⟩
  intro path module reached
  rcases mem_occurrencesBelow_of_at unfolds reached with ⟨rfl, _⟩ | ⟨inner, member⟩
  · exact Nat.zero_le _
  · exact List.le_max?_getD_of_mem (List.mem_map.2 ⟨_, member, rfl⟩)

/-- To prove a fact about the modules at all paths, prove it of each module from
the callees of its instances. -/
@[elab_as_elim]
theorem At.leavesFirst {fact : InstancePath → Module → Prop}
    (step : ∀ path module, design.At top path module →
      (∀ place inner callee, module.instances[place]? = some inner →
        design.find? inner.callee = some callee → fact (place :: path) callee) →
      fact path module)
    {path : InstancePath} {module : Module} (reached : design.At top path module) :
    fact path module := by
  obtain ⟨depth, bounded⟩ := exists_depth unfolds
  -- by induction on how far the path may still go down
  generalize room : depth - path.length = height
  induction height generalizing path module with
  | zero =>
    refine step path module reached fun place inner callee here found => ?_
    have := bounded _ _ (At.inner reached here found)
    rw [List.length_cons] at this
    omega
  | succ height ih =>
    refine step path module reached fun place inner callee here found => ?_
    refine ih (At.inner reached here found) ?_
    rw [List.length_cons]
    omega

end Below

end Design

end Netlist
