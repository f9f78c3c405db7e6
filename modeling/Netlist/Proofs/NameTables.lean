import Netlist.Connection
import Netlist.Proofs.Allocation

/-!
# Tables of names

The wires of names can be kept in a table beside the list of all names (`KeptAllocator`). A
new name is stored in both, and a reset clears both and stores the constants again. Through
every history of calls the table has the place of each name in the list, so that what is kept
is an allocator in another form (`KeptAllocator.Mirrors`), and names and wires correspond one
to one (`KeptAllocator.bijective_afterAll`).
-/

namespace Netlist

namespace WireTable

theorem lookup_set {name other : String} {wire : Wire} {table : WireTable} :
    (table.set name wire).lookup other =
      if other = name then some wire else table.lookup other :=
  lookup_of_replaces (WireTable.set name wire) rfl (fun _ _ _ => rfl) other table

/-- The table has the place of each name in a list. -/
def Indexes (table : WireTable) (names : List String) : Prop :=
  ∀ name, table.lookup name = names.idxOf? name

theorem indexes_nil : Indexes [] [] :=
  fun _ => rfl

/-- A new name goes behind all others. -/
theorem Indexes.concat {table : WireTable} {names : List String} (indexes : table.Indexes names)
    {name : String} (isNew : name ∉ names) :
    (table.set name names.length).Indexes (names ++ [name]) := by
  intro other
  have appended : (names ++ [name]).idxOf? other =
      (names.idxOf? other).or (([name].idxOf? other).map (· + names.length)) :=
    List.findIdx?_append
  rw [lookup_set, indexes other, appended, List.idxOf?_cons, List.idxOf?_nil]
  by_cases same : other = name
  · have absent : names.idxOf? name = none := List.idxOf?_eq_none_iff.2 isNew
    rw [if_pos same, same, absent, beq_self_eq_true]
    simp
  · rw [if_neg same, beq_false_of_ne (Ne.symm same)]
    simp

end WireTable

namespace Allocator

/-- What an allocator is asked for. -/
inductive Call where
  | allocate (name : String)
  | lookup (name : String)
  | reset
  deriving DecidableEq, Repr

/-- What is left of an allocator by a call, whether or not it is refused. -/
def after (allocator : Allocator) : Call → Allocator
  | .allocate name =>
    match allocator.allocate name with
    | .ok (_, last) => last
    | .error _ => allocator
  | .lookup _ => allocator
  | .reset => allocator.reset

/-- What is left of an allocator by some calls. -/
def afterAll (allocator : Allocator) (calls : List Call) : Allocator :=
  calls.foldl after allocator

variable {allocator : Allocator}

theorem after_allocate {name : String} {wire : Wire} {last : Allocator}
    (allocated : allocator.allocate name = .ok (wire, last)) :
    allocator.after (.allocate name) = last := by
  rw [after, allocated]

theorem after_allocate_of_error {name : String} {error : Error}
    (refused : allocator.allocate name = .error error) :
    allocator.after (.allocate name) = allocator := by
  rw [after, refused]

/-- Only a reset takes names away. -/
theorem extends_after {call : Call} (noReset : call ≠ .reset) :
    allocator.Extends (allocator.after call) := by
  cases call with
  | allocate name =>
    cases outcome : allocator.allocate name with
    | ok result =>
      rw [after_allocate outcome]
      exact (allocate_eq_ok outcome).1
    | error error =>
      rw [after_allocate_of_error outcome]
      exact .refl allocator
  | lookup name => exact .refl allocator
  | reset => exact absurd rfl noReset

theorem extends_afterAll {calls : List Call} (noReset : Call.reset ∉ calls) :
    allocator.Extends (allocator.afterAll calls) := by
  induction calls generalizing allocator with
  | nil => exact .refl allocator
  | cons call rest ih =>
    rw [List.mem_cons, not_or] at noReset
    exact (extends_after (Ne.symm noReset.1)).trans (ih noReset.2)

theorem domain_after (call : Call) : (allocator.after call).domain = allocator.domain := by
  by_cases isReset : call = .reset
  · rw [isReset]
    rfl
  · exact (extends_after isReset).domain

theorem domain_afterAll (calls : List Call) :
    (allocator.afterAll calls).domain = allocator.domain := by
  induction calls generalizing allocator with
  | nil => rfl
  | cons call rest ih => exact ih.trans (domain_after call)

theorem lookup_falseName (isBoolean : allocator.domain = .boolean) :
    allocator.lookup falseName = some falseWire := by
  rw [lookup_eq_some_iff, nameOf, names, isBoolean]
  rfl

theorem lookup_trueName (isBoolean : allocator.domain = .boolean) :
    allocator.lookup trueName = some trueWire := by
  rw [lookup_eq_some_iff, nameOf, names, isBoolean]
  rfl

/-- Only constants have reserved wires. -/
theorem reserved_le_of_lookup {name : String} {wire : Wire}
    (found : allocator.lookup name = some wire) (inconstant : ¬ IsConstantName name) :
    allocator.domain.reserved ≤ wire := by
  apply Nat.le_of_not_lt
  intro reserved
  exact inconstant (Domain.isConstantName_of_mem_constantNames
    ((isConstant_iff_of_nameOf (lookup_eq_some_iff.1 found)).1 reserved))

/-- A domain without constants has no names of constants. -/
theorem not_isConstantName_of_mem_names (isArithmetic : allocator.domain = .arithmetic)
    {name : String} (member : name ∈ allocator.names) : ¬ IsConstantName name := by
  rw [names, isArithmetic] at member
  exact allocator.no_constant name member

/-- Only the names of constants are refused, where the domain does not have them. -/
theorem allocate_eq_error_iff {name : String} {error : Error} :
    allocator.allocate name = .error error ↔
      allocator.domain = .arithmetic ∧ IsConstantName name ∧ error = .unsupportedConstant name := by
  constructor
  · intro refused
    cases found : allocator.lookup name with
    | some wire => cases (allocate_of_lookup found).symm.trans refused
    | none =>
      by_cases constant : IsConstantName name
      · cases (allocate_of_isConstantName found constant).symm.trans refused
        exact ⟨domain_eq_of_isConstantName found constant, constant, rfl⟩
      · obtain ⟨last, allocated, _⟩ := allocate_of_isNew found constant
        cases allocated.symm.trans refused
  · rintro ⟨isArithmetic, constant, rfl⟩
    have absent : name ∉ allocator.names :=
      fun member => not_isConstantName_of_mem_names isArithmetic member constant
    exact allocate_of_isConstantName (lookup_eq_none_iff.2 absent) constant

/-- All wires in front of the next one are in use. -/
theorem exists_lookup_iff {wire : Wire} :
    (∃ name, allocator.lookup name = some wire) ↔ wire < allocator.next := by
  constructor
  · rintro ⟨name, found⟩
    exact lt_next_of_lookup found
  · intro inUse
    exact ⟨_, lookup_eq_some_iff.2 (List.getElem?_eq_getElem inUse)⟩

end Allocator

/-- An allocator as a table of the wires of names and a list of the names of wires. -/
structure KeptAllocator where
  domain : Domain
  table : WireTable
  names : List String
  deriving DecidableEq, Repr

namespace KeptAllocator

open Allocator (Call)

/-- Give a name the next wire. -/
def store (kept : KeptAllocator) (name : String) : KeptAllocator :=
  { kept with
    table := kept.table.set name kept.names.length
    names := kept.names ++ [name] }

/-- Forget every name, and store those of the constants again. -/
def reset (kept : KeptAllocator) : KeptAllocator :=
  kept.domain.constantNames.foldl store { kept with table := [], names := [] }

/-- Only the names of the constants are stored. -/
def start (domain : Domain) : KeptAllocator :=
  reset ⟨domain, [], []⟩

/-- The first wire that is not in use. -/
def next (kept : KeptAllocator) : Wire :=
  kept.names.length

/-- The wire of a name, if it has one. -/
def lookup (kept : KeptAllocator) (name : String) : Option Wire :=
  kept.table.lookup name

/-- The name of a wire, if it is in use. -/
def nameOf (kept : KeptAllocator) (wire : Wire) : Option String :=
  kept.names[wire]?

/-- The wire of a name, which is stored if it is new, unless it is the name of a constant
that the domain does not have. -/
def allocate (kept : KeptAllocator) (name : String) : Except Error Wire × KeptAllocator :=
  match kept.lookup name with
  | some wire => (.ok wire, kept)
  | none =>
    if kept.domain = .arithmetic ∧ IsConstantName name then
      (.error (.unsupportedConstant name), kept)
    else (.ok kept.next, kept.store name)

/-- What is left by a call, whether or not it is refused. -/
def after (kept : KeptAllocator) : Call → KeptAllocator
  | .allocate name => (kept.allocate name).2
  | .lookup _ => kept
  | .reset => kept.reset

/-- What is left by some calls. -/
def afterAll (kept : KeptAllocator) (calls : List Call) : KeptAllocator :=
  calls.foldl after kept

/-- The list has the names of an allocator, and the table has their wires. -/
structure Mirrors (kept : KeptAllocator) (allocator : Allocator) : Prop where
  domain : kept.domain = allocator.domain
  names : kept.names = allocator.names
  table : kept.table.Indexes allocator.names

namespace Mirrors

variable {kept : KeptAllocator} {allocator : Allocator}

theorem lookup (mirrors : kept.Mirrors allocator) (name : String) :
    kept.lookup name = allocator.lookup name :=
  mirrors.table name

theorem nameOf (mirrors : kept.Mirrors allocator) (wire : Wire) :
    kept.nameOf wire = allocator.nameOf wire := by
  rw [KeptAllocator.nameOf, mirrors.names, Allocator.nameOf]

theorem next (mirrors : kept.Mirrors allocator) : kept.next = allocator.next :=
  congrArg List.length mirrors.names

/-- Storing a new name is what allocating it comes to. -/
theorem store (mirrors : kept.Mirrors allocator) {name : String} {last : Allocator}
    (isNew : allocator.lookup name = none) (domain : last.domain = allocator.domain)
    (names : last.names = allocator.names ++ [name]) : (kept.store name).Mirrors last := by
  refine ⟨mirrors.domain.trans domain.symm, ?_, ?_⟩
  · rw [names, KeptAllocator.store, mirrors.names]
  · rw [names, KeptAllocator.store, mirrors.names]
    exact mirrors.table.concat (Allocator.lookup_eq_none_iff.1 isNew)

/-- Both are asked for a name with one outcome: they refuse it, or give it one wire. -/
theorem allocate (mirrors : kept.Mirrors allocator) (name : String) :
    (kept.allocate name).1 = (allocator.allocate name).map Prod.fst ∧
      (kept.allocate name).2.Mirrors (allocator.after (.allocate name)) := by
  unfold KeptAllocator.allocate
  rw [mirrors.lookup, mirrors.domain, mirrors.next]
  cases found : allocator.lookup name with
  | some wire =>
    have allocated := Allocator.allocate_of_lookup found
    rw [Allocator.after_allocate allocated, allocated]
    exact ⟨rfl, mirrors⟩
  | none =>
    dsimp only
    by_cases constant : IsConstantName name
    · have refused := Allocator.allocate_of_isConstantName found constant
      rw [Allocator.after_allocate_of_error refused, refused,
        if_pos ⟨Allocator.domain_eq_of_isConstantName found constant, constant⟩]
      exact ⟨rfl, mirrors⟩
    · obtain ⟨last, allocated, domain, names⟩ := Allocator.allocate_of_isNew found constant
      rw [Allocator.after_allocate allocated, allocated,
        if_neg fun refused => constant refused.2]
      exact ⟨rfl, mirrors.store found domain names⟩

theorem reset (same : kept.domain = allocator.domain) : kept.reset.Mirrors allocator.reset := by
  unfold KeptAllocator.reset Allocator.reset
  rw [same]
  cases allocator.domain with
  | boolean =>
    have first := @WireTable.Indexes.concat [] [] WireTable.indexes_nil falseName (by decide)
    exact ⟨rfl, rfl, @WireTable.Indexes.concat _ [falseName] first trueName (by decide)⟩
  | arithmetic => exact ⟨rfl, rfl, WireTable.indexes_nil⟩

theorem after (mirrors : kept.Mirrors allocator) (call : Call) :
    (kept.after call).Mirrors (allocator.after call) := by
  cases call with
  | allocate name => exact (mirrors.allocate name).2
  | lookup name => exact mirrors
  | reset => exact reset mirrors.domain

theorem afterAll (mirrors : kept.Mirrors allocator) (calls : List Call) :
    (kept.afterAll calls).Mirrors (allocator.afterAll calls) := by
  induction calls generalizing kept allocator with
  | nil => exact mirrors
  | cons call rest ih => exact ih (mirrors.after call)

end Mirrors

theorem Mirrors.allocate_eq_error_iff {kept : KeptAllocator} {allocator : Allocator}
    (mirrors : kept.Mirrors allocator) {name : String} {error : Error} :
    (kept.allocate name).1 = .error error ↔ allocator.allocate name = .error error := by
  rw [(mirrors.allocate name).1]
  cases allocator.allocate name <;> simp [Except.map]

theorem Mirrors.allocate_eq_ok {kept : KeptAllocator} {allocator : Allocator}
    (mirrors : kept.Mirrors allocator) {name : String} {wire : Wire}
    (allocated : (kept.allocate name).1 = .ok wire) :
    (allocator.after (.allocate name)).lookup name = some wire := by
  rw [(mirrors.allocate name).1] at allocated
  cases outcome : allocator.allocate name with
  | ok result =>
    rw [outcome] at allocated
    cases allocated
    rw [Allocator.after_allocate outcome]
    exact Allocator.lookup_eq_some_iff.2 (Allocator.allocate_eq_ok outcome).2
  | error error =>
    rw [outcome] at allocated
    cases allocated

/-- A refused name is not stored. -/
theorem allocate_of_error {kept : KeptAllocator} {name : String} {error : Error}
    (refused : (kept.allocate name).1 = .error error) : (kept.allocate name).2 = kept := by
  unfold allocate at refused ⊢
  split at refused
  · cases refused
  · split at refused
    · rename_i noConstant
      exact congrArg Prod.snd (if_pos noConstant)
    · cases refused

/-- A name keeps its wire until the next reset. -/
theorem Mirrors.lookup_afterAll {kept : KeptAllocator} {allocator : Allocator}
    (mirrors : kept.Mirrors allocator) {name : String} {wire : Wire}
    (found : allocator.lookup name = some wire) {further : List Call}
    (noReset : Call.reset ∉ further) : (kept.afterAll further).lookup name = some wire := by
  rw [(mirrors.afterAll further).lookup, Allocator.lookup_eq_some_iff]
  exact (Allocator.extends_afterAll noReset).nameOf (Allocator.lookup_eq_some_iff.1 found)

theorem mirrors_start (domain : Domain) : (start domain).Mirrors (.empty domain) :=
  @Mirrors.reset ⟨domain, [], []⟩ (.empty domain) rfl

/-- After any calls, also calls that are refused, the table and the list of names are inverse to
each other, and the wires in use are those in front of the next one. In the Boolean domain the
constants have the first two wires, and no other name has one of them; in the arithmetic domain
their names are never stored. Only they are refused there, and only where they have no wire;
a refused call changes nothing. A name keeps its wire until the next reset. -/
theorem bijective_afterAll (domain : Domain) (calls : List Call) :
    let last := (start domain).afterAll calls
    let allocator := (Allocator.empty domain).afterAll calls
    (∀ name wire, last.lookup name = some wire ↔ last.nameOf wire = some name) ∧
    (∀ wire, (∃ name, last.lookup name = some wire) ↔ wire < last.next) ∧
    (domain = .boolean → last.lookup "$false" = some 0 ∧ last.lookup "$true" = some 1 ∧
      ∀ name wire, last.lookup name = some wire → name ≠ "$false" → name ≠ "$true" → 2 ≤ wire) ∧
    (domain = .arithmetic → ∀ name ∈ last.names, name ≠ "$false" ∧ name ≠ "$true") ∧
    (∀ name error, (last.allocate name).1 = .error error ↔
      domain = .arithmetic ∧ (name = "$false" ∨ name = "$true") ∧
        error = .unsupportedConstant name) ∧
    (∀ name error, (last.allocate name).1 = .error error → (last.allocate name).2 = last) ∧
    (∀ name wire, (last.allocate name).1 = .ok wire → ∀ further, Call.reset ∉ further →
      ((last.allocate name).2.afterAll further).lookup name = some wire) ∧
    (∀ name wire, last.lookup name = some wire → ∀ further, Call.reset ∉ further →
      (last.afterAll further).lookup name = some wire) ∧
    (∀ name, last.lookup name = allocator.lookup name) ∧
    (∀ wire, last.nameOf wire = allocator.nameOf wire) ∧
    ∀ name, (last.allocate name).1 = (allocator.allocate name).map Prod.fst := by
  intro last allocator
  have mirrors : last.Mirrors allocator := (mirrors_start domain).afterAll calls
  have same : allocator.domain = domain := Allocator.domain_afterAll calls
  refine ⟨fun name wire => ?_, fun wire => ?_, fun isBoolean => ⟨?_, ?_, ?_⟩,
    fun isArithmetic name member => ?_, fun name error => ?_, fun name error => allocate_of_error,
    fun name wire allocated further noReset => ?_, fun name wire found further noReset => ?_,
    mirrors.lookup, mirrors.nameOf, fun name => (mirrors.allocate name).1⟩
  · rw [mirrors.lookup, mirrors.nameOf]
    exact Allocator.lookup_eq_some_iff
  · simp only [mirrors.lookup, mirrors.next]
    exact Allocator.exists_lookup_iff
  · rw [mirrors.lookup]
    exact Allocator.lookup_falseName (same.trans isBoolean)
  · rw [mirrors.lookup]
    exact Allocator.lookup_trueName (same.trans isBoolean)
  · intro name wire found notFalse notTrue
    rw [mirrors.lookup] at found
    have reserved := Allocator.reserved_le_of_lookup found fun constant =>
      constant.elim notFalse notTrue
    rwa [same, isBoolean] at reserved
  · rw [mirrors.names] at member
    exact not_or.1 (Allocator.not_isConstantName_of_mem_names (same.trans isArithmetic) member)
  · rw [mirrors.allocate_eq_error_iff, Allocator.allocate_eq_error_iff, same]
    rfl
  · exact (mirrors.allocate name).2.lookup_afterAll (mirrors.allocate_eq_ok allocated) noReset
  · rw [mirrors.lookup] at found
    exact mirrors.lookup_afterAll found noReset

/-- Two names are stored before a reset, and one of them again behind it; the names of constants
are asked for among them. -/
def resetHistory : List Call :=
  [.allocate "x", .allocate "$true", .allocate "y", .lookup "z", .reset, .allocate "y",
    .allocate "$false"]

/-- The reset gives `y` another wire. The names of the constants are refused in the arithmetic
domain, which leaves what is kept as it is. -/
theorem bijective_afterAll_resetHistory :
    ((start .arithmetic).afterAll (resetHistory.take 3)).nameOf 1 = some "y" ∧
    ((start .arithmetic).afterAll resetHistory).names = ["y"] ∧
    (((start .arithmetic).afterAll resetHistory).allocate "$true").2 =
      (start .arithmetic).afterAll resetHistory ∧
    ((start .boolean).afterAll resetHistory).lookup "y" = some 2 ∧
    (((start .boolean).afterAll resetHistory).afterAll [.allocate "x", .lookup "y"]).lookup "y" =
      some 2 := by
  obtain ⟨inverse, _⟩ := bijective_afterAll .arithmetic (resetHistory.take 3)
  obtain ⟨_, _, _, _, refused, unchanged, _⟩ := bijective_afterAll .arithmetic resetHistory
  obtain ⟨_, _, _, _, _, _, _, keeps, _⟩ := bijective_afterAll .boolean resetHistory
  have found : ((start .boolean).afterAll resetHistory).lookup "y" = some 2 := by decide
  refine ⟨(inverse "y" 1).1 (by decide), by decide, ?_, found, keeps "y" 2 found _ (by decide)⟩
  exact unchanged "$true" _ ((refused "$true" _).2 ⟨rfl, Or.inr rfl, rfl⟩)

end KeptAllocator

end Netlist
