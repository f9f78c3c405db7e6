import Netlist.Error

/-!
# Wire allocators

An allocator numbers the wires of one domain by name. The wire of a name is its
place among all names, constants first, so that names and wires in use
correspond one to one (`lookup_eq_some_iff`).
-/

namespace Netlist

/-- The names of one domain in the order in which they were numbered. The
constants of the domain come before all others and are not stored. -/
structure Allocator where
  domain : Domain
  /-- The names that are no constants. -/
  named : List String
  nodup : named.Nodup
  no_constant : ∀ name ∈ named, ¬ IsConstantName name

namespace Allocator

/-- An allocator that has numbered nothing but the constants. -/
def empty (domain : Domain) : Allocator :=
  ⟨domain, [], List.nodup_nil, by simp⟩

/-- Forget every name but the constants. -/
def reset (allocator : Allocator) : Allocator :=
  empty allocator.domain

/-- All names, in the order of their wires. -/
def names (allocator : Allocator) : List String :=
  allocator.domain.constantNames ++ allocator.named

/-- The first wire that is not in use. -/
def next (allocator : Allocator) : Wire :=
  allocator.names.length

/-- No wire but the constants is in use. -/
def isEmpty (allocator : Allocator) : Bool :=
  allocator.next = allocator.domain.reserved

/-- The wire of a name, if it has one. -/
def lookup (allocator : Allocator) (name : String) : Option Wire :=
  allocator.names.idxOf? name

/-- The name of a wire, if it is in use. -/
def nameOf (allocator : Allocator) (wire : Wire) : Option String :=
  allocator.names[wire]?

/-- A printable name for a wire, whether or not it is in use. -/
def describe (allocator : Allocator) (wire : Wire) : String :=
  (allocator.nameOf wire).getD s!"wire_{wire}"

/-- The wire of a name, and the allocator afterwards: a new name gets the first
wire that is not in use. Where constants have no meaning their names are
refused. -/
def allocate (allocator : Allocator) (name : String) : Except Error (Wire × Allocator) :=
  match allocator.lookup name with
  | some wire => .ok (wire, allocator)
  | none =>
    if fresh : name ∉ allocator.named ∧ ¬ IsConstantName name then
      .ok (allocator.next,
        { allocator with
          named := allocator.named ++ [name]
          nodup := by
            refine List.nodup_append.2 ⟨allocator.nodup, by simp, ?_⟩
            intro old oldMember new newMember same
            rw [List.mem_singleton] at newMember
            exact fresh.1 (newMember ▸ same ▸ oldMember)
          no_constant := by
            intro other member
            rcases List.mem_append.1 member with old | new
            · exact allocator.no_constant other old
            · rw [List.mem_singleton] at new
              exact new ▸ fresh.2 })
    else .error (.unsupportedConstant name)

theorem nodup_names (allocator : Allocator) : allocator.names.Nodup := by
  refine List.nodup_append.2 ⟨allocator.domain.nodup_constantNames, allocator.nodup, ?_⟩
  intro constant constantMember name member same
  exact allocator.no_constant name member
    (same ▸ Domain.isConstantName_of_mem_constantNames constantMember)

theorem lookup_eq_some_iff {allocator : Allocator} {name : String} {wire : Wire} :
    allocator.lookup name = some wire ↔ allocator.nameOf wire = some name := by
  unfold lookup nameOf
  constructor
  · intro found
    obtain ⟨inRange, same, _⟩ := List.findIdx?_eq_some_iff_getElem.1 found
    exact List.getElem?_eq_some_iff.2 ⟨inRange, eq_of_beq same⟩
  · intro found
    obtain ⟨inRange, same⟩ := List.getElem?_eq_some_iff.1 found
    refine List.findIdx?_eq_some_iff_getElem.2 ⟨inRange, by simp [same], ?_⟩
    intro earlier below equal
    have sameName : allocator.names[earlier] = allocator.names[wire] := by
      rw [same]
      exact eq_of_beq equal
    exact List.pairwise_iff_getElem.1 allocator.nodup_names earlier wire _ inRange below sameName

theorem lookup_eq_none_iff {allocator : Allocator} {name : String} :
    allocator.lookup name = none ↔ name ∉ allocator.names := by
  simp [lookup, List.idxOf?_eq_none_iff]

theorem lt_next_of_lookup {allocator : Allocator} {name : String} {wire : Wire}
    (found : allocator.lookup name = some wire) : wire < allocator.next :=
  (List.getElem?_eq_some_iff.1 (lookup_eq_some_iff.1 found)).1

end Allocator

end Netlist
