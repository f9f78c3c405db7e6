import Netlist.Decimal.Shortest

/-!
# JSON values

Numbers keep apart what fits a 64-bit word, with or without a minus sign, and
what is rounded to a binary fraction. The members of an object have an order;
`setMember` keeps their names distinct (`nodup_names_setMember`).
-/

namespace Netlist.Json

open Netlist.Decimal

/-- A JSON number. -/
inductive Number where
  /-- A natural number below `2 ^ 64`. -/
  | natural (value : Nat)
  /-- The negation of a positive number of at most `2 ^ 63`. -/
  | negated (value : Nat)
  /-- Any other number, rounded, with its sign. -/
  | rounded (negative : Bool) (magnitude : Binary64)
  deriving DecidableEq

/-- A JSON value. -/
inductive Value where
  | null
  | bool (value : Bool)
  | number (value : Number)
  | string (value : String)
  | array (elements : List Value)
  | object (members : List (String × Value))

/-- The members of an object after one of them is set: a repeated name keeps its
place and takes the new value. -/
def setMember (name : String) (value : Value) : List (String × Value) → List (String × Value)
  | [] => [(name, value)]
  | (other, old) :: rest =>
    if other = name then (other, value) :: rest else (other, old) :: setMember name value rest

/-- The member of an object with the given name. Other values have no members. -/
def Value.member? (name : String) : Value → Option Value
  | .object members => members.lookup name
  | _ => none

theorem mem_names_setMember_iff {name other : String} {value : Value}
    {members : List (String × Value)} :
    other ∈ (setMember name value members).map Prod.fst ↔
      other = name ∨ other ∈ members.map Prod.fst := by
  induction members with
  | nil => simp [setMember]
  | cons head tail ih =>
    unfold setMember
    split
    · rename_i same
      simp [same]
    · simp only [List.map_cons, List.mem_cons, ih]
      exact or_left_comm

theorem nodup_names_setMember {name : String} {value : Value}
    {members : List (String × Value)} (distinct : (members.map Prod.fst).Nodup) :
    ((setMember name value members).map Prod.fst).Nodup := by
  induction members with
  | nil => simp [setMember]
  | cons head tail ih =>
    have headFresh := (List.nodup_cons.1 distinct).1
    have tailDistinct := (List.nodup_cons.1 distinct).2
    unfold setMember
    split
    · exact distinct
    · rename_i different
      refine List.nodup_cons.2 ⟨fun member => ?_, ih tailDistinct⟩
      rcases mem_names_setMember_iff.1 member with same | inTail
      · exact different same
      · exact headFresh inTail

end Netlist.Json
