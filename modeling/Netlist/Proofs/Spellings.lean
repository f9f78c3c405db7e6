import Mathlib.Data.List.TakeWhile
import Netlist.Proofs.Readability
import Netlist.Statistics

/-!
# Spellings of operators

An operator is recognized by a word, in any case, once all markers in front of it and all
underscores behind it are cut away. So a name stands for a primitive exactly if it is a word for
the primitive between any numbers of these (`Operator.Spells`), which the name tells by itself
(`Operator.spells_iff`). All other names are cells (`Operator.ofName_eq_iff_spells`). An internal
cell has one marker on either side (`Operator.IsRegularName`), but a name with fewer or more of them
is taken for a primitive as well (`Operator.exists_stray_marker`).
-/

namespace Netlist.Operator

/-- The words for an operator in upper case. A cell has none. -/
def spellings : Operator → List String
  | and => ["AND"]
  | xor => ["XOR"]
  | inv => ["INV", "NOT"]
  | buf => ["BUF", "ALIAS"]
  | cell _ => []

/-- Some markers in front of a word. -/
def openMarkers (count : Nat) : List Char :=
  (List.replicate count ['$', '_']).flatten

/-- Some underscores behind a word. -/
def closeMarkers (count : Nat) : List Char :=
  List.replicate count '_'

/-- The name is a word for the operator, in any case in ASCII, between some markers and some
underscores. -/
def Spells (operator : Operator) (openings closings : Nat) (name : String) : Prop :=
  ∃ word, String.ofList (word.map Char.toUpper) ∈ operator.spellings ∧
    name.toList = openMarkers openings ++ word ++ closeMarkers closings

/-- The name is a word for the operator by itself, or one between the markers of an internal
cell. -/
def IsRegularName (operator : Operator) (name : String) : Prop :=
  operator.Spells 0 0 name ∨ operator.Spells 1 1 name

/-! ### Markers -/

theorem length_openMarkers (count : Nat) : (openMarkers count).length = 2 * count := by
  simp [openMarkers, Nat.mul_comm]

theorem length_closeMarkers (count : Nat) : (closeMarkers count).length = count :=
  List.length_replicate

theorem dropOpening_of_head?_ne {characters : List Char} (noMarker : characters.head? ≠ some '$') :
    dropOpening characters = characters := by
  unfold dropOpening
  split
  · exact absurd rfl noMarker
  · rfl

theorem dropOpening_openMarkers_append (count : Nat) (rest : List Char) :
    dropOpening (openMarkers count ++ rest) = dropOpening rest := by
  induction count with
  | zero => rfl
  | succ count ih =>
    have unfolded : openMarkers (count + 1) = '$' :: '_' :: openMarkers count := by
      rw [openMarkers, List.replicate_succ]
      rfl
    rw [unfolded, List.cons_append, List.cons_append, dropOpening, ih]

/-- What is cut away in front are markers. -/
theorem exists_openMarkers_append (characters : List Char) :
    ∃ count, characters = openMarkers count ++ dropOpening characters := by
  fun_induction dropOpening characters with
  | case1 rest ih =>
    obtain ⟨count, same⟩ := ih
    refine ⟨count + 1, ?_⟩
    rw [openMarkers, List.replicate_succ, List.flatten_cons, List.append_assoc, ← openMarkers,
      ← same]
    rfl
  | case2 characters _ => exact ⟨0, rfl⟩

theorem dropClosing_append_closeMarkers {characters : List Char}
    (noMarker : characters.getLast? ≠ some '_') (count : Nat) :
    dropClosing (characters ++ closeMarkers count) = characters := by
  have stops : characters.reverse.dropWhile (· = '_') = characters.reverse := by
    refine List.dropWhile_eq_self_iff.2 fun nonempty isMarker => noMarker ?_
    rw [← List.head?_reverse, List.head?_eq_getElem?, List.getElem?_eq_getElem nonempty]
    exact congrArg some (of_decide_eq_true isMarker)
  unfold dropClosing closeMarkers
  rw [List.reverse_append, List.reverse_replicate, List.dropWhile_append_of_pos, stops,
    List.reverse_reverse]
  exact fun character member => decide_eq_true (List.eq_of_mem_replicate member)

/-- What is cut away behind are underscores. -/
theorem exists_append_closeMarkers (characters : List Char) :
    ∃ count, characters = dropClosing characters ++ closeMarkers count := by
  have cut : characters.reverse.takeWhile (· = '_') =
      closeMarkers (characters.reverse.takeWhile (· = '_')).length :=
    List.eq_replicate_iff.2 ⟨rfl, fun _ member =>
      of_decide_eq_true (@List.mem_takeWhile_imp _ (· = '_') _ _ member)⟩
  refine ⟨(characters.reverse.takeWhile (· = '_')).length, ?_⟩
  rw [← List.reverse_inj, List.reverse_append, dropClosing, List.reverse_reverse, closeMarkers,
    List.reverse_replicate, ← closeMarkers, ← cut, List.takeWhile_append_dropWhile]

/-! ### Words -/

/-- A word does not begin or end with a character of a marker. -/
theorem ends_of_mem_spellings {operator : Operator} {word : List Char}
    (spelled : String.ofList (word.map Char.toUpper) ∈ operator.spellings) :
    word ≠ [] ∧ word.head? ≠ some '$' ∧ word.getLast? ≠ some '_' := by
  have upper : ∀ spelling ∈ operator.spellings, spelling.toList ≠ [] ∧
      spelling.toList.head? ≠ some '$' ∧ spelling.toList.getLast? ≠ some '_' := by
    cases operator with
    | cell name => exact fun _ member => nomatch member
    | _ => decide
  obtain ⟨nonempty, noOpening, noClosing⟩ := upper _ spelled
  rw [String.toList_ofList] at nonempty noOpening noClosing
  rw [List.head?_map] at noOpening
  rw [List.getLast?_map] at noClosing
  refine ⟨fun isEmpty => nonempty ?_, fun isMarker => noOpening ?_, fun isMarker => noClosing ?_⟩
  · rw [isEmpty, List.map_nil]
  · rw [isMarker]
    rfl
  · rw [isMarker]
    rfl

/-- A name that is spelled tells the word, and by its length the numbers of markers. -/
theorem Spells.lengths {operator : Operator} {openings closings : Nat} {name : String}
    (spells : operator.Spells openings closings name) :
    bareWord name ∈ operator.spellings ∧
    name.toList.length = 2 * openings + (dropOpening name.toList).length ∧
    (dropOpening name.toList).length =
      (dropClosing (dropOpening name.toList)).length + closings := by
  obtain ⟨word, spelled, name_eq⟩ := spells
  obtain ⟨nonempty, noOpening, noClosing⟩ := ends_of_mem_spellings spelled
  have opened : dropOpening name.toList = word ++ closeMarkers closings := by
    rw [name_eq, List.append_assoc, dropOpening_openMarkers_append]
    apply dropOpening_of_head?_ne
    rwa [List.head?_append_of_ne_nil _ nonempty]
  have closed : dropClosing (dropOpening name.toList) = word := by
    rw [opened, dropClosing_append_closeMarkers noClosing]
  refine ⟨?_, ?_, ?_⟩
  · rwa [bareWord, closed]
  · rw [opened, name_eq, List.append_assoc, List.length_append, length_openMarkers]
  · rw [closed, opened, List.length_append, length_closeMarkers]

/-- A name has as many markers as it has, whatever it is read as. -/
theorem Spells.counts_eq {operator other : Operator} {openings closings opened closed : Nat}
    {name : String} (spells : operator.Spells openings closings name)
    (otherSpells : other.Spells opened closed name) : openings = opened ∧ closings = closed := by
  obtain ⟨_, openLength, closeLength⟩ := spells.lengths
  obtain ⟨_, otherOpenLength, otherCloseLength⟩ := otherSpells.lengths
  omega

theorem exists_spells_iff {operator : Operator} {name : String} :
    (∃ openings closings, operator.Spells openings closings name) ↔
      bareWord name ∈ operator.spellings := by
  constructor
  · rintro ⟨openings, closings, spells⟩
    exact spells.lengths.1
  · intro spelled
    obtain ⟨openings, open_eq⟩ := exists_openMarkers_append name.toList
    obtain ⟨closings, close_eq⟩ := exists_append_closeMarkers (dropOpening name.toList)
    exact ⟨openings, closings, _, spelled, by rw [List.append_assoc, ← close_eq, ← open_eq]⟩

theorem spells_iff {operator : Operator} {openings closings : Nat} {name : String} :
    operator.Spells openings closings name ↔
      bareWord name ∈ operator.spellings ∧
      name.toList.length = 2 * openings + (dropOpening name.toList).length ∧
      (dropOpening name.toList).length =
        (dropClosing (dropOpening name.toList)).length + closings := by
  refine ⟨Spells.lengths, ?_⟩
  rintro ⟨spelled, openLength, closeLength⟩
  obtain ⟨opened, closed, spells⟩ := exists_spells_iff.2 spelled
  obtain ⟨_, openedLength, closedLength⟩ := spells.lengths
  obtain rfl : opened = openings := by omega
  obtain rfl : closed = closings := by omega
  exact spells

instance (operator : Operator) (openings closings : Nat) (name : String) :
    Decidable (operator.Spells openings closings name) :=
  decidable_of_iff _ spells_iff.symm

/-! ### Names -/

theorem ofName_of_mem_spellings {operator : Operator} {name : String}
    (spelled : bareWord name ∈ operator.spellings) : ofName name = operator := by
  cases operator <;> simp only [spellings, List.mem_cons, List.not_mem_nil, or_false] at spelled
  case inv | buf => rcases spelled with same | same <;> simp [ofName, same]
  all_goals simp [ofName, spelled]

/-- A name that has no word for a primitive is a cell. -/
theorem ofName_of_notMem_spellings {name : String}
    (unspelled : ∀ operator : Operator, bareWord name ∉ operator.spellings) :
    ofName name = cell name := by
  have notWord : ∀ {operator : Operator} {word : String}, word ∈ operator.spellings →
      bareWord name ≠ word :=
    fun isWord same => unspelled _ (same ▸ isWord)
  unfold ofName
  split
  · exact absurd ‹_› (@notWord and _ (by decide))
  · exact absurd ‹_› (@notWord xor _ (by decide))
  · exact absurd ‹_› (@notWord inv _ (by decide))
  · exact absurd ‹_› (@notWord inv _ (by decide))
  · exact absurd ‹_› (@notWord buf _ (by decide))
  · exact absurd ‹_› (@notWord buf _ (by decide))
  · rfl

theorem isPrimitive_of_mem_spellings {operator : Operator} {spelling : String}
    (member : spelling ∈ operator.spellings) : operator.IsPrimitive := by
  cases operator with
  | cell name => cases member
  | _ => rfl

/-- A name stands for an operator exactly if it is spelled so, or if the operator is the cell of
this name and nothing is spelled so. -/
theorem ofName_eq_iff {operator : Operator} {name : String} :
    ofName name = operator ↔
      (∃ openings closings, operator.Spells openings closings name) ∨
      operator = cell name ∧
        ∀ (other : Operator) openings closings, ¬ other.Spells openings closings name := by
  rw [exists_spells_iff]
  constructor
  · rintro rfl
    by_cases spelled : ∃ operator : Operator, bareWord name ∈ operator.spellings
    · obtain ⟨operator, member⟩ := spelled
      exact Or.inl (ofName_of_mem_spellings member ▸ member)
    · have unspelled := not_exists.1 spelled
      exact Or.inr ⟨ofName_of_notMem_spellings unspelled,
        fun other openings closings spells => unspelled other spells.lengths.1⟩
  · rintro (spelled | ⟨rfl, unspelled⟩)
    · exact ofName_of_mem_spellings spelled
    · refine ofName_of_notMem_spellings fun other member => ?_
      obtain ⟨openings, closings, spells⟩ := exists_spells_iff.2 member
      exact unspelled other openings closings spells

theorem isPrimitive_ofName_iff {name : String} :
    (ofName name).IsPrimitive ↔
      ∃ (operator : Operator) (openings closings : Nat),
        operator.Spells openings closings name := by
  constructor
  · intro isPrimitive
    rcases ofName_eq_iff.1 (@rfl _ (ofName name)) with spelled | ⟨isCell, _⟩
    · exact ⟨_, spelled⟩
    · rw [isCell] at isPrimitive
      cases isPrimitive
  · rintro ⟨operator, spelled⟩
    rw [ofName_eq_iff.2 (Or.inl spelled)]
    exact isPrimitive_of_mem_spellings (exists_spells_iff.1 spelled)

/-- All names of primitives are regular, unless they have other numbers of markers. -/
theorem isPrimitive_iff_isRegularName_iff {name : String} :
    ((ofName name).IsPrimitive ↔ ∃ operator : Operator, operator.IsRegularName name) ↔
      ∀ (operator : Operator) openings closings, operator.Spells openings closings name →
        openings = 0 ∧ closings = 0 ∨ openings = 1 ∧ closings = 1 := by
  rw [isPrimitive_ofName_iff]
  constructor
  · intro regular operator openings closings spells
    obtain ⟨other, isBare | isMarked⟩ := regular.1 ⟨operator, openings, closings, spells⟩
    · exact Or.inl (spells.counts_eq isBare)
    · exact Or.inr (spells.counts_eq isMarked)
  · intro counts
    constructor
    · rintro ⟨operator, openings, closings, spells⟩
      rcases counts operator openings closings spells with ⟨rfl, rfl⟩ | ⟨rfl, rfl⟩
      · exact ⟨operator, Or.inl spells⟩
      · exact ⟨operator, Or.inr spells⟩
    · rintro ⟨operator, isBare | isMarked⟩
      · exact ⟨operator, 0, 0, isBare⟩
      · exact ⟨operator, 1, 1, isMarked⟩

/-- No line with the name of a cell computes a gate. -/
theorem ofParts_ne_gate {name : String} (isCell : ofName name = cell name)
    (reads writes : List Wire) (node : Gate) :
    Bristol.Line.ofParts name reads writes ≠ .ok (some (.gate node)) := by
  unfold Bristol.Line.ofParts
  rw [isCell]
  split
  · cases writes <;> simp
  · split
    · cases reads <;> simp
    · exact nofun

/-- A name stands for a primitive exactly if it is a word for it in any case, between any number of
markers in front and any number of underscores behind. Every other name stands for the cell of this
name, whose gates are not checked for a number of inputs, not evaluated, and counted under the name.
The name of the operator stands for the operator again. So the regular names are those of primitives
as far as no name has other markers than one on either side or none. -/
theorem ofName_eq_iff_spells (name : String) :
    (∀ operator, operator.IsPrimitive → (ofName name = operator ↔
      ∃ openings closings, operator.Spells openings closings name)) ∧
    ((∀ (operator : Operator) openings closings, ¬ operator.Spells openings closings name) →
      ofName name = cell name ∧ (ofName name).arity? = none ∧
      (∀ reads writes node, Bristol.Line.ofParts name reads writes ≠ .ok (some (.gate node))) ∧
      ∀ (counts : GateCounts) inputs output, counts.countGate ⟨ofName name, inputs, output⟩ =
        { counts with cells := GateCounts.countCell name counts.cells }) ∧
    ofName (ofName name).name = ofName name ∧
    (((ofName name).IsPrimitive ↔ ∃ operator : Operator, operator.IsRegularName name) ↔
      ∀ (operator : Operator) openings closings, operator.Spells openings closings name →
        openings = 0 ∧ closings = 0 ∨ openings = 1 ∧ closings = 1) := by
  refine ⟨?_, ?_, isNamed_iff.1 ⟨name, rfl⟩, isPrimitive_iff_isRegularName_iff⟩
  · intro operator isPrimitive
    refine ofName_eq_iff.trans (or_iff_left fun isCell => ?_)
    rw [isCell.1] at isPrimitive
    cases isPrimitive
  · intro unspelled
    have isCell := ofName_eq_iff.2 (Or.inr ⟨@rfl _ (cell name), unspelled⟩)
    refine ⟨isCell, ?_, ofParts_ne_gate isCell, fun counts inputs output => ?_⟩
    · rw [isCell]
      rfl
    · rw [isCell]
      rfl

/-- A word between three markers is a primitive, and an internal cell of another name is a cell. -/
theorem ofName_eq_iff_spells_markedTwice :
    xor.IsPrimitive ∧ xor.Spells 2 1 "$_$_xor_" ∧ ofName "$_$_xor_" = xor ∧
    (∀ (operator : Operator) openings closings, ¬ operator.Spells openings closings "$_NAND_") ∧
    ofName "$_NAND_" = cell "$_NAND_" := by
  have spells : xor.Spells 2 1 "$_$_xor_" := by decide
  have unspelled : ∀ (operator : Operator) openings closings,
      ¬ operator.Spells openings closings "$_NAND_" := by
    intro operator openings closings spells
    have member := spells.lengths.1
    have isWord : bareWord "$_NAND_" = "NAND" := by decide
    rw [isWord] at member
    cases operator <;> revert member <;> simp [spellings]
  refine ⟨by decide, spells, ?_, unspelled, ?_⟩
  · exact ((ofName_eq_iff_spells "$_$_xor_").1 xor (by decide)).2 ⟨2, 1, spells⟩
  · exact ((ofName_eq_iff_spells "$_NAND_").2.1 unspelled).1

/-- A name that only ends in an underscore is not regular, but it is taken for a primitive. -/
theorem exists_stray_marker :
    ofName "AND_" = and ∧
    ¬ ((ofName "AND_").IsPrimitive ↔ ∃ operator : Operator, operator.IsRegularName "AND_") := by
  have spells : and.Spells 0 1 "AND_" := by decide
  refine ⟨by decide, fun regular => ?_⟩
  have counts := isPrimitive_iff_isRegularName_iff.1 regular and 0 1 spells
  omega

end Netlist.Operator
