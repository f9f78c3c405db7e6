import Mathlib.Data.Set.Function
import Mathlib.Order.Bounds.Basic
import Mathlib.Order.Interval.Set.Defs
import Netlist.Circuit.Renumbering
import Netlist.Proofs.Agreement
import Netlist.Proofs.KeptTexts
import Netlist.Proofs.Simplification
import Netlist.Proofs.Sweeping

/-!
# Compact numbers

The numbers that are given to wires in passing over the gates are the compact ones, unless they
outgrow a word (`Circuit.renumbering?_eq`): the inner wires are numbered in the order of their
first occurrences, from just above all ports and constants on (`Circuit.IsCompaction`). Inner wires
had any numbers before, but as no two wires get the same number, a gate still reads what another
one drives: compacting once more changes nothing (`Circuit.compact_compact`), and evaluators of
both texts go on in lockstep, with equal values on a wire and on its new number
(`Circuit.alike_compact`, `KeptCircuit.compact_isRenaming`).
-/

namespace Netlist

open Bristol
open List (Forall₂)

/-! ### First occurrences -/

section

variable {wires : List Wire} {keep : Wire → Bool} {wire : Wire}

/-- One more wire comes last if it is to be kept and did not occur before. -/
theorem eraseDups_filter_concat :
    ((wires ++ [wire]).filter keep).eraseDups =
      if keep wire = true ∧ wire ∉ wires then (wires.filter keep).eraseDups ++ [wire]
      else (wires.filter keep).eraseDups := by
  rw [List.filter_append, List.eraseDups_append]
  by_cases isKept : keep wire = true
  · by_cases occurred : wire ∈ wires
    · simp [isKept, occurred, List.removeAll]
    · simp [isKept, occurred, List.removeAll, List.eraseDups_cons]
  · simp [isKept, List.removeAll]

/-- First occurrences come in the order of their places. -/
theorem pairwise_eraseDups_filter (keep : Wire → Bool) (wires : List Wire) :
    (wires.filter keep).eraseDups.Pairwise fun one other =>
      wires.idxOf one < wires.idxOf other := by
  -- one more wire at the end leaves the places of all others as they are
  induction wires using List.reverseRecOn with
  | nil => exact .nil
  | append_singleton wires wire ih =>
    have earlier : ∀ one ∈ (wires.filter keep).eraseDups,
        one ∈ wires ∧ (wires ++ [wire]).idxOf one = wires.idxOf one := by
      intro one member
      have occurs := List.mem_of_mem_filter (List.mem_eraseDups.1 member)
      exact ⟨occurs, by rw [List.idxOf_append, if_pos occurs]⟩
    have front : (wires.filter keep).eraseDups.Pairwise fun one other =>
        (wires ++ [wire]).idxOf one < (wires ++ [wire]).idxOf other := by
      refine ih.imp_of_mem fun oneMember otherMember before => ?_
      rwa [(earlier _ oneMember).2, (earlier _ otherMember).2]
    rw [eraseDups_filter_concat]
    split
    · rename_i isNew
      refine List.pairwise_append.2 ⟨front, List.pairwise_singleton _ _, ?_⟩
      intro one member last isLast
      rw [List.mem_singleton.1 isLast, (earlier one member).2, List.idxOf_append,
        if_neg isNew.2]
      exact (List.idxOf_lt_length_of_mem (earlier one member).1).trans_le (Nat.le_add_left _ _)
    · exact front

/-- First occurrences are renamed like all others, if no two wires are renamed to one. -/
theorem eraseDups_filter_map {relabel : Wire → Wire}
    (injective : Set.InjOn relabel {wire | wire ∈ wires})
    (same : ∀ wire ∈ wires, keep (relabel wire) = keep wire) :
    ((wires.map relabel).filter keep).eraseDups = (wires.filter keep).eraseDups.map relabel := by
  induction wires using List.reverseRecOn with
  | nil => rfl
  | append_singleton wires wire ih =>
    have front : ∀ one ∈ wires, one ∈ wires ++ [wire] := fun _ => List.mem_append_left _
    have last : wire ∈ wires ++ [wire] := List.mem_append_right _ List.mem_cons_self
    have occurred : relabel wire ∈ wires.map relabel ↔ wire ∈ wires := by
      constructor
      · intro isRenamed
        obtain ⟨one, member, isSame⟩ := List.mem_map.1 isRenamed
        rwa [← injective (front one member) last isSame]
      · exact List.mem_map_of_mem
    rw [List.map_append, List.map_singleton, eraseDups_filter_concat, eraseDups_filter_concat,
      same wire last, ih (injective.mono front) fun one member => same one (front one member)]
    simp only [occurred]
    split
    · rw [List.map_append, List.map_singleton]
    · rfl

/-- In a list that is in order, places are in this order. -/
theorem idxOf_lt_iff_of_pairwise {place : Wire → Nat} {one other : Wire}
    (inOrder : wires.Pairwise fun one other => place one < place other) (oneMember : one ∈ wires)
    (otherMember : other ∈ wires) :
    wires.idxOf one < wires.idxOf other ↔ place one < place other := by
  have related : ∀ {first second : Wire}, first ∈ wires → second ∈ wires →
      wires.idxOf first < wires.idxOf second → place first < place second := by
    intro first second firstMember secondMember before
    have ordered := List.pairwise_iff_getElem.1 inOrder _ _
      (List.idxOf_lt_length_of_mem firstMember) (List.idxOf_lt_length_of_mem secondMember) before
    rwa [List.getElem_idxOf, List.getElem_idxOf] at ordered
  constructor
  · exact related oneMember otherMember
  · intro before
    rcases Nat.lt_trichotomy (wires.idxOf one) (wires.idxOf other) with less | same | more
    · exact less
    · rw [(List.idxOf_inj oneMember).1 same] at before
      exact absurd before (Nat.lt_irrefl _)
    · exact absurd (related otherMember oneMember more) before.asymm

end

/-! ### Numbers given in passing -/

namespace Renumbering

/-- The wires have got consecutive numbers from the first one on. -/
def ofWires (start : Wire) (wires : List Wire) : Renumbering :=
  ⟨start + wires.length, wires.zip (List.range' start wires.length)⟩

theorem ofWires_concat (start : Wire) (wires : List Wire) (wire : Wire) :
    ofWires start (wires ++ [wire]) =
      ⟨(ofWires start wires).next + 1,
        (ofWires start wires).given ++ [(wire, (ofWires start wires).next)]⟩ := by
  unfold ofWires
  rw [List.length_append, List.length_singleton, List.range'_concat,
    List.zip_append List.length_range'.symm, Nat.one_mul]
  rfl

theorem lookup_given_ofWires (start : Wire) (wires : List Wire) (wire : Wire) :
    (ofWires start wires).given.lookup wire = (wires.idxOf? wire).map (start + ·) := by
  induction wires generalizing start with
  | nil => rfl
  | cons head rest ih =>
    have inRest : (rest.zip (List.range' (start + 1) rest.length)).lookup wire =
        ((rest.idxOf? wire).map (· + 1)).map (start + ·) := by
      rw [Option.map_map]
      have shift : (fun place => start + 1 + place) = (start + ·) ∘ (· + 1) :=
        funext (Nat.add_right_comm start 1)
      rw [← shift]
      exact ih (start + 1)
    change List.lookup wire ((head, start) :: rest.zip _) = _
    rw [List.lookup_cons, List.idxOf?_cons, inRest, BEq.comm]
    cases head == wire with
    | true => rfl
    | false => rfl

/-- Where wires are met, those that are not fixed get consecutive numbers in the order in which
they are met first, as long as the numbers are words. -/
theorem foldlM_meet? (fixed : List Wire) {start : Wire} (isWord : start < Decimal.wordLimit)
    (wires : List Wire) :
    wires.foldlM (meet? fixed) (ofWires start []) =
      if start + (wires.filter (· ∉ fixed)).eraseDups.length < Decimal.wordLimit then
        some (ofWires start (wires.filter (· ∉ fixed)).eraseDups)
      else none := by
  induction wires using List.reverseRecOn with
  | nil => exact (if_pos isWord).symm
  | append_singleton wires wire ih =>
    have meetLast : ∀ state, [wire].foldlM (meet? fixed) state = meet? fixed state wire := by
      intro state
      rw [List.foldlM_cons]
      exact bind_pure _
    rw [List.foldlM_append, ih, eraseDups_filter_concat, funext meetLast]
    generalize isMet : (wires.filter (· ∉ fixed)).eraseDups = met
    -- the wires that have got a number are those that were met and are not fixed
    have getsNumber : ¬ (wire ∈ fixed ∨ ((ofWires start met).given.lookup wire).isSome) ↔
        decide (wire ∉ fixed) = true ∧ wire ∉ wires := by
      rw [lookup_given_ofWires, Option.isSome_map, List.isSome_idxOf?, ← isMet, List.mem_eraseDups,
        List.mem_filter, decide_eq_true_iff, not_or]
      exact and_congr_right fun notFixed => not_congr (and_iff_left notFixed)
    have last : (start + (met ++ [wire]).length < Decimal.wordLimit) ↔
        (ofWires start met).next + 1 < Decimal.wordLimit := by
      rw [List.length_append, List.length_singleton]
      exact Iff.rfl
    by_cases room : start + met.length < Decimal.wordLimit
    · rw [if_pos room, Option.bind_eq_bind, Option.bind_some]
      by_cases isNew : decide (wire ∉ fixed) = true ∧ wire ∉ wires
      · rw [if_pos isNew, meet?, if_neg (getsNumber.2 isNew), Wire.next?, ofWires_concat]
        simp only [last]
        split <;> rfl
      · rw [if_neg isNew, meet?, if_pos (not_not.1 (mt getsNumber.1 isNew)), if_pos room]
    · rw [if_neg room, Option.bind_eq_bind, Option.bind_none]
      -- once a number has outgrown a word, nothing comes of the wires behind it
      split
      · exact (if_neg fun still => room ((Nat.lt_succ_self _).trans (last.1 still))).symm
      · rfl

end Renumbering

namespace Circuit

variable {circuit : Circuit} {wire : Wire}

theorem innerStart?_eq (circuit : Circuit) :
    circuit.innerStart? =
      if circuit.innerStart < Decimal.wordLimit then some circuit.innerStart else none := by
  unfold innerStart? innerStart
  cases circuit.fixedWires.max? with
  | none => exact (if_pos (by decide)).symm
  | some highest => rfl

/-- The inner wires get numbers in passing, unless a number outgrows a word. -/
theorem renumbering?_eq (circuit : Circuit) :
    circuit.renumbering? =
      if circuit.innerStart + circuit.innerWires.length < Decimal.wordLimit then
        some (Renumbering.ofWires circuit.innerStart circuit.innerWires)
      else none := by
  rw [renumbering?, innerStart?_eq]
  by_cases isWord : circuit.innerStart < Decimal.wordLimit
  · rw [if_pos isWord]
    exact Renumbering.foldlM_meet? circuit.fixedWires isWord circuit.mentions
  · rw [if_neg isWord, if_neg fun room => isWord (Nat.lt_of_add_right_lt room)]
    rfl

/-- The numbers that are given in passing are the compact ones. -/
theorem number_ofWires (circuit : Circuit) :
    (Renumbering.ofWires circuit.innerStart circuit.innerWires).number = circuit.compactWire := by
  funext wire
  rw [Renumbering.number, Renumbering.lookup_given_ofWires, compactWire, renumber]
  cases circuit.innerWires.idxOf? wire with
  | none => rfl
  | some place => rfl

/-- With numbers in passing a circuit is compacted, unless a number outgrows a word. -/
theorem compact?_eq (circuit : Circuit) :
    circuit.compact? =
      if circuit.innerStart + circuit.innerWires.length < Decimal.wordLimit then
        some circuit.compact
      else none := by
  rw [compact?, renumbering?_eq, apply_ite (Option.map _), Option.map_some, Option.map_none,
    number_ofWires]
  rfl

/-! ### Compact numbers -/

/-- The wire is one of a gate, and neither a port nor a constant. -/
def IsInner (circuit : Circuit) (wire : Wire) : Prop :=
  wire ∈ circuit.mentions ∧ wire ∉ circuit.fixedWires

theorem mem_innerWires_iff : wire ∈ circuit.innerWires ↔ circuit.IsInner wire := by
  rw [innerWires, List.mem_eraseDups, List.mem_filter, decide_eq_true_iff]
  rfl

theorem pairwise_innerWires (circuit : Circuit) :
    circuit.innerWires.Pairwise fun one other =>
      circuit.mentions.idxOf one < circuit.mentions.idxOf other :=
  pairwise_eraseDups_filter _ _

theorem nodup_innerWires (circuit : Circuit) : circuit.innerWires.Nodup := by
  refine circuit.pairwise_innerWires.imp fun before same => ?_
  rw [same] at before
  exact Nat.lt_irrefl _ before

theorem compactWire_of_isInner (isInner : circuit.IsInner wire) :
    circuit.compactWire wire = circuit.innerStart + circuit.innerWires.idxOf wire := by
  rw [compactWire, renumber, List.idxOf_eq_getD_idxOf?]
  cases found : circuit.innerWires.idxOf? wire with
  | none => exact absurd (mem_innerWires_iff.2 isInner) (List.idxOf?_eq_none_iff.1 found)
  | some place => rfl

theorem map_compactWire_innerWires (circuit : Circuit) :
    circuit.innerWires.map circuit.compactWire =
      List.range' circuit.innerStart circuit.innerWires.length := by
  refine List.ext_getElem (by simp) fun place inMap inRange => ?_
  have inside : place < circuit.innerWires.length := by simpa using inMap
  rw [List.getElem_map, List.getElem_range', Nat.one_mul,
    compactWire_of_isInner (mem_innerWires_iff.1 (List.getElem_mem inside)),
    circuit.nodup_innerWires.idxOf_getElem]

/-- Inner wires are numbered from just above the ports and constants. -/
theorem isLeast_innerStart (circuit : Circuit) :
    IsLeast {number | ∀ wire ∈ circuit.fixedWires, wire < number} circuit.innerStart := by
  refine ⟨fun wire => lt_innerStart, fun number above => ?_⟩
  unfold innerStart
  cases highest : circuit.fixedWires.max? with
  | none => exact Nat.zero_le number
  | some most => exact above most (List.max?_eq_some_iff.1 highest).1

/-- The renaming is one to one on the wires of the circuit, keeps ports and constants, and gives
the other wires, in the order in which the gates name them first, consecutive numbers from just
above the ports and constants on. -/
structure IsCompaction (circuit : Circuit) (relabel : Wire → Wire) : Prop where
  injective : Set.InjOn relabel {wire | circuit.Names wire}
  fixed : ∀ wire ∈ circuit.fixedWires, relabel wire = wire
  consecutive : ∃ start count,
    IsLeast {number | ∀ wire ∈ circuit.fixedWires, wire < number} start ∧
      relabel '' {wire | circuit.IsInner wire} = Set.Ico start (start + count)
  inOrder : ∀ one other, circuit.IsInner one → circuit.IsInner other →
    (relabel one < relabel other ↔ circuit.mentions.idxOf one < circuit.mentions.idxOf other)

theorem isCompaction_compactWire (circuit : Circuit) :
    circuit.IsCompaction circuit.compactWire := by
  constructor
  · exact fun one oneNamed other otherNamed => eq_of_compactWire_eq oneNamed otherNamed
  · exact fun wire => compactWire_of_mem_fixedWires
  · refine ⟨circuit.innerStart, circuit.innerWires.length, circuit.isLeast_innerStart, ?_⟩
    ext number
    rw [Set.mem_Ico, ← List.mem_range'_1, ← map_compactWire_innerWires, List.mem_map]
    simp only [mem_innerWires_iff]
    rfl
  · intro one other oneInner otherInner
    rw [compactWire_of_isInner oneInner, compactWire_of_isInner otherInner,
      Nat.add_lt_add_iff_left]
    exact idxOf_lt_iff_of_pairwise circuit.pairwise_innerWires (mem_innerWires_iff.2 oneInner)
      (mem_innerWires_iff.2 otherInner)

/-! ### Compacting twice -/

theorem mentions_compact (circuit : Circuit) :
    circuit.compact.mentions = circuit.mentions.map circuit.compactWire := by
  simp [mentions, gates_compact, List.flatMap_map, List.map_flatMap]

theorem names_of_mem_mentions (member : wire ∈ circuit.mentions) : circuit.Names wire :=
  Or.inr (List.mem_flatMap.1 member)

/-- A compact number is that of a port or constant only for these. -/
theorem compactWire_mem_fixedWires_iff (named : circuit.Names wire) :
    circuit.compactWire wire ∈ circuit.fixedWires ↔ wire ∈ circuit.fixedWires := by
  constructor
  · intro isFixed
    have same := compactWire_of_mem_fixedWires isFixed
    rwa [eq_of_compactWire_eq (Or.inl isFixed) named same] at isFixed
  · intro isFixed
    rwa [compactWire_of_mem_fixedWires isFixed]

theorem innerWires_compact (circuit : Circuit) :
    circuit.compact.innerWires = circuit.innerWires.map circuit.compactWire := by
  have inner : circuit.compact.innerWires =
      (circuit.compact.mentions.filter (· ∉ circuit.fixedWires)).eraseDups := rfl
  rw [inner, mentions_compact]
  refine eraseDups_filter_map (fun one oneMember other otherMember => ?_) fun wire member => ?_
  · exact eq_of_compactWire_eq (names_of_mem_mentions oneMember)
      (names_of_mem_mentions otherMember)
  · rw [decide_eq_decide, compactWire_mem_fixedWires_iff (names_of_mem_mentions member)]

/-- Consecutive numbers are given again as they are. -/
theorem renumber_range' (start count : Nat) (wire : Wire) :
    renumber start (List.range' start count) wire = wire := by
  unfold renumber
  cases found : (List.range' start count).idxOf? wire with
  | none => rfl
  | some place =>
    obtain ⟨inside, same, _⟩ := List.idxOf?_eq_some_iff.1 found
    rw [← same, List.getElem_range', Nat.one_mul]

theorem compact_compact (circuit : Circuit) : circuit.compact.compact = circuit.compact := by
  have again : circuit.compact.compactWire = id := by
    funext wire
    rw [compactWire, innerWires_compact, map_compactWire_innerWires]
    exact renumber_range' circuit.innerStart _ wire
  have gates : circuit.compact.compact.gates = circuit.compact.gates := by
    rw [gates_compact circuit.compact, again]
    exact List.map_id'' Gate.rename_id _
  exact congrArg (fun gates => { circuit with gates }) gates

/-- Numbers that are compact already are given in as much room. -/
theorem room_compact
    (room : circuit.innerStart + circuit.innerWires.length < Decimal.wordLimit) :
    circuit.compact.innerStart + circuit.compact.innerWires.length < Decimal.wordLimit := by
  rw [innerWires_compact, List.length_map]
  exact room

/-- If there is room for all numbers, the wires can be counted behind them. -/
theorem wireCount_compact_lt
    (room : circuit.innerStart + circuit.innerWires.length < Decimal.wordLimit) :
    circuit.compact.wireCount < Decimal.wordLimit := by
  have inRoom : ∀ number, number < circuit.innerStart + circuit.innerWires.length →
      number + 1 < Decimal.wordLimit := fun number below => Nat.lt_of_le_of_lt below room
  have fixedBelow : ∀ wire ∈ circuit.fixedWires,
      wire < circuit.innerStart + circuit.innerWires.length :=
    fun wire isFixed => Nat.lt_add_right _ (lt_innerStart isFixed)
  refine wireCount_lt_iff.2 fun wire member => inRoom wire ?_
  rcases List.mem_append.1 (Wire.mem_ascending_iff.1 member) with isPort | isGateWire
  · exact fixedBelow wire (List.mem_append_left _ isPort)
  · change wire ∈ circuit.compact.mentions at isGateWire
    rw [mentions_compact] at isGateWire
    obtain ⟨old, isMentioned, rfl⟩ := List.mem_map.1 isGateWire
    by_cases isFixed : old ∈ circuit.fixedWires
    · rw [compactWire_of_mem_fixedWires isFixed]
      exact fixedBelow old isFixed
    · have isInner : circuit.IsInner old := ⟨isMentioned, isFixed⟩
      rw [compactWire_of_isInner isInner]
      exact Nat.add_lt_add_left (List.idxOf_lt_length_of_mem (mem_innerWires_iff.2 isInner)) _

/-! ### Evaluating renumbered circuits -/

/-- The first wire is one of the circuit, and the second one is its compact number. -/
def IsRenumbered (circuit : Circuit) (wire copy : Wire) : Prop :=
  circuit.Names wire ∧ copy = circuit.compactWire wire

theorem matching_isRenumbered (isBoolean : circuit.domain = .boolean) :
    Domain.boolean.Matching circuit.IsRenumbered := by
  constructor
  · rintro one two image ⟨oneNamed, rfl⟩ ⟨twoNamed, same⟩
    exact eq_of_compactWire_eq oneNamed twoNamed same
  · rintro wire one two ⟨_, rfl⟩ ⟨_, rfl⟩
    rfl
  · intro wire constant
    have isFixed : wire ∈ circuit.fixedWires :=
      List.mem_append_right _ (List.mem_range.2 (isBoolean ▸ constant))
    exact ⟨Or.inl isFixed, (compactWire_of_mem_fixedWires isFixed).symm⟩

theorem alike_compact (circuit : Circuit) :
    circuit.Alike circuit.IsRenumbered circuit.compact := by
  have fixed : ∀ wires, wires ⊆ circuit.fixedWires →
      Forall₂ circuit.IsRenumbered wires wires := by
    intro wires subset
    exact List.forall₂_same.2 fun wire member =>
      ⟨Or.inl (subset member), (compactWire_of_mem_fixedWires (subset member)).symm⟩
  refine ⟨rfl, fixed _ ?_, fixed _ ?_, ?_⟩
  · exact fun wire isInput => List.mem_append_left _ (List.mem_append_left _ isInput)
  · exact fun wire isOutput => List.mem_append_left _ (List.mem_append_right _ isOutput)
  · rw [gates_compact, List.forall₂_map_right_iff, List.forall₂_same]
    intro gate isGate
    have named : ∀ wire ∈ gate.wires, circuit.IsRenumbered wire (circuit.compactWire wire) :=
      fun wire member => ⟨Or.inr ⟨gate, isGate, member⟩, rfl⟩
    refine ⟨rfl, ?_, named _ (Gate.mem_wires_iff.2 (Or.inr rfl))⟩
    refine List.forall₂_map_right_iff.2 (List.forall₂_same.2 fun wire isInput => ?_)
    exact named wire (Gate.mem_wires_iff.2 (Or.inl isInput))

end Circuit

namespace Bristol.Evaluator

theorem map_fst_outputs_of_step {evaluator next : Evaluator} {line : Line} {events : List Event}
    (stepped : evaluator.step line = .ok (next, events)) :
    next.outputs.map Prod.fst = evaluator.outputs.map Prod.fst ++ line.answered?.toList := by
  cases line with
  | input wire =>
    simp only [step] at stepped
    split at stepped
    · cases stepped
      exact (List.append_nil _).symm
    · split at stepped
      · cases stepped
      · have same := congrArg (fun result => result.1.outputs) (Except.ok.inj stepped)
        rw [outputs_set] at same
        rw [← same]
        exact (List.append_nil _).symm
  | output wire =>
    simp only [step] at stepped
    cases read : evaluator.get wire with
    | error error =>
      rw [read] at stepped
      cases stepped
    | ok bit =>
      rw [read] at stepped
      cases stepped
      exact List.map_append
  | gate node =>
    simp only [step] at stepped
    cases computed : evaluator.gateValue node with
    | error error =>
      rw [computed] at stepped
      cases stepped
    | ok bit =>
      rw [computed] at stepped
      cases stepped
      rw [outputs_set]
      exact (List.append_nil _).symm

/-- Which wires are put out is told by the lines. -/
theorem map_fst_outputs_of_follow {evaluator last : Evaluator} {lines : List Line}
    (followed : evaluator.follow lines = .ok last) :
    last.outputs.map Prod.fst =
      evaluator.outputs.map Prod.fst ++ lines.filterMap Line.answered? := by
  induction lines generalizing evaluator with
  | nil =>
    cases followed
    exact (List.append_nil _).symm
  | cons line rest ih =>
    rw [follow] at followed
    cases stepped : evaluator.step line with
    | error error =>
      rw [stepped] at followed
      cases followed
    | ok outcome =>
      obtain ⟨next, events⟩ := outcome
      rw [stepped] at followed
      rw [ih followed, map_fst_outputs_of_step stepped, List.filterMap_cons, List.append_assoc]
      cases line.answered? with
      | none => rfl
      | some wire => rfl

end Bristol.Evaluator

/-- If the lines of a circuit can be followed, so can those of one that is alike and has the same
outputs, and then the same is put out. -/
theorem Circuit.Alike.exists_follow {flat : Wire → Wire → Prop} {circuit image : Circuit}
    (alike : circuit.Alike flat image) (matching : Domain.boolean.Matching flat)
    (outputs : circuit.outputs = image.outputs) {constants : Bool} {bits : List Bool}
    {last : Evaluator}
    (followed : (Evaluator.ready constants bits).follow circuit.bristolLines = .ok last) :
    ∃ other, (Evaluator.ready constants bits).follow image.bristolLines = .ok other ∧
      other.outputs = last.outputs := by
  have start : (Evaluator.ready constants bits).Alike flat (Evaluator.ready constants bits) :=
    Evaluator.alike_ready matching rfl
  obtain ⟨other, otherFollowed, after⟩ :=
    start.exists_follow matching (alike.forall₂_bristolLines matching) followed
  have wires : other.outputs.map Prod.fst = last.outputs.map Prod.fst := by
    rw [Evaluator.map_fst_outputs_of_follow followed,
      Evaluator.map_fst_outputs_of_follow otherFollowed, filterMap_answered?_bristolLines,
      filterMap_answered?_bristolLines, outputs]
  refine ⟨other, otherFollowed, ?_⟩
  rw [List.zip_of_prod wires after.outputs.symm, ← List.zip_of_prod rfl rfl]

namespace KeptCircuit

variable {kept : KeptCircuit}

theorem compact_compact (kept : KeptCircuit) : kept.compact.compact = kept.compact := by
  unfold compact
  rw [Circuit.compact_compact, WireSets.recount_eq, WireSets.recount_eq]

/-- Circuits of primitives that are alike and have the same outputs are evaluated to the same, if
the number of wires fits into a word. -/
theorem evaluate_of_alike {flat : Wire → Wire → Prop} {image : KeptCircuit}
    (alike : kept.circuit.Alike flat image.circuit) (matching : Domain.boolean.Matching flat)
    (sameOutputs : kept.circuit.outputs = image.circuit.outputs)
    (primitive : ∀ gate ∈ kept.circuit.gates, gate.operator.IsPrimitive)
    (imagePrimitive : ∀ gate ∈ image.circuit.gates, gate.operator.IsPrimitive)
    (exact : kept.sets.gateInputs = Gate.allInputs kept.circuit.gates)
    (imageExact : image.sets.gateInputs = Gate.allInputs image.circuit.gates) {text copy : String}
    (written : kept.toBristol = .ok text) (imageWritten : image.toBristol = .ok copy)
    (wires : image.circuit.wireCount < Decimal.wordLimit) {witness : String} {constants : Bool}
    {outputs : List (Wire × Bool)}
    (evaluated : (evaluate text witness constants).result = .ok outputs) :
    (evaluate copy witness constants).result = .ok outputs := by
  rw [evaluate_iff primitive written, bristolLines_eq exact] at evaluated
  rw [evaluate_iff imagePrimitive imageWritten, bristolLines_eq imageExact]
  obtain ⟨counts, arities, bits, last, lists, followed, rfl⟩ := evaluated
  obtain ⟨other, otherFollowed, same⟩ := alike.exists_follow matching sameOutputs followed
  exact ⟨⟨alike.gates.length_eq ▸ counts.gates, wires⟩, alike.hasArities arities, bits, other,
    lists, otherFollowed, same⟩

/-- With numbers in passing the circuit and its sets are compacted, unless a number outgrows a
word. -/
theorem compact?_eq (kept : KeptCircuit) :
    kept.compact? =
      if kept.circuit.innerStart + kept.circuit.innerWires.length < Decimal.wordLimit then
        some kept.compact
      else none := by
  rw [compact?, Circuit.compact?_eq, apply_ite (Option.map _), Option.map_some, Option.map_none]
  rfl

/-- Compacting renames the wires of all gates, and rebuilds the sets of gate wires. The renaming
is one to one, keeps ports and constants, and numbers all other wires from just above them on, in
the order in which the gates name them first. Compacting once more changes nothing. A text of
primitives is evaluated as before, if the set of wires that gates read was exact and counting the
wires does not overflow. Compacting itself does not overflow if there is room for all numbers
behind the highest port or constant. -/
theorem compact_isRenaming (kept : KeptCircuit)
    (room : kept.circuit.innerStart + kept.circuit.innerWires.length < Decimal.wordLimit) :
    ∃ numbers compacted,
      kept.circuit.renumbering? = some numbers ∧ kept.compact? = some compacted ∧
      kept.circuit.IsCompaction numbers.number ∧
      compacted.circuit = { kept.circuit with
        gates := kept.circuit.gates.map (Gate.rename numbers.number) } ∧
      compacted.sets = { kept.sets with
        gateInputs := Gate.allInputs compacted.circuit.gates
        gateOutputs := Gate.allOutputs compacted.circuit.gates } ∧
      compacted.compact? = some compacted ∧
      (kept.circuit.domain = .boolean →
        (∀ gate ∈ kept.circuit.gates, gate.operator.IsPrimitive) →
        kept.sets.gateInputs = Gate.allInputs kept.circuit.gates →
        (∀ wire ∈ kept.circuit.wires, wire + 1 < Decimal.wordLimit) →
        ∃ text compactText,
          kept.toBristol = .ok text ∧ compacted.toBristol = .ok compactText ∧
            ∀ witness constants outputs,
              (evaluate compactText witness constants).result = .ok outputs ↔
                (evaluate text witness constants).result = .ok outputs) := by
  have sets := WireSets.recount_eq kept.sets kept.circuit.compact.gates
  have again : kept.compact.compact? = some kept.compact := by
    rw [compact?_eq, compact_compact]
    exact if_pos (kept.circuit.room_compact room)
  refine ⟨_, kept.compact, (kept.circuit.renumbering?_eq).trans (if_pos room),
    kept.compact?_eq.trans (if_pos room), ?_⟩
  rw [Circuit.number_ofWires]
  refine ⟨kept.circuit.isCompaction_compactWire, rfl, sets, again, ?_⟩
  intro isBoolean primitive exact bounded
  have compactPrimitive : ∀ gate ∈ kept.compact.circuit.gates, gate.operator.IsPrimitive := by
    intro copy member
    obtain ⟨gate, isGate, rfl⟩ := List.mem_map.1 member
    exact primitive gate isGate
  have compactExact : kept.compact.sets.gateInputs = Gate.allInputs kept.compact.circuit.gates :=
    congrArg WireSets.gateInputs sets
  have alike : kept.circuit.Alike _ kept.compact.circuit := kept.circuit.alike_compact
  have matching := Circuit.matching_isRenumbered isBoolean
  have written := toBristol_of_boolean isBoolean
  have compactWritten : kept.compact.toBristol = .ok _ := toBristol_of_boolean isBoolean
  refine ⟨_, _, written, compactWritten, fun witness constants outputs => ⟨?_, ?_⟩⟩
  · exact evaluate_of_alike alike.flip matching.flip rfl compactPrimitive primitive compactExact
      exact compactWritten written (Circuit.wireCount_lt_iff.2 bounded)
  · exact evaluate_of_alike alike matching rfl primitive compactPrimitive exact compactExact
      written compactWritten (kept.circuit.wireCount_compact_lt room)

/-- Inner wires below and above the ports, two of which trade numbers. -/
def tangled : KeptCircuit where
  circuit := ⟨"tangled", .boolean, [5], [3],
    [⟨.inv, [5], 7⟩, ⟨.xor, [7, 1], 6⟩, ⟨.and, [6, 5], 2⟩, ⟨.buf, [2], 3⟩]⟩
  sets := ⟨[1, 2, 5, 6, 7], [2, 3, 6, 7], [], []⟩

def tangledText : String :=
  "4 8\n0\n0\n0 1 0 INPUT\n0 1 1 INPUT\n0 1 5 INPUT\n1 1 5 7 INV\n2 1 1 7 6 XOR\n" ++
  "2 1 5 6 2 AND\n1 1 2 3 BUF\n1 0 3 OUTPUT\n"

/-- The text of `tangled` with compact numbers. -/
def untangledText : String :=
  "4 9\n0\n0\n0 1 0 INPUT\n0 1 1 INPUT\n0 1 5 INPUT\n1 1 5 6 INV\n2 1 1 6 7 XOR\n" ++
  "2 1 5 7 8 AND\n1 1 8 3 BUF\n1 0 3 OUTPUT\n"

theorem compact_isRenaming_tangled :
    tangled.circuit.innerStart + tangled.circuit.innerWires.length < Decimal.wordLimit ∧
      (∃ numbers, tangled.circuit.renumbering? = some numbers ∧
        tangled.circuit.IsCompaction numbers.number) ∧
      tangled.compact? = some tangled.compact ∧
      tangled.circuit.domain = .boolean ∧
      (∀ gate ∈ tangled.circuit.gates, gate.operator.IsPrimitive) ∧
      tangled.sets.gateInputs = Gate.allInputs tangled.circuit.gates ∧
      (∀ wire ∈ tangled.circuit.wires, wire + 1 < Decimal.wordLimit) ∧
      tangled.toBristol = .ok tangledText ∧ tangled.compact.toBristol = .ok untangledText ∧
      (evaluate tangledText "011" false).result = .ok [(3, true)] ∧
      (evaluate untangledText "011" false).result = .ok [(3, true)] := by
  have room : tangled.circuit.innerStart + tangled.circuit.innerWires.length <
      Decimal.wordLimit := by
    have start : tangled.circuit.innerStart = 6 := by cbv
    have inner : tangled.circuit.innerWires = [7, 6, 2] := by cbv
    rw [start, inner]
    decide
  have primitive : ∀ gate ∈ tangled.circuit.gates, gate.operator.IsPrimitive := by decide
  have exact : tangled.sets.gateInputs = Gate.allInputs tangled.circuit.gates := by cbv
  have bounded : ∀ wire ∈ tangled.circuit.wires, wire + 1 < Decimal.wordLimit := by decide
  have tangledWritten : tangled.toBristol = .ok tangledText := by cbv
  have untangledWritten : tangled.compact.toBristol = .ok untangledText := by cbv
  have evaluated : (evaluate tangledText "011" false).result = .ok [(3, true)] := by cbv
  obtain ⟨numbers, compacted, renumbered, done, isCompaction, _, _, _, texts⟩ :=
    compact_isRenaming tangled room
  cases (tangled.compact?_eq.trans (if_pos room)).symm.trans done
  obtain ⟨text, compactText, written, compactWritten, same⟩ :=
    texts rfl primitive exact bounded
  cases tangledWritten.symm.trans written
  cases untangledWritten.symm.trans compactWritten
  exact ⟨room, ⟨numbers, renumbered, isCompaction⟩, done, rfl, primitive, exact, bounded,
    tangledWritten, untangledWritten, evaluated, (same _ _ _).2 evaluated⟩

/-- A port that is next to the largest word, and two inner wires. -/
def crowded : KeptCircuit where
  circuit := ⟨"crowded", .boolean, [18446744073709551614], [2],
    [⟨.inv, [18446744073709551614], 5⟩, ⟨.inv, [5], 6⟩, ⟨.buf, [6], 2⟩]⟩
  sets := ⟨[5, 6, 18446744073709551614], [2, 5, 6], [], []⟩

def crowdedText : String :=
  "3 18446744073709551615\n0\n0\n0 1 18446744073709551614 INPUT\n" ++
  "1 1 18446744073709551614 5 INV\n1 1 5 6 INV\n1 1 6 2 BUF\n1 0 2 OUTPUT\n"

set_option maxRecDepth 1000 in
/-- Compacting overflows, as there is room for one of the two inner wires only. No renaming that
numbers them consecutively behind the port has words for both. -/
theorem compact?_crowded :
    crowded.circuit.domain = .boolean ∧
      (∀ gate ∈ crowded.circuit.gates, gate.operator.IsPrimitive) ∧
      crowded.sets.gateInputs = Gate.allInputs crowded.circuit.gates ∧
      (∀ wire ∈ crowded.circuit.wires, wire + 1 < Decimal.wordLimit) ∧
      crowded.toBristol = .ok crowdedText ∧
      (evaluate crowdedText "1" true).result = .ok [(2, true)] ∧
      crowded.compact? = none ∧
      ∀ relabel, crowded.circuit.IsCompaction relabel →
        ∃ wire, crowded.circuit.IsInner wire ∧ Decimal.wordLimit ≤ relabel wire := by
  have start : crowded.circuit.innerStart = 18446744073709551615 := by cbv
  have inner : crowded.circuit.innerWires = [5, 6] := by cbv
  have wires : crowded.circuit.wires = [2, 5, 6, 18446744073709551614] := by cbv
  have bounded : ∀ wire ∈ crowded.circuit.wires, wire + 1 < Decimal.wordLimit := by
    rw [wires]
    decide
  refine ⟨rfl, by decide, by cbv, bounded, by cbv, by cbv, ?_, fun relabel isCompaction => ?_⟩
  · rw [compact?_eq, start, inner]
    exact if_neg (by decide)
  · have isInner : ∀ wire ∈ [5, 6], crowded.circuit.IsInner wire := by
      intro wire member
      rw [← Circuit.mem_innerWires_iff, inner]
      exact member
    have fiveInner := isInner 5 List.mem_cons_self
    have sixInner := isInner 6 (List.mem_cons_of_mem _ List.mem_cons_self)
    -- both get numbers behind the port, and not the same one
    have different : relabel 5 ≠ relabel 6 := by
      intro same
      have names := isCompaction.injective (Circuit.names_of_mem_mentions fiveInner.1)
        (Circuit.names_of_mem_mentions sixInner.1) same
      exact absurd names (by decide)
    obtain ⟨first, count, isLeast, image⟩ := isCompaction.consecutive
    have isFirst : first = 18446744073709551615 :=
      (isLeast.unique crowded.circuit.isLeast_innerStart).trans start
    have behind : ∀ wire, crowded.circuit.IsInner wire → 18446744073709551615 ≤ relabel wire := by
      intro wire isInner
      have inImage : relabel wire ∈ Set.Ico first (first + count) :=
        image ▸ Set.mem_image_of_mem relabel isInner
      exact isFirst ▸ inImage.1
    have limit : Decimal.wordLimit = 18446744073709551616 := rfl
    have five := behind 5 fiveInner
    have six := behind 6 sixInner
    rcases Nat.lt_or_gt_of_ne different with less | more
    · exact ⟨6, sixInner, limit ▸ Nat.succ_le_of_lt (Nat.lt_of_le_of_lt five less)⟩
    · exact ⟨5, fiveInner, limit ▸ Nat.succ_le_of_lt (Nat.lt_of_le_of_lt six more)⟩

end KeptCircuit

end Netlist
