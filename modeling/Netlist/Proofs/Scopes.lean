import Mathlib.Logic.Basic
import Netlist.Design.Flattening

/-!
# What scopes know

A scope knows the flat wires of some wires. Translating wires, gates and pairings
only ever adds to what is known, and what it adds is fresh: it lies between the
first unused flat wire before and after, and no two wires share it
(`Numbering.Extends`). Once a relabelling agrees with all that is known in the
end, translated gates are the gates relabelled (`Numbering.flatGates_spec`), and the
bindings of an instance are those of the last pairing for each port
(`known?_portBindings`).
-/

namespace Netlist

/-- The flat wire of a wire, as far as the scope knows it. -/
def Scope.known? (domain : Domain) (scope : Scope) (wire : Wire) : Option Wire :=
  match scope with
  | .top => some wire
  | .inner bindings => if domain.IsConstant wire then some wire else bindings.lookup wire

/-- The relabelling takes each wire that the scope knows to its flat wire. -/
def Scope.Agrees (domain : Domain) (scope : Scope) (relabel : Wire → Wire) : Prop :=
  ∀ wire flat, scope.known? domain wire = some flat → relabel wire = flat

/-- Constants are known everywhere. -/
theorem Scope.known?_of_constant {domain : Domain} {scope : Scope} {wire : Wire}
    (constant : domain.IsConstant wire) : scope.known? domain wire = some wire := by
  cases scope with
  | top => rfl
  | inner bindings => exact if_pos constant

/-- Some relabelling agrees with a scope. -/
theorem Scope.exists_agrees (domain : Domain) (scope : Scope) :
    ∃ relabel, scope.Agrees domain relabel :=
  ⟨fun wire => (scope.known? domain wire).getD 0, fun wire flat known => by simp [known]⟩

namespace Numbering

/-- The second numbering knows all that the first one knows, and what it knows
besides is fresh. -/
structure Extends (domain : Domain) (first last : Numbering) : Prop where
  next_le : first.next ≤ last.next
  keeps : ∀ {wire flat}, first.scope.known? domain wire = some flat →
    last.scope.known? domain wire = some flat
  fresh : ∀ {wire flat}, first.scope.known? domain wire = none →
    last.scope.known? domain wire = some flat → first.next ≤ flat ∧ flat < last.next
  distinct : ∀ {one other flat}, first.scope.known? domain one = none →
    first.scope.known? domain other = none → last.scope.known? domain one = some flat →
    last.scope.known? domain other = some flat → one = other

variable {domain : Domain}

namespace Extends

/-- Flat wires may be left out. -/
theorem skip (scope : Scope) {first last : Wire} (le : first ≤ last) :
    Extends domain ⟨scope, first⟩ ⟨scope, last⟩ := by
  constructor
  · exact le
  · exact fun known => known
  · intro wire flat unknown known
    rw [unknown] at known
    cases known
  · intro one other flat unknown _ known
    rw [unknown] at known
    cases known

theorem refl (numbering : Numbering) : Extends domain numbering numbering :=
  skip numbering.scope (Nat.le_refl _)

theorem trans {first middle last : Numbering} (start : Extends domain first middle)
    (rest : Extends domain middle last) : Extends domain first last := by
  -- a wire that is new at the end was new in the middle already or became known behind it
  have new : ∀ {wire flat}, first.scope.known? domain wire = none →
      last.scope.known? domain wire = some flat →
      middle.scope.known? domain wire = some flat ∧ first.next ≤ flat ∧ flat < middle.next ∨
        middle.scope.known? domain wire = none ∧ middle.next ≤ flat ∧ flat < last.next := by
    intro wire flat unknown known
    cases inMiddle : middle.scope.known? domain wire with
    | none => exact Or.inr ⟨rfl, rest.fresh inMiddle known⟩
    | some other =>
      have same := rest.keeps inMiddle
      rw [known] at same
      cases same
      exact Or.inl ⟨rfl, start.fresh unknown inMiddle⟩
  constructor
  · exact Nat.le_trans start.next_le rest.next_le
  · exact fun known => rest.keeps (start.keeps known)
  · intro wire flat unknown known
    rcases new unknown known with ⟨_, low, high⟩ | ⟨_, low, high⟩
    · exact ⟨low, Nat.lt_of_lt_of_le high rest.next_le⟩
    · exact ⟨Nat.le_trans start.next_le low, high⟩
  · intro one other flat oneUnknown otherUnknown oneKnown otherKnown
    rcases new oneUnknown oneKnown with ⟨oneMiddle, _, oneHigh⟩ | ⟨oneMiddle, oneLow, _⟩ <;>
      rcases new otherUnknown otherKnown with
        ⟨otherMiddle, _, otherHigh⟩ | ⟨otherMiddle, otherLow, _⟩
    · exact start.distinct oneUnknown otherUnknown oneMiddle otherMiddle
    · exact absurd oneHigh (Nat.not_lt_of_le otherLow)
    · exact absurd otherHigh (Nat.not_lt_of_le oneLow)
    · exact rest.distinct oneMiddle otherMiddle oneKnown otherKnown

/-- What agrees with the larger scope agrees with the smaller one. -/
theorem agrees {first last : Numbering} (extension : Extends domain first last)
    {relabel : Wire → Wire} (agrees : last.scope.Agrees domain relabel) :
    first.scope.Agrees domain relabel :=
  fun wire flat known => agrees wire flat (extension.keeps known)

end Extends

/-! ### Translating wires -/

theorem flatWire_of_known {numbering : Numbering} {wire flat : Wire}
    (known : numbering.scope.known? domain wire = some flat) :
    numbering.flatWire domain wire = (flat, numbering) := by
  obtain ⟨scope, next⟩ := numbering
  cases scope with
  | top =>
    cases known
    rfl
  | inner bindings =>
    by_cases constant : domain.IsConstant wire
    · have same := Option.some.inj ((if_pos constant).symm.trans known)
      rw [← same]
      exact if_pos constant
    · have bound : bindings.lookup wire = some flat := (if_neg constant).symm.trans known
      rw [flatWire]
      dsimp only
      rw [if_neg constant, bound]

theorem flatWire_of_unknown {numbering : Numbering} {wire : Wire}
    (unknown : numbering.scope.known? domain wire = none) :
    ∃ bindings, numbering.scope = .inner bindings ∧ ¬ domain.IsConstant wire ∧
      numbering.flatWire domain wire =
        (numbering.next, ⟨.inner ((wire, numbering.next) :: bindings), numbering.next + 1⟩) := by
  obtain ⟨scope, next⟩ := numbering
  cases scope with
  | top => cases unknown
  | inner bindings =>
    by_cases constant : domain.IsConstant wire
    · cases (if_pos constant).symm.trans unknown
    · have unbound : bindings.lookup wire = none := (if_neg constant).symm.trans unknown
      refine ⟨bindings, rfl, constant, ?_⟩
      rw [flatWire]
      dsimp only
      rw [if_neg constant, unbound]

/-- Binding one more wire to the first unused flat wire. -/
theorem extends_bind {bindings : List (Wire × Wire)} {wire : Wire} (next : Wire)
    (unknown : (Scope.inner bindings).known? domain wire = none) :
    Extends domain ⟨.inner bindings, next⟩ ⟨.inner ((wire, next) :: bindings), next + 1⟩ := by
  have others : ∀ {other flat}, (Scope.inner bindings).known? domain other = none →
      (Scope.inner ((wire, next) :: bindings)).known? domain other = some flat →
      other = wire ∧ flat = next := by
    intro other flat otherUnknown known
    unfold Scope.known? at otherUnknown known
    dsimp only at otherUnknown known
    split at otherUnknown
    · cases otherUnknown
    · rename_i inconstant
      rw [if_neg inconstant, List.lookup_cons] at known
      split at known
      · rename_i same
        cases known
        exact ⟨eq_of_beq same, rfl⟩
      · rw [otherUnknown] at known
        cases known
  constructor
  · exact Nat.le_succ _
  · intro other flat known
    dsimp only at known ⊢
    have different : other ≠ wire := by
      rintro rfl
      rw [unknown] at known
      cases known
    unfold Scope.known? at known ⊢
    dsimp only at known ⊢
    split at known
    · rename_i constant
      rw [if_pos constant, known]
    · rename_i inconstant
      rw [if_neg inconstant, List.lookup_cons, beq_false_of_ne different]
      exact known
  · intro other flat otherUnknown known
    obtain ⟨_, rfl⟩ := others otherUnknown known
    exact ⟨Nat.le_refl _, Nat.lt_succ_self _⟩
  · intro one other flat oneUnknown otherUnknown oneKnown otherKnown
    rw [(others oneUnknown oneKnown).1, (others otherUnknown otherKnown).1]

theorem flatWire_spec (domain : Domain) (numbering : Numbering) (wire : Wire) :
    Extends domain numbering (numbering.flatWire domain wire).2 ∧
      (numbering.flatWire domain wire).2.scope.known? domain wire =
        some (numbering.flatWire domain wire).1 := by
  cases known : numbering.scope.known? domain wire with
  | some flat =>
    rw [flatWire_of_known known]
    exact ⟨Extends.refl _, known⟩
  | none =>
    obtain ⟨bindings, isInner, inconstant, result⟩ := flatWire_of_unknown known
    rw [result]
    rw [isInner] at known
    constructor
    · have extended := extends_bind numbering.next known
      rw [← isInner] at extended
      exact extended
    · simp [Scope.known?, inconstant]

theorem flatWires_spec (domain : Domain) (wires : List Wire) (numbering : Numbering) :
    Extends domain numbering (numbering.flatWires domain wires).2 ∧
      ∀ relabel, (numbering.flatWires domain wires).2.scope.Agrees domain relabel →
        (numbering.flatWires domain wires).1 = wires.map relabel := by
  induction wires generalizing numbering with
  | nil => exact ⟨Extends.refl _, fun _ _ => rfl⟩
  | cons wire rest ih =>
    obtain ⟨first, known⟩ := flatWire_spec domain numbering wire
    obtain ⟨others, relabelled⟩ := ih (numbering.flatWire domain wire).2
    refine ⟨first.trans others, fun relabel agrees => ?_⟩
    have head : relabel wire = (numbering.flatWire domain wire).1 :=
      agrees wire _ (others.keeps known)
    rw [List.map_cons, head, ← relabelled relabel agrees]
    rfl

theorem flatGate_spec (domain : Domain) (gate : Gate) (numbering : Numbering) :
    Extends domain numbering (numbering.flatGate domain gate).2 ∧
      ∀ relabel, (numbering.flatGate domain gate).2.scope.Agrees domain relabel →
        (numbering.flatGate domain gate).1 = gate.rename relabel := by
  obtain ⟨reads, inputs⟩ := flatWires_spec domain gate.inputs numbering
  obtain ⟨writes, known⟩ :=
    flatWire_spec domain (numbering.flatWires domain gate.inputs).2 gate.output
  refine ⟨reads.trans writes, fun relabel agrees => ?_⟩
  have output : relabel gate.output =
      ((numbering.flatWires domain gate.inputs).2.flatWire domain gate.output).1 :=
    agrees gate.output _ known
  rw [Gate.rename, output, ← inputs relabel (writes.agrees agrees)]
  rfl

/-- Flat gates are the gates relabelled. -/
theorem flatGates_spec (domain : Domain) (gates : List Gate) (numbering : Numbering) :
    Extends domain numbering (numbering.flatGates domain gates).2 ∧
      ∀ relabel, (numbering.flatGates domain gates).2.scope.Agrees domain relabel →
        (numbering.flatGates domain gates).1 = gates.map (Gate.rename relabel) := by
  induction gates generalizing numbering with
  | nil => exact ⟨Extends.refl _, fun _ _ => rfl⟩
  | cons gate rest ih =>
    obtain ⟨first, head⟩ := flatGate_spec domain gate numbering
    obtain ⟨others, tail⟩ := ih (numbering.flatGate domain gate).2
    refine ⟨first.trans others, fun relabel agrees => ?_⟩
    rw [List.map_cons, ← head relabel (others.agrees agrees), ← tail relabel agrees]
    rfl

end Numbering

/-! ### Binding the ports of an instance -/

/-- The wire of the caller that a wire of the callee is bound to: that of the last
pairing for it. -/
def source? (pairings : List Pairing) (wire : Wire) : Option Wire :=
  (pairings.reverse.find? fun pairing => pairing.callee = wire).map Pairing.caller

/-- The copies for the constant output ports of an instance, when the wires of its
caller are relabelled. -/
def portCopies (domain : Domain) (outputs : List Pairing) (relabel : Wire → Wire)
    (pairings : List Pairing) : List Gate :=
  (pairings.filter fun pairing => domain.IsConstant pairing.callee ∧
      pairing ∈ outputs ∧ relabel pairing.caller ≠ pairing.callee).map
    fun pairing => Gate.copy pairing.callee (relabel pairing.caller)

theorem mem_portCopies_iff {domain : Domain} {outputs pairings : List Pairing}
    {relabel : Wire → Wire} {gate : Gate} :
    gate ∈ portCopies domain outputs relabel pairings ↔
      ∃ pairing ∈ pairings, domain.IsConstant pairing.callee ∧ pairing ∈ outputs ∧
        relabel pairing.caller ≠ pairing.callee ∧
          Gate.copy pairing.callee (relabel pairing.caller) = gate := by
  simp only [portCopies, List.mem_map, List.mem_filter, decide_eq_true_eq, and_assoc]

/-- The bindings for the other ports of an instance, the latest first, when the
wires of its caller are relabelled. -/
def portBindings (domain : Domain) (relabel : Wire → Wire) (pairings : List Pairing) :
    List (Wire × Wire) :=
  ((pairings.filter fun pairing => ¬ domain.IsConstant pairing.callee).map
    fun pairing => (pairing.callee, relabel pairing.caller)).reverse

/-- What binding the ports of an instance comes to. -/
theorem bindPairings_spec (domain : Domain) (outputs pairings : List Pairing)
    (bindings : List (Wire × Wire)) (caller : Numbering) :
    Numbering.Extends domain caller (bindPairings domain outputs bindings caller pairings).caller ∧
      ∀ relabel, (bindPairings domain outputs bindings caller pairings).caller.scope.Agrees
          domain relabel →
        (bindPairings domain outputs bindings caller pairings).copies =
            portCopies domain outputs relabel pairings ∧
          (bindPairings domain outputs bindings caller pairings).bindings =
            portBindings domain relabel pairings ++ bindings := by
  induction pairings generalizing bindings caller with
  | nil => exact ⟨Numbering.Extends.refl _, fun _ _ => ⟨rfl, rfl⟩⟩
  | cons pairing rest ih =>
    obtain ⟨first, known⟩ := Numbering.flatWire_spec domain caller pairing.caller
    rw [bindPairings]
    dsimp only
    by_cases constant : domain.IsConstant pairing.callee
    · rw [if_pos constant]
      obtain ⟨others, spec⟩ := ih bindings (caller.flatWire domain pairing.caller).2
      split
      · rename_i isCopied
        refine ⟨first.trans others, fun relabel agrees => ?_⟩
        have head := agrees _ _ (others.keeps known)
        obtain ⟨copies, bound⟩ := spec relabel agrees
        rw [← head] at isCopied ⊢
        constructor
        · rw [copies, portCopies, portCopies, List.filter_cons,
            if_pos (by simp [constant, isCopied]), List.map_cons]
        · rw [bound, portBindings, portBindings, List.filter_cons,
            if_neg (by simp [constant])]
      · rename_i isCopied
        refine ⟨first.trans others, fun relabel agrees => ?_⟩
        have head := agrees _ _ (others.keeps known)
        obtain ⟨copies, bound⟩ := spec relabel agrees
        rw [← head] at isCopied
        constructor
        · rw [copies, portCopies, portCopies, List.filter_cons,
            if_neg (by simpa [constant] using isCopied)]
        · rw [bound, portBindings, portBindings, List.filter_cons,
            if_neg (by simp [constant])]
    · rw [if_neg constant]
      obtain ⟨others, spec⟩ := ih
        ((pairing.callee, (caller.flatWire domain pairing.caller).1) :: bindings)
        (caller.flatWire domain pairing.caller).2
      refine ⟨first.trans others, fun relabel agrees => ?_⟩
      have head := agrees _ _ (others.keeps known)
      obtain ⟨copies, bound⟩ := spec relabel agrees
      constructor
      · rw [copies, portCopies, portCopies, List.filter_cons,
          if_neg (by simp [constant])]
      · rw [bound, portBindings, portBindings, List.filter_cons,
          if_pos (by simp [constant]), List.map_cons, List.reverse_cons, List.append_assoc, head]
        rfl

/-- A port is bound to the flat wire of its source. -/
theorem known?_portBindings {domain : Domain} (relabel : Wire → Wire) (pairings : List Pairing)
    {wire : Wire} (inconstant : ¬ domain.IsConstant wire) :
    (Scope.inner (portBindings domain relabel pairings)).known? domain wire =
      (source? pairings wire).map relabel := by
  simp only [Scope.known?, if_neg inconstant, portBindings, source?]
  rw [← List.map_reverse, ← List.filter_reverse]
  induction pairings.reverse with
  | nil => rfl
  | cons pairing rest ih =>
    by_cases same : pairing.callee = wire
    · have kept : ¬ domain.IsConstant pairing.callee := same ▸ inconstant
      rw [List.filter_cons, if_pos (by simp [kept]), List.map_cons, List.lookup_cons, same,
        List.find?_cons]
      simp [same]
    · rw [List.find?_cons]
      simp only [same, decide_false]
      rw [← ih, List.filter_cons]
      split
      · rw [List.map_cons, List.lookup_cons, beq_false_of_ne (Ne.symm same)]
      · rfl

end Netlist
