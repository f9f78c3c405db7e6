import Mathlib.Data.List.Perm.Subperm
import Mathlib.Order.Basic
import Netlist.Connection
import Netlist.Proofs.Bookkeeping

/-!
# Blocks of wires

As many distinct wires as there are from the lowest to the highest are all of them, so that
the wires of a bridge are a block without gaps (`Bridge.perm_of_ofWires`). Each block of the
right size makes a bridge (`Bridge.ofWires_of_perm`), and the order of the wires does not
matter, also where they make none (`Bridge.ofWires_iff_perm`).
-/

namespace Netlist

namespace Wire

theorem nodup_ascending (wires : List Wire) : (ascending wires).Nodup :=
  (pairwise_ascending wires).imp fun less => Nat.ne_of_lt less

/-- If no wire is left out as a repeat, the ascending form only brings the wires in order. -/
theorem perm_ascending {wires : List Wire} (distinct : (ascending wires).length = wires.length) :
    (ascending wires).Perm wires := by
  have kept : (ascending wires).Subperm wires :=
    List.subperm_of_subset (nodup_ascending wires) fun _ => mem_ascending_iff.1
  exact kept.perm_of_length_le distinct.ge

theorem ascending_range' (low count : Nat) :
    ascending (List.range' low count) = List.range' low count :=
  (eq_ascending_of_mem_iff (List.pairwise_lt_range' 1) fun _ => Iff.rfl).symm

/-- All wires lie between the lowest and the highest. -/
theorem between_of_mem {wires : List Wire} {wire : Wire} (member : wire ∈ wires) :
    wires.min?.getD 0 ≤ wire ∧ wire < (wires.max?.map (· + 1)).getD 0 := by
  obtain ⟨low, lowest⟩ := Option.isSome_iff_exists.1 (List.isSome_min?_of_mem member)
  obtain ⟨high, highest⟩ := Option.isSome_iff_exists.1 (List.isSome_max?_of_mem member)
  rw [lowest, highest]
  exact ⟨(List.min?_eq_some_iff.1 lowest).2 wire member,
    Nat.lt_succ_of_le ((List.max?_eq_some_iff.1 highest).2 wire member)⟩

theorem min?_perm {first second : List Wire} (perm : first.Perm second) :
    first.min? = second.min? := by
  apply Option.ext
  intro low
  rw [List.min?_eq_some_iff, List.min?_eq_some_iff]
  simp only [perm.mem_iff]

theorem max?_perm {first second : List Wire} (perm : first.Perm second) :
    first.max? = second.max? := by
  apply Option.ext
  intro high
  rw [List.max?_eq_some_iff, List.max?_eq_some_iff]
  simp only [perm.mem_iff]

end Wire

namespace Bridge

variable {arithmetic low : Wire} {wires : List Wire}

/-- A bridge is made of all wires of a block, from its lowest wire on. -/
theorem perm_of_ofWires {bridge : Bridge} (made : ofWires arithmetic wires = .ok bridge) :
    wires.Perm (List.range' bridge.low bridgeWidth) ∧
      bridge = ⟨arithmetic, bridge.low, bridge.low + bridgeWidth⟩ := by
  unfold ofWires at made
  dsimp only at made
  split at made
  · rename_i width
    obtain ⟨length, distinct, gapless⟩ := width
    cases made
    have above : wires.min?.getD 0 ≤ (wires.max?.map (· + 1)).getD 0 :=
      (Nat.lt_of_sub_pos (gapless ▸ (by decide : 0 < bridgeWidth))).le
    have room : wires.min?.getD 0 + bridgeWidth = (wires.max?.map (· + 1)).getD 0 := by
      rw [← gapless, Nat.add_sub_cancel' above]
    have perm : (Wire.ascending wires).Perm wires :=
      Wire.perm_ascending (distinct.trans length.symm)
    -- as many distinct wires as there are from the lowest to the highest are all of them
    have inside : Wire.ascending wires ⊆ List.range' (wires.min?.getD 0) bridgeWidth := by
      intro wire member
      rw [List.mem_range'_1, room]
      exact Wire.between_of_mem (Wire.mem_ascending_iff.1 member)
    have block : (Wire.ascending wires).Perm (List.range' (wires.min?.getD 0) bridgeWidth) :=
      (List.subperm_of_subset (Wire.nodup_ascending wires) inside).perm_of_length_le
        (List.length_range'.trans distinct.symm).le
    rw [← room]
    exact ⟨perm.symm.trans block, rfl⟩
  · cases made

/-- The order of the wires does not matter, whether or not they make a bridge. -/
theorem ofWires_congr {others : List Wire} (perm : others.Perm wires) :
    ofWires arithmetic others = ofWires arithmetic wires := by
  unfold ofWires
  rw [Wire.min?_perm perm, Wire.max?_perm perm, Wire.ascending_perm perm, perm.length_eq]

/-- A block makes a bridge, in whatever order its wires come. -/
theorem ofWires_of_perm (perm : wires.Perm (List.range' low bridgeWidth)) :
    ofWires arithmetic wires = .ok ⟨arithmetic, low, low + bridgeWidth⟩ := by
  have lowest : (List.range' low bridgeWidth).min? = some low := by
    rw [List.min?_eq_some_iff]
    refine ⟨List.mem_range'_1.2 ⟨le_rfl, ?_⟩, fun wire member => (List.mem_range'_1.1 member).1⟩
    exact Nat.lt_add_of_pos_right (by decide)
  have highest : (List.range' low bridgeWidth).max? = some (low + 63) := by
    rw [List.max?_eq_some_iff]
    refine ⟨List.mem_range'_1.2 ⟨Nat.le_add_right _ _, ?_⟩, fun wire member => ?_⟩
    · exact Nat.add_lt_add_left (by decide) low
    · exact Nat.le_of_lt_succ (List.mem_range'_1.1 member).2
  rw [ofWires_congr perm, ofWires, lowest, highest, Wire.ascending_range', List.length_range']
  have gapless : low + 63 + 1 - low = bridgeWidth := Nat.add_sub_cancel_left low 64
  exact if_pos ⟨rfl, rfl, gapless⟩

/-- Wires that make no bridge are refused with their number and the lowest of them. -/
theorem ofWires_eq_error {error : Error} (refused : ofWires arithmetic wires = .error error) :
    error = .bridgeWidthMismatch (wires.min?.getD 0) wires.length := by
  unfold ofWires at refused
  dsimp only at refused
  split at refused
  · cases refused
  · exact (Except.error.inj refused).symm

/-- Some wires make a bridge exactly if they are the 64 wires from some wire on, in any order,
and the bridge then has these wires. Others are refused with their number and the lowest of
them, so that the outcome is the same for every order of the wires. -/
theorem ofWires_iff_perm (arithmetic : Wire) (wires : List Wire) :
    (∀ bridge, ofWires arithmetic wires = .ok bridge ↔
      ∃ low, wires.Perm (List.range' low 64) ∧ bridge = ⟨arithmetic, low, low + 64⟩) ∧
    ((∀ low, ¬ wires.Perm (List.range' low 64)) →
      ofWires arithmetic wires =
        .error (.bridgeWidthMismatch (wires.min?.getD 0) wires.length)) ∧
    ∀ others, others.Perm wires → ofWires arithmetic others = ofWires arithmetic wires := by
  refine ⟨fun bridge => ⟨fun made => ⟨bridge.low, perm_of_ofWires made⟩, ?_⟩, fun noBlock => ?_,
    fun others => ofWires_congr⟩
  · rintro ⟨low, perm, rfl⟩
    exact ofWires_of_perm perm
  · cases outcome : ofWires arithmetic wires with
    | ok bridge => exact absurd (perm_of_ofWires outcome).1 (noBlock bridge.low)
    | error error => rw [ofWires_eq_error outcome]

/-- A block makes a bridge also from its highest wire down to its lowest, but 64 distinct wires
with a gap between them make none. -/
theorem ofWires_iff_perm_gapped :
    ofWires 7 (List.range' 100 64).reverse = .ok ⟨7, 100, 164⟩ ∧
    ofWires 7 (200 :: List.range' 100 63) = .error (.bridgeWidthMismatch 100 64) ∧
    ofWires 7 (List.range' 100 63 ++ [200]) = .error (.bridgeWidthMismatch 100 64) := by
  have noBlock : ∀ low, ¬ (200 :: List.range' 100 63).Perm (List.range' low 64) := by
    intro low perm
    have lowest : 100 ∈ List.range' 100 63 := List.mem_range'_1.2 (by omega)
    have first := List.mem_range'_1.1 (perm.subset (List.mem_cons_of_mem 200 lowest))
    have last := List.mem_range'_1.1 (perm.subset List.mem_cons_self)
    omega
  have lowest : (200 :: List.range' 100 63).min? = some 100 := by decide +kernel
  have refused := (ofWires_iff_perm 7 (200 :: List.range' 100 63)).2.1 noBlock
  rw [lowest, List.length_cons, List.length_range', Option.getD_some] at refused
  refine ⟨((ofWires_iff_perm 7 _).1 _).2 ⟨100, List.reverse_perm _, rfl⟩, refused, ?_⟩
  rw [(ofWires_iff_perm 7 (200 :: List.range' 100 63)).2.2 _ (List.perm_append_singleton _ _)]
  exact refused

end Bridge

end Netlist
