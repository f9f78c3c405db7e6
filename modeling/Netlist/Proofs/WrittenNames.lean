import Mathlib.Data.List.Nodup
import Mathlib.Data.List.SplitBy
import Mathlib.Data.List.TakeDrop
import Netlist.Blif.Record
import Netlist.Proofs.Realization

/-!
# Written names

What the names that a blueprint is written with have in common with its signals. The names
of the bits of its ports are told apart again, and buses are recognized by them
(`Blif.busOrder_bitNames`). Both formats have different names for different nets
(`Blueprint.isSpelling_blifName`, `Blueprint.isSpelling_jsonName`).
-/

namespace Netlist

/-- A list falls apart at the first item that the predicate does not hold of. -/
theorem span_append_cons {α : Type} {holds : α → Bool} {front : List α}
    (all : ∀ item ∈ front, holds item = true) {stop : α} (stops : holds stop = false)
    (rest : List α) : (front ++ stop :: rest).span holds = (front, stop :: rest) := by
  rw [List.span_eq_takeWhile_dropWhile, List.takeWhile_append_of_pos all,
    List.dropWhile_append_of_pos all, List.takeWhile_cons_of_neg (Bool.eq_false_iff.1 stops),
    List.dropWhile_cons_of_neg (Bool.eq_false_iff.1 stops), List.append_nil]

namespace Blueprint

/-! ### Names of bits -/

theorem toList_toString (number : Nat) : (toString number).toList = Nat.toDigits 10 number := by
  rw [Nat.toString_eq_repr, Nat.repr, String.toList_ofList]

theorem eq_of_toDigits {one other : Nat} (same : Nat.toDigits 10 one = Nat.toDigits 10 other) :
    one = other := by
  have read : ∀ number, Nat.ofDigitChars 10 (Nat.toDigits 10 number) 0 = number :=
    fun _ => Nat.ofDigitChars_toDigits (by decide) (by decide)
  rw [← read one, same, read]

theorem toList_bitName (port : String) (bit : Nat) :
    (bitName port bit).toList = port.toList ++ '[' :: (Nat.toDigits 10 bit ++ [']']) := by
  have bracket : "[".toList = ['['] ∧ "]".toList = [']'] := by decide
  simp only [bitName, String.toList_append, bracket, toList_toString, List.append_assoc,
    List.cons_append, List.nil_append]

theorem span_bitName {port : String} (unbracketed : '[' ∉ port.toList) (bit : Nat) :
    (bitName port bit).toList.span (· ≠ '[') =
      (port.toList, '[' :: (Nat.toDigits 10 bit ++ [']'])) := by
  rw [toList_bitName]
  refine span_append_cons (fun character member => ?_) (by decide) _
  exact decide_eq_true fun isBracket => unbracketed (isBracket ▸ member)

/-- The name of a bit tells the port and the number of the bit. -/
theorem eq_of_bitName {port other : String} {bit place : Nat} (unbracketed : '[' ∉ port.toList)
    (otherUnbracketed : '[' ∉ other.toList) (same : bitName port bit = bitName other place) :
    port = other ∧ bit = place := by
  have split := span_bitName unbracketed bit
  rw [same, span_bitName otherUnbracketed] at split
  obtain ⟨names, rests⟩ := Prod.mk.inj split
  have digits := List.append_cancel_right (List.cons.inj rests).2
  exact ⟨(String.toList_inj.1 names).symm, (eq_of_toDigits digits).symm⟩

theorem isPin_bitName {port : String} (noSign : '=' ∉ port.toList) (bit : Nat) :
    IsPin (bitName port bit) := by
  constructor
  · intro isEmpty
    have spelled := toList_bitName port bit
    rw [isEmpty] at spelled
    exact List.append_ne_nil_of_right_ne_nil _ (List.cons_ne_nil _ _) spelled.symm
  · rw [toList_bitName]
    simp only [List.mem_append, List.mem_cons, not_or, List.not_mem_nil]
    refine ⟨noSign, by decide, fun isDigit => ?_, by decide, id⟩
    have digit := Nat.isDigit_of_mem_toDigits (by decide) (by decide) isDigit
    exact absurd digit (by decide)

/-! ### Names of nets -/

section

variable {blueprint : Blueprint} {plan : Plan}

theorem map_fst_bits (port : Port) : port.bits.map Prod.fst = port.nets := by
  simp [Port.bits, Function.comp_def]

/-- A bit of a port has the name of the port, with its number. -/
theorem wireName_getElem (valid : plan.IsValid blueprint) {port : Port} (isPort : port ∈ plan.ports)
    {bit : Nat} (inRange : bit < port.nets.length) :
    plan.wireName port.nets[bit] = bitName port.name bit := by
  have distinct : ((plan.ports.flatMap Port.bits).map Prod.fst).Nodup := by
    rw [List.map_flatMap]
    simpa only [map_fst_bits] using valid.portNets
  have member : (port.nets[bit], bitName port.name bit) ∈ plan.ports.flatMap Port.bits := by
    refine List.mem_flatMap.2 ⟨port, isPort, List.mem_map.2 ⟨(port.nets[bit], bit), ?_, rfl⟩⟩
    exact List.mem_zipIdx_iff_getElem?.2 (List.getElem?_eq_getElem inRange)
  rw [Plan.wireName, lookup_eq_some_of_mem distinct member, Option.getD_some]

theorem map_snd_bits (valid : plan.IsValid blueprint) {port : Port} (isPort : port ∈ plan.ports) :
    port.bits.map Prod.snd = port.nets.map plan.wireName := by
  refine List.ext_getElem (by simp [Port.bits]) fun bit _ inRange => ?_
  rw [List.length_map] at inRange
  simp [Port.bits, wireName_getElem valid isPort inRange]

/-- The pins of a use are named after the wires of the callee that the signals are joined to. -/
theorem connectionPins_eq (valid : plan.IsValid blueprint) {connection : String × List Signal}
    (connects : plan.Connects connection) :
    connectionPins connection =
      (plan.joints [connection]).map fun joint => (plan.wireName joint.2, joint.1) := by
  obtain ⟨port, found, width⟩ := connects
  have isPort := List.mem_of_find?_eq_some found
  have named : port.name = connection.1 := by simpa using List.find?_some found
  have joints : plan.joints [connection] = connection.2.zip port.nets := by
    simp [Plan.joints, Option.mem_def.1 found]
  rw [joints]
  refine List.ext_getElem (by simp [connectionPins, width]) fun bit inRange _ => ?_
  rw [connectionPins, List.length_map, List.length_zipIdx] at inRange
  simp [connectionPins, ← named, wireName_getElem valid isPort (width ▸ inRange)]

theorem flatMap_connectionPins (valid : plan.IsValid blueprint)
    {connections : List (String × List Signal)}
    (connects : ∀ connection ∈ connections, plan.Connects connection) :
    connections.flatMap connectionPins =
      (plan.joints connections).map fun joint => (plan.wireName joint.2, joint.1) := by
  rw [List.flatMap_congr fun connection member =>
      connectionPins_eq valid (connects connection member),
    Plan.joints, List.map_flatMap]
  simp only [Plan.joints, List.flatMap_singleton]

theorem exists_of_mem_connectionPins {connection : String × List Signal} {pin : String × Signal}
    (member : pin ∈ connectionPins connection) :
    ∃ bit, pin.1 = bitName connection.1 bit ∧ pin.2 ∈ connection.2 := by
  obtain ⟨⟨signal, bit⟩, isBit, rfl⟩ := List.mem_map.1 member
  exact ⟨bit, rfl, List.fst_mem_of_mem_zipIdx isBit⟩

/-- The pins of a use are different if it connects different ports. -/
theorem nodup_pins {connections : List (String × List Signal)}
    (distinct : (connections.map Prod.fst).Nodup)
    (unbracketed : ∀ connection ∈ connections, '[' ∉ connection.1.toList) :
    ((connections.flatMap connectionPins).map Prod.fst).Nodup := by
  rw [List.map_flatMap, List.nodup_flatMap]
  constructor
  · intro connection member
    have places : (connectionPins connection).map Prod.fst =
        (connection.2.zipIdx.map Prod.snd).map (bitName connection.1) := by
      rw [connectionPins, List.map_map, List.map_map]
      rfl
    have isUnbracketed := unbracketed connection member
    rw [places, List.zipIdx_map_snd]
    exact List.Nodup.map (fun _ _ same => (eq_of_bitName isUnbracketed isUnbracketed same).2)
      List.nodup_range'
  · refine (List.pairwise_map.1 distinct).imp_of_mem fun {one other} isOne isOther different => ?_
    rintro name inOne inOther
    obtain ⟨pin, isPin, rfl⟩ := List.mem_map.1 inOne
    obtain ⟨otherPin, isOtherPin, same⟩ := List.mem_map.1 inOther
    obtain ⟨bit, named, _⟩ := exists_of_mem_connectionPins isPin
    obtain ⟨place, otherNamed, _⟩ := exists_of_mem_connectionPins isOtherPin
    rw [named, otherNamed] at same
    exact different (eq_of_bitName (unbracketed other isOther) (unbracketed one isOne) same).1.symm

end

/-! ### Spellings -/

/-- Different nets of a module have different names in BLIF. -/
theorem isSpelling_blifName {blueprint : Blueprint} (valid : blueprint.IsValid) :
    blueprint.IsSpelling Plan.blifName := by
  constructor
  · exact fun _ _ => rfl
  · exact fun plan isPlan => (valid.plans plan isPlan).wires
  · exact fun plan isPlan net isNet => ((valid.plans plan isPlan).wireNames net isNet).2

/-- Nets go by their numbers in JSON. -/
theorem isSpelling_jsonName (blueprint : Blueprint) :
    blueprint.IsSpelling fun _ => jsonName := by
  constructor
  · exact fun _ _ => rfl
  · intro _ _ one _ other _ same
    have letters := congrArg String.toList same
    exact eq_of_toDigits (((toList_toString one).symm.trans letters).trans (toList_toString other))
  · rintro _ _ net _ constant
    have digits : ∀ character ∈ (toString net).toList, character.isDigit = true := by
      rw [toList_toString]
      exact fun character member => Nat.isDigit_of_mem_toDigits (by decide) (by decide) member
    rcases constant with same | same
    · rw [show toString net = falseName from same] at digits
      exact absurd (digits '$' (by decide)) (by decide)
    · rw [show toString net = trueName from same] at digits
      exact absurd (digits '$' (by decide)) (by decide)

end Blueprint

namespace Blif

open Blueprint (Plan Port Flow bitName)

theorem splitBinding_bindingWord {pin wire : String} (isPin : Blueprint.IsPin pin)
    (nonempty : wire ≠ "") (line : Nat) :
    splitBinding line (Blueprint.bindingWord pin wire) = .ok (pin, wire) := by
  have sign : "=".toList = ['='] := by decide
  have split : (Blueprint.bindingWord pin wire).toList.span (· ≠ '=') =
      (pin.toList, '=' :: wire.toList) := by
    rw [Blueprint.bindingWord, String.toList_append, String.toList_append, sign, List.append_assoc,
      List.singleton_append]
    refine span_append_cons (fun character member => ?_) (by decide) _
    exact decide_eq_true fun isSign => isPin.2 (isSign ▸ member)
  unfold splitBinding
  rw [split]
  cases pinLetters : pin.toList with
  | nil => exact absurd (String.toList_eq_nil_iff.1 pinLetters) isPin.1
  | cons first rest =>
    cases wireLetters : wire.toList with
    | nil => exact absurd (String.toList_eq_nil_iff.1 wireLetters) nonempty
    | cons second others =>
      dsimp only
      rw [← pinLetters, ← wireLetters, String.ofList_toList, String.ofList_toList]

/-! ### Buses -/

/-- The bus that a bit of a port belongs to: the port, unless it is nameless. -/
theorem busName_bitName {port : String} (unbracketed : '[' ∉ port.toList) (bit : Nat) :
    busName (bitName port bit) = if port = "" then bitName port bit else port := by
  unfold busName
  rw [Blueprint.span_bitName unbracketed]
  cases letters : port.toList with
  | nil => exact (if_pos (String.toList_eq_nil_iff.1 letters)).symm
  | cons first rest =>
    have named : port ≠ "" := by
      rintro rfl
      cases letters
    dsimp only
    rw [if_neg named, ← letters, String.ofList_toList]

theorem busName_ne {port other : String} (unbracketed : '[' ∉ port.toList)
    (otherUnbracketed : '[' ∉ other.toList) (different : port ≠ other) (bit place : Nat) :
    busName (bitName port bit) ≠ busName (bitName other place) := by
  have bracketed : ∀ name bit, '[' ∈ (bitName name bit).toList := fun name bit => by
    rw [Blueprint.toList_bitName]
    exact List.mem_append_right _ List.mem_cons_self
  rw [busName_bitName unbracketed, busName_bitName otherUnbracketed]
  split
  · rename_i isEmpty
    rw [if_neg (isEmpty ▸ Ne.symm different)]
    exact fun same => otherUnbracketed (same ▸ bracketed port bit)
  · split
    · exact fun same => unbracketed (same ▸ bracketed other place)
    · exact different

/-- The bits of one port are one bus. -/
theorem busOrder_port {port : Port} (unbracketed : '[' ∉ port.name.toList)
    (named : 1 < port.nets.length → port.name ≠ "") :
    busOrder (port.bits.map Prod.snd) = (port.bits.map Prod.snd).reverse := by
  by_cases isEmpty : port.nets = []
  · rw [Port.bits, isEmpty]
    rfl
  have nonempty : port.bits.map Prod.snd ≠ [] := by simpa [Port.bits] using isEmpty
  have isChain : (port.bits.map Prod.snd).IsChain fun left right =>
      (busName left == busName right) = true := by
    by_cases isWide : 1 < port.nets.length
    · refine (List.pairwise_of_forall_mem_list fun one isOne other isOther => ?_).isChain
      have sameBus : ∀ name ∈ port.bits.map Prod.snd, busName name = port.name := by
        intro name member
        obtain ⟨_, isBit, rfl⟩ := List.mem_map.1 member
        obtain ⟨⟨net, bit⟩, _, rfl⟩ := List.mem_map.1 isBit
        rw [busName_bitName unbracketed, if_neg (named isWide)]
      rw [sameBus one isOne, sameBus other isOther, beq_self_eq_true]
    · have single : (port.bits.map Prod.snd).length ≤ 1 := by
        simpa [Port.bits] using Nat.le_of_not_lt isWide
      rcases names : port.bits.map Prod.snd with _ | ⟨name, _ | ⟨other, rest⟩⟩
      · exact .nil
      · exact .singleton name
      · rw [names] at single
        exact absurd (Nat.le_of_succ_le_succ single) (Nat.not_succ_le_zero _)
  rw [busOrder, List.splitBy_of_isChain nonempty isChain]
  exact List.append_nil _

/-- Ports of different names are buses of their own. -/
theorem busOrder_ports {ports : List Port} (distinct : (ports.map Port.name).Nodup)
    (unbracketed : ∀ port ∈ ports, '[' ∉ port.name.toList)
    (named : ∀ port ∈ ports, 1 < port.nets.length → port.name ≠ "") :
    busOrder (ports.flatMap fun port => port.bits.map Prod.snd) =
      ports.flatMap fun port => (port.bits.map Prod.snd).reverse := by
  induction ports with
  | nil => rfl
  | cons port rest ih =>
    obtain ⟨isNew, restDistinct⟩ := List.nodup_cons.1 distinct
    obtain ⟨headUnbracketed, restUnbracketed⟩ := List.forall_mem_cons.1 unbracketed
    obtain ⟨headNamed, restNamed⟩ := List.forall_mem_cons.1 named
    have ofPort : ∀ {port : Port} {name : String}, name ∈ port.bits.map Prod.snd →
        ∃ bit, name = bitName port.name bit := by
      intro port name member
      obtain ⟨_, isBit, rfl⟩ := List.mem_map.1 member
      obtain ⟨⟨net, bit⟩, _, rfl⟩ := List.mem_map.1 isBit
      exact ⟨bit, rfl⟩
    rw [List.flatMap_cons, List.flatMap_cons, busOrder, List.splitBy_append, List.flatMap_append]
    · exact congrArg₂ (· ++ ·) (busOrder_port headUnbracketed headNamed)
        (ih restDistinct restUnbracketed restNamed)
    · intro one isLast other isHead
      obtain ⟨bit, rfl⟩ := ofPort (List.mem_of_mem_getLast? isLast)
      obtain ⟨next, isNext, inNext⟩ := List.mem_flatMap.1 (List.mem_of_mem_head? isHead)
      obtain ⟨place, rfl⟩ := ofPort inNext
      refine beq_false_of_ne (busName_ne headUnbracketed (restUnbracketed next isNext) ?_ _ _)
      exact fun same => isNew (same ▸ List.mem_map_of_mem isNext)

/-- Ports are numbered from the highest bit to the lowest one. -/
theorem busOrder_bitNames {blueprint : Blueprint} {plan : Plan} (valid : plan.IsValid blueprint)
    (flows : Flow → Bool) :
    busOrder (plan.bitNames flows) = (plan.declared flows).map plan.wireName := by
  have fromPorts : ∀ port ∈ plan.ports.filter fun port => flows port.flow, port ∈ plan.ports :=
    fun port member => List.mem_of_mem_filter member
  rw [Plan.bitNames, busOrder_ports, Plan.declared, List.map_flatMap]
  · refine List.flatMap_congr fun port member => ?_
    rw [Blueprint.map_snd_bits valid (fromPorts port member), List.map_reverse]
  · exact valid.ports.sublist (List.filter_sublist.map _)
  · exact fun port member => valid.portNames port (fromPorts port member)
  · exact fun port member => valid.buses port (fromPorts port member)

end Blif

end Netlist
