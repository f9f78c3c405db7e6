import Mathlib.Data.List.Infix
import Netlist.Composite.Codec
import Netlist.Decimal.Word
import Netlist.Outcome

/-!
# The coding of composite circuits

A decoder takes off the front of some bytes exactly what the encoder writes of the values
that fit, in front of whatever follows (`Codes`). More bytes at the end change neither
a value nor a fault, except that they may supply bytes that were missing (`IsStable`). Both
pass from the parts of a value to the whole, so composite circuits are decoded as they
were encoded, in one way only, and from no smaller part of their bytes
(`decode_iff_isPrefix`).
-/

namespace Netlist.Composite

/-! ### What fits into words -/

/-- The number fits into the eight bytes of a word. -/
def FitsWord (value : Nat) : Prop :=
  value < Decimal.wordLimit

/-- The length of a list fits into a word, and its elements fit. -/
def FitsList {α : Type} (fits : α → Prop) (elements : List α) : Prop :=
  FitsWord elements.length ∧ ∀ element ∈ elements, fits element

/-- The number of bytes of a text fits into a word. -/
def FitsText (text : String) : Prop :=
  FitsWord (Text.Utf8.encode text).length

/-- The name of a cell fits. -/
def FitsOperator : Operator → Prop
  | .cell name => FitsText name
  | _ => True

/-- All numbers and lengths of a gate fit into words. -/
def FitsGate (node : Gate) : Prop :=
  FitsOperator node.operator ∧ FitsList FitsWord node.inputs ∧ FitsWord node.output

/-- All wires of a bridge fit into words. -/
def FitsBridge (bridge : Bridge) : Prop :=
  FitsWord bridge.arithmetic ∧ FitsWord bridge.low ∧ FitsWord bridge.high

/-- All numbers and lengths of a step fit into words. -/
def FitsStep : Step → Prop
  | .sizeHint arithmetic boolean => FitsWord arithmetic ∧ FitsWord boolean
  | .input wire => FitsWord wire
  | .boolean node => FitsGate node
  | .bridge bridge => FitsBridge bridge
  | .arithmetic node => FitsGate node
  | .assertZero wire => FitsWord wire

/-- All numbers and lengths of a composite circuit fit into words, as they do in any
memory whose sizes and wires are words. -/
def Fits (composite : Composite) : Prop :=
  FitsList FitsStep composite

instance (value : Nat) : Decidable (FitsWord value) :=
  inferInstanceAs (Decidable (_ < _))

instance {α : Type} (fits : α → Prop) [DecidablePred fits] (elements : List α) :
    Decidable (FitsList fits elements) :=
  inferInstanceAs (Decidable (_ ∧ _))

instance (operator : Operator) : Decidable (FitsOperator operator) :=
  match operator with
  | .cell name => inferInstanceAs (Decidable (FitsWord (Text.Utf8.encode name).length))
  | .and | .xor | .inv | .buf => .isTrue trivial

instance (node : Gate) : Decidable (FitsGate node) :=
  inferInstanceAs (Decidable (_ ∧ _))

instance (bridge : Bridge) : Decidable (FitsBridge bridge) :=
  inferInstanceAs (Decidable (_ ∧ _))

instance : DecidablePred FitsStep
  | .sizeHint arithmetic boolean =>
    inferInstanceAs (Decidable (FitsWord arithmetic ∧ FitsWord boolean))
  | .input wire | .assertZero wire => inferInstanceAs (Decidable (FitsWord wire))
  | .boolean node | .arithmetic node => inferInstanceAs (Decidable (FitsGate node))
  | .bridge bridge => inferInstanceAs (Decidable (FitsBridge bridge))

instance (composite : Composite) : Decidable composite.Fits :=
  inferInstanceAs (Decidable (FitsList FitsStep composite))

/-! ### Decoders and the bytes behind a value -/

/-- More bytes at the end are left over, or do not mend a fault, unless bytes were
missing. -/
def IsStable {α : Type} (decode : Decoder α) : Prop :=
  ∀ bytes more, decode bytes ≠ .error .truncated →
    decode (bytes ++ more) = (decode bytes).map (Prod.map id (· ++ more))

namespace IsStable

variable {α β : Type}

theorem ok (value : α) : IsStable (fun bytes => .ok (value, bytes)) :=
  fun _ _ _ => rfl

theorem error (fault : CodecFault) : IsStable (fun _ => .error fault : Decoder α) :=
  fun _ _ _ => rfl

theorem bind {decode : Decoder α} {next : α → Decoder β} (stable : IsStable decode)
    (rest : ∀ value, IsStable (next value)) :
    IsStable (fun bytes => do let (value, bytes) ← decode bytes; next value bytes) := by
  intro bytes more complete
  beta_reduce at complete ⊢
  cases first : decode bytes with
  | error fault =>
    have present : decode bytes ≠ .error .truncated := by
      intro missing
      rw [missing] at complete
      exact complete rfl
    rw [stable bytes more present, first]
    rfl
  | ok taken =>
    obtain ⟨value, middle⟩ := taken
    have others : next value middle ≠ .error .truncated := by
      rw [first] at complete
      exact complete
    rw [stable bytes more (by rw [first]; nofun), first]
    exact rest value middle more others

end IsStable

/-- The decoder takes the bytes of a value that fits off the front of any bytes, and takes
nothing else. -/
structure Codes {α : Type} (decode : Decoder α) (encode : α → List UInt8)
    (fits : α → Prop) : Prop where
  append : ∀ value, fits value → ∀ rest, decode (encode value ++ rest) = .ok (value, rest)
  exact : ∀ {bytes value rest}, decode bytes = .ok (value, rest) →
    fits value ∧ bytes = encode value ++ rest
  stable : IsStable decode

namespace Codes

variable {α : Type} {decode : Decoder α} {encode : α → List UInt8} {fits : α → Prop}

/-- Part of the bytes of a value is not decoded, since bytes are missing. -/
theorem truncated (codes : Codes decode encode fits) {value : α} (isFit : fits value)
    {bytes : List UInt8} (isPart : bytes <+: encode value) (strict : bytes ≠ encode value) :
    decode bytes = .error .truncated := by
  obtain ⟨more, whole⟩ := isPart
  have decoded : decode (bytes ++ more) = .ok (value, []) := by
    rw [whole, ← List.append_nil (encode value)]
    exact codes.append value isFit []
  by_contra complete
  -- the missing bytes would be left over if something were decoded without them
  rw [codes.stable bytes more complete] at decoded
  cases outcome : decode bytes with
  | error fault =>
    rw [outcome] at decoded
    cases decoded
  | ok taken =>
    obtain ⟨other, rest⟩ := taken
    rw [outcome] at decoded
    obtain ⟨rfl, nothing⟩ := Prod.mk.inj (Except.ok.inj decoded)
    obtain ⟨rfl, rfl⟩ := List.append_eq_nil_iff.1 nothing
    rw [List.append_nil] at whole
    exact strict whole

/-- The same values and bytes, said in another way. -/
theorem congr (codes : Codes decode encode fits) {encode' : α → List UInt8}
    {fits' : α → Prop} (sameFits : ∀ value, fits' value ↔ fits value)
    (sameBytes : ∀ value, fits value → encode' value = encode value) :
    Codes decode encode' fits' where
  append value isFit rest := by
    have fit := (sameFits value).1 isFit
    rw [sameBytes value fit]
    exact codes.append value fit rest
  exact decoded := by
    obtain ⟨fit, whole⟩ := codes.exact decoded
    rw [sameBytes _ fit]
    exact ⟨(sameFits _).2 fit, whole⟩
  stable := codes.stable

/-- A value without bytes. -/
theorem ok {value : α} (empty : encode value = []) :
    Codes (fun bytes => .ok (value, bytes)) encode (· = value) where
  append := by
    rintro _ rfl rest
    rw [empty, List.nil_append]
  exact := by
    rintro bytes _ rest ⟨⟩
    exact ⟨rfl, by rw [empty, List.nil_append]⟩
  stable := .ok value

/-- No value at all. -/
theorem error {fault : CodecFault} (unfit : ∀ value, ¬ fits value) :
    Codes (fun _ => .error fault) encode fits where
  append value isFit := absurd isFit (unfit value)
  exact := nofun
  stable := .error fault

/-- A value made from another one. -/
theorem map {β : Type} (codes : Codes decode encode fits) (make : α → β)
    (encodeMade : β → List UInt8)
    (sameBytes : ∀ value, encodeMade (make value) = encode value) :
    Codes (fun bytes => do let (value, bytes) ← decode bytes; return (make value, bytes))
      encodeMade (fun made => ∃ value, fits value ∧ make value = made) where
  append := by
    rintro _ ⟨value, isFit, rfl⟩ rest
    rw [sameBytes, codes.append value isFit]
    rfl
  exact := by
    intro bytes made rest decoded
    obtain ⟨⟨value, middle⟩, taken, followed⟩ := eq_ok_of_bind decoded
    cases followed
    obtain ⟨isFit, rfl⟩ := codes.exact taken
    exact ⟨⟨value, isFit, rfl⟩, by rw [sameBytes]⟩
  stable := codes.stable.bind fun value => .ok (make value)

/-- One kind of values, all of which are made from other ones. -/
theorem kind {β : Type} (codes : Codes decode encode fits) (make : α → β)
    {encodeMade : β → List UInt8} {fitsMade : β → Prop}
    (sameBytes : ∀ value, encodeMade (make value) = encode value)
    (isMade : ∀ made, fitsMade made ↔ ∃ value, fits value ∧ make value = made) :
    Codes (fun bytes => do let (value, bytes) ← decode bytes; return (make value, bytes))
      encodeMade fitsMade :=
  (codes.map make encodeMade sameBytes).congr isMade fun _ _ => rfl

/-- One part of a value stands in front of the others, which are decoded as the first one
says. -/
theorem bind {β : Type} (first : Codes decode encode fits) {next : α → Decoder β}
    {encodeRest : β → List UInt8} {fitsRest : α → β → Prop}
    (rest : ∀ part, Codes (next part) encodeRest (fitsRest part)) (part : β → α)
    (isPart : ∀ {value whole}, fitsRest value whole → part whole = value) :
    Codes (fun bytes => do let (value, bytes) ← decode bytes; next value bytes)
      (fun whole => encode (part whole) ++ encodeRest whole)
      (fun whole => fits (part whole) ∧ fitsRest (part whole) whole) where
  append := by
    rintro whole ⟨isFit, restFits⟩ bytes
    rw [List.append_assoc, first.append _ isFit]
    exact (rest _).append whole restFits bytes
  exact := by
    intro bytes whole others decoded
    obtain ⟨⟨value, middle⟩, taken, followed⟩ := eq_ok_of_bind decoded
    obtain ⟨restFits, rfl⟩ := (rest value).exact followed
    obtain ⟨isFit, rfl⟩ := first.exact taken
    obtain rfl := isPart restFits
    exact ⟨⟨isFit, restFits⟩, (List.append_assoc _ _ _).symm⟩
  stable := first.stable.bind fun value => (rest value).stable

end Codes

/-! ### Numbers -/

theorem isStable_decodeLittleEndian (count : Nat) : IsStable (decodeLittleEndian count) := by
  induction count with
  | zero => exact .ok 0
  | succ count ih =>
    intro bytes more complete
    cases bytes with
    | nil => exact absurd rfl complete
    | cons byte bytes =>
      have others := ih.bind fun high => .ok (byte.toNat + 256 * high)
      exact others bytes more complete

/-- What is read as a number is what is written of it. -/
theorem eq_of_decodeLittleEndian {count value : Nat} {bytes rest : List UInt8}
    (decoded : decodeLittleEndian count bytes = .ok (value, rest)) :
    value < Nat.pow 256 count ∧ bytes = littleEndian count value ++ rest := by
  induction count generalizing bytes value with
  | zero =>
    cases decoded
    exact ⟨Nat.one_pos, rfl⟩
  | succ count ih =>
    cases bytes with
    | nil => cases decoded
    | cons byte bytes =>
      obtain ⟨⟨high, others⟩, first, decoded⟩ := eq_ok_of_bind decoded
      cases decoded
      obtain ⟨below, same⟩ := ih first
      have low : byte.toNat < 256 := byte.toNat_lt
      have digit : (byte.toNat + 256 * high) % 256 = byte.toNat := by omega
      have higher : (byte.toNat + 256 * high) / 256 = high := by omega
      constructor
      · have power : Nat.pow 256 (count + 1) = Nat.pow 256 count * 256 := rfl
        omega
      · rw [littleEndian, digit, higher, UInt8.ofNat_toNat, List.cons_append, ← same]

theorem codes_littleEndian (count : Nat) :
    Codes (decodeLittleEndian count) (littleEndian count) (· < Nat.pow 256 count) :=
  ⟨fun _ fits rest => decodeLittleEndian_littleEndian fits rest, eq_of_decodeLittleEndian,
    isStable_decodeLittleEndian count⟩

theorem codes_word : Codes decodeWord encodeWord FitsWord :=
  codes_littleEndian 8

theorem codes_index : Codes decodeIndex encodeIndex (· < Nat.pow 256 4) :=
  codes_littleEndian 4

/-! ### Lists and texts -/

section

variable {α : Type} {decode : Decoder α} {encode : α → List UInt8} {fits : α → Prop}

/-- A given number of elements. -/
theorem codes_elements (codes : Codes decode encode fits) (count : Nat) :
    Codes (decodeElements decode count) (List.flatMap encode)
      fun elements => elements.length = count ∧ ∀ element ∈ elements, fits element := by
  induction count with
  | zero =>
    constructor
    · rintro elements ⟨length, _⟩ rest
      rw [List.length_eq_zero_iff.1 length]
      rfl
    · rintro bytes elements rest ⟨⟩
      exact ⟨⟨rfl, List.forall_mem_nil _⟩, rfl⟩
    · exact .ok []
  | succ count ih =>
    constructor
    · rintro elements ⟨length, each⟩ rest
      cases elements with
      | nil => cases length
      | cons first others =>
        obtain ⟨firstFits, othersFit⟩ := List.forall_mem_cons.1 each
        rw [decodeElements, List.flatMap_cons, List.append_assoc,
          codes.append first firstFits]
        dsimp only [bind, Except.bind]
        rw [ih.append others ⟨Nat.succ.inj length, othersFit⟩]
        rfl
    · intro bytes elements rest decoded
      obtain ⟨⟨first, middle⟩, taken, decoded⟩ := eq_ok_of_bind decoded
      obtain ⟨⟨others, last⟩, takenOthers, decoded⟩ := eq_ok_of_bind decoded
      cases decoded
      obtain ⟨firstFits, rfl⟩ := codes.exact taken
      obtain ⟨⟨length, othersFit⟩, rfl⟩ := ih.exact takenOthers
      refine ⟨⟨congrArg (· + 1) length, List.forall_mem_cons.2 ⟨firstFits, othersFit⟩⟩, ?_⟩
      rw [List.flatMap_cons, List.append_assoc]
    · exact codes.stable.bind fun first => ih.stable.bind fun others => .ok (first :: others)

theorem codes_list (codes : Codes decode encode fits) :
    Codes (decodeList decode) (encodeList encode) (FitsList fits) :=
  (codes_word.bind (codes_elements codes) List.length And.left).congr
    (fun _ => and_congr_right fun _ => (and_iff_right rfl).symm) fun _ _ => rfl

end

/-- The bytes of a text stand behind their number. -/
theorem encodeText_eq (text : String) :
    encodeText text = encodeWord (Text.Utf8.encode text).length ++ Text.Utf8.encode text := by
  rw [encodeText, encodeList, List.flatMap_singleton']

/-- A text with a given number of bytes. -/
theorem codes_textBody (count : Nat) :
    Codes (decodeTextBody count) Text.Utf8.encode
      fun text => (Text.Utf8.encode text).length = count := by
  constructor
  · rintro text rfl rest
    have enough : ¬ (Text.Utf8.encode text ++ rest).length < (Text.Utf8.encode text).length := by
      rw [List.length_append]
      omega
    rw [decodeTextBody, if_neg enough, List.take_left, Text.Utf8.decode_encode, List.drop_left]
  · intro bytes text rest decoded
    unfold decodeTextBody at decoded
    split at decoded
    · cases decoded
    · rename_i enough
      split at decoded
      · rename_i read
        cases decoded
        have same := Text.Utf8.encode_of_decode read
        rw [same]
        exact ⟨List.length_take_of_le (Nat.le_of_not_lt enough), (List.take_append_drop _ _).symm⟩
      · cases decoded
  · intro bytes more complete
    unfold decodeTextBody at complete ⊢
    by_cases missing : bytes.length < count
    · rw [if_pos missing] at complete
      exact absurd rfl complete
    · have enough := Nat.le_of_not_lt missing
      have still : ¬ (bytes ++ more).length < count := by
        rw [List.length_append]
        omega
      rw [if_neg missing, if_neg still, List.take_append_of_le_length enough,
        List.drop_append_of_le_length enough]
      cases Text.Utf8.decode (bytes.take count) <;> rfl

theorem codes_text : Codes decodeText encodeText FitsText :=
  (codes_word.bind codes_textBody (fun text => (Text.Utf8.encode text).length) id).congr
    (fun _ => (and_iff_left rfl).symm) fun text _ => encodeText_eq text

/-! ### Gates and steps -/

/-- The index of a variant stands in front of the value, which is decoded as the variant
says. -/
theorem codes_variant {α : Type} {decodeBody : Nat → Decoder α} {encodeBody : α → List UInt8}
    {fits : α → Prop} {index : α → Nat} (small : ∀ value, index value < Nat.pow 256 4)
    (bodies : ∀ variant, Codes (decodeBody variant) encodeBody
      fun value => index value = variant ∧ fits value) :
    Codes (fun bytes => do let (variant, bytes) ← decodeIndex bytes; decodeBody variant bytes)
      (fun value => encodeIndex (index value) ++ encodeBody value) fits :=
  (codes_index.bind bodies index And.left).congr
    (fun value => by simp only [small value, true_and]) fun _ _ => rfl

theorem operatorIndex_le (operator : Operator) : operatorIndex operator ≤ 4 := by
  cases operator <;> simp [operatorIndex]

theorem codes_operatorBody (variant : Nat) :
    Codes (decodeOperatorBody variant) encodeOperatorBody
      fun operator => operatorIndex operator = variant ∧ FitsOperator operator := by
  match variant with
  | 0 | 1 | 2 | 3 =>
    refine (Codes.ok rfl).congr (fun operator => ?_) fun _ _ => rfl
    cases operator <;> simp [operatorIndex, FitsOperator]
  | 4 =>
    refine codes_text.kind Operator.cell (fun _ => rfl) fun operator => ?_
    cases operator <;> simp [operatorIndex, FitsOperator]
  | variant + 5 =>
    refine Codes.error fun operator ⟨same, _⟩ => ?_
    have := operatorIndex_le operator
    omega

theorem codes_operator : Codes decodeOperator encodeOperator FitsOperator :=
  codes_variant (fun operator => (operatorIndex_le operator).trans_lt (by decide))
    codes_operatorBody

theorem codes_gate : Codes decodeGate encodeGate FitsGate := by
  have parts := codes_operator.bind (fun operator =>
    (codes_list codes_word).bind (fun inputs =>
      codes_word.map (Gate.mk operator inputs) (fun node => encodeWord node.output) fun _ => rfl)
      Gate.inputs fun ⟨_, _, same⟩ => same ▸ rfl)
    Gate.operator fun ⟨_, _, _, same⟩ => same ▸ rfl
  refine parts.congr (fun node => ?_) fun _ _ => List.append_assoc _ _ _
  constructor
  · rintro ⟨operator, inputs, output⟩
    exact ⟨operator, inputs, node.output, output, rfl⟩
  · rintro ⟨operator, inputs, output, fits, same⟩
    exact ⟨operator, inputs, same ▸ fits⟩

theorem codes_bridge : Codes decodeBridge encodeBridge FitsBridge := by
  have parts := codes_word.bind (fun arithmetic =>
    codes_word.bind (fun low =>
      codes_word.map (Bridge.mk arithmetic low) (fun bridge => encodeWord bridge.high) fun _ => rfl)
      Bridge.low fun ⟨_, _, same⟩ => same ▸ rfl)
    Bridge.arithmetic fun ⟨_, _, _, same⟩ => same ▸ rfl
  refine parts.congr (fun bridge => ?_) fun _ _ => List.append_assoc _ _ _
  constructor
  · rintro ⟨arithmetic, low, high⟩
    exact ⟨arithmetic, low, bridge.high, high, rfl⟩
  · rintro ⟨arithmetic, low, high, fits, same⟩
    exact ⟨arithmetic, low, same ▸ fits⟩

theorem stepIndex_le (step : Step) : stepIndex step ≤ 5 := by
  cases step <;> simp [stepIndex]

/-- The two numbers of a size hint. -/
theorem codes_sizeHint :
    Codes (decodeStepBody 0) encodeStepBody fun step => stepIndex step = 0 ∧ FitsStep step := by
  -- the size behind another step never matters, so it is taken to be zero
  have sizes := codes_word.bind (fun arithmetic =>
    codes_word.map (Step.sizeHint arithmetic)
      (fun | .sizeHint _ boolean => encodeWord boolean | _ => []) fun _ => rfl)
    (fun | .sizeHint arithmetic _ => arithmetic | _ => 0) fun ⟨_, _, same⟩ => same ▸ rfl
  refine sizes.congr (fun step => ?_) fun step ⟨_, _, _, same⟩ => same ▸ rfl
  cases step <;> simp [stepIndex, FitsStep]

theorem codes_stepBody (variant : Nat) :
    Codes (decodeStepBody variant) encodeStepBody
      fun step => stepIndex step = variant ∧ FitsStep step := by
  match variant with
  | 0 => exact codes_sizeHint
  | 1 =>
    refine codes_word.kind Step.input (fun _ => rfl) fun step => ?_
    cases step <;> simp [stepIndex, FitsStep]
  | 2 =>
    refine codes_gate.kind Step.boolean (fun _ => rfl) fun step => ?_
    cases step <;> simp [stepIndex, FitsStep]
  | 3 =>
    refine codes_bridge.kind Step.bridge (fun _ => rfl) fun step => ?_
    cases step <;> simp [stepIndex, FitsStep]
  | 4 =>
    refine codes_gate.kind Step.arithmetic (fun _ => rfl) fun step => ?_
    cases step <;> simp [stepIndex, FitsStep]
  | 5 =>
    refine codes_word.kind Step.assertZero (fun _ => rfl) fun step => ?_
    cases step <;> simp [stepIndex, FitsStep]
  | variant + 6 =>
    refine Codes.error fun step both => ?_
    have below := stepIndex_le step
    have same := both.1
    omega

theorem codes_step : Codes decodeStep encodeStep FitsStep :=
  codes_variant (fun step => (stepIndex_le step).trans_lt (by decide)) codes_stepBody

/-! ### Composite circuits -/

theorem codes_composite : Codes (decodeList decodeStep) encode Fits :=
  codes_list codes_step

/-- The bytes decoded to a composite circuit are those that begin with its own bytes, and
a composite circuit is not decoded from a smaller part of them. -/
theorem decode_iff_isPrefix (bytes : List UInt8) (composite : Composite) :
    (decode bytes = .ok composite ↔ composite.Fits ∧ encode composite <+: bytes) ∧
    (composite.Fits → bytes <+: encode composite → bytes ≠ encode composite →
      (decode bytes).mapError Error.encoding = .error (.encoding .truncated)) := by
  refine ⟨⟨fun decoded => ?_, ?_⟩, fun fits isPart strict => ?_⟩
  · obtain ⟨⟨value, rest⟩, taken, returned⟩ := eq_ok_of_bind decoded
    cases returned
    obtain ⟨fits, rfl⟩ := codes_composite.exact taken
    exact ⟨fits, List.prefix_append _ _⟩
  · rintro ⟨fits, rest, rfl⟩
    rw [decode, codes_composite.append composite fits rest]
    rfl
  · rw [decode, codes_composite.truncated fits isPart strict]
    rfl

/-- A composite circuit with a step of most kinds, a cell with a name outside of ASCII, and
the last of all wires. -/
def packed : Composite :=
  [.sizeHint 3 70, .input 7, .boolean ⟨.cell "maj∨", [7, 0, 18446744073709551615], 2⟩,
    .bridge ⟨1, 3, 67⟩, .arithmetic ⟨.xor, [], 0⟩, .assertZero 0]

theorem decode_packed :
    packed.Fits ∧ decode (encode packed ++ [1, 255]) = .ok packed ∧
    (decode ((encode packed).take 41)).mapError Error.encoding = .error (.encoding .truncated) := by
  have fits : packed.Fits := by decide +kernel
  refine ⟨fits, (decode_iff_isPrefix _ _).1.2 ⟨fits, List.prefix_append _ _⟩,
    (decode_iff_isPrefix _ _).2 fits (List.take_prefix _ _) fun same => ?_⟩
  exact absurd (congrArg List.length same) (by decide +kernel)

end Netlist.Composite
