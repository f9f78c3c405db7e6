import Mathlib.Data.Finset.Card
import Netlist.Proofs.Agreement

/-!
# Histories of evaluators

An evaluator is given witnesses and circuits, and it keeps what it did before a call fails. Each
call is a sequence of moves: a bit is queued, a line is executed, or an error is kept
(`Evaluator.trace`). What a line does is told by one case for each kind of line
(`Evaluator.Executes`): whenever a bit of the witness or the value of a gate is stored, either one
more wire holds a value, or a value is overwritten. So bits and values are conserved from move to
move (`Evaluator.Conserves.of_leads`), and at every point of every history
(`Evaluator.conserves_trace`).
-/

namespace Netlist.Bristol.Evaluator

/-! ### Executed lines -/

/-- The wires that hold a value. -/
def knownWires (evaluator : Evaluator) : Finset Wire :=
  (evaluator.values.map Prod.fst).toFinset

/-- The line leads from one evaluator to the next. -/
inductive Executes : Evaluator → Line → Evaluator → Prop where
  /-- The declaration of a constant that is held is passed over. -/
  | passed {evaluator : Evaluator} {wire : Wire} :
    evaluator.constantsBound = true ∧ Domain.boolean.IsConstant wire →
      Executes evaluator (.input wire) evaluator
  /-- Another input takes the first bit of the witness. -/
  | taken {evaluator : Evaluator} {wire : Wire} {bit : Bool} {witness : List Bool} :
    ¬ (evaluator.constantsBound = true ∧ Domain.boolean.IsConstant wire) →
      evaluator.witness = bit :: witness →
        Executes evaluator (.input wire) ({ evaluator with witness }.set wire bit).1
  /-- An output is recorded. -/
  | recorded {evaluator : Evaluator} {wire : Wire} (bit : Bool) :
    Executes evaluator (.output wire)
      { evaluator with outputs := evaluator.outputs ++ [(wire, bit)] }
  /-- The value of a gate is stored. -/
  | computed {evaluator : Evaluator} {node : Gate} (bit : Bool) :
    Executes evaluator (.gate node) (evaluator.store node bit)

variable {evaluator first next last : Evaluator}

theorem executes_of_step {line : Line} {events : List Event}
    (stepped : evaluator.step line = .ok (next, events)) : Executes evaluator line next := by
  cases line with
  | input wire =>
    rw [step] at stepped
    split at stepped
    · rename_i isHeld
      cases stepped
      exact .passed isHeld
    · rename_i isOpen
      split at stepped
      · cases stepped
      · rename_i bit witness queue
        obtain ⟨rfl, _⟩ := Prod.mk.inj (Except.ok.inj stepped)
        exact .taken isOpen queue
  | output wire =>
    obtain ⟨bit, _, done⟩ := eq_ok_of_bind stepped
    cases done
    exact .recorded bit
  | gate node =>
    obtain ⟨bit, _, done⟩ := eq_ok_of_bind stepped
    cases done
    exact .computed bit

theorem mem_knownWires_iff {wire : Wire} :
    wire ∈ evaluator.knownWires ↔ evaluator.Knows wire := by
  rw [knownWires, List.mem_toFinset, Knows, List.lookup_isSome_iff]
  simp

theorem knownWires_set (evaluator : Evaluator) (wire : Wire) (bit : Bool) :
    (evaluator.set wire bit).1.knownWires = insert wire evaluator.knownWires := by
  ext other
  rw [Finset.mem_insert, mem_knownWires_iff, mem_knownWires_iff, Knows, Knows, lookup_set_values]
  split <;> simp [*]

/-- A value that is stored is that of one more wire, or it overwrites another one. -/
theorem card_add_overwrites_set (evaluator : Evaluator) (wire : Wire) (bit : Bool) :
    (evaluator.set wire bit).1.knownWires.card + (evaluator.set wire bit).1.overwrites =
      evaluator.knownWires.card + evaluator.overwrites + 1 := by
  rw [knownWires_set]
  by_cases isKnown : evaluator.Knows wire
  · have counted : (evaluator.set wire bit).1.overwrites = evaluator.overwrites + 1 := by
      rw [set]
      exact congrArg (fun result : Evaluator × List Event => result.1.overwrites) (if_pos isKnown)
    rw [Finset.insert_eq_of_mem (mem_knownWires_iff.2 isKnown), counted, Nat.add_assoc]
  · rw [Finset.card_insert_of_notMem fun member => isKnown (mem_knownWires_iff.1 member),
      set_of_not_knows isKnown]
    exact Nat.add_right_comm _ _ _

@[simp]
theorem evaluatedGates_set (evaluator : Evaluator) (wire : Wire) (bit : Bool) :
    (evaluator.set wire bit).1.evaluatedGates = evaluator.evaluatedGates := by
  unfold set
  dsimp only
  split <;> rfl

/-! ### Moves -/

/-- One move of an evaluator. -/
inductive Move where
  /-- A bit of a witness is queued. -/
  | queue (bit : Bool)
  /-- A line is executed. -/
  | execute (line : Line)
  /-- An error is kept as a violation. -/
  | keep (error : Error)

/-- The move leads from one evaluator to the next. -/
inductive Move.Leads : Move → Evaluator → Evaluator → Prop where
  | queue (bit : Bool) (evaluator : Evaluator) :
    Leads (.queue bit) evaluator { evaluator with witness := evaluator.witness ++ [bit] }
  | execute {line : Line} {evaluator next : Evaluator} :
    Executes evaluator line next → Leads (.execute line) evaluator next
  | keep (error : Error) (evaluator : Evaluator) :
    Leads (.keep error) evaluator { evaluator with violation := some error }

/-- The bit that is queued. -/
def Move.bit? : Move → Option Bool
  | queue bit => some bit
  | _ => none

/-- The wire for which a line asks for a bit: that of an input, unless it is a constant that is
held. -/
def Move.asked? (held : Bool) : Move → Option Wire
  | execute (.input wire) =>
    if held = true ∧ Domain.boolean.IsConstant wire then none else some wire
  | _ => none

/-- A move and the evaluator behind it. -/
abbrev Point := Move × Evaluator

/-- The evaluator behind some moves. -/
def now (evaluator : Evaluator) : List Point → Evaluator
  | [] => evaluator
  | (_, next) :: rest => now next rest

/-- Each move leads from the evaluator before it to the one behind it. -/
def IsPath (evaluator : Evaluator) : List Point → Prop
  | [] => True
  | (move, next) :: rest => move.Leads evaluator next ∧ IsPath next rest

/-- The bits that are queued along some moves. -/
def queuedBits (past : List Point) : List Bool :=
  past.filterMap fun point => point.1.bit?

/-- The values that wires have at once behind the lines that ask for a bit for them. -/
def inputValues (held : Bool) (past : List Point) : List (Option Bool) :=
  past.filterMap fun point => (point.1.asked? held).map fun wire => point.2.values.lookup wire

theorem now_append (evaluator : Evaluator) (front rest : List Point) :
    evaluator.now (front ++ rest) = (evaluator.now front).now rest := by
  induction front generalizing evaluator with
  | nil => rfl
  | cons point front ih => exact ih point.2

theorem isPath_append_iff {front rest : List Point} :
    evaluator.IsPath (front ++ rest) ↔
      evaluator.IsPath front ∧ (evaluator.now front).IsPath rest := by
  induction front generalizing evaluator with
  | nil => exact (iff_of_eq (true_and _)).symm
  | cons point front ih =>
    rw [List.cons_append, IsPath, IsPath, ih, and_assoc]
    rfl

/-! ### Conservation -/

/-- Along some moves, the bits that are queued go to the inputs in order, as many values are stored
as bits were taken and gates evaluated, each of a new wire or over another value, and no wire loses
its value. -/
structure Conserves (first : Evaluator) (past : List Point) (last : Evaluator) : Prop where
  held : last.constantsBound = first.constantsBound
  order : (first.witness ++ queuedBits past).map some =
    inputValues first.constantsBound past ++ last.witness.map some
  balance : (inputValues first.constantsBound past).length + last.evaluatedGates +
      (first.knownWires.card + first.overwrites) =
    last.knownWires.card + last.overwrites + first.evaluatedGates
  known : first.knownWires ⊆ last.knownWires

theorem Conserves.refl (evaluator : Evaluator) : Conserves evaluator [] evaluator := by
  refine ⟨rfl, ?_, ?_, Finset.Subset.refl _⟩
  · simp [queuedBits, inputValues]
  · simp [inputValues, Nat.add_comm]

theorem Conserves.cons {point : Point} {rest : List Point}
    (head : Conserves first [point] next) (others : Conserves next rest last) :
    Conserves first (point :: rest) last := by
  have bits : queuedBits (point :: rest) = queuedBits [point] ++ queuedBits rest :=
    @List.filterMap_append _ _ [point] rest _
  have inputs (held : Bool) :
      inputValues held (point :: rest) = inputValues held [point] ++ inputValues held rest :=
    @List.filterMap_append _ _ [point] rest _
  have order := others.order
  have balance := others.balance
  rw [head.held] at order balance
  refine ⟨others.held.trans head.held, ?_, ?_, head.known.trans others.known⟩
  · calc
      (first.witness ++ queuedBits (point :: rest)).map some =
          (first.witness ++ queuedBits [point]).map some ++ (queuedBits rest).map some := by
        rw [bits, ← List.append_assoc, List.map_append]
      _ = inputValues first.constantsBound [point] ++
          (next.witness ++ queuedBits rest).map some := by
        rw [head.order, List.append_assoc, List.map_append]
      _ = inputValues first.constantsBound (point :: rest) ++ last.witness.map some := by
        rw [order, inputs, List.append_assoc]
  · have := head.balance
    rw [inputs, List.length_append]
    omega

/-- A move that stores no value may queue a bit. -/
theorem Conserves.of_values_eq {move : Move} (held : next.constantsBound = first.constantsBound)
    (values : next.values = first.values) (overwrites : next.overwrites = first.overwrites)
    (gates : next.evaluatedGates = first.evaluatedGates)
    (noInput : move.asked? first.constantsBound = none)
    (witness : next.witness = first.witness ++ move.bit?.toList) :
    Conserves first [(move, next)] next := by
  have inputs : inputValues first.constantsBound [(move, next)] = [] := by
    simp [inputValues, noInput]
  have bits : queuedBits [(move, next)] = move.bit?.toList := by
    cases added : move.bit? <;> simp [queuedBits, added]
  have known : next.knownWires = first.knownWires := by rw [knownWires, values, knownWires]
  refine ⟨held, ?_, ?_, known.ge⟩
  · rw [inputs, bits, witness, List.nil_append]
  · rw [inputs, known, overwrites, gates, List.length_nil, Nat.zero_add]
    exact Nat.add_comm _ _

/-- A line conserves bits and values. -/
theorem Conserves.of_executes {line : Line} (executes : Executes first line next) :
    Conserves first [(.execute line, next)] next := by
  cases executes with
  | passed isHeld =>
    exact .of_values_eq rfl rfl rfl rfl (if_pos isHeld) (List.append_nil _).symm
  | @taken wire bit witness isOpen queue =>
    have inputs : inputValues first.constantsBound
        [(.execute (.input wire), ({ first with witness }.set wire bit).1)] = [some bit] := by
      simp [inputValues, Move.asked?, isOpen]
    refine ⟨constantsBound_set _ wire bit, ?_, ?_, ?_⟩
    · rw [inputs, witness_set, queue]
      simp [queuedBits, Move.bit?]
    · rw [inputs, evaluatedGates_set, card_add_overwrites_set]
      change 1 + first.evaluatedGates + (first.knownWires.card + first.overwrites) =
        first.knownWires.card + first.overwrites + 1 + first.evaluatedGates
      omega
    · rw [knownWires_set]
      exact Finset.subset_insert _ _
  | recorded bit => exact .of_values_eq rfl rfl rfl rfl rfl (List.append_nil _).symm
  | @computed node bit =>
    have inputs : inputValues first.constantsBound
        [(.execute (.gate node), first.store node bit)] = [] := rfl
    refine ⟨constantsBound_set first node.output bit, ?_, ?_, ?_⟩
    · rw [inputs]
      exact congrArg (List.map some) ((List.append_nil _).trans (witness_set first _ bit).symm)
    · have stored := card_add_overwrites_set first node.output bit
      have gates := evaluatedGates_set first node.output bit
      rw [inputs]
      change 0 + ((first.set node.output bit).1.evaluatedGates + 1) + _ =
        (first.set node.output bit).1.knownWires.card + (first.set node.output bit).1.overwrites + _
      omega
    · exact (Finset.subset_insert _ _).trans_eq (knownWires_set first node.output bit).symm

theorem Conserves.of_leads {move : Move} (leads : move.Leads first next) :
    Conserves first [(move, next)] next := by
  cases leads with
  | queue bit => exact .of_values_eq rfl rfl rfl rfl rfl rfl
  | execute executes => exact .of_executes executes
  | keep error => exact .of_values_eq rfl rfl rfl rfl rfl (List.append_nil _).symm

theorem IsPath.conserves {past : List Point} (path : first.IsPath past) :
    Conserves first past (first.now past) := by
  induction past generalizing first with
  | nil => exact .refl first
  | cons point rest ih =>
    obtain ⟨leads, others⟩ := path
    exact .cons (.of_leads leads) (ih others)

/-! ### Calls -/

/-- What an evaluator is given. -/
inductive Call where
  /-- Bits that are queued. -/
  | witness (text : String)
  /-- A circuit that is run. -/
  | run (text : String)
  /-- A circuit that is run unless an earlier one failed. -/
  | circuit (text : String)

/-- What is left of an evaluator by a call, whether or not the call fails. -/
def after (evaluator : Evaluator) : Call → Evaluator
  | .witness text => (evaluator.addWitness text).1
  | .run text => (evaluator.runText text).1
  | .circuit text => (evaluator.runCircuit text).1

/-- What is left of an evaluator by some calls. -/
def afterAll (evaluator : Evaluator) (calls : List Call) : Evaluator :=
  calls.foldl after evaluator

/-- The bits of a witness in front of the first character that is none. -/
def witnessBits (text : String) : List Bool :=
  ((witnessMarks text).takeWhile fun (_, character) => isBit character).map
    fun (_, character) => character == '1'

/-- The bits that a call queues. -/
def Call.bits : Call → List Bool
  | witness text => witnessBits text
  | run _ | circuit _ => []

/-- The lines of a circuit that are run: those behind its header and the two lines that follow,
and none if the header is malformed. -/
def circuitLines (text : String) : List (Nat × List Char) :=
  match textLines text with
  | [] => []
  | (_, header) :: rest => if isHeader header then rest.drop 2 else []

/-- Bits are queued one after the other. -/
def bitTrace (evaluator : Evaluator) : List Bool → List Point
  | [] => []
  | bit :: rest =>
    let next := { evaluator with witness := evaluator.witness ++ [bit] }
    (.queue bit, next) :: bitTrace next rest

/-- Lines are executed one after the other, up to the first that fails. -/
def lineTrace (evaluator : Evaluator) : List (Nat × List Char) → List Point
  | [] => []
  | (number, characters) :: rest =>
    match Line.read number characters with
    | .error _ => []
    | .ok line =>
      match evaluator.step line with
      | .error _ => []
      | .ok (next, _) => (.execute line, next) :: lineTrace next rest

/-- The moves of a call. -/
def callTrace (evaluator : Evaluator) : Call → List Point
  | .witness text => evaluator.bitTrace (witnessBits text)
  | .run text => evaluator.lineTrace (circuitLines text)
  | .circuit text =>
    if evaluator.violation.isSome then []
    else evaluator.lineTrace (circuitLines text) ++
      match (evaluator.runText text).2.result with
      | .ok _ => []
      | .error error => [(.keep error, (evaluator.runCircuit text).1)]

/-- The moves of some calls. -/
def trace (evaluator : Evaluator) : List Call → List Point
  | [] => []
  | call :: rest => evaluator.callTrace call ++ trace (evaluator.after call) rest

/-- The moves lead from one evaluator to the other, and queue the given bits. -/
structure Connects (first : Evaluator) (points : List Point) (bits : List Bool)
    (last : Evaluator) : Prop where
  path : first.IsPath points
  queued : queuedBits points = bits
  now : first.now points = last

theorem Connects.refl (evaluator : Evaluator) : Connects evaluator [] [] evaluator :=
  ⟨trivial, rfl, rfl⟩

theorem Connects.append {front rest : List Point} {bits others : List Bool}
    (start : Connects first front bits next) (further : Connects next rest others last) :
    Connects first (front ++ rest) (bits ++ others) last := by
  refine ⟨isPath_append_iff.2 ⟨start.path, ?_⟩, ?_, ?_⟩
  · rw [start.now]
    exact further.path
  · rw [← start.queued, ← further.queued]
    exact List.filterMap_append
  · rw [now_append, start.now, further.now]

theorem connects_bitTrace (evaluator : Evaluator) (bits : List Bool) :
    Connects evaluator (evaluator.bitTrace bits) bits
      { evaluator with witness := evaluator.witness ++ bits } := by
  induction bits generalizing evaluator with
  | nil =>
    rw [List.append_nil]
    exact .refl evaluator
  | cons bit rest ih =>
    have others := ih { evaluator with witness := evaluator.witness ++ [bit] }
    dsimp only at others
    rw [List.append_assoc, List.singleton_append] at others
    exact ⟨⟨.queue bit evaluator, others.path⟩, congrArg (bit :: ·) others.queued, others.now⟩

theorem connects_lineTrace (evaluator : Evaluator) (entries : List (Nat × List Char)) :
    Connects evaluator (evaluator.lineTrace entries) [] (evaluator.runLines entries).1 := by
  induction entries generalizing evaluator with
  | nil => exact .refl evaluator
  | cons entry rest ih =>
    rw [lineTrace, runLines]
    cases Line.read entry.1 entry.2 with
    | error error => exact .refl evaluator
    | ok line =>
      dsimp only
      cases stepped : evaluator.step line with
      | error error => exact .refl evaluator
      | ok outcome =>
        have others := ih outcome.1
        exact ⟨⟨.execute (executes_of_step stepped), others.path⟩, others.queued, others.now⟩

theorem addWitness_fst (evaluator : Evaluator) (text : String) :
    (evaluator.addWitness text).1 =
      { evaluator with witness := evaluator.witness ++ witnessBits text } := by
  rw [addWitness, List.span_eq_takeWhile_dropWhile]
  rfl

theorem runText_fst (evaluator : Evaluator) (text : String) :
    (evaluator.runText text).1 = (evaluator.runLines (circuitLines text)).1 := by
  rw [runText, circuitLines]
  cases textLines text with
  | nil => rfl
  | cons header rest =>
    dsimp only
    split <;> rfl

theorem connects_callTrace (evaluator : Evaluator) (call : Call) :
    Connects evaluator (evaluator.callTrace call) call.bits (evaluator.after call) := by
  cases call with
  | witness text =>
    rw [after, addWitness_fst]
    exact connects_bitTrace evaluator _
  | run text =>
    rw [after, runText_fst]
    exact connects_lineTrace evaluator _
  | circuit text =>
    rw [callTrace, after, Call.bits]
    by_cases failed : evaluator.violation.isSome = true
    · rw [if_pos failed, runCircuit, if_pos failed]
      exact .refl evaluator
    · have lines := connects_lineTrace evaluator (circuitLines text)
      rw [← runText_fst] at lines
      rw [if_neg failed]
      refine lines.append ?_
      rw [runCircuit, if_neg failed]
      dsimp only
      cases (evaluator.runText text).2.result with
      | ok _ => exact .refl _
      | error error => exact ⟨⟨.keep error _, trivial⟩, rfl, rfl⟩

theorem connects_trace (evaluator : Evaluator) (calls : List Call) :
    Connects evaluator (evaluator.trace calls) (calls.flatMap Call.bits)
      (evaluator.afterAll calls) := by
  induction calls generalizing evaluator with
  | nil => exact .refl evaluator
  | cons call rest ih => exact (connects_callTrace evaluator call).append (ih _)

/-- Calls come to some moves, whether or not they fail: each move queues a bit of a witness,
executes a line or keeps an error. At every point, between two moves as between two calls, the bits
that were taken and the gates that were evaluated are as many as the wires that got a value, the
constants from the start apart, and the overwrites. One bit is taken for each input line that was
executed, unless its wire is a constant that is held, and it is the first that was not taken: the
wire has it as its value behind the line. A wire that has a value keeps one. -/
theorem conserves_trace (held : Bool) (calls : List Call) :
    let start := empty held
    let trace := start.trace calls
    start.IsPath trace ∧ start.now trace = start.afterAll calls ∧
    queuedBits trace = calls.flatMap Call.bits ∧
    ∀ past, past <+: trace →
      ((queuedBits past).length - (start.now past).witness.length : Int) +
          (start.now past).evaluatedGates =
        ((start.now past).knownWires.card - start.knownWires.card : Int) +
          (start.now past).overwrites ∧
      (queuedBits past).map some = inputValues held past ++ (start.now past).witness.map some ∧
      ∀ earlier, earlier <+: past →
        (start.now earlier).knownWires ⊆ (start.now past).knownWires := by
  intro start trace
  have connects := connects_trace start calls
  refine ⟨connects.path, connects.now, connects.queued, ?_⟩
  rintro past ⟨future, whole⟩
  have path : start.IsPath past := by
    have whole : start.IsPath (past ++ future) := whole ▸ connects.path
    exact (isPath_append_iff.1 whole).1
  have conserves := path.conserves
  have order : (queuedBits past).map some =
      inputValues held past ++ (start.now past).witness.map some := conserves.order
  refine ⟨?_, order, ?_⟩
  · have balance : (inputValues held past).length + (start.now past).evaluatedGates +
          (start.knownWires.card + 0) =
        (start.now past).knownWires.card + (start.now past).overwrites + 0 := conserves.balance
    have lengths := congrArg List.length order
    rw [List.length_append, List.length_map, List.length_map] at lengths
    omega
  · rintro earlier ⟨further, rfl⟩
    rw [now_append]
    exact (isPath_append_iff.1 path).2.conserves.known

/-- A witness that breaks off, a circuit that overwrites its input and asks for one bit too many,
a second witness and a circuit that declares a constant. -/
def brokenHistory : List Call :=
  [.witness "1x0", .run "1 3\n0\n0\n0 1 2 INPUT\n1 1 2 2 INV\n0 1 3 INPUT\n", .witness "01",
    .circuit "1 3\n0\n0\n0 1 1 INPUT\n0 1 3 INPUT\n2 1 3 1 4 XOR\n1 0 5 OUTPUT\n",
    .circuit "1 3\n0\n0\n0 1 6 INPUT\n"]

/-- Of three bits two are taken, for the wires 2 and 3; two gates set the wires 2, for the second
time, and 4. -/
theorem conserves_trace_brokenHistory :
    let start := empty true
    let last := start.afterAll brokenHistory
    start.trace brokenHistory <+: start.trace brokenHistory ∧
    brokenHistory.flatMap Call.bits = [true, false, true] ∧ last.witness = [true] ∧
    last.evaluatedGates = 2 ∧ last.overwrites = 1 ∧ start.knownWires.card = 2 ∧
    last.knownWires.card = 5 ∧
    inputValues true (start.trace brokenHistory) = [some true, some false] := by
  intro start last
  have bits : brokenHistory.flatMap Call.bits = [true, false, true] := by decide +kernel
  have witness : last.witness = [true] := by decide +kernel
  have evaluated : last.evaluatedGates = 2 := by decide +kernel
  have overwritten : last.overwrites = 1 := by decide +kernel
  have seeds : start.knownWires.card = 2 := by decide
  obtain ⟨_, now, queued, points⟩ := conserves_trace true brokenHistory
  obtain ⟨balance, order, _⟩ := points _ List.prefix_rfl
  rw [queued, now, bits, witness] at order
  rw [queued, now, bits, witness, evaluated, overwritten, seeds] at balance
  refine ⟨List.prefix_rfl, bits, witness, evaluated, overwritten, seeds, ?_, ?_⟩
  · change ((empty true).afterAll brokenHistory).knownWires.card = 5
    simp only [List.length_cons, List.length_nil] at balance
    omega
  · exact (List.append_cancel_right (order : [some true, some false] ++ [some true] = _)).symm

end Netlist.Bristol.Evaluator
