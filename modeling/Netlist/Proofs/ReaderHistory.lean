import Netlist.Proofs.Arrangement

/-!
# Histories of readers

A reader goes on after a record that it refused, with the wires that this record named. So
what is said about a reader has to hold after every history of records and ends of texts,
refused ones included. Since each of them leaves a sound reader sound
(`Reader.Keeps`), all of its modules are sound at every point, the sets that are kept beside
them are those of their gates, and the model that is open has a name of its own
(`Reader.sound_afterAll`).
-/

namespace Netlist.Blif.Reader

/-- What a reader is given. -/
inductive Call where
  | take (record : Record)
  /-- The end of a text. -/
  | endText

/-- What the reader does. -/
def Call.step : Call → Step Unit
  | .take record => Reader.take record
  | .endText => Reader.endText

/-- What is left of a reader by a call, whether or not it is refused. -/
def after (reader : Reader) (call : Call) : Reader :=
  (call.step.run reader).2

/-- What is left of a reader by some calls. -/
def afterAll (reader : Reader) (calls : List Call) : Reader :=
  calls.foldl after reader

/-- The modules that were read, and the one that is open. -/
def modules (reader : Reader) : List Module :=
  reader.design.modules ++ reader.current.toList

/-- The sets that are kept beside these modules, in the same order. -/
def keptSets (reader : Reader) : List WireSets :=
  reader.sets ++ (reader.current.map fun _ => reader.openSets).toList

theorem keeps_call {first : Reader} (call : Call) : Keeps first call.step fun _ _ => True := by
  cases call with
  | take record => exact keeps_take record
  | endText => exact keeps_endText

theorem IsSound.after {reader : Reader} (sound : reader.IsSound) (call : Call) :
    (reader.after call).IsSound :=
  (keeps_call call sound _ _ rfl).2.1

theorem IsSound.afterAll {reader : Reader} (sound : reader.IsSound) (calls : List Call) :
    (reader.afterAll calls).IsSound := by
  induction calls generalizing reader with
  | nil => exact sound
  | cons call rest ih => exact ih (sound.after call)

/-- All modules of a sound reader are sound, with the sets that are kept beside them. -/
theorem IsSound.forall₂_isSoundModule {reader : Reader} (sound : reader.IsSound) :
    List.Forall₂ (IsSoundModule reader.allocator) reader.modules reader.keptSets := by
  refine List.rel_append sound.modules ?_
  cases isOpen : reader.current with
  | none => exact .nil
  | some module => exact .cons (sound.current module isOpen) .nil

/-- The modules of a sound reader have different names. -/
theorem IsSound.nodup_names {reader : Reader} (sound : reader.IsSound) :
    (reader.modules.map Module.name).Nodup := by
  unfold Reader.modules
  cases isOpen : reader.current with
  | none =>
    rw [Option.toList_none, List.append_nil]
    exact sound.names
  | some module => exact Design.nodup_names_append sound.names (sound.isNew module isOpen)

/-- The end of a model adds the model to the design, and its sets to those of the others. -/
theorem IsSound.modules_end {reader : Reader} (sound : reader.IsSound) {module : Module}
    (isOpen : reader.current = some module) (line : Nat) (args : List String) :
    (reader.after (.take ⟨line, ".end", args⟩)).design.modules =
        reader.design.modules ++ [module] ∧
      (reader.after (.take ⟨line, ".end", args⟩)).sets = reader.sets ++ [reader.openSets] := by
  have ended : reader.after (.take ⟨line, ".end", args⟩) = reader.ended line module :=
    congrArg Prod.snd (take_end isOpen line args)
  have isNew := sound.isNew module isOpen
  rw [ended]
  exact ⟨Design.modules_insert isNew, sets_commit isNew⟩

/-- After any records and ends of texts, also after ones that were refused, all wires of
all modules have been allocated, the open model included; gates have as many inputs as
their operators take, and no wire of a callee is bound twice in an instance. The sets that
the reader keeps beside each module are those of the wires that its gates read and write. No
two modules have one name, so that the end of a model never drops it or its sets. -/
theorem sound_afterAll (allocator : Allocator) (calls : List Call) :
    let last := (start allocator).afterAll calls
    (∀ module ∈ last.modules,
      (∀ wire ∈ module.inputs ++ module.outputs, wire < last.design.allocator.next) ∧
      (∀ gate ∈ module.gates, (∀ wire ∈ gate.wires, wire < last.design.allocator.next) ∧
        ∀ arity, gate.operator.arity? = some arity → gate.inputs.length = arity) ∧
      (∀ inner ∈ module.instances, (∀ pairing ∈ inner.pairings,
          pairing.caller < last.design.allocator.next ∧
            pairing.callee < last.design.allocator.next) ∧
        (inner.pairings.map Pairing.callee).Nodup)) ∧
    List.Forall₂ (fun module sets => ∀ wire,
      (wire ∈ sets.gateInputs ↔ ∃ gate ∈ module.gates, wire ∈ gate.inputs) ∧
        (wire ∈ sets.gateOutputs ↔ ∃ gate ∈ module.gates, gate.output = wire))
      last.modules last.keptSets ∧
    (last.modules.map Module.name).Nodup ∧
    ∀ module, last.current = some module → ∀ line args,
      (last.after (.take ⟨line, ".end", args⟩)).design.modules =
          last.design.modules ++ [module] ∧
        (last.after (.take ⟨line, ".end", args⟩)).sets = last.sets ++ [last.openSets] := by
  intro last
  have sound : last.IsSound := (isSound_start allocator).afterAll calls
  have each := sound.forall₂_isSoundModule
  refine ⟨fun module member => ?_, each.imp fun module sets isSound wire => ?_,
    sound.nodup_names, fun module => sound.modules_end⟩
  · obtain ⟨_, _, isSound⟩ := exists_of_mem_right each.flip member
    refine ⟨?_, ?_, ?_⟩
    · exact Allocator.covers_append_iff.2 ⟨isSound.numbered.inputs, isSound.numbered.outputs⟩
    · exact fun gate isGate => ⟨isSound.numbered.gates gate isGate, isSound.arity gate isGate⟩
    · exact fun inner isInner =>
        ⟨isSound.numbered.pairings inner isInner, isSound.bindsOnce inner isInner⟩
  · rw [isSound.grows.gateInputs_eq, isSound.grows.gateOutputs_eq]
    exact ⟨Gate.mem_allInputs_iff, Gate.mem_allOutputs_iff⟩

/-- A gate without its second input, an instance with a pin that is bound twice and an end
of the text within the model are refused; the same gate and instance follow as they should
be. -/
def mendedHistory : List Call :=
  [.take ⟨1, ".model", ["top"]⟩, .take ⟨2, ".gate", ["AND", "A=x", "Y=y"]⟩,
    .take ⟨3, ".subckt", ["leaf", "p=a", "p=b"]⟩, .endText,
    .take ⟨4, ".gate", ["AND", "A=a", "B=x", "Y=y"]⟩, .take ⟨5, ".subckt", ["leaf", "p=a", "q=b"]⟩]

/-- The model that is open at the end of `mendedHistory`. -/
def mendedModule : Module :=
  ⟨"top", .boolean, [], [], [⟨.and, [5, 2], 3⟩], [.unresolved "leaf" [⟨5, 4⟩, ⟨7, 6⟩]]⟩

/-- The sets that are kept beside `mendedModule`. -/
def mendedSets : WireSets :=
  ⟨[2, 5], [3], [], []⟩

/-- The refused records of `mendedHistory` leave wires, and nothing else. -/
theorem sound_afterAll_mendedHistory :
    ((start (.empty .boolean)).afterAll mendedHistory).current = some mendedModule ∧
    ((start (.empty .boolean)).afterAll mendedHistory).keptSets = [mendedSets] ∧
    ((start (.empty .boolean)).afterAll mendedHistory).design.allocator.next = 8 ∧
    (((start (.empty .boolean)).afterAll mendedHistory).after
      (.take ⟨6, ".end", []⟩)).design.modules = [mendedModule] ∧
    (((start (.empty .boolean)).afterAll mendedHistory).after
      (.take ⟨6, ".end", []⟩)).sets = [mendedSets] := by
  have isOpen : ((start (.empty .boolean)).afterAll mendedHistory).current = some mendedModule := by
    decide +kernel
  have first : ((start (.empty .boolean)).afterAll mendedHistory).design.modules = [] := by
    decide +kernel
  have noSets : ((start (.empty .boolean)).afterAll mendedHistory).sets = [] := by
    decide +kernel
  have openSets : ((start (.empty .boolean)).afterAll mendedHistory).openSets = mendedSets := by
    decide +kernel
  obtain ⟨_, _, _, ends⟩ := sound_afterAll (.empty .boolean) mendedHistory
  obtain ⟨modules, sets⟩ := ends mendedModule isOpen 6 []
  refine ⟨isOpen, ?_, by decide +kernel, ?_, ?_⟩
  · rw [keptSets, noSets, isOpen, openSets]
    rfl
  · rw [modules, first]
    rfl
  · rw [sets, noSets, openSets]
    rfl

end Netlist.Blif.Reader
