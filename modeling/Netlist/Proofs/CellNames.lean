import Netlist.Proofs.BlifReading
import Netlist.Proofs.Extension
import Netlist.Proofs.Readability
import Netlist.Proofs.Routing

/-!
# Names of cells

In a netlist in BLIF the name of a cell is a word of a record, so it is not empty and holds
no blank (`isWord_of_mem_records`). Reading a netlist gives each gate an operator that such a
word stands for (`Reader.IsSpelled`, `isSpelled_of_readTexts`), and flattening only adds
buffers. So all operators of a flat circuit are spelled by single words
(`Design.isSpelled_of_flatten`).
-/

namespace Netlist

/-- The words of a line hold no blanks, by induction over the pieces between blanks. -/
theorem Text.isWord_of_mem_words {characters word : List Char} (member : word ∈ words characters) :
    IsWord word := by
  induction length : characters.length using Nat.strong_induction_on generalizing characters with
  | _ length ih =>
    subst length
    by_cases noBlank : ∀ character ∈ characters, isBlank character = false
    · have nonempty : characters ≠ [] := by
        rintro rfl
        simp at member
      rw [words_eq_singleton nonempty noBlank, List.mem_singleton] at member
      rw [member]
      exact ⟨nonempty, noBlank⟩
    · simp only [not_forall, Bool.not_eq_false] at noBlank
      rcases noBlank with ⟨blank, isCharacter, white⟩
      rcases List.append_of_mem isCharacter with ⟨before, after, rfl⟩
      rw [words_append_cons_of_isBlank white, List.mem_append] at member
      rcases member with inBefore | inAfter
      · exact ih before.length (by simp) inBefore rfl
      · exact ih after.length (by simp; omega) inAfter rfl

namespace Operator

/-- Some word stands for the operator. -/
def IsSpelled (operator : Operator) : Prop :=
  ∃ name : String, Text.IsWord name.toList ∧ ofName name = operator

theorem isSpelled_buf : buf.IsSpelled :=
  ⟨"BUF", Text.isWord_of_all (by decide) (by decide), by decide⟩

theorem IsSpelled.isNamed {operator : Operator} (spelled : operator.IsSpelled) :
    operator.IsNamed := by
  rcases spelled with ⟨name, _, same⟩
  exact ⟨name, same⟩

/-- The name of an operator is that of a primitive, or the one by which it was named. -/
theorem name_ofName (name : String) :
    (ofName name).IsPrimitive ∨ (ofName name).name = name := by
  unfold ofName
  split
  all_goals first | exact Or.inl rfl | exact Or.inr rfl

/-- An operator that a word stands for is written as one word. -/
theorem IsSpelled.isWord_name {operator : Operator} (spelled : operator.IsSpelled) :
    Text.IsWord operator.name.toList := by
  rcases spelled with ⟨name, isWord, rfl⟩
  rcases name_ofName name with isPrimitive | same
  · exact Bristol.Line.isWord_name isPrimitive
  · rwa [same]

end Operator

namespace Blif

/-- The words of a record hold no blanks. -/
theorem isWord_of_mem_recordsFrom {lines : List (Nat × List Char)} {start : Nat}
    {pending : List (List Char)} (pendingWords : ∀ word ∈ pending, Text.IsWord word)
    {record : Record} (member : record ∈ recordsFrom start pending lines) :
    ∀ word ∈ record.args, Text.IsWord word.toList := by
  have ofWords : ∀ {line : Nat} {words : List (List Char)}, (∀ word ∈ words, Text.IsWord word) →
      record ∈ Record.ofWords line words → ∀ word ∈ record.args, Text.IsWord word.toList := by
    intro line words areWords isRecord word isArgument
    cases words with
    | nil => cases isRecord
    | cons keyword args =>
      rw [Record.ofWords, List.mem_singleton] at isRecord
      subst isRecord
      rcases List.mem_map.1 isArgument with ⟨characters, isWord, rfl⟩
      rw [String.toList_ofList]
      exact areWords characters (List.mem_cons_of_mem _ isWord)
  have lineWords_isWord : ∀ line, ∀ word ∈ (lineWords line).1, Text.IsWord word := by
    intro line word isWord
    unfold lineWords at isWord
    dsimp only at isWord
    split at isWord <;> exact Text.isWord_of_mem_words isWord
  induction lines generalizing start pending with
  | nil => exact ofWords pendingWords member
  | cons line rest ih =>
    have areWords : ∀ word ∈ pending ++ (lineWords line.2).1, Text.IsWord word :=
      List.forall_mem_append.2 ⟨pendingWords, lineWords_isWord line.2⟩
    rw [recordsFrom] at member
    dsimp only at member
    split at member
    · exact ih areWords member
    · rcases List.mem_append.1 member with here | later
      · exact ofWords areWords here
      · exact ih (List.forall_mem_nil _) later

theorem isWord_of_mem_records {text : String} {record : Record} (member : record ∈ records text) :
    ∀ word ∈ record.args, Text.IsWord word.toList :=
  isWord_of_mem_recordsFrom (List.forall_mem_nil _) member

namespace Reader

/-- Words stand for all operators, those of the open model included. -/
structure IsSpelled (reader : Reader) : Prop where
  modules : ∀ module ∈ reader.design.modules, ∀ gate ∈ module.gates, gate.operator.IsSpelled
  current : ∀ module ∈ reader.current, ∀ gate ∈ module.gates, gate.operator.IsSpelled

/-- If the step succeeds, words still stand for all operators. -/
def Spells {α : Type} (first : Reader) (step : Step α) : Prop :=
  first.IsSpelled → ∀ value last, step first = (.ok value, last) → last.IsSpelled

namespace Spells

variable {α β : Type} {first : Reader}

theorem unchanged {step : Step α} {outcome : Except Error α}
    (same : step first = (outcome, first)) :
    Spells first step := by
  intro spelled value last done
  cases same.symm.trans done
  exact spelled

theorem setting {last : Reader} (spells : first.IsSpelled → last.IsSpelled) :
    Spells first (set last : Step PUnit) := by
  rintro spelled _ _ ⟨⟩
  exact spells spelled

theorem modifying {change : Reader → Reader} (spells : first.IsSpelled → (change first).IsSpelled) :
    Spells first (modify change : Step PUnit) :=
  setting spells

theorem bind {step : Step α} {next : α → Step β} (start : Spells first step)
    (rest : ∀ value middle, step first = (.ok value, middle) → Spells middle (next value)) :
    Spells first (step >>= next) := by
  intro spelled result last done
  rcases bind_eq_ok_iff.1 done with ⟨value, middle, stepped, done⟩
  exact rest value middle stepped (start spelled value middle stepped) result last done

theorem bind_get {next : Reader → Step β} (rest : Spells first (next first)) :
    Spells first (get >>= next) := by
  apply bind (unchanged rfl)
  rintro _ _ ⟨⟩
  exact rest

theorem bind_lift {outcome : Except Error α} {next : α → Step β}
    (rest : ∀ value, outcome = .ok value → Spells first (next value)) :
    Spells first (liftM outcome >>= next) := by
  cases outcome with
  | error error => exact unchanged rfl
  | ok value => exact rest value rfl

theorem mapM {items : List α} {step : α → Step β}
    (each : ∀ reader, ∀ item ∈ items, Spells reader (step item)) :
    Spells first (items.mapM step) := by
  induction items generalizing first with
  | nil =>
    rw [List.mapM_nil]
    exact unchanged rfl
  | cons item rest ih =>
    rw [List.mapM_cons]
    apply bind (each first item List.mem_cons_self)
    intro _ _ _
    apply bind (ih fun reader other member => each reader other (List.mem_cons_of_mem _ member))
    exact fun _ _ _ => unchanged rfl

theorem forM {items : List α} {step : α → Step PUnit}
    (each : ∀ reader, ∀ item ∈ items, Spells reader (step item)) :
    Spells first (items.forM step) := by
  induction items generalizing first with
  | nil => exact unchanged rfl
  | cons item rest ih =>
    apply bind (each first item List.mem_cons_self)
    exact fun _ _ _ => ih fun reader other member =>
      each reader other (List.mem_cons_of_mem _ member)

end Spells

/-- Only the modules matter. -/
theorem IsSpelled.congr {first last : Reader} (spelled : first.IsSpelled)
    (modules : last.design.modules = first.design.modules)
    (current : last.current = first.current) : last.IsSpelled := by
  constructor
  · rw [modules]
    exact spelled.modules
  · rw [current]
    exact spelled.current

variable {first : Reader}

theorem spells_refuse {α : Type} (line : Nat) (fault : Fault) :
    Spells first (refuse line fault : Step α) :=
  Spells.unchanged rfl

theorem spells_refuse_bind {α β : Type} (line : Nat) (fault : Fault) (next : α → Step β) :
    Spells first (refuse line fault >>= next) :=
  Spells.unchanged rfl

theorem spells_setAllocator {allocator : Allocator} :
    Spells first (set { first with design := { first.design with allocator } } : Step PUnit) :=
  Spells.setting fun spelled => spelled.congr rfl rfl

theorem spells_wireOf (name : String) : Spells first (wireOf name) := by
  apply Spells.bind_get
  apply Spells.bind_lift
  rintro ⟨wire, allocator⟩ _
  apply Spells.bind spells_setAllocator
  exact fun _ _ _ => Spells.unchanged rfl

theorem openModule_eq_ok {line : Nat} {module : Module} {middle : Reader}
    (opened : openModule line first = (.ok module, middle)) :
    middle = first ∧ first.current = some module := by
  rcases bind_eq_ok_iff.1 opened with ⟨reader, _, got, opened⟩
  cases got
  cases isOpen : first.current with
  | none =>
    rw [isOpen] at opened
    cases opened
  | some other =>
    rw [isOpen] at opened
    cases opened
    exact ⟨rfl, rfl⟩

theorem spells_openModule (line : Nat) : Spells first (openModule line) := by
  intro spelled module last opened
  rw [(openModule_eq_ok opened).1]
  exact spelled

/-- A change of the open model that leaves its operators spelled. -/
theorem spells_updateModule (line : Nat) {change : Module → Module} {keep : WireSets → WireSets}
    (spells : ∀ module : Module, (∀ gate ∈ module.gates, gate.operator.IsSpelled) →
      ∀ gate ∈ (change module).gates, gate.operator.IsSpelled) :
    Spells first (updateModule line change keep) := by
  apply Spells.bind (spells_openModule line)
  intro module middle opened
  rcases openModule_eq_ok opened with ⟨rfl, isOpen⟩
  apply Spells.modifying
  intro spelled
  refine ⟨spelled.modules, ?_⟩
  rintro _ ⟨⟩
  exact spells module (spelled.current module isOpen)

theorem spells_expectCover (cover : Option String) : Spells first (expectCover cover) :=
  Spells.modifying fun spelled => spelled.congr rfl rfl

theorem spells_beginModel (line : Nat) (args : List String) :
    Spells first (beginModel line args) := by
  apply Spells.bind_get
  split
  · exact spells_refuse _ _
  · split
    · exact spells_refuse _ _
    · apply Spells.setting
      intro spelled
      refine ⟨spelled.modules, ?_⟩
      rintro _ ⟨⟩
      exact List.forall_mem_nil _
  · exact spells_refuse _ _

theorem gates_foldl {add : Module → Wire → Module}
    (same : ∀ module wire, (add module wire).gates = module.gates) (wires : List Wire)
    (module : Module) : (wires.foldl add module).gates = module.gates := by
  induction wires generalizing module with
  | nil => rfl
  | cons wire rest ih => rw [List.foldl_cons, ih, same]

theorem spells_declarePorts (line : Nat) {add : Module → Wire → Module}
    (same : ∀ module wire, (add module wire).gates = module.gates) (args : List String) :
    Spells first (declarePorts line add args) := by
  apply Spells.bind (Spells.mapM fun _ name _ => spells_wireOf name)
  intro wires _ _
  apply spells_updateModule
  intro module spelled
  rw [gates_foldl same]
  exact spelled

/-- A gate whose operator is spelled joins the open model. -/
theorem spells_appendGate (line : Nat) {gate : Gate} (spelled : gate.operator.IsSpelled) :
    Spells first (appendGate line gate) := by
  apply spells_updateModule
  intro module others
  exact List.forall_mem_append.2 ⟨others, List.forall_mem_singleton.2 spelled⟩

theorem spells_boundWires (line : Nat) (bindings : List String) :
    Spells first (boundWires line bindings) := by
  apply Spells.mapM
  intro _ token _
  apply Spells.bind_lift
  exact fun ⟨_, name⟩ _ => spells_wireOf name

theorem spells_addGate (line : Nat) {args : List String}
    (areWords : ∀ word ∈ args, Text.IsWord word.toList) : Spells first (addGate line args) := by
  unfold addGate
  split
  · rename_i operatorName token rest
    have spelled : (Operator.ofName operatorName).IsSpelled :=
      ⟨operatorName, areWords operatorName List.mem_cons_self, rfl⟩
    apply Spells.bind (spells_boundWires line _)
    intro wires _ _
    simp only
    split
    · split
      · exact spells_refuse_bind _ _ _
      · exact spells_appendGate line spelled
    · exact spells_appendGate line spelled
  · exact spells_refuse _ _

theorem spells_pairings (line : Nat) (seen tokens : List String) :
    Spells first (pairings line seen tokens) := by
  induction tokens generalizing first seen with
  | nil => exact Spells.unchanged rfl
  | cons token rest ih =>
    apply Spells.bind_lift
    rintro ⟨pin, name⟩ _
    dsimp only
    split
    · exact spells_refuse_bind _ _ _
    · apply Spells.bind (spells_wireOf pin)
      intro _ _ _
      apply Spells.bind (spells_wireOf name)
      intro _ _ _
      apply Spells.bind (ih (pin :: seen))
      exact fun _ _ _ => Spells.unchanged rfl

theorem spells_addInstance (line : Nat) (args : List String) :
    Spells first (addInstance line args) := by
  unfold addInstance
  split
  · exact spells_refuse _ _
  · apply Spells.bind (spells_pairings line [] _)
    exact fun _ _ _ => spells_updateModule line fun _ spelled => spelled

theorem spells_addBuffer (line : Nat) (source target : String) :
    Spells first (addBuffer line source target) := by
  apply Spells.bind (spells_wireOf source)
  intro _ _ _
  apply Spells.bind (spells_wireOf target)
  exact fun _ _ _ => spells_appendGate line Operator.isSpelled_buf

theorem spells_addNames (line : Nat) (args : List String) : Spells first (addNames line args) := by
  unfold addNames
  split
  · apply Spells.bind (spells_addBuffer line _ _)
    exact fun _ _ _ => spells_expectCover _
  · split
    · apply Spells.bind (spells_openModule line)
      intro _ _ _
      split
      · exact spells_expectCover _
      · exact Spells.unchanged rfl
    · exact spells_refuse _ _
  · exact spells_refuse _ _

theorem spells_endModel (line : Nat) : Spells first (endModel line) := by
  apply Spells.bind_get
  split
  · rename_i module isOpen
    apply Spells.setting
    intro spelled
    constructor
    · intro other member
      rcases Design.mem_insert member with old | rfl
      · exact spelled.modules other old
      · exact spelled.current other isOpen
    · rintro _ ⟨⟩
  · exact spells_refuse _ _

theorem spells_takeCover (line : Nat) (cover : String) : Spells first (takeCover line cover) := by
  apply Spells.bind_get
  split
  · exact spells_expectCover _
  · exact spells_refuse _ _

theorem spells_takeKeyword (line : Nat) (keyword : String) {args : List String}
    (areWords : ∀ word ∈ args, Text.IsWord word.toList) :
    Spells first (takeKeyword line keyword args) := by
  unfold takeKeyword
  split
  · exact spells_beginModel line args
  · apply spells_declarePorts
    exact fun _ _ => rfl
  · apply spells_declarePorts
    exact fun _ _ => rfl
  · exact spells_addGate line areWords
  · exact spells_addInstance line args
  · exact spells_addNames line args
  · unfold addConnection
    split
    · exact spells_addBuffer line _ _
    · exact spells_refuse _ _
  · exact spells_endModel line
  · exact spells_refuse _ _

theorem spells_take {record : Record} (areWords : ∀ word ∈ record.args, Text.IsWord word.toList) :
    Spells first (take record) := by
  apply Spells.bind (Spells.modifying fun spelled => spelled.congr rfl rfl)
  intro _ _ _
  split
  · apply Spells.bind (spells_expectCover none)
    exact fun _ _ _ => spells_takeKeyword _ _ areWords
  · exact spells_takeCover _ _

theorem spells_endText : Spells first endText := by
  apply Spells.bind_get
  split
  · exact spells_refuse _ _
  · exact spells_expectCover none

theorem spells_takeText (text : String) : Spells first (takeText text) := by
  apply Spells.bind (Spells.forM fun _ record member => spells_take (isWord_of_mem_records member))
  exact fun _ _ _ => spells_endText

theorem spells_finish : Spells first finish := by
  apply Spells.bind spells_endText
  intro _ _ _
  apply Spells.bind_get
  exact Spells.unchanged rfl

theorem spells_texts (texts : List String) :
    Spells first (do texts.forM takeText; finish) := by
  apply Spells.bind (Spells.forM fun _ text _ => spells_takeText text)
  exact fun _ _ _ => spells_finish

theorem isSpelled_start (allocator : Allocator) : (start allocator).IsSpelled := by
  constructor
  · exact List.forall_mem_nil _
  · rintro _ ⟨⟩

end Reader

/-- Words stand for all operators of a design that was read from BLIF. -/
theorem isSpelled_of_readTexts {allocator : Allocator} {top : Option String}
    {texts : List String} {design : Design}
    (read : readTexts allocator top texts = .ok design) :
    ∀ module ∈ design.modules, ∀ gate ∈ module.gates, gate.operator.IsSpelled := by
  rcases exists_run_of_readTexts read with ⟨source, last, done, asked, _, sameModules, resolved⟩
  have spelled : last.IsSpelled :=
    Reader.spells_texts texts (Reader.isSpelled_start allocator) _ _ done
  have isDesign : source = last.design :=
    (Reader.keeps_texts texts (Reader.isSound_start allocator) _ _ done).2.2 source rfl
  rcases Design.resolved?_eq_ok resolved with ⟨_, _, modules⟩
  intro module member gate isGate
  rcases exists_of_mem_right modules member with ⟨original, isOriginal, step⟩
  rw [sameModules, isDesign] at isOriginal
  rw [step.same.gates] at isGate
  exact spelled.modules original isOriginal gate isGate

end Blif

namespace Design

/-- Flattening adds only buffers to the gates of modules. -/
theorem isSpelled_of_flatten {design : Design}
    (spelled : ∀ module ∈ design.modules, ∀ gate ∈ module.gates, gate.operator.IsSpelled)
    {flat : Circuit} (flattened : design.flatten.result = .ok flat) :
    ∀ gate ∈ flat.gates, gate.operator.IsSpelled := by
  cases isTop : design.topModule with
  | error error =>
    rw [flatten, isTop] at flattened
    cases flattened
  | ok top =>
    rcases flatten_eq_ok isTop flattened with ⟨found, topFlattened⟩
    rcases exists_routing found topFlattened with ⟨route, unfolds, isRouting, rfl⟩
    intro gate isGate
    rcases (mem_routedGates_iff unfolds isRouting).1 isGate with
      ⟨path, module, original, reached, isOriginal, rfl⟩ | ⟨_, _, isCopy⟩
    · exact spelled module (reached.mem (mem_of_find? found)) original isOriginal
    · rcases mem_portCopies_iff.1 isCopy with ⟨_, _, _, _, _, rfl⟩
      exact Operator.isSpelled_buf

end Design

end Netlist
