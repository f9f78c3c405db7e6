import Netlist.Command.Tools
import Netlist.Proofs.BlifReading
import Netlist.Proofs.Extension
import Netlist.Proofs.FileChanges
import Netlist.Proofs.Settling
import Netlist.Proofs.YosysReading

/-!
# What tools do to files

No action but a write changes a file (`World.sameFiles_reply`), so a program without writes leaves
all files as they are (`World.sameFiles_run`). Apart from the tool that writes examples, only those
whose result may go to an output have writes. They open the output first, which may fail but changes
nothing then (`World.run_openFile_eq`). Behind that nothing fails any more: an open file can be
filled (`World.exists_run_writeFile`), and the circuits that are loaded are Boolean, so that they
can be written (`Command.domain_of_loadCircuit`). So a run that fails changes no file, and one that
succeeds at most its output (`Command.delivers_runOptions`).
-/

namespace Netlist

open Command

namespace Command

/-- The action writes a file. -/
def Action.IsWrite : Action → Prop
  | .write _ _ => True
  | _ => False

/-- No action of a program writes a file, whatever the replies are. Directories may be created. -/
def Program.NeverWrites {α : Type} : Program α → Prop
  | .done _ => True
  | .perform action next => ¬ action.IsWrite ∧ ∀ reply, (next reply).NeverWrites

theorem Program.neverWrites_bind {α β : Type} {program : Program α} {next : α → Program β}
    (first : program.NeverWrites) (rest : ∀ value, (next value).NeverWrites) :
    (program.bind next).NeverWrites := by
  induction program with
  | done value => exact rest value
  | perform action following ih => exact ⟨first.1, fun reply => ih reply (first.2 reply)⟩

namespace Routine

/-- No action of a routine writes a file. -/
def NeverWrites {α : Type} (routine : Routine α) : Prop :=
  Program.NeverWrites routine.run

namespace NeverWrites

variable {α β : Type}

theorem pure (value : α) : NeverWrites (Pure.pure value) :=
  trivial

theorem throw (failure : Failure) : NeverWrites (α := α) (MonadExcept.throw failure) :=
  trivial

theorem perform {action : Action} (other : ¬ action.IsWrite) :
    NeverWrites (Routine.perform action) :=
  ⟨other, fun _ => trivial⟩

theorem bind {first : Routine α} {next : α → Routine β} (start : NeverWrites first)
    (rest : ∀ value, NeverWrites (next value)) : NeverWrites (first >>= next) := by
  refine Program.neverWrites_bind start fun outcome => ?_
  cases outcome with
  | error failure => exact trivial
  | ok value => exact rest value

theorem mapM {step : α → Routine β} (each : ∀ item, NeverWrites (step item)) (items : List α) :
    NeverWrites (items.mapM step) := by
  induction items with
  | nil => exact .pure []
  | cons item rest ih =>
    rw [List.mapM_cons]
    exact .bind (each item) fun _ => .bind ih fun _ => .pure _

end NeverWrites

/-! ### Routines without writes -/

variable {α : Type}

theorem neverWrites_ofFile (outcome : Except FileFault α) : NeverWrites (ofFile outcome) := by
  cases outcome with
  | ok value => exact .pure value
  | error fault => exact .throw _

theorem neverWrites_ofResult (outcome : Except Error α) : NeverWrites (ofResult outcome) := by
  cases outcome with
  | ok value => exact .pure value
  | error error => exact .throw _

theorem neverWrites_logAll (events : List Event) : NeverWrites (logAll events) := by
  induction events with
  | nil => exact .pure ()
  | cons event rest ih => exact .bind (.perform id) fun _ => ih

theorem neverWrites_ofReport (report : Report α) : NeverWrites (ofReport report) :=
  .bind (neverWrites_logAll _) fun _ => neverWrites_ofResult _

theorem neverWrites_readBytes (file : Path) : NeverWrites (readBytes file) :=
  .bind (.perform id) neverWrites_ofFile

theorem neverWrites_decodeText (bytes : List UInt8) : NeverWrites (decodeText bytes) := by
  unfold decodeText
  split
  · exact .pure _
  · exact .throw _

theorem neverWrites_readText (file : Path) : NeverWrites (readText file) :=
  .bind (neverWrites_readBytes file) neverWrites_decodeText

theorem neverWrites_readInput : NeverWrites readInput :=
  .bind (.perform id) neverWrites_decodeText

theorem neverWrites_note (text : String) : NeverWrites (note text) :=
  .perform id

theorem neverWrites_print (text : String) : NeverWrites (print text) :=
  .perform id

theorem neverWrites_announceFile (file : Path) : NeverWrites (announceFile file) := by
  unfold announceFile
  split
  · exact .bind (.perform id) fun _ => .bind (neverWrites_ofFile _) fun _ => neverWrites_note _
  · exact neverWrites_note _

end Routine

open Routine

/-! ### Reading netlists -/

theorem neverWrites_filesOf (pathCount : Nat) (path : Path) :
    NeverWrites (filesOf pathCount path) := by
  unfold filesOf
  split
  · exact .pure _
  · split
    · split
      · exact .throw _
      · exact .pure _
    · exact .bind (.bind (.perform id) neverWrites_ofFile) fun _ => .pure _

theorem neverWrites_listFiles (paths : List Path) : NeverWrites (listFiles paths) := by
  refine .bind (.mapM (neverWrites_filesOf _) paths) fun files => ?_
  split
  · exact .throw _
  · exact .pure _

theorem neverWrites_readSource (file : Path) : NeverWrites (readSource file) :=
  .bind (neverWrites_note _) fun _ => .bind (neverWrites_readText file) fun _ => .pure _

theorem neverWrites_readSources (files : List Path) : NeverWrites (readSources files) := by
  unfold readSources
  split
  · split
    · exact .bind neverWrites_readInput fun _ => .pure _
    · exact .bind (neverWrites_readSource _) fun _ => .pure _
  · exact .mapM neverWrites_readSource _

theorem neverWrites_loadDesign (domain : Domain) (top : Option String) (paths : List Path) :
    NeverWrites (loadDesign domain top paths) := by
  refine .bind (neverWrites_listFiles paths) fun files =>
    .bind (neverWrites_readSources files) fun sources => ?_
  split
  · exact .throw _
  · exact .bind (.perform id) fun _ => .pure _

theorem neverWrites_loadCircuit (options : Options) : NeverWrites (loadCircuit options) :=
  .bind (neverWrites_loadDesign _ _ _) fun _ => neverWrites_ofReport _

theorem neverWrites_required (path : Option Path) (complaint : Complaint) :
    NeverWrites (required path complaint) := by
  cases path with
  | none => exact .throw _
  | some path => exact .pure path

/-! ### Tools without an output -/

theorem neverWrites_reportViolations (violations : List String) (claim : String) :
    NeverWrites (reportViolations violations claim) := by
  refine .bind (neverWrites_note _) fun _ => ?_
  split
  · exact neverWrites_note _
  · exact .bind (neverWrites_note _) fun _ => .bind (neverWrites_note _) fun _ => .throw _

theorem neverWrites_runLint (options : Options) : NeverWrites (runLint options) :=
  .bind (neverWrites_loadDesign _ _ _) fun _ => .bind (neverWrites_logAll _) fun _ =>
    .bind (neverWrites_note _) fun _ => neverWrites_reportViolations _ _

theorem neverWrites_runToJson (options : Options) : NeverWrites (runToJson options) :=
  .bind (neverWrites_loadCircuit options) fun _ => neverWrites_print _

theorem neverWrites_runToYaml (options : Options) : NeverWrites (runToYaml options) :=
  .bind (neverWrites_loadCircuit options) fun _ => neverWrites_print _

theorem neverWrites_readComposite (file : Path) : NeverWrites (readComposite file) := by
  refine .bind (.perform id) fun outcome => ?_
  split
  · exact neverWrites_ofResult _
  · exact .throw _
  · exact .throw _

theorem neverWrites_measureNetlist (options : Options) : NeverWrites (measureNetlist options) :=
  .bind (neverWrites_loadDesign _ _ _) fun _ => .bind (neverWrites_ofReport _) fun _ => .pure _

theorem neverWrites_measure (options : Options) : NeverWrites (measure options) := by
  unfold measure
  split
  · split
    · exact .bind (neverWrites_readComposite _) fun _ => .pure _
    · exact neverWrites_measureNetlist options
  · exact neverWrites_measureNetlist options

theorem neverWrites_runMetrics (options : Options) : NeverWrites (runMetrics options) :=
  .bind (neverWrites_measure options) fun _ => neverWrites_print _

theorem neverWrites_runEvaluate (options : Options) : NeverWrites (runEvaluate options) := by
  unfold runEvaluate
  split
  · exact .bind (neverWrites_required _ _) fun _ => .bind (neverWrites_readText _) fun _ =>
      .bind (neverWrites_ofResult _) fun _ => .bind (neverWrites_readText _) fun _ =>
        .bind (neverWrites_logAll _) fun _ => .bind (neverWrites_print _) fun _ =>
          neverWrites_reportViolations _ _
  · exact .throw _

end Command

/-! ### Runs -/

namespace World

variable {α β : Type}

theorem update_of_ok {world : World} {change : FileTree → Except FileFault FileTree}
    {files : FileTree} (changed : change world.files = .ok files) :
    world.update change = (.ok (), { world with files }) := by
  unfold update
  rw [changed]

theorem update_of_error {world : World} {change : FileTree → Except FileFault FileTree}
    {fault : FileFault} (failed : change world.files = .error fault) :
    world.update change = (.error fault, world) := by
  unfold update
  rw [failed]

theorem reply_write (file : Path) (content : List UInt8) (world : World) :
    reply (.write file content) world = world.update (·.write file content) :=
  rfl

theorem reply_makeDirectories (directory : Path) (world : World) :
    reply (.makeDirectories directory) world = world.update (·.makeDirectories directory) :=
  rfl

/-- No action but a write changes a file. -/
theorem sameFiles_reply {action : Action} (other : ¬ action.IsWrite) (world : World) :
    world.files.SameFiles (reply action world).2.files := by
  cases action with
  | write file content => exact absurd trivial other
  | makeDirectories directory =>
    rw [reply_makeDirectories]
    cases made : world.files.makeDirectories directory with
    | error fault =>
      rw [update_of_error made]
      exact .refl _
    | ok files =>
      rw [update_of_ok made]
      exact FileTree.sameFiles_of_makeDirectories made
  | list | read | readInput | print | note | log => exact .refl _

/-- A program without writes leaves all files as they are. -/
theorem sameFiles_run_program {program : Program α} (never : program.NeverWrites) (world : World) :
    world.files.SameFiles ((program.run reply).run world).2.files := by
  induction program generalizing world with
  | done value => exact .refl _
  | perform action next ih =>
    exact (sameFiles_reply never.1 world).trans (ih _ (never.2 _) _)

theorem sameFiles_run {routine : Routine α} (never : Routine.NeverWrites routine)
    {world last : World} {outcome : Except Failure α} (run : world.run routine = (outcome, last)) :
    world.files.SameFiles last.files := by
  have same : world.files.SameFiles (world.run routine).2.files := sameFiles_run_program never world
  rwa [run] at same

theorem run_perform (world : World) (action : Action) :
    world.run (Routine.perform action) = (.ok (reply action world).1, (reply action world).2) :=
  rfl

theorem run_bind (world : World) (first : Routine α) (next : α → Routine β) :
    world.run (first >>= next) = match world.run first with
      | (.error failure, last) => (.error failure, last)
      | (.ok value, last) => last.run (next value) := by
  have continued := congrFun (Program.run_bind reply first.run (ExceptT.bindCont next)) world
  refine continued.trans ?_
  show (let (outcome, last) := world.run first
    (Program.run reply (ExceptT.bindCont next outcome)).run last) = _
  cases world.run first with
  | mk outcome last => cases outcome <;> rfl

/-- A run ends with the failure of its first part, or it goes on with its value. -/
theorem run_bind_eq {world last : World} {first : Routine α} {next : α → Routine β}
    {outcome : Except Failure β} (run : world.run (first >>= next) = (outcome, last)) :
    (∃ failure, world.run first = (.error failure, last) ∧ outcome = .error failure) ∨
      ∃ value middle, world.run first = (.ok value, middle) ∧
        middle.run (next value) = (outcome, last) := by
  rw [run_bind] at run
  cases start : world.run first with
  | mk result middle =>
    rw [start] at run
    cases result with
    | error failure =>
      cases run
      exact Or.inl ⟨failure, rfl, rfl⟩
    | ok value => exact Or.inr ⟨value, middle, rfl, run⟩

/-- A write fails and changes nothing, or the files are those after it. -/
theorem run_writeFile (world : World) (file : Path) (content : List UInt8) :
    world.run (Routine.writeFile file content) = match world.files.write file content with
      | .error fault => (.error (.file fault), world)
      | .ok files => (.ok (), { world with files }) := by
  unfold Routine.writeFile
  rw [run_bind, run_perform, reply_write]
  cases written : world.files.write file content with
  | error fault =>
    rw [update_of_error written]
    rfl
  | ok files =>
    rw [update_of_ok written]
    rfl

/-- Opening a file fails and changes no file, or it leaves the file empty. -/
theorem run_openFile_eq {world last : World} {file : Path} {outcome : Except Failure Unit}
    (run : world.run (Routine.openFile file) = (outcome, last)) :
    (∃ failure, outcome = .error failure ∧ world.files.SameFiles last.files) ∨
      ∃ middle : World, outcome = .ok () ∧ world.files.SameFiles middle.files ∧
        middle.files.write file [] = .ok last.files := by
  have never := Routine.neverWrites_announceFile file
  obtain ⟨failure, announced, failed⟩ | ⟨_, middle, announced, finish⟩ := run_bind_eq run
  · exact Or.inl ⟨failure, failed, sameFiles_run never announced⟩
  · have same := sameFiles_run never announced
    rw [run_writeFile] at finish
    cases written : middle.files.write file [] with
    | error fault =>
      rw [written] at finish
      cases finish
      exact Or.inl ⟨_, rfl, same⟩
    | ok files =>
      rw [written] at finish
      cases finish
      exact Or.inr ⟨middle, rfl, same, written⟩

/-- Nothing fails once a file is open: it can be filled. -/
theorem exists_run_writeFile {world middle : World} {file : Path} (content : List UInt8)
    (opened : world.run (Routine.openFile file) = (.ok (), middle)) :
    ∃ last, middle.run (Routine.writeFile file content) = (.ok (), last) ∧
      world.files.IsWritten file content last.files := by
  obtain ⟨_, failed, _⟩ | ⟨before, _, same, emptied⟩ := run_openFile_eq opened
  · cases failed
  · obtain ⟨files, written, isWritten⟩ := FileTree.exists_write_of_write emptied
    refine ⟨{ middle with files }, ?_, same.isWritten isWritten⟩
    rw [run_writeFile, written]

theorem run_readInput {world : World} {text : String}
    (held : world.input = Text.Utf8.encode text) :
    world.run Routine.readInput = (.ok text, { world with input := [] }) := by
  unfold Routine.readInput
  rw [run_bind, run_perform]
  show World.run _ (Routine.decodeText world.input) = _
  unfold Routine.decodeText
  rw [held, Text.Utf8.decode_encode]
  rfl

end World

/-! ### Values -/

namespace Command

namespace Routine

variable {α β : Type}

/-- The routine comes to the value in some world. -/
def Yields (routine : Routine α) (value : α) : Prop :=
  ∃ world last : World, world.run routine = (.ok value, last)

theorem Yields.exists_of_bind {first : Routine α} {next : α → Routine β} {value : β}
    (yields : Yields (first >>= next) value) :
    ∃ middle, first.Yields middle ∧ (next middle).Yields value := by
  obtain ⟨world, last, run⟩ := yields
  obtain ⟨failure, -, failed⟩ | ⟨middle, world', start, finish⟩ := World.run_bind_eq run
  · cases failed
  · exact ⟨middle, ⟨_, _, start⟩, _, _, finish⟩

theorem Yields.eq_of_pure {first value : α} (yields : Yields (pure first) value) :
    value = first := by
  obtain ⟨world, last, run⟩ := yields
  cases run
  rfl

theorem Yields.result_eq {report : Report α} {value : α} (yields : (ofReport report).Yields value) :
    report.result = .ok value := by
  obtain ⟨_, _, world, last, run⟩ := yields.exists_of_bind
  cases result : report.result with
  | error error =>
    rw [result] at run
    cases run
  | ok other =>
    rw [result] at run
    cases run
    rfl

end Routine

open Routine

theorem eq_ok_of_mapError {ε δ : Type} {outcome : Except ε α} {convert : ε → δ} {value : α}
    (succeeded : outcome.mapError convert = .ok value) : outcome = .ok value := by
  cases outcome with
  | error error => cases succeeded
  | ok other =>
    cases succeeded
    rfl

/-- All modules of a netlist that is read lie in the domain that was asked for. -/
theorem isUniform_of_readDesign {domain : Domain} {top : Option String} {sources : List Source}
    {design : Design} (read : Source.readDesign domain top sources = .ok design) :
    design.IsUniform ∧ design.domain = domain := by
  unfold Source.readDesign at read
  split at read
  · obtain ⟨wellFormed, same⟩ := Yosys.isWellFormed_of_readText (eq_ok_of_mapError read)
    exact ⟨wellFormed.uniform, same⟩
  · dsimp only at read
    split at read
    · obtain ⟨wellFormed, _, same⟩ := Blif.isWellFormed_of_readTexts (eq_ok_of_mapError read)
      exact ⟨wellFormed.uniform, same⟩
    · cases read

theorem isUniform_of_loadDesign {domain : Domain} {top : Option String} {paths : List Path}
    {design : Design} (loaded : (loadDesign domain top paths).Yields design) :
    design.IsUniform ∧ design.domain = domain := by
  obtain ⟨files, _, loaded⟩ := loaded.exists_of_bind
  obtain ⟨sources, _, loaded⟩ := loaded.exists_of_bind
  split at loaded
  · obtain ⟨world, last, run⟩ := loaded
    cases run
  · rename_i other read
    obtain ⟨_, _, loaded⟩ := loaded.exists_of_bind
    cases loaded.eq_of_pure
    exact isUniform_of_readDesign read

theorem domain_of_simplify {options : Options} {circuit last : Circuit}
    (simplified : (simplify options circuit).result = .ok last) :
    last.domain = circuit.domain := by
  revert simplified
  unfold simplify
  cases options.eliminateDead <;> cases options.compact <;>
  · rintro ⟨⟩
    rfl

/-- No step takes a circuit to another domain. -/
theorem domain_of_flattenLinted {options : Options} {design : Design} {circuit : Circuit}
    (uniform : design.IsUniform)
    (flattened : (flattenLinted options design).result = .ok circuit) :
    circuit.domain = design.domain := by
  obtain ⟨_, _, linted⟩ := Report.result_bind_eq_ok_iff.1 flattened
  obtain ⟨_, _, clean⟩ := Report.result_bind_eq_ok_iff.1 linted
  obtain ⟨flat, isFlat, scheduled⟩ := Report.result_bind_eq_ok_iff.1 clean
  obtain ⟨ordered, isOrdered, simplified⟩ := Report.result_bind_eq_ok_iff.1 scheduled
  obtain ⟨gates, rfl, _⟩ := Circuit.schedule_eq_ok isOrdered
  have flatDomain : flat.domain = design.domain := uniform.domain_of_flatten isFlat
  exact (domain_of_simplify simplified).trans flatDomain

/-- The circuit that is loaded is Boolean, so that it can be written. -/
theorem domain_of_loadCircuit {options : Options} {circuit : Circuit}
    (loaded : (loadCircuit options).Yields circuit) : circuit.domain = .boolean := by
  obtain ⟨design, read, flattened⟩ := loaded.exists_of_bind
  obtain ⟨uniform, domain⟩ := isUniform_of_loadDesign read
  exact (domain_of_flattenLinted uniform flattened.result_eq).trans domain

end Command

/-! ### Tools with an output -/

namespace Command

/-- The file that the result of a run goes to, if it goes to a file. -/
def Options.outputFile? (options : Options) : Option Path :=
  match Tool.ofName? options.tool with
  | some .toBristol | some .compose => if options.output.isDash then none else some options.output
  | _ => none

namespace Routine

/-- What a routine does to files if it writes none but its output, and only if it succeeds. -/
structure Delivers (output : Option Path) (routine : Routine Unit) : Prop where
  /-- A run that fails changes no file. -/
  failed : ∀ {world last : World} {failure : Failure},
    world.run routine = (.error failure, last) → world.files.SameFiles last.files
  /-- A run that succeeds changes none but the output, if there is one. -/
  succeeded : ∀ {world last : World}, world.run routine = (.ok (), last) →
    match output with
    | none => world.files.SameFiles last.files
    | some path => ∃ content, world.files.IsWritten path content last.files

variable {α : Type} {output : Option Path}

theorem NeverWrites.delivers {routine : Routine Unit} (never : NeverWrites routine) :
    Delivers none routine where
  failed run := World.sameFiles_run never run
  succeeded run := World.sameFiles_run never run

/-- What a run does before it opens its output does not matter. -/
theorem Delivers.bind {first : Routine α} {next : α → Routine Unit} (never : NeverWrites first)
    (rest : ∀ value, first.Yields value → Delivers output (next value)) :
    Delivers output (first >>= next) where
  failed run := by
    obtain ⟨failure, start, -⟩ | ⟨value, middle, start, finish⟩ := World.run_bind_eq run
    · exact World.sameFiles_run never start
    · have delivers := rest value ⟨_, _, start⟩
      exact (World.sameFiles_run never start).trans (delivers.failed finish)
  succeeded run := by
    obtain ⟨failure, -, failed⟩ | ⟨value, middle, start, finish⟩ := World.run_bind_eq run
    · cases failed
    · have same := World.sameFiles_run never start
      have delivered := (rest value ⟨_, _, start⟩).succeeded finish
      cases output with
      | none => exact same.trans delivered
      | some path =>
        obtain ⟨content, written⟩ := delivered
        exact ⟨content, same.isWritten written⟩

/-- A file that is opened and then filled. -/
theorem delivers_file (file : Path) (content : List UInt8) :
    Delivers (some file) (do
      openFile file
      writeFile file content) where
  failed run := by
    obtain ⟨failure, opened, -⟩ | ⟨_, middle, opened, filled⟩ := World.run_bind_eq run
    · obtain ⟨_, -, same⟩ | ⟨_, succeeded, -⟩ := World.run_openFile_eq opened
      · exact same
      · cases succeeded
    · obtain ⟨last, succeeded, -⟩ := World.exists_run_writeFile content opened
      cases succeeded.symm.trans filled
  succeeded run := by
    obtain ⟨failure, -, failed⟩ | ⟨_, middle, opened, filled⟩ := World.run_bind_eq run
    · cases failed
    · obtain ⟨last, succeeded, written⟩ := World.exists_run_writeFile content opened
      cases succeeded.symm.trans filled
      exact ⟨content, written⟩

/-- An output is a file, unless it is a dash. -/
theorem delivers_output (path : Path) (content : List UInt8) :
    Delivers (if path.isDash then none else some path) (do
      openOutput path
      fillOutput path content) := by
  unfold openOutput fillOutput
  split
  · exact NeverWrites.delivers (.bind (.pure ()) fun _ => .perform id)
  · exact delivers_file path content

end Routine

open Routine

theorem delivers_runToBristol (options : Options) :
    Delivers (if options.output.isDash then none else some options.output)
      (runToBristol options) := by
  refine .bind (neverWrites_loadCircuit options) fun circuit loaded => ?_
  rw [Circuit.toBristol, if_pos (domain_of_loadCircuit loaded)]
  exact delivers_output _ _

theorem delivers_runCompose (options : Options) :
    Delivers (if options.output.isDash then none else some options.output)
      (runCompose options) :=
  .bind (neverWrites_required _ _) fun _ _ => .bind (neverWrites_required _ _) fun _ _ =>
    .bind (neverWrites_loadDesign _ _ _) fun _ _ => .bind (neverWrites_ofReport _) fun _ _ =>
      .bind (neverWrites_loadDesign _ _ _) fun _ _ => .bind (neverWrites_ofReport _) fun _ _ =>
        .bind (neverWrites_readText _) fun _ _ => .bind (neverWrites_ofReport _) fun _ _ =>
          .bind (neverWrites_ofReport _) fun _ _ => delivers_output _ _

/-- A run that fails changes no file, even if directories were created for its output. One that
succeeds changes none either, unless its result goes to a file: then it is the only one. -/
theorem delivers_runOptions (options : Options)
    (noExample : Tool.ofName? options.tool ≠ some .example) :
    Delivers options.outputFile? (runOptions options) := by
  unfold Options.outputFile? runOptions
  cases named : Tool.ofName? options.tool with
  | none => exact NeverWrites.delivers (.bind (neverWrites_print _) fun _ => .throw _)
  | some tool =>
    cases tool with
    | «example» => exact absurd named noExample
    | lint => exact (neverWrites_runLint options).delivers
    | toBristol => exact delivers_runToBristol options
    | toJson => exact (neverWrites_runToJson options).delivers
    | toYaml => exact (neverWrites_runToYaml options).delivers
    | metrics => exact (neverWrites_runMetrics options).delivers
    | compose => exact delivers_runCompose options
    | evaluate => exact (neverWrites_runEvaluate options).delivers
    | listChecks => exact (neverWrites_print _).delivers
    | help => exact (neverWrites_print _).delivers

/-- A netlist whose only output is true. -/
def truthText : String :=
  ".model top\n.outputs y\n.names $true y\n1 1\n.end\n"

/-- The design that the text stands for. -/
def truthDesign : Design :=
  ⟨⟨.boolean, ["y"], by decide, by decide⟩,
    [⟨"top", .boolean, [], [2], [⟨.buf, [1], 2⟩], []⟩], some "top", true⟩

/-- The circuit of the design. -/
def truthCircuit : Circuit :=
  ⟨"top", .boolean, [], [2], [⟨.buf, [1], 2⟩]⟩

/-- An empty directory, and the netlist on the standard input. -/
def truthWorld : World :=
  .ofFiles .empty (Text.Utf8.encode truthText)

/-- Options that ask for the circuit of the netlist on the standard input. -/
def circuitOptions (output : Path) : Options where
  tool := "to-bristol"
  paths := [⟨"-"⟩]
  output := output
  top := none
  witness := none
  constants := false
  compact := false
  eliminateDead := false
  arithmetic := none
  connection := none
  booleanTop := none
  arithmeticTop := none

/-- The world in which the circuit is known and nothing is written yet. -/
def readWorld : World :=
  { truthWorld with input := [], log := [Source.event truthDesign, .flattened "top" 1 3] }

theorem run_loadCircuit (output : Path) :
    truthWorld.run (loadCircuit (circuitOptions output)) = (.ok truthCircuit, readWorld) := by
  have listed : truthWorld.run (listFiles [⟨"-"⟩]) = (.ok [⟨"-"⟩], truthWorld) := rfl
  have read : truthWorld.run (readSources [⟨"-"⟩]) =
      (.ok [⟨.blif, truthText⟩], { truthWorld with input := [] }) := by
    show truthWorld.run (do return [Source.ofText (← readInput)]) = _
    rw [World.run_bind, World.run_readInput rfl]
    rfl
  have design : Source.readDesign .boolean none [⟨.blif, truthText⟩] = .ok truthDesign := by
    cbv
  have circuit : flattenLinted (circuitOptions output) truthDesign =
      ⟨[.flattened "top" 1 3], .ok truthCircuit⟩ := by
    cbv
  have loaded : truthWorld.run (loadDesign .boolean none [⟨"-"⟩]) =
      (.ok truthDesign,
        { truthWorld with input := [], log := [Source.event truthDesign] }) := by
    unfold loadDesign
    rw [World.run_bind, listed]
    dsimp only
    rw [World.run_bind, read]
    dsimp only
    rw [design]
    rfl
  have loadedHere : truthWorld.run
      (loadDesign .boolean (circuitOptions output).top (circuitOptions output).paths) = _ :=
    loaded
  unfold loadCircuit
  rw [World.run_bind, loadedHere]
  dsimp only
  rw [circuit]
  rfl

/-- The circuit as it is written. -/
def truthBristol : String :=
  "1 3\n0\n0\n0 1 0 INPUT\n0 1 1 INPUT\n1 1 1 2 BUF\n1 0 2 OUTPUT\n"

theorem ofName?_circuitOptions (output : Path) :
    Tool.ofName? (circuitOptions output).tool = some .toBristol :=
  rfl

theorem run_circuitOptions (output : Path) :
    truthWorld.run (runOptions (circuitOptions output)) =
      readWorld.run (do
        openOutput output
        fillOutput output (Text.Utf8.encode truthBristol)) := by
  have written : truthCircuit.toBristol = .ok truthBristol := by cbv
  unfold runOptions
  rw [ofName?_circuitOptions]
  dsimp only [runTool]
  unfold runToBristol
  rw [World.run_bind, run_loadCircuit]
  dsimp only
  rw [written]
  rfl

/-- The run that fails has created the directory above its output, but no file. -/
theorem delivers_runOptions_truth :
    (∀ output, Tool.ofName? (circuitOptions output).tool ≠ some .example) ∧
      (∃ last, truthWorld.run (runOptions (circuitOptions ⟨"new/circuit.txt"⟩)) = (.ok (), last) ∧
        ∃ content, truthWorld.files.IsWritten ⟨"new/circuit.txt"⟩ content last.files) ∧
      ∃ last, truthWorld.run (runOptions (circuitOptions ⟨"new/circuit/"⟩)) =
          (.error (.file .isDirectory), last) ∧
        truthWorld.files.SameFiles last.files ∧ last.files.isDirectory ⟨"new"⟩ = true := by
  have noExample (output : Path) : Tool.ofName? (circuitOptions output).tool ≠ some .example := by
    rw [ofName?_circuitOptions]
    exact nofun
  have delivers (output : Path) := delivers_runOptions (circuitOptions output) (noExample output)
  have succeeded : truthWorld.run (runOptions (circuitOptions ⟨"new/circuit.txt"⟩)) =
      (.ok (), _) :=
    (run_circuitOptions _).trans rfl
  have failed : truthWorld.run (runOptions (circuitOptions ⟨"new/circuit/"⟩)) =
      (.error (.file .isDirectory), _) :=
    (run_circuitOptions _).trans rfl
  exact ⟨noExample, ⟨_, succeeded, (delivers _).succeeded succeeded⟩,
    _, failed, (delivers _).failed failed, rfl⟩

end Command

end Netlist
