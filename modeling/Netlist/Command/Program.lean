import Netlist.Event
import Netlist.Failure
import Netlist.Path

/-!
# Programs

A program is a tree of actions on files and on standard streams: what comes next
depends on the reply to an action. The same program can be run on the files of
the system or on a directory that is only described.
-/

namespace Netlist.Command

/-- Something that a program does to the world. -/
inductive Action where
  /-- List the names in a directory. -/
  | list (directory : Path)
  | read (file : Path)
  | readInput
  /-- Create a directory and those above it, as far as they are missing. -/
  | makeDirectories (directory : Path)
  /-- Write a file, in place of any that was there. -/
  | write (file : Path) (content : List UInt8)
  /-- Write to the standard output. -/
  | print (content : List UInt8)
  /-- Write to the standard error output. -/
  | note (text : String)
  | log (event : Event)

/-- What an action yields. -/
@[reducible]
def Action.Reply : Action → Type
  | list _ => Except FileFault (List String)
  | read _ => Except FileFault (List UInt8)
  | readInput => List UInt8
  | makeDirectories _ => Except FileFault Unit
  | write _ _ => Except FileFault Unit
  | print _ => Unit
  | note _ => Unit
  | log _ => Unit

/-- Actions and what to do with their replies, up to a value. -/
inductive Program (α : Type) where
  | done (value : α)
  | perform (action : Action) (next : action.Reply → Program α)

namespace Program

/-- Go on with the value of a program. -/
def bind {α β : Type} (program : Program α) (next : α → Program β) : Program β :=
  match program with
  | done value => next value
  | perform action rest => perform action fun reply => (rest reply).bind next

instance : Monad Program where
  pure := done
  bind := bind

/-- Run a program where actions have replies. -/
def run {m : Type → Type} [Monad m] {α : Type} (reply : (action : Action) → m action.Reply) :
    Program α → m α
  | done value => pure value
  | perform action next => do
    let answer ← reply action
    run reply (next answer)

@[simp]
theorem bind_done {α β : Type} (value : α) (next : α → Program β) :
    (done value).bind next = next value :=
  rfl

theorem bind_assoc {α β γ : Type} (program : Program α) (first : α → Program β)
    (second : β → Program γ) :
    (program.bind first).bind second = program.bind fun value => (first value).bind second := by
  induction program with
  | done => rfl
  | perform action next ih =>
    simp only [bind, perform.injEq, heq_eq_eq, true_and]
    exact funext ih

theorem bind_pure {α : Type} (program : Program α) : program.bind done = program := by
  induction program with
  | done => rfl
  | perform action next ih =>
    simp only [bind, perform.injEq, heq_eq_eq, true_and]
    exact funext ih

instance : LawfulMonad Program :=
  LawfulMonad.mk' Program bind_pure bind_done bind_assoc

/-- A program that goes on with the value of another one runs behind it. -/
theorem run_bind {m : Type → Type} [Monad m] [LawfulMonad m] {α β : Type}
    (reply : (action : Action) → m action.Reply) (program : Program α) (next : α → Program β) :
    run reply (program.bind next) = run reply program >>= fun value => run reply (next value) := by
  induction program with
  | done value => simp only [bind, run, pure_bind]
  | perform action rest ih => simp only [bind, run, LawfulMonad.bind_assoc, ih]

end Program

/-- A program that may fail. -/
abbrev Routine := ExceptT Failure Program

namespace Routine

/-- Perform an action. -/
def perform (action : Action) : Routine action.Reply :=
  ExceptT.lift (.perform action .done)

/-- Fail. -/
def fail {α : Type} (failure : Failure) : Routine α :=
  throw failure

/-- Refuse a request. -/
def refuse {α : Type} (complaint : Complaint) : Routine α :=
  throw (.request complaint)

/-- Go on with a result that may be a file fault. -/
def ofFile {α : Type} : Except FileFault α → Routine α
  | .ok value => pure value
  | .error fault => throw (.file fault)

/-- Go on with a result that may be an error. -/
def ofResult {α : Type} : Except Error α → Routine α
  | .ok value => pure value
  | .error error => throw (.netlist error)

/-- Log events. -/
def logAll : List Event → Routine Unit
  | [] => pure ()
  | event :: rest => do
    perform (.log event)
    logAll rest

/-- Log the events of a report and go on with its result. -/
def ofReport {α : Type} (report : Report α) : Routine α := do
  logAll report.events
  ofResult report.result

/-- List the names in a directory. -/
def list (directory : Path) : Routine (List String) := do
  ofFile (← perform (.list directory))

/-- The bytes of a file. -/
def readBytes (file : Path) : Routine (List UInt8) := do
  ofFile (← perform (.read file))

/-- The text that some bytes hold. -/
def decodeText (bytes : List UInt8) : Routine String :=
  match Text.Utf8.decode bytes with
  | .ok text => pure text
  | .error _ => throw (.file .notText)

/-- The text of a file. -/
def readText (file : Path) : Routine String := do
  decodeText (← readBytes file)

/-- The text of the standard input. -/
def readInput : Routine String := do
  decodeText (← perform .readInput)

/-- Write text to the standard output. -/
def print (text : String) : Routine Unit :=
  perform (.print (Text.Utf8.encode text))

/-- Write text to the standard error output. -/
def note (text : String) : Routine Unit :=
  perform (.note text)

/-- Create the directories above a file, and tell that it is written. -/
def announceFile (file : Path) : Routine Unit := do
  match file.parent? with
  | some directory => ofFile (← perform (.makeDirectories directory))
  | none => pure ()
  note s!"Writing {file.text}\n"

/-- Write a file in place of any that was there. -/
def writeFile (file : Path) (content : List UInt8) : Routine Unit := do
  ofFile (← perform (.write file content))

/-- Create a file, or empty the one that was there. -/
def openFile (file : Path) : Routine Unit := do
  announceFile file
  writeFile file []

/-- Open an output before it is known what will be written to it. A dash stands for the standard
output, which is open. -/
def openOutput (path : Path) : Routine Unit :=
  if path.isDash then pure () else openFile path

/-- Write to an output that is open. -/
def fillOutput (path : Path) (content : List UInt8) : Routine Unit :=
  if path.isDash then perform (.print content) else writeFile path content

end Routine

end Netlist.Command
