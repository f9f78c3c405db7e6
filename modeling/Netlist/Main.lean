import Netlist.Command.Tools

/-!
# The command line

Runs a tool on the files and streams of the system.
-/

namespace Netlist.Command

/-- The fault that a system error stands for. -/
def faultOf (error : IO.Error) : FileFault :=
  match error with
  | .noFileOrDirectory .. => .notFound
  | .alreadyExists .. => .alreadyExists
  | .inappropriateType _ code text =>
    if code = 20 then .notDirectory else if code = 21 then .isDirectory else .other text
  | .invalidArgument _ code text => if code = 36 then .nameTooLong else .other text
  | _ => .other (toString error)

/-- The reply of the system to something that may fail. -/
def attempt {α : Type} (action : IO α) : IO (Except FileFault α) := do
  try
    return .ok (← action)
  catch error =>
    return .error (faultOf error)

/-- The bytes of a file of the system. -/
def fileBytes (file : String) : IO (List UInt8) := do
  let handle ← IO.FS.Handle.mk file .read
  return (← handle.readBinToEnd).data.toList

/-- The names in a directory of the system. It is opened first, since that tells
precisely why a path does not lead to one. -/
def directoryNames (directory : String) : IO (List String) := do
  discard (IO.FS.Handle.mk directory .read)
  let entries ← (← IO.FS.realPath directory).readDir
  return entries.toList.map fun entry => entry.fileName

/-- Create a directory of the system, unless it is there already. -/
def ensureDirectory (path : Path) : IO (Except FileFault Unit) := do
  if path.text = "" then return .ok ()
  match ← attempt (IO.FS.createDir path.text) with
  | .ok () => return .ok ()
  | .error fault =>
    match ← attempt do (← IO.FS.realPath path.text).isDir with
    | .ok true => return .ok ()
    | _ => return .error fault

/-- Create a directory of the system, and those above it, which come behind it in
the list, as far as it cannot be created without them. -/
def ensureDirectories : List Path → IO (Except FileFault Unit)
  | [] => return .ok ()
  | path :: above => do
    match ← ensureDirectory path with
    | .error .notFound =>
      match ← ensureDirectories above with
      | .ok () => ensureDirectory path
      | .error fault => return .error fault
    | reply => return reply

/-- The reply of the system to an action. -/
def systemReply : (action : Action) → IO action.Reply
  | .list directory => attempt (directoryNames directory.text)
  | .read file => attempt (fileBytes file.text)
  | .readInput => do
    let bytes ← (← IO.getStdin).readBinToEnd
    return bytes.data.toList
  | .makeDirectories directory => ensureDirectories (directory :: directory.above)
  | .write file content => attempt (IO.FS.writeBinFile file.text content.toByteArray)
  | .print content => do
    let output ← IO.getStdout
    output.write content.toByteArray
    output.flush
  | .note text => IO.eprint text
  | .log event => IO.eprintln event.line

/-- The exit code of a run, whose failure is told on the standard error output. -/
def exitCode (outcome : Except Failure Unit) : IO UInt32 := do
  match outcome with
  | .ok () => return 0
  | .error failure =>
    IO.eprintln s!"Error: {failure.message}"
    return 1

end Netlist.Command

open Netlist.Command

/-- Run the tool that the arguments name. -/
def main (arguments : List String) : IO UInt32 := do
  match Options.ofArguments arguments with
  | none =>
    IO.eprint helpText
    return 2
  | some options => exitCode (← (runOptions options).run.run systemReply)
