import Netlist.Command.Program

/-!
# Described directories

A directory that is only described: which files and directories it holds, and at
which locations below it. Programs can be run on it, which shows all that they
do to files and streams. Paths may also lead out of it, into the directories
above or to the root; there is nothing in these but what a run creates.
-/

namespace Netlist

/-- A directory that is there without being described. -/
inductive Base where
  /-- The one that many levels above the described directory, which is itself
  at level zero. -/
  | above (levels : Nat)
  /-- The root of all paths. -/
  | root
  deriving DecidableEq, Repr

/-- The names that lead from a directory to something below it. -/
structure Location where
  base : Base
  names : List String
  deriving DecidableEq, Repr

namespace Location

/-- The location from which a path starts. -/
def start (path : Path) : Location :=
  ⟨if path.isAbsolute then .root else .above 0, []⟩

/-- The location of a name in a directory. -/
def child (location : Location) (name : String) : Location :=
  { location with names := location.names ++ [name] }

/-- The location of the directory that something is in. The root is in itself. -/
def parent : Location → Location
  | ⟨.above levels, []⟩ => ⟨.above (levels + 1), []⟩
  | ⟨.root, []⟩ => ⟨.root, []⟩
  | ⟨base, names⟩ => ⟨base, names.dropLast⟩

end Location

/-- What is at a location. -/
inductive Entry where
  | file (content : List UInt8)
  | directory
  deriving DecidableEq, Repr

/-- What a directory holds. Each location occurs once, and all directories above
it are there. -/
structure FileTree where
  entries : List (Location × Entry)

namespace FileTree

/-- A directory that holds nothing. -/
def empty : FileTree :=
  ⟨[]⟩

/-- What is at a location. The directories from which names lead are always
there. -/
def entry? (tree : FileTree) (location : Location) : Option Entry :=
  if location.names = [] then some .directory else tree.entries.lookup location

/-- Entries after one of them is set. -/
def setEntry (location : Location) (entry : Entry) :
    List (Location × Entry) → List (Location × Entry)
  | [] => [(location, entry)]
  | (other, old) :: rest =>
    if other = location then (other, entry) :: rest
    else (other, old) :: setEntry location entry rest

/-- The tree after something is put at a location. -/
def set (tree : FileTree) (location : Location) (entry : Entry) : FileTree :=
  ⟨setEntry location entry tree.entries⟩

/-- The most bytes that a name may have. -/
def maxNameSize : Nat := 255

/-- The most bytes that the text of a path may have. -/
def maxPathSize : Nat := 4095

/-- Where a segment of a path leads from a location, whether or not something is
there. One can only go on from a directory. -/
def follow (tree : FileTree) (location : Location) (segment : String) :
    Except FileFault Location :=
  match tree.entry? location with
  | none => .error .notFound
  | some (.file _) => .error .notDirectory
  | some .directory =>
    if Path.staysAt segment then .ok location
    else if segment = ".." then .ok location.parent
    else if maxNameSize < segment.utf8ByteSize then .error .nameTooLong
    else .ok (location.child segment)

/-- The location to which some segments lead from where a path starts. -/
def followAll (tree : FileTree) (path : Path) (segments : List String) :
    Except FileFault Location :=
  if path.text.toList.contains '\x00' then .error .nullCharacter
  else if maxPathSize < path.text.utf8ByteSize then .error .nameTooLong
  else if path.text = "" then .error .notFound
  else segments.foldlM tree.follow (Location.start path)

/-- The location that a path leads to. One can only go on from a directory, so
there is none behind a file with a slash. -/
def resolve (tree : FileTree) (path : Path) : Except FileFault Location :=
  tree.followAll path path.segments

/-- The location at which a path asks for something new. Slashes at its end do
not matter, so that what the path leads to may be missing. -/
def destination (tree : FileTree) (path : Path) : Except FileFault Location :=
  tree.followAll path path.trimmedSegments

/-- A path leads to a directory. -/
def isDirectory (tree : FileTree) (path : Path) : Bool :=
  match tree.resolve path with
  | .ok location => tree.entry? location = some .directory
  | .error _ => false

/-- The names in a directory. -/
def list (tree : FileTree) (path : Path) : Except FileFault (List String) := do
  let location ← tree.resolve path
  match tree.entry? location with
  | none => throw .notFound
  | some (.file _) => throw .notDirectory
  | some .directory =>
    return tree.entries.filterMap fun (other, _) =>
      if other.parent = location then other.names.getLast? else none

/-- The bytes of a file. -/
def read (tree : FileTree) (path : Path) : Except FileFault (List UInt8) := do
  let location ← tree.resolve path
  match tree.entry? location with
  | none => throw .notFound
  | some .directory => throw .isDirectory
  | some (.file content) => return content

/-- The tree after a directory is created. The directory above it must be there. -/
def makeDirectory (tree : FileTree) (path : Path) : Except FileFault FileTree := do
  let location ← tree.destination path
  match tree.entry? location with
  | some _ => throw .alreadyExists
  | none => return tree.set location .directory

/-- The tree after a directory is created, unless it is there already. The empty
path stands for the described directory. -/
def ensureDirectory (tree : FileTree) (path : Path) : Except FileFault FileTree :=
  if path.text = "" then .ok tree
  else match tree.makeDirectory path with
    | .ok tree => .ok tree
    | .error fault => if tree.isDirectory path then .ok tree else .error fault

/-- The tree after a directory is there, and those above it, which come behind it in
the list, the nearest first. They are only made if it cannot be made without them. -/
def ensureDirectories (tree : FileTree) : List Path → Except FileFault FileTree
  | [] => .ok tree
  | path :: above =>
    match tree.ensureDirectory path with
    | .error .notFound => do
      let tree ← tree.ensureDirectories above
      tree.ensureDirectory path
    | result => result

/-- The tree after a directory and those above it are created, as far as they
are missing. -/
def makeDirectories (tree : FileTree) (path : Path) : Except FileFault FileTree :=
  tree.ensureDirectories (path :: path.above)

/-- The location of the directory in which a path asks for something new. -/
def container (tree : FileTree) (path : Path) : Except FileFault Location :=
  tree.followAll path (path.trimmedSegments.dropLast ++ ["."])

/-- The tree after a file is written, in place of any that was there. The
directory of the file must be there. A slash at the end of the path asks for a
directory, which cannot be written, whatever its name is. -/
def write (tree : FileTree) (path : Path) (content : List UInt8) : Except FileFault FileTree := do
  if path.hasFinalSlash then
    let _ ← tree.container path
    throw .isDirectory
  else
    let location ← tree.destination path
    match tree.entry? location with
    | some .directory => throw .isDirectory
    | _ => return tree.set location (.file content)

end FileTree

/-- The files and streams of a run. -/
structure World where
  files : FileTree
  /-- What the standard input still holds. -/
  input : List UInt8
  /-- What was written to the standard output. -/
  output : List UInt8
  /-- What was written to the standard error output. -/
  notes : String
  log : List Event

namespace World

/-- A world in which nothing has been done yet. -/
def ofFiles (files : FileTree) (input : List UInt8) : World :=
  ⟨files, input, [], "", []⟩

/-- The world after the files are changed, if that is possible. -/
def update (world : World) (change : FileTree → Except FileFault FileTree) :
    Except FileFault Unit × World :=
  match change world.files with
  | .ok files => (.ok (), { world with files })
  | .error fault => (.error fault, world)

open Command

/-- The reply to an action, and the world afterwards. -/
def reply : (action : Action) → StateM World action.Reply
  | .list directory => fun world => (world.files.list directory, world)
  | .read file => fun world => (world.files.read file, world)
  | .readInput => fun world => (world.input, { world with input := [] })
  | .makeDirectories directory => fun world => world.update (·.makeDirectories directory)
  | .write file content => fun world => world.update (·.write file content)
  | .print content => fun world => ((), { world with output := world.output ++ content })
  | .note text => fun world => ((), { world with notes := world.notes ++ text })
  | .log event => fun world => ((), { world with log := world.log ++ [event] })

/-- Run a routine in a world. -/
def run {α : Type} (world : World) (routine : Routine α) : Except Failure α × World :=
  (Program.run reply (ExceptT.run routine)).run world

end World

end Netlist
