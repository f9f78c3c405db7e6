/-!
# Paths

A path is a text in which slashes separate the names of directories and of a
file. Paths are compared by their components, so that repeated and final slashes
and inner dots make no difference.
-/

namespace Netlist

/-- The text of a path, as it was given. -/
structure Path where
  text : String
  deriving DecidableEq, Repr, Inhabited

namespace Path

/-- A part of a path. A dot counts only at the start of a relative path. -/
inductive Component where
  | root
  | current
  | parent
  | name (text : String)
  deriving DecidableEq, Repr

/-- The place of a component among components of other kinds. -/
def Component.rank : Component → Nat
  | root => 0
  | current => 1
  | parent => 2
  | name _ => 3

/-- The text of a component, without slashes. -/
def Component.text : Component → String
  | root => ""
  | current => "."
  | parent => ".."
  | name text => text

/-- One component comes before another one, or they are the same. -/
def Component.le (left right : Component) : Bool :=
  left.rank < right.rank ||
    (left.rank = right.rank && !decide (right.text < left.text))

/-- The texts between the slashes of a path. -/
def segments (path : Path) : List String :=
  (path.text.toList.splitOn '/').map String.ofList

/-- The texts between the slashes of a path, without slashes at its end. -/
def trimmedSegments (path : Path) : List String :=
  (path.segments.reverse.dropWhile (· = "")).reverse

/-- The path ends with a slash. -/
def hasFinalSlash (path : Path) : Bool :=
  path.text.toList.getLast? = some '/'

/-- The path begins with a slash. -/
def isAbsolute (path : Path) : Bool :=
  path.text.toList.head? = some '/'

/-- The segment of a path leads to where it starts from. -/
def staysAt (segment : String) : Bool :=
  segment = "" || segment = "."

/-- The components of segments that are not the first. -/
def innerComponents (segments : List String) : List Component :=
  segments.filterMap fun segment =>
    if staysAt segment then none
    else if segment = ".." then some .parent
    else some (.name segment)

/-- The components of a path. -/
def components (path : Path) : List Component :=
  if path.isAbsolute then .root :: innerComponents path.segments
  else match path.segments with
    | "." :: rest => .current :: innerComponents rest
    | segments => innerComponents segments

/-- The components come in order, shorter lists first. -/
def componentsLe : List Component → List Component → Bool
  | [], _ => true
  | _ :: _, [] => false
  | left :: lefts, right :: rights =>
    if left = right then componentsLe lefts rights else left.le right

/-- The order of paths by their components. -/
def le (left right : Path) : Bool :=
  componentsLe left.components right.components

/-- The path that stands for standard input or output. -/
def isDash (path : Path) : Bool :=
  path.components = [.name "-"]

/-- The name of the file or directory that a path leads to, if it ends with one. -/
def fileName? (path : Path) : Option String :=
  match path.components.getLast? with
  | some (.name text) => some text
  | _ => none

/-- What follows the last dot of a file name. A dot at the very start does not
count. -/
def extension? (path : Path) : Option String :=
  match path.fileName? with
  | none => none
  | some name =>
    match name.toList.reverse.span (· ≠ '.') with
    | (ending, _ :: _ :: _) => some (String.ofList ending.reverse)
    | _ => none

/-- The path of something within a directory. -/
def join (directory : Path) (name : String) : Path :=
  if directory.text = "" ∨ directory.hasFinalSlash then ⟨directory.text ++ name⟩
  else ⟨directory.text ++ "/" ++ name⟩

/-- The path whose segments are a first one and others, which come last one first. -/
def ofSegments (first : String) (others : List String) : Path :=
  if first = "" ∧ others = [] then ⟨"/"⟩
  else ⟨String.intercalate "/" (first :: others.reverse)⟩

/-- The segments in front of each one that leads on, the nearest first. Segments
come last one first, and none that stays is left at the end of a path. -/
def innerAbove : List String → List (List String)
  | [] => []
  | segment :: rest =>
    if staysAt segment then innerAbove rest
    else rest.dropWhile staysAt :: innerAbove rest

/-- The paths above a path, the nearest first, up to the root or the empty path.
Each is the beginning of its text. -/
def above (path : Path) : List Path :=
  match path.segments with
  | [] => []
  | first :: others =>
    (innerAbove others.reverse).map (ofSegments first) ++ if first = "" then [] else [⟨""⟩]

/-- The path without its last component, unless it is the root or empty. -/
def parent? (path : Path) : Option Path :=
  path.above.head?

end Path

end Netlist
