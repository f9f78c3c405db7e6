import Netlist.Path

/-!
# Options

The arguments of the command line: a tool, the paths that it works on, and
settings. A setting takes a value, which follows as the next argument, or behind
an equality sign, or, for short names, directly. Only a setting with a default may
lack its value. A double dash makes all further arguments positional. Nothing may
be given twice.
-/

namespace Netlist.Command

/-- The options that take a value. -/
inductive Setting where
  | output
  | top
  | witness
  | arithmetic
  | connection
  | booleanTop
  | arithmeticTop
  deriving DecidableEq, Repr

/-- A value stands in for the one that the setting lacks. -/
def Setting.hasDefault : Setting → Bool
  | output => true
  | _ => false

/-- The options without a value. -/
inductive Flag where
  | constants
  | compact
  | eliminateDead
  deriving DecidableEq, Repr

/-- What an option is. -/
inductive Kind where
  | setting (setting : Setting)
  | flag (flag : Flag)
  /-- A request for help, instead of a run. -/
  | help
  deriving DecidableEq, Repr

/-- The option with a long name. -/
def Kind.ofLong? : String → Option Kind
  | "output" => some (.setting .output)
  | "top" => some (.setting .top)
  | "witness" => some (.setting .witness)
  | "arithmetic" => some (.setting .arithmetic)
  | "connection" => some (.setting .connection)
  | "connection-bool-top" => some (.setting .booleanTop)
  | "connection-arith-top" => some (.setting .arithmeticTop)
  | "constants" => some (.flag .constants)
  | "compact" => some (.flag .compact)
  | "eliminate-dead" => some (.flag .eliminateDead)
  | "help" | "version" => some .help
  | _ => none

/-- The option with a short name. -/
def Kind.ofShort? : Char → Option Kind
  | 'o' => some (.setting .output)
  | 'w' => some (.setting .witness)
  | 'h' | 'V' => some .help
  | _ => none

/-- What one argument is, where options are allowed. -/
inductive Word where
  /-- All further arguments are positional. -/
  | separator
  /-- An option, with a value if one is joined to it. -/
  | option (kind : Kind) (value : Option String)
  /-- A name that no option has. -/
  | unknown
  /-- A value of a setting, or a positional argument. -/
  | plain (text : String)

/-- A value behind equality signs. -/
def valueText (characters : List Char) : String :=
  String.ofList (characters.dropWhile (· = '='))

/-- The option with a long name, and the value behind it. -/
def Word.ofLong (characters : List Char) : Word :=
  let (name, value) := (characters.dropWhile (· = '-')).span (· ≠ '=')
  match Kind.ofLong? (String.ofList name) with
  | none => unknown
  | some kind => option kind (if value.isEmpty then none else some (valueText value))

/-- The option with a short name, and the value behind it. -/
def Word.ofShort (name : Char) (value : List Char) : Word :=
  match Kind.ofShort? name with
  | none => unknown
  | some kind => option kind (if value.isEmpty then none else some (valueText value))

/-- What an argument is. A single dash is a value. -/
def Word.ofArgument (argument : String) : Word :=
  match argument.toList with
  | ['-', '-'] => separator
  | '-' :: '-' :: rest => ofLong rest
  | '-' :: name :: rest => ofShort name rest
  | _ => plain argument

/-- What was given so far. -/
structure Given where
  /-- The settings with their values. A value is missing if the arguments end
  behind the setting, or if an option or a double dash follows it. -/
  settings : List (Setting × Option String)
  flags : List Flag
  positional : List String
  /-- The setting whose value is awaited. -/
  awaiting : Option Setting

namespace Given

/-- Nothing was given yet. -/
def nothing : Given :=
  ⟨[], [], [], none⟩

/-- Give a setting, with or without a value. -/
def giveSetting (given : Given) (setting : Setting) (value : Option String) : Given :=
  { given with
    settings := given.settings ++ [(setting, value)]
    awaiting := if value.isNone then some setting else none }

/-- Give the value that is awaited by the last setting. -/
def giveValue (given : Given) (setting : Setting) (value : String) : Given :=
  { given with
    settings := given.settings.dropLast ++ [(setting, some value)]
    awaiting := none }

/-- Take one argument: none if there is no such option, or if help is asked for. -/
def take (given : Given) : Word → Option Given
  | .separator | .unknown | .option .help _ => none
  | .option (.setting setting) value => some (given.giveSetting setting value)
  | .option (.flag flag) _ =>
    some { given with flags := given.flags ++ [flag], awaiting := none }
  | .plain text =>
    match given.awaiting with
    | some setting => some (given.giveValue setting text)
    | none => some { given with positional := given.positional ++ [text] }

/-- Take all arguments. -/
def takeAll (given : Given) : List String → Option Given
  | [] => some given
  | argument :: rest =>
    match Word.ofArgument argument with
    | .separator => some { given with positional := given.positional ++ rest }
    | word => do
      let given ← given.take word
      given.takeAll rest

/-- The value of a setting. -/
def value? (given : Given) (setting : Setting) : Option String :=
  (given.settings.lookup setting).join

/-- Nothing is given twice, and no setting lacks a value that it needs. -/
def isComplete (given : Given) : Bool :=
  (given.settings.all fun (setting, value) => value.isSome || setting.hasDefault) &&
    decide (given.settings.map Prod.fst).Nodup && decide given.flags.Nodup

end Given

/-- The arguments of the command line. -/
structure Options where
  tool : String
  paths : List Path
  output : Path
  top : Option String
  witness : Option Path
  constants : Bool
  compact : Bool
  eliminateDead : Bool
  arithmetic : Option Path
  connection : Option Path
  booleanTop : Option String
  arithmeticTop : Option String

namespace Options

/-- The options that were given, with defaults for the others. -/
def ofGiven (given : Given) : Options :=
  { tool := given.positional.headD "help"
    paths := if given.positional.length ≤ 1 then [⟨"."⟩] else given.positional.tail.map Path.mk
    output := ⟨(given.value? .output).getD "-"⟩
    top := given.value? .top
    witness := (given.value? .witness).map Path.mk
    constants := given.flags.contains .constants
    compact := given.flags.contains .compact
    eliminateDead := given.flags.contains .eliminateDead
    arithmetic := (given.value? .arithmetic).map Path.mk
    connection := (given.value? .connection).map Path.mk
    booleanTop := given.value? .booleanTop
    arithmeticTop := given.value? .arithmeticTop }

/-- The options that arguments stand for: none if they are not well formed, or if
they ask for help. -/
def ofArguments (arguments : List String) : Option Options := do
  let given ← Given.nothing.takeAll arguments
  if given.isComplete then some (ofGiven given) else none

end Options

end Netlist.Command
