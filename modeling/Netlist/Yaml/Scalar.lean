/-!
# YAML scalars

A text is written bare where it cannot be taken for anything else, and
otherwise in quotation marks.
-/

namespace Netlist.Yaml

/-- Split off a sign in front of a text. -/
def dropSign : List Char → List Char
  | '+' :: text | '-' :: text => text
  | text => text

/-- An exponent that is missing or has at least one digit. -/
def isExponent : List Char → Bool
  | [] => true
  | mark :: text =>
    let digits := dropSign text
    (mark = 'e' || mark = 'E') && !digits.isEmpty && digits.all Char.isDigit

/-- A decimal number without its sign: digits on at least one side of an
optional point, and an optional exponent. -/
def isUnsignedNumber (text : List Char) : Bool :=
  let (whole, rest) := text.span Char.isDigit
  match rest with
  | '.' :: behind =>
    let (fraction, left) := behind.span Char.isDigit
    !(whole.isEmpty && fraction.isEmpty) && isExponent left
  | _ => !whole.isEmpty && isExponent rest

/-- The words for numbers that are not finite, in lower case. -/
def unboundedWords : List String := ["inf", "infinity", "nan"]

/-- The text can be taken for a number. -/
def isNumber (text : List Char) : Bool :=
  let magnitude := dropSign text
  isUnsignedNumber magnitude ||
    unboundedWords.contains (String.ofList (magnitude.map Char.toLower))

/-- The words that can be taken for something else than text. -/
def reservedWords : List String :=
  ["yes", "Yes", "YES", "no", "No", "NO", "on", "On", "ON", "off", "Off", "OFF",
   "true", "True", "TRUE", "false", "False", "FALSE", "null", "Null", "NULL", "~"]

/-- The characters that mean something else at the start of a scalar. -/
def startIndicators : List Char :=
  ['&', '*', '?', '|', '-', '<', '>', '=', '!', '%', '@', '.']

/-- The characters that mean something else anywhere in a scalar. -/
def indicators : List Char :=
  [':', '\x7b', '\x7d', '[', ']', ',', '#', '\x60', '"', '\x27', '\\']

/-- The control characters that a bare scalar does not hold: all but 07, 08,
0b, 0c and 1b. -/
def isBarred (character : Char) : Bool :=
  character < ' ' && !(['\x07', '\x08', '\x0b', '\x0c', '\x1b'].contains character)

/-- The text begins like a hexadecimal number. -/
def startsHexadecimal : List Char → Bool
  | '0' :: 'x' :: _ => true
  | _ => false

/-- The text must be written in quotation marks. -/
def needsQuotes (text : List Char) : Bool :=
  text.isEmpty || text.head? = some ' ' || text.getLast? = some ' ' ||
    text.head?.any startIndicators.contains || startsHexadecimal text ||
    text.any (fun character => indicators.contains character || isBarred character) ||
    reservedWords.contains (String.ofList text) || isNumber text

/-- The form of a character within quotation marks. -/
def escaped (character : Char) : List Char :=
  if character = '"' then ['\\', '"']
  else if character = '\\' then ['\\', '\\']
  else if character = '\x08' then ['\\', 'b']
  else if character = '\t' then ['\\', 't']
  else if character = '\n' then ['\\', 'n']
  else if character = '\x0c' then ['\\', 'f']
  else if character = '\r' then ['\\', 'r']
  else if character < ' ' || character = '\x7f' then
    let digits := Nat.toDigits 16 character.toNat
    '\\' :: 'u' :: List.replicate (4 - digits.length) '0' ++ digits
  else [character]

/-- A text as a scalar. -/
def scalar (text : String) : List Char :=
  if needsQuotes text.toList then '"' :: text.toList.flatMap escaped ++ ['"'] else text.toList

end Netlist.Yaml
