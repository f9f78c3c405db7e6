import Netlist.Text.Printable

/-!
# Quoted text

The form in which messages show a text or a character they found: in quotation
marks, with the quotation mark, the backslash and hidden characters escaped.
-/

namespace Netlist.Text

/-- The digits of a number to base sixteen, in lower case. -/
def hexDigits (value : Nat) : List Char :=
  Nat.toDigits 16 value

/-- The escaped form of one character between `mark`s. -/
def escaped (mark character : Char) : List Char :=
  if character = '\x00' then ['\\', '0']
  else if character = '\t' then ['\\', 't']
  else if character = '\n' then ['\\', 'n']
  else if character = '\r' then ['\\', 'r']
  else if character = '\\' then ['\\', '\\']
  else if character = mark then ['\\', mark]
  else if isPrintable character then [character]
  else '\\' :: 'u' :: '\x7b' :: hexDigits character.toNat ++ ['\x7d']

/-- A text in double quotation marks. -/
def quoted (text : String) : String :=
  String.ofList ('"' :: text.toList.flatMap (escaped '"') ++ ['"'])

/-- A character in single quotation marks. -/
def quotedChar (character : Char) : String :=
  String.ofList ('\x27' :: escaped '\x27' character ++ ['\x27'])

end Netlist.Text
