import Netlist.Error
import Netlist.Text.Line

/-!
# Records

Netlists in BLIF are made of records: a keyword and its arguments. A record
usually fills one line. A backslash at the end of a line continues it on the
next one, and a number sign starts a comment that reaches to the end of the
line.
-/

namespace Netlist.Blif

/-- A keyword with its arguments, and the number of the line with the first of
these words. -/
structure Record where
  line : Nat
  keyword : String
  args : List String
  deriving DecidableEq, Repr

/-- All words of a record. -/
def Record.words (record : Record) : List String :=
  record.keyword :: record.args

/-- The words of a record with single blanks between them. -/
def Record.text (record : Record) : String :=
  String.intercalate " " record.words

/-- The record that some words make up, unless there are none. -/
def Record.ofWords (line : Nat) : List (List Char) → List Record
  | [] => []
  | keyword :: args => [⟨line, String.ofList keyword, args.map String.ofList⟩]

/-- A line without its comment. -/
def dropComment (line : List Char) : List Char :=
  line.takeWhile (· ≠ '#')

/-- The words of a line, and whether the next line continues it. -/
def lineWords (line : List Char) : List (List Char) × Bool :=
  let content := Text.trimEnd (dropComment line)
  if content.getLast? = some '\\' then (Text.words content.dropLast, true)
  else (Text.words content, false)

/-- The records of numbered lines, where some words of a record, which began on
line `start`, may have been read already. -/
def recordsFrom (start : Nat) (pending : List (List Char)) : List (Nat × List Char) → List Record
  | [] => Record.ofWords start pending
  | (number, line) :: rest =>
    let start := if pending.isEmpty then number else start
    let (words, continued) := lineWords line
    let pending := pending ++ words
    if continued then recordsFrom start pending rest
    else Record.ofWords start pending ++ recordsFrom start [] rest

/-- The records of a text. -/
def records (text : String) : List Record :=
  recordsFrom 0 [] (Text.numberedLines text.toList)

/-- Split a token `pin=wire` at its first equality sign. -/
def splitBinding (line : Nat) (token : String) : Except Error (String × String) :=
  match token.toList.span (· ≠ '=') with
  | (first :: pin, _ :: second :: wire) =>
    .ok (String.ofList (first :: pin), String.ofList (second :: wire))
  | _ => .error (.parse line (.binding token))

/-! ### Buses -/

/-- The name of the bus that a wire is a bit of: what stands before the first
opening bracket, or the whole name where nothing does. -/
def busName (token : String) : String :=
  match token.toList.span (· ≠ '[') with
  | (first :: rest, _ :: _) => String.ofList (first :: rest)
  | _ => token

/-- Tokens in the order in which ports are numbered: each run of bits of one bus
is reversed. -/
def busOrder (tokens : List String) : List String :=
  (tokens.splitBy fun left right => busName left == busName right).flatMap List.reverse

end Netlist.Blif
