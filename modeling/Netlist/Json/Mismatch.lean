import Netlist.Json.Value
import Netlist.Text.Quoted

/-!
# Values of another shape

What is wrong with a JSON value that was expected to have a certain shape, and
the words for it.
-/

namespace Netlist.Json

/-- The kind of value that was expected. -/
inductive Expectation where
  | string
  | sequence
  /-- An object with known fields, or the array of its fields. -/
  | record (name : String)

/-- The words for an expectation. -/
def Expectation.text : Expectation → String
  | string => "a string"
  | sequence => "a sequence"
  | record name => s!"struct {name}"

/-- How a value differs from what was expected. -/
inductive Mismatch where
  | unexpected (found : Value) (expected : Expectation)
  | missingField (name : String)
  /-- An array has too few elements for the fields of a record. -/
  | tooShort (found : Nat) (name : String) (fields : Nat)
  /-- An array has more elements than a record has fields. -/
  | tooLong (found : Nat)
  /-- The value is neither a number of a net nor a string. -/
  | noBit

/-- The words for a value that was not expected. -/
def Value.summary : Value → String
  | .null => "null"
  | .bool true => "boolean \x60true\x60"
  | .bool false => "boolean \x60false\x60"
  | .number (.natural value) => s!"integer \x60{value}\x60"
  | .number (.negated value) => s!"integer \x60-{value}\x60"
  | .number (.rounded negative magnitude) =>
    s!"floating point \x60{Decimal.shortest negative magnitude}\x60"
  | .string value => s!"string {Text.quoted value}"
  | .array _ => "sequence"
  | .object _ => "map"

/-- The words for a mismatch. -/
def Mismatch.message : Mismatch → String
  | unexpected found expected => s!"invalid type: {found.summary}, expected {expected.text}"
  | missingField name => s!"missing field \x60{name}\x60"
  | tooShort found name fields =>
    s!"invalid length {found}, expected struct {name} with {fields} elements"
  | tooLong found => s!"invalid length {found}, expected fewer elements in array"
  | noBit => "data did not match any variant of untagged enum Bit"

end Netlist.Json
