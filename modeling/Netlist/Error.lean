import Netlist.Fault
import Netlist.Text.Utf8

/-!
# Errors

The causes for which a netlist cannot be read, resolved, flattened, composed or
evaluated. `Error.message` is the only place that puts them into words.
-/

namespace Netlist

/-- The operations that accept circuits of one domain only. -/
inductive Operation where
  | serialization
  | composition
  deriving DecidableEq, Repr

/-- The words for an operation. -/
def Operation.title : Operation → String
  | serialization => "Bristol serialization"
  | composition => "Composition"

/-- Why a file cannot be read or written. -/
inductive FileFault where
  | notFound
  | alreadyExists
  | notDirectory
  | isDirectory
  /-- A name in the path, or the path as a whole, is too long. -/
  | nameTooLong
  /-- The path contains the character that ends texts for the system. -/
  | nullCharacter
  /-- The bytes of the file are no text. -/
  | notText
  /-- Anything else, in the words of the system. -/
  | other (text : String)
  deriving DecidableEq, Repr

/-- The words for a file fault. -/
def FileFault.message : FileFault → String
  | notFound => "No such file or directory (os error 2)"
  | alreadyExists => "File exists (os error 17)"
  | notDirectory => "Not a directory (os error 20)"
  | isDirectory => "Is a directory (os error 21)"
  | nameTooLong => "File name too long (os error 36)"
  | nullCharacter => "file name contained an unexpected NUL byte"
  | notText => "stream did not contain valid UTF-8"
  | other text => text

/-- Why bytes are no composite circuit. -/
inductive CodecFault where
  /-- The bytes end too early. -/
  | truncated
  /-- No variant has the given index. -/
  | variant (index count : Nat)
  | text (fault : Text.Utf8.Fault)
  /-- The bytes cannot be read at all. -/
  | unreadable (fault : FileFault)
  deriving DecidableEq, Repr

/-- The words for a codec fault. -/
def CodecFault.message : CodecFault → String
  | truncated => "io error: failed to fill whole buffer"
  | variant index count =>
    s!"invalid value: integer \x60{index}\x60, expected variant index 0 <= i < {count}"
  | text fault => s!"string is not valid utf8: {fault.message}"
  | unreadable fault => s!"io error: {fault.message}"

/-- Why an operation on a netlist fails. -/
inductive Error where
  /-- A line of an input text is wrong. Line zero stands for the text as a whole. -/
  | parse (line : Nat) (fault : Fault)
  | unresolvedSubcircuit (callee parent : String)
  /-- An instance binds a wire that is no port of its callee. -/
  | unmatchedPairing (module callee wire : String)
  | undrivenWire (module wire : String)
  | aliasConflict (module wire : String)
  | multiplyDriven (module wire : String)
  /-- An instance binds a wire to a port that is a constant inside its callee. -/
  | constantPort (module callee wire : String)
  | unsupportedConstant (name : String)
  | bridgeWidthMismatch (low width : Nat)
  | unknownOperator (name : String)
  | unboundWire (wire : String) (side : Domain)
  | nestedConnection (callee : String)
  /-- A module instantiates itself. The path leads from the top to the instance
  that closes the circle. -/
  | recursiveInstance (module : String) (path : List String)
  | combinationalLoop (wire : Wire)
  | lintFailed (netlist : String) (errors warnings : Nat) (first : Error)
  | domainMismatch (operation : Operation) (expected : Domain)
  | unsetWire (wire : Wire)
  | witnessExhausted (wire : Wire)
  | encoding (fault : CodecFault)

/-- A chain of instantiations, from the outermost module on. -/
def chainText (modules : List String) : String :=
  String.intercalate " -> " modules

/-- The words for an error. -/
def Error.message : Error → String
  | parse line fault => s!"line {line}: {fault.message}"
  | unresolvedSubcircuit callee parent =>
    s!"No module named '{callee}' available (referenced by '{parent}')"
  | unmatchedPairing module callee wire =>
    s!"Wire '{wire}' of module '{callee}' is not an I/O port (bound by '{module}')"
  | undrivenWire module wire => s!"Module '{module}' uses wire '{wire}', but nothing drives it"
  | aliasConflict module wire =>
    s!"Wire '{wire}' of module '{module}' is declared both as input and as output"
  | multiplyDriven module wire => s!"Module '{module}' drives wire '{wire}' more than once"
  | constantPort module callee wire =>
    s!"Port of '{callee}' is tied to a constant, but '{module}' binds it to '{wire}'"
  | unsupportedConstant name => s!"Constant wire '{name}' has no meaning in the arithmetic domain"
  | bridgeWidthMismatch low width =>
    s!"A bridge must pack exactly 64 contiguous boolean wires, got {width} wires starting at {low}"
  | unknownOperator name => s!"Unknown operator '{name}'"
  | unboundWire wire side =>
    s!"Wire '{wire}' of the connection netlist is not bound to the '{side.side}' circuit"
  | nestedConnection callee =>
    s!"Subcircuit '{callee}' cannot be instantiated inside a connection netlist"
  | recursiveInstance module path =>
    s!"Module '{module}' instantiates itself (through {chainText path})"
  | combinationalLoop wire => s!"The circuit contains a combinational loop through wire {wire}"
  | lintFailed netlist errors warnings _ =>
    s!"Module '{netlist}' failed the lint with {errors} errors and {warnings} warnings"
  | domainMismatch operation expected => s!"{operation.title} expects a {expected.title} circuit"
  | unsetWire wire => s!"Wire {wire} is read before being set"
  | witnessExhausted wire => s!"The witness ran out of bits at input wire {wire}"
  | encoding fault => s!"Composite encoding failed: {fault.message}"

end Netlist
