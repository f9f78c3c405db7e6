import Netlist.Connection

/-!
# Examples

Small netlists that show what the tools take and produce.
-/

namespace Netlist.Example

/-- A single conjunction. -/
def andBlif : String :=
  "# Single AND gate.\n" ++
  ".model top\n" ++
  ".inputs a b\n" ++
  ".outputs y\n" ++
  ".gate AND A=a B=b Y=y\n" ++
  ".end\n"

/-- A top module with two instances of the same module, which is declared
behind it. -/
def hierarchyBlif : String :=
  ".model top\n" ++
  ".inputs a b c\n" ++
  ".outputs y z\n" ++
  ".subckt and_inv x=a w=b o=y\n" ++
  ".subckt and_inv x=b w=c o=z\n" ++
  ".end\n" ++
  "\n" ++
  ".model and_inv\n" ++
  ".inputs x w\n" ++
  ".outputs o\n" ++
  ".gate AND A=x B=w Y=t\n" ++
  ".gate INV A=t Y=o\n" ++
  ".end\n"

/-- Bits for the inputs of the hierarchy. -/
def hierarchyWitness : String :=
  "110\n"

/-- A module with an output that nothing drives. -/
def undrivenBlif : String :=
  ".model top\n" ++
  ".inputs a b\n" ++
  ".outputs y q\n" ++
  ".gate XOR A=a B=b Y=y\n" ++
  ".end\n"

/-- The hierarchy in JSON, with a third instance, one of whose inputs is
constant. -/
def hierarchyJson : String :=
  "\x7b\n" ++
  "  \"creator\": \"Yosys\",\n" ++
  "  \"modules\": \x7b\n" ++
  "    \"and_inv\": \x7b\n" ++
  "      \"ports\": \x7b\n" ++
  "        \"x\": \x7b \"direction\": \"input\", \"bits\": [ 2 ] \x7d,\n" ++
  "        \"w\": \x7b \"direction\": \"input\", \"bits\": [ 3 ] \x7d,\n" ++
  "        \"o\": \x7b \"direction\": \"output\", \"bits\": [ 4 ] \x7d\n" ++
  "      \x7d,\n" ++
  "      \"cells\": \x7b\n" ++
  "        \"$and\": \x7b\n" ++
  "          \"type\": \"$_AND_\",\n" ++
  "          \"port_directions\": \x7b \"A\": \"input\", \"B\": \"input\", \"Y\": \"output\" \x7d,\n" ++
  "          \"connections\": \x7b \"A\": [ 2 ], \"B\": [ 3 ], \"Y\": [ 5 ] \x7d\n" ++
  "        \x7d,\n" ++
  "        \"$not\": \x7b\n" ++
  "          \"type\": \"$_NOT_\",\n" ++
  "          \"port_directions\": \x7b \"A\": \"input\", \"Y\": \"output\" \x7d,\n" ++
  "          \"connections\": \x7b \"A\": [ 5 ], \"Y\": [ 4 ] \x7d\n" ++
  "        \x7d\n" ++
  "      \x7d\n" ++
  "    \x7d,\n" ++
  "    \"top\": \x7b\n" ++
  "      \"ports\": \x7b\n" ++
  "        \"a\": \x7b \"direction\": \"input\", \"bits\": [ 2 ] \x7d,\n" ++
  "        \"b\": \x7b \"direction\": \"input\", \"bits\": [ 3 ] \x7d,\n" ++
  "        \"c\": \x7b \"direction\": \"input\", \"bits\": [ 4 ] \x7d,\n" ++
  "        \"y\": \x7b \"direction\": \"output\", \"bits\": [ 5 ] \x7d,\n" ++
  "        \"z\": \x7b \"direction\": \"output\", \"bits\": [ 6 ] \x7d\n" ++
  "      \x7d,\n" ++
  "      \"cells\": \x7b\n" ++
  "        \"u0\": \x7b\n" ++
  "          \"type\": \"and_inv\",\n" ++
  "          \"port_directions\": \x7b \"x\": \"input\", \"w\": \"input\", \"o\": \"output\" \x7d,\n" ++
  "          \"connections\": \x7b \"x\": [ 2 ], \"w\": [ 3 ], \"o\": [ 5 ] \x7d\n" ++
  "        \x7d,\n" ++
  "        \"u1\": \x7b\n" ++
  "          \"type\": \"and_inv\",\n" ++
  "          \"port_directions\": \x7b \"x\": \"input\", \"w\": \"input\", \"o\": \"output\" \x7d,\n" ++
  "          \"connections\": \x7b \"x\": [ 3 ], \"w\": [ 4 ], \"o\": [ 6 ] \x7d\n" ++
  "        \x7d,\n" ++
  "        \"u2\": \x7b\n" ++
  "          \"type\": \"and_inv\",\n" ++
  "          \"port_directions\": \x7b \"x\": \"input\", \"w\": \"input\", \"o\": \"output\" \x7d,\n" ++
  "          \"connections\": \x7b \"x\": [ 2 ], \"w\": [ \"1\" ], \"o\": [ 7 ] \x7d\n" ++
  "        \x7d\n" ++
  "      \x7d\n" ++
  "    \x7d\n" ++
  "  \x7d\n" ++
  "\x7d\n"

/-- A module that ties its output to a constant, and an instance of it. -/
def constantPortJson : String :=
  "\x7b\n" ++
  "  \"modules\": \x7b\n" ++
  "    \"tie_low\": \x7b\n" ++
  "      \"ports\": \x7b\n" ++
  "        \"i\": \x7b \"direction\": \"input\", \"bits\": [ 2 ] \x7d,\n" ++
  "        \"o\": \x7b \"direction\": \"output\", \"bits\": [ \"0\" ] \x7d\n" ++
  "      \x7d,\n" ++
  "      \"cells\": \x7b\x7d\n" ++
  "    \x7d,\n" ++
  "    \"top\": \x7b\n" ++
  "      \"ports\": \x7b\n" ++
  "        \"a\": \x7b \"direction\": \"input\", \"bits\": [ 2 ] \x7d,\n" ++
  "        \"y\": \x7b \"direction\": \"output\", \"bits\": [ 3 ] \x7d\n" ++
  "      \x7d,\n" ++
  "      \"cells\": \x7b\n" ++
  "        \"u0\": \x7b\n" ++
  "          \"type\": \"tie_low\",\n" ++
  "          \"port_directions\": \x7b \"i\": \"input\", \"o\": \"output\" \x7d,\n" ++
  "          \"connections\": \x7b \"i\": [ 2 ], \"o\": [ 3 ] \x7d\n" ++
  "        \x7d\n" ++
  "      \x7d\n" ++
  "    \x7d\n" ++
  "  \x7d\n" ++
  "\x7d\n"

/-- The circuit of a single conjunction. -/
def andBristol : String :=
  "1 5\n" ++
  "0\n" ++
  "0\n" ++
  "0 1 2 INPUT\n" ++
  "0 1 3 INPUT\n" ++
  "2 1 3 2 4 AND\n" ++
  "1 0 4 OUTPUT\n"

/-- The bits of a bridge, from the lowest. -/
def bits : List Nat :=
  List.range bridgeWidth

/-- Words with one blank between them. -/
def spaced (words : List String) : String :=
  String.intercalate " " words

/-- A circuit that inverts each bit of a word. -/
def booleanWordBlif : String :=
  let port (name : String) := spaced (bits.map fun bit => s!"{name}[{bit}]")
  let inputs := port "a"
  let outputs := port "y"
  s!".model bool_top\n.inputs {inputs}\n.outputs {outputs}\n" ++
  String.join (bits.map fun bit => s!".gate INV A=a[{bit}] Y=y[{bit}]\n") ++
  ".end\n"

/-- A circuit that squares its input. -/
def arithmeticBlif : String :=
  ".model arith_top\n" ++
  ".inputs v\n" ++
  ".outputs z\n" ++
  ".gate MUL A=v B=v Y=z\n" ++
  ".end\n"

/-- A connection that packs the inverted word into the squared input. -/
def connectionBlif : String :=
  let booleanPins := String.join (bits.map fun bit => s!" a[{bit}]=in{bit} y[{bit}]=word{bit}")
  let bridgePins := String.join (bits.map fun bit => s!" i{bit}=word{bit}")
  ".model connect\n" ++
  s!".gate bool_top{booleanPins}\n" ++
  ".gate arith_top v=packed z=result\n" ++
  s!".gate BtoA o=packed{bridgePins}\n" ++
  ".end\n"

end Netlist.Example
