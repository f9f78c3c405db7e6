import Netlist.Json.Value
import Netlist.Gate

/-!
# Blueprints

A blueprint is a Boolean netlist that is not yet written in any format: modules with ports
of any width, one-output gates, and uses of other modules whose ports are connected bit by
bit. It may be written in BLIF, as the words of its records (`Blueprint.rows`), or in JSON
(`Blueprint.value`). Both ways keep the order of modules, ports, gates and connections, and
write the lowest bit of a port first.

The nets of a module are numbers of its own. In JSON they go by these numbers. In BLIF the
bits of a port are named after it, and other nets have names that the blueprint chooses.
-/

namespace Netlist

namespace Blueprint

/-- What a pin is joined to: a net of the module, or a constant. -/
inductive Signal where
  | net (number : Nat)
  | constant (bit : Bool)
  deriving DecidableEq, Repr

/-- The directions in which a port carries values. -/
inductive Flow where
  | input
  | output
  | both
  deriving DecidableEq, Repr

/-- Values enter the module through the port. -/
def Flow.enters : Flow → Bool
  | input | both => true
  | output => false

/-- Values leave the module through the port. -/
def Flow.leaves : Flow → Bool
  | output | both => true
  | input => false

/-- The word for the directions of a port. -/
def Flow.word : Flow → String
  | input => "input"
  | output => "output"
  | both => "inout"

/-- A port of a module. -/
structure Port where
  name : String
  flow : Flow
  /-- The nets of its bits, the lowest one first. -/
  nets : List Nat

/-- A gate of a module, or a use of another module. Labels mean nothing. -/
inductive Part where
  /-- A gate, with a pin for each input, in order, and one for its output. -/
  | gate (label kind : String) (inputs : List (String × Signal)) (output : String × Signal)
  /-- A use, with the signals for the bits of each port that it connects. -/
  | use (label callee : String) (connections : List (String × List Signal))

/-- A module of a blueprint. -/
structure Plan where
  name : String
  ports : List Port
  parts : List Part
  /-- The name of a net that is no bit of a port. -/
  netName : Nat → String

/-- The name of one bit of a port. -/
def bitName (port : String) (bit : Nat) : String :=
  port ++ "[" ++ toString bit ++ "]"

/-- The name of a constant. -/
def constantName (bit : Bool) : String :=
  if bit then trueName else falseName

/-- The nets of a port with the names of its bits. -/
def Port.bits (port : Port) : List (Nat × String) :=
  port.nets.zipIdx.map fun (net, bit) => (net, bitName port.name bit)

namespace Plan

/-- The port of the given name. -/
def port? (plan : Plan) (name : String) : Option Port :=
  plan.ports.find? fun port => port.name = name

/-- The name of a net: that of the port bit that it is, or one of its own. -/
def wireName (plan : Plan) (net : Nat) : String :=
  ((plan.ports.flatMap Port.bits).lookup net).getD (plan.netName net)

/-- The name of a signal in BLIF. -/
def blifName (plan : Plan) : Signal → String
  | .net number => plan.wireName number
  | .constant bit => constantName bit

end Plan

/-- The name of a signal that is read from JSON. -/
def jsonName : Signal → String
  | .net number => toString number
  | .constant bit => constantName bit

end Blueprint

/-- The modules of a netlist that is not yet written in any format. -/
abbrev Blueprint := List Blueprint.Plan

namespace Blueprint

/-! ### Records -/

/-- The words of a pin that is bound to a signal. -/
def bindingWord (pin wire : String) : String :=
  pin ++ "=" ++ wire

/-- The pins of a connection with the signals that they are bound to. -/
def connectionPins (connection : String × List Signal) : List (String × Signal) :=
  connection.2.zipIdx.map fun (signal, bit) => (bitName connection.1 bit, signal)

/-- The record of a gate or a use. -/
def Part.row (spell : Signal → String) : Part → List String
  | gate _ kind inputs output =>
    ".gate" :: kind :: (inputs ++ [output]).map fun (pin, signal) => bindingWord pin (spell signal)
  | use _ callee connections =>
    ".subckt" :: callee :: (connections.flatMap connectionPins).map
      fun (pin, signal) => bindingWord pin (spell signal)

/-- The names of the bits of all ports of some directions. -/
def Plan.bitNames (plan : Plan) (flows : Flow → Bool) : List String :=
  (plan.ports.filter fun port => flows port.flow).flatMap fun port => port.bits.map Prod.snd

/-- The records of a module. -/
def Plan.rows (plan : Plan) : List (List String) :=
  [".model", plan.name] :: (".inputs" :: plan.bitNames Flow.enters) ::
    (".outputs" :: plan.bitNames Flow.leaves) ::
      (plan.parts.map (Part.row plan.blifName) ++ [[".end"]])

/-- The records of a blueprint, each as its words. -/
def rows (blueprint : Blueprint) : List (List String) :=
  blueprint.flatMap Plan.rows

/-! ### Values -/

open Json (Value)

/-- A signal as a bit in JSON. -/
def Signal.value : Signal → Value
  | net number => .number (.natural number)
  | constant true => .string "1"
  | constant false => .string "0"

/-- Some signals as bits in JSON. -/
def bitsValue (signals : List Signal) : Value :=
  .array (signals.map Signal.value)

/-- A port in JSON. -/
def Port.value (port : Port) : Value :=
  .object [("direction", .string port.flow.word), ("bits", bitsValue (port.nets.map .net))]

namespace Part

/-- The name of a gate or a use. -/
def label : Part → String
  | gate label .. | use label .. => label

/-- What a gate computes, or the module that is used. -/
def kind : Part → String
  | gate _ kind .. | use _ kind .. => kind

/-- The directions of the pins of a gate. -/
def directions : Part → List (String × String)
  | gate _ _ inputs (pin, _) => inputs.map (fun (pin, _) => (pin, "input")) ++ [(pin, "output")]
  | use .. => []

/-- The pins of a gate, or the ports that a use connects, with their signals. -/
def connections : Part → List (String × List Signal)
  | gate _ _ inputs output => (inputs ++ [output]).map fun (pin, signal) => (pin, [signal])
  | use _ _ connections => connections

/-- A gate or a use in JSON. -/
def value (part : Part) : Value :=
  .object [("type", .string part.kind),
    ("port_directions", .object (part.directions.map fun (pin, word) => (pin, .string word))),
    ("connections", .object (part.connections.map fun (pin, signals) => (pin, bitsValue signals)))]

end Part

/-- A module in JSON. -/
def Plan.value (plan : Plan) : Value :=
  .object [("ports", .object (plan.ports.map fun port => (port.name, port.value))),
    ("cells", .object (plan.parts.map fun part => (part.label, part.value)))]

/-- A blueprint in JSON. -/
def value (blueprint : Blueprint) : Value :=
  .object [("modules", .object (blueprint.map fun plan => (plan.name, plan.value)))]

/-! ### Well-formed blueprints -/

/-- The module of the given name. -/
def find? (blueprint : Blueprint) (name : String) : Option Plan :=
  List.find? (fun plan => plan.name = name) blueprint

/-- The net that a signal is. -/
def Signal.net? : Signal → Option Nat
  | net number => some number
  | constant _ => none

/-- The signals at the pins of a gate or a use. -/
def Part.signals (part : Part) : List Signal :=
  part.connections.flatMap Prod.snd

/-- The nets of a module: those of its ports, and those that its parts are joined to. -/
def Plan.nets (plan : Plan) : List Nat :=
  plan.ports.flatMap Port.nets ++ (plan.parts.flatMap Part.signals).filterMap Signal.net?

/-- The name may stand in front of an equality sign. -/
def IsPin (name : String) : Prop :=
  name ≠ "" ∧ '=' ∉ name.toList

instance (name : String) : Decidable (IsPin name) :=
  inferInstanceAs (Decidable (_ ∧ _))

/-- The callee has a port that takes the signals, one for each of its bits. -/
def Plan.Connects (callee : Plan) (connection : String × List Signal) : Prop :=
  ∃ port ∈ callee.port? connection.1, port.nets.length = connection.2.length

instance (callee : Plan) (connection : String × List Signal) :
    Decidable (callee.Connects connection) :=
  inferInstanceAs (Decidable (∃ port ∈ callee.port? connection.1, _))

/-- A gate is a primitive that no module is named like, with different pins. A use is one
of a module that is there. It connects ports of that module, each once. -/
def Part.IsValid (blueprint : Blueprint) : Part → Prop
  | gate _ kind inputs output =>
    (blueprint.find? kind).isNone ∧ (Operator.ofName kind).IsPrimitive ∧
      ((inputs ++ [output]).map Prod.fst).Nodup ∧ ∀ pin ∈ inputs ++ [output], IsPin pin.1
  | use _ callee connections =>
    (connections.map Prod.fst).Nodup ∧ ∃ plan ∈ blueprint.find? callee,
      ∀ connection ∈ connections, plan.Connects connection ∧ '=' ∉ connection.1.toList

instance (blueprint : Blueprint) : (part : Part) → Decidable (part.IsValid blueprint)
  | .gate .. => inferInstanceAs (Decidable (_ ∧ _ ∧ _ ∧ _))
  | .use .. => inferInstanceAs (Decidable (_ ∧ _))

/-- The ports have different names, without brackets, and different nets. A port of several
bits is not nameless. Different nets have different names, none of which is empty or that of
a constant. -/
structure Plan.IsValid (blueprint : Blueprint) (plan : Plan) : Prop where
  ports : (plan.ports.map Port.name).Nodup
  portNames : ∀ port ∈ plan.ports, '[' ∉ port.name.toList
  buses : ∀ port ∈ plan.ports, 1 < port.nets.length → port.name ≠ ""
  portNets : (plan.ports.flatMap Port.nets).Nodup
  wires : ∀ one ∈ plan.nets, ∀ other ∈ plan.nets, plan.wireName one = plan.wireName other →
    one = other
  wireNames : ∀ net ∈ plan.nets, plan.wireName net ≠ "" ∧ ¬ IsConstantName (plan.wireName net)
  parts : ∀ part ∈ plan.parts, part.IsValid blueprint

instance (blueprint : Blueprint) (plan : Plan) : Decidable (plan.IsValid blueprint) :=
  decidable_of_iff
    ((plan.ports.map Port.name).Nodup ∧ (∀ port ∈ plan.ports, '[' ∉ port.name.toList) ∧
      (∀ port ∈ plan.ports, 1 < port.nets.length → port.name ≠ "") ∧
      (plan.ports.flatMap Port.nets).Nodup ∧
      (∀ one ∈ plan.nets, ∀ other ∈ plan.nets, plan.wireName one = plan.wireName other →
        one = other) ∧
      (∀ net ∈ plan.nets, plan.wireName net ≠ "" ∧ ¬ IsConstantName (plan.wireName net)) ∧
      ∀ part ∈ plan.parts, part.IsValid blueprint)
    ⟨fun ⟨ports, portNames, buses, portNets, wires, wireNames, parts⟩ =>
        ⟨ports, portNames, buses, portNets, wires, wireNames, parts⟩,
      fun valid => ⟨valid.ports, valid.portNames, valid.buses, valid.portNets, valid.wires,
        valid.wireNames, valid.parts⟩⟩

/-- The modules have different names and are valid. -/
structure IsValid (blueprint : Blueprint) : Prop where
  names : (blueprint.map Plan.name).Nodup
  plans : ∀ plan ∈ blueprint, plan.IsValid blueprint

instance (blueprint : Blueprint) : Decidable blueprint.IsValid :=
  decidable_of_iff
    ((blueprint.map Plan.name).Nodup ∧ ∀ plan ∈ blueprint, plan.IsValid blueprint)
    ⟨fun valid => ⟨valid.1, valid.2⟩, fun valid => ⟨valid.names, valid.plans⟩⟩

end Blueprint

end Netlist
