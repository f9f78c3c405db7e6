import Netlist.Circuit.Compaction

/-!
# Numbering in passing

The compact numbers of wires are given in passing over the gates. A wire that is met gets the
next number, unless it keeps its own or got one before. All wires that have got a number are known
with it, so that the gates can be renumbered afterwards. Numbers are machine words: there is no
renumbering where the next one overflows.
-/

namespace Netlist

/-- The numbers that were given so far. -/
structure Renumbering where
  /-- The number that the next wire gets. -/
  next : Wire
  /-- The wires that have got a number, with it, in the order in which they got it. -/
  given : List (Wire × Wire)
  deriving DecidableEq, Repr

namespace Renumbering

/-- Meet a wire. It gets a number unless it is fixed or has got one, and then there must be a
number that follows. -/
def meet? (fixed : List Wire) (state : Renumbering) (wire : Wire) : Option Renumbering :=
  if wire ∈ fixed ∨ (state.given.lookup wire).isSome then some state
  else state.next.next?.map fun next => ⟨next, state.given ++ [(wire, state.next)]⟩

/-- The number that a wire has got, or its own. -/
def number (state : Renumbering) (wire : Wire) : Wire :=
  (state.given.lookup wire).getD wire

end Renumbering

namespace Circuit

/-- The wires of the gates, in the order in which the gates name them. -/
def mentions (circuit : Circuit) : List Wire :=
  circuit.gates.flatMap Gate.wires

/-- The number that follows upon the highest port or constant. -/
def innerStart? (circuit : Circuit) : Option Wire :=
  match circuit.fixedWires.max? with
  | some wire => wire.next?
  | none => some 0

/-- The numbers that are given in passing over all gates. -/
def renumbering? (circuit : Circuit) : Option Renumbering :=
  circuit.innerStart?.bind fun start =>
    circuit.mentions.foldlM (Renumbering.meet? circuit.fixedWires) ⟨start, []⟩

/-- The circuit with the numbers that are given in passing, if none of them overflows. -/
def compact? (circuit : Circuit) : Option Circuit :=
  circuit.renumbering?.map fun numbers =>
    { circuit with gates := circuit.gates.map (Gate.rename numbers.number) }

end Circuit

end Netlist
