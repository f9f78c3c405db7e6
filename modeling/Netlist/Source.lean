import Netlist.Blif.Reader
import Netlist.Event
import Netlist.Failure
import Netlist.Path
import Netlist.Yosys.Reader

/-!
# Sources of netlists

A netlist comes in BLIF, in any number of texts, or in JSON, in a text of its
own. The extension of a file tells which, and otherwise the text does.
-/

namespace Netlist

/-- The formats of netlists. -/
inductive Format where
  | blif
  | json
  deriving DecidableEq, Repr

namespace Format

/-- The format that the extension of a file stands for. -/
def ofPath? (path : Path) : Option Format :=
  match path.extension? with
  | some "blif" => some blif
  | some "json" => some json
  | _ => none

/-- The format of a text: a netlist in JSON is an object. -/
def sniff (text : String) : Format :=
  if (Text.trimStart text.toList).head? = some '\x7b' then json else blif

end Format

/-- The extension of the file is that of a netlist. -/
def Path.isNetlist (path : Path) : Bool :=
  (Format.ofPath? path).isSome

/-- A text with its format. -/
structure Source where
  format : Format
  text : String

namespace Source

/-- A text whose format it tells itself. -/
def ofText (text : String) : Source :=
  ⟨Format.sniff text, text⟩

/-- The text of a file. -/
def ofFile (path : Path) (text : String) : Source :=
  ⟨(Format.ofPath? path).getD (Format.sniff text), text⟩

/-- Read sources as one netlist. -/
def readDesign (domain : Domain) (top : Option String) (sources : List Source) :
    Except Failure Design :=
  let allocator := Allocator.empty domain
  match sources with
  | [⟨.json, text⟩] => (Yosys.readText allocator top text).mapError .netlist
  | _ =>
    if sources.all fun source => source.format = .blif then
      (Blif.readTexts allocator top (sources.map Source.text)).mapError .netlist
    else .error (.request .mixedFormats)

/-- The event that reports a design that was read. -/
def event (design : Design) : Event :=
  .netlistRead design.modules.length design.allocator.names.length design.top

end Source

end Netlist
