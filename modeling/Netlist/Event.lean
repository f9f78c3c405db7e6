import Netlist.Error

/-!
# Events

What operations report on the way, whether or not they succeed in the end. A
`Report` is a result together with the events that led to it, in order.
-/

namespace Netlist

/-- How much an event matters. -/
inductive Level where
  | debug
  | info
  | warning
  | error
  deriving DecidableEq, Repr

/-- The word for a level. -/
def Level.title : Level → String
  | debug => "DEBUG"
  | info => "INFO"
  | warning => "WARN"
  | error => "ERROR"

/-- Something that an operation reports. -/
inductive Event where
  /-- A netlist was read. -/
  | netlistRead (modules wires : Nat) (top : Option String)
  /-- A finding of the linter, with its level and words. -/
  | finding (level : Level) (text : String)
  /-- A module was flattened; the last number is the first wire left unused. -/
  | flattened (name : String) (gates : Nat) (next : Wire)
  /-- An instance leaves an input of its callee without a wire. -/
  | unboundInput (input callee caller : String)
  /-- Dead gates were dropped. -/
  | deadGates (dead total : Nat)
  /-- A bridge was read. -/
  | bridge (line : Nat) (low high : Wire) (arithmetic : Wire)
  /-- A composite circuit was put together. -/
  | composed (boolean bridges arithmetic : Nat)
  /-- The evaluator gave a value to a wire that had one. -/
  | overwrite (wire : Wire)
  /-- The circuit did not read the whole witness. -/
  | unusedWitness (bits : Nat)
  deriving DecidableEq, Repr

namespace Event

/-- How much the event matters. -/
def level : Event → Level
  | netlistRead .. | bridge .. => .debug
  | finding level _ => level
  | flattened .. | deadGates .. | composed .. => .info
  | unboundInput .. | overwrite _ | unusedWitness _ => .warning

/-- A name that may be missing, as it stands in a message. -/
def optionalName : Option String → String
  | some name => s!"Some({Text.quoted name})"
  | none => "None"

/-- The words for an event. -/
def text : Event → String
  | netlistRead modules wires top =>
    s!"Read {modules} modules with {wires} named wires, top is {optionalName top}"
  | finding _ text => text
  | flattened name gates next => s!"Flattened '{name}' into {gates} gates, wires up to {next}"
  | unboundInput input callee caller =>
    s!"Input '{input}' of '{callee}' is not bound by its instance in '{caller}'"
  | deadGates dead total =>
    s!"dead: {dead}, total: {total} ({Decimal.percentage dead total}% circuit size reduction)"
  | bridge line low high arithmetic =>
    s!"line {line}: bridge {low}..{high} -> arithmetic wire {arithmetic}"
  | composed boolean bridges arithmetic =>
    s!"Composed {boolean} boolean gates, {bridges} bridges and {arithmetic} arithmetic gates"
  | overwrite wire => s!"Overwriting wire {wire}"
  | unusedWitness bits => s!"{bits} witness bits were not consumed"

/-- The line of an event in a log. -/
def line (event : Event) : String :=
  s!"{event.level.title} {event.text}"

end Event

/-- The result of an operation, and the events that it reported. -/
structure Report (α : Type) where
  events : List Event
  result : Except Error α

namespace Report

/-- Succeed without events. -/
def ok {α : Type} (value : α) : Report α :=
  ⟨[], .ok value⟩

/-- Fail without events. -/
def fail {α : Type} (error : Error) : Report α :=
  ⟨[], .error error⟩

/-- Report some events. -/
def emit (events : List Event) : Report Unit :=
  ⟨events, .ok ()⟩

/-- Go on after a success. A failure keeps the events that led to it. -/
def bind {α β : Type} (report : Report α) (next : α → Report β) : Report β :=
  match report.result with
  | .ok value => ⟨report.events ++ (next value).events, (next value).result⟩
  | .error error => ⟨report.events, .error error⟩

instance : Monad Report where
  pure := ok
  bind := bind

instance : MonadLift (Except Error) Report where
  monadLift result := ⟨[], result⟩

theorem result_bind {α β : Type} (report : Report α) (next : α → Report β) :
    (report.bind next).result = report.result.bind fun value => (next value).result := by
  unfold bind
  cases report.result <;> rfl

/-- A sequence succeeds exactly if both of its parts do. -/
theorem result_bind_eq_ok_iff {α β : Type} {report : Report α} {next : α → Report β} {value : β} :
    (report.bind next).result = .ok value ↔
      ∃ middle, report.result = .ok middle ∧ (next middle).result = .ok value := by
  unfold bind
  split
  · rename_i middle succeeded
    simp [succeeded]
  · rename_i error failed
    simp [failed]

/-- A sequence fails if its first part does, or else its second part. -/
theorem result_bind_eq_error_iff {α β : Type} {report : Report α} {next : α → Report β}
    {error : Error} :
    (report.bind next).result = .error error ↔
      report.result = .error error ∨
        ∃ middle, report.result = .ok middle ∧ (next middle).result = .error error := by
  unfold bind
  split
  · rename_i middle succeeded
    simp [succeeded]
  · rename_i other failed
    simp [failed]

end Report

end Netlist
