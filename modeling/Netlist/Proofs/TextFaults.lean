import Netlist.Outcome
import Netlist.Yosys.Reader

/-!
# Faults of a text

Reading a JSON netlist decodes its text, builds its modules, and resolves their instances. The
first two only fail for what is wrong with the text, or with a constant in it
(`Yosys.failsTextually_sourcesOf`, `Yosys.failsTextually_buildModules`).
-/

namespace Netlist

/-- The error is about the text itself, or about a constant in it. -/
def Error.IsTextual : Error → Prop
  | .parse .. | .unsupportedConstant _ => True
  | _ => False

/-- If there is an error, it is textual. -/
def FailsTextually {α : Type} (outcome : Except Error α) : Prop :=
  ∀ error, outcome = .error error → error.IsTextual

namespace FailsTextually

variable {α β : Type}

theorem ok (value : α) : FailsTextually (.ok value) := by
  rintro _ ⟨⟩

theorem bind {start : Except Error α} {next : α → Except Error β} (first : FailsTextually start)
    (rest : ∀ value, FailsTextually (next value)) : FailsTextually (start >>= next) := by
  intro error failed
  rcases bind_eq_error failed with atStart | ⟨value, _, atNext⟩
  · exact first error atStart
  · exact rest value error atNext

theorem mapM {items : List α} {step : α → Except Error β}
    (each : ∀ item, FailsTextually (step item)) : FailsTextually (items.mapM step) := by
  intro error failed
  obtain ⟨item, _, atItem⟩ := exists_of_mapM_eq_error failed
  exact each item error atItem

end FailsTextually

namespace Yosys

theorem failsTextually_entries {α : Type} (decode : Decoder α) (listing : Section)
    (value : Json.Value) : FailsTextually (entries decode listing value) := by
  unfold entries
  split
  · exact .ok _
  · apply FailsTextually.mapM
    rintro ⟨name, inner⟩
    dsimp only
    split
    · exact .ok _
    · rintro _ ⟨⟩
      trivial
  · rintro _ ⟨⟩
    trivial

theorem failsTextually_moduleSources (root : Json.Value) : FailsTextually (moduleSources root) := by
  unfold moduleSources
  split
  · rintro _ ⟨⟩
    trivial
  · exact .bind (failsTextually_entries _ _ _) fun bodies => .mapM fun body =>
      .bind (failsTextually_entries _ _ _) fun ports =>
        .bind (failsTextually_entries _ _ _) fun cells => .ok _

/-- What a text says about modules. -/
def sourcesOf (text : String) : Except Error (List ModuleSource) := do
  let root ← (Json.read text).mapError fun line => Error.parse line .notJson
  moduleSources root

theorem failsTextually_sourcesOf (text : String) : FailsTextually (sourcesOf text) := by
  refine .bind ?_ failsTextually_moduleSources
  intro error failed
  cases read : Json.read text with
  | error line =>
    rw [read] at failed
    cases failed
    trivial
  | ok root =>
    rw [read] at failed
    cases failed

/-! ### Building -/

/-- From whatever allocator an action starts, it fails textually. -/
def Numbered.FailsTextually {α : Type} (action : Numbered α) : Prop :=
  ∀ allocator, Netlist.FailsTextually (action allocator)

namespace Numbered.FailsTextually

variable {α β : Type}

theorem pure (value : α) : FailsTextually (Pure.pure value : Numbered α) :=
  fun _ => .ok _

theorem refuse (fault : Fault) : FailsTextually (Yosys.refuse fault : Numbered α) := by
  rintro _ _ ⟨⟩
  trivial

theorem lift {outcome : Except Error α} (fails : Netlist.FailsTextually outcome) :
    FailsTextually (liftM outcome : Numbered α) := by
  intro allocator error failed
  cases outcome with
  | error other =>
    cases failed
    exact fails _ rfl
  | ok value => cases failed

theorem bind {start : Numbered α} {next : α → Numbered β} (first : FailsTextually start)
    (rest : ∀ value, FailsTextually (next value)) : FailsTextually (start >>= next) :=
  fun allocator => (first allocator).bind fun (value, middle) => rest value middle

theorem get : FailsTextually (MonadState.get : Numbered Allocator) :=
  fun _ => .ok _

theorem mapM {items : List α} {step : α → Numbered β} (each : ∀ item, FailsTextually (step item)) :
    FailsTextually (items.mapM step) := by
  induction items with
  | nil =>
    rw [List.mapM_nil]
    exact pure []
  | cons item rest ih =>
    rw [List.mapM_cons]
    exact (each item).bind fun value => ih.bind fun values => pure (value :: values)

theorem foldlM {items : List α} {step : β → α → Numbered β}
    (each : ∀ state item, FailsTextually (step state item)) (state : β) :
    FailsTextually (items.foldlM step state) := by
  induction items generalizing state with
  | nil => exact pure state
  | cons item rest ih =>
    rw [List.foldlM_cons]
    exact (each state item).bind fun next => ih next

end Numbered.FailsTextually

theorem failsTextually_wireOf (bit : Bit) : Numbered.FailsTextually (wireOf bit) := by
  have named (name : String) : Numbered.FailsTextually (wireNamed name) := by
    intro allocator error failed
    change allocator.allocate name = _ at failed
    unfold Allocator.allocate at failed
    split at failed
    · cases failed
    · split at failed
      · cases failed
      · cases failed
        trivial
  unfold wireOf
  split
  · exact named _
  · exact named _
  · exact named _
  · exact .refuse _

theorem failsTextually_declarePort (module : Module) (port : String × Port) :
    Numbered.FailsTextually (declarePort module port) := by
  refine .foldlM (fun state bit => ?_) module
  refine .bind (failsTextually_wireOf bit) fun wire => ?_
  split
  · exact .pure _
  · exact .pure _
  · exact .pure _
  · exact .refuse _

theorem failsTextually_connectionPairings (cell : String) (callee : ModuleSource)
    (connection : String × List Bit) :
    Numbered.FailsTextually (connectionPairings cell callee connection) := by
  obtain ⟨name, bits⟩ := connection
  simp only [connectionPairings]
  split
  · exact .refuse _
  · split
    · exact .bind (.refuse _) fun _ => .mapM fun pair => .bind (failsTextually_wireOf _) fun _ =>
        .bind (failsTextually_wireOf _) fun _ => .pure _
    · exact .mapM fun pair => .bind (failsTextually_wireOf _) fun _ =>
        .bind (failsTextually_wireOf _) fun _ => .pure _

theorem failsTextually_cellWires (cell : String) (directions : List (String × String))
    (connections : List (String × List Bit)) :
    Numbered.FailsTextually (cellWires cell directions connections) := by
  induction connections with
  | nil => exact .pure _
  | cons connection rest ih =>
    obtain ⟨name, bits⟩ := connection
    simp only [cellWires]
    refine .bind (.mapM failsTextually_wireOf) fun wires => ?_
    split
    · exact ih.bind fun _ => .pure _
    · exact ih.bind fun _ => .pure _
    · exact .refuse _

theorem failsTextually_addGates (name : String) (cell : Cell)
    (connections : List (String × List Bit)) (module : Module) :
    Numbered.FailsTextually (addGates name cell connections module) := by
  refine .bind (.lift (failsTextually_entries _ _ _)) fun directions => ?_
  refine .bind (failsTextually_cellWires name directions connections) fun wires => ?_
  dsimp only
  split
  · split
    · exact .bind (.refuse _) fun _ => .pure _
    · exact .pure _
  · exact .pure _

theorem failsTextually_addCell (sources : List ModuleSource) (module : Module)
    (entry : String × Cell) : Numbered.FailsTextually (addCell sources module entry) := by
  refine .bind (.lift (failsTextually_entries _ _ _)) fun connections => ?_
  split
  · exact .bind (.mapM (failsTextually_connectionPairings _ _)) fun _ => .pure _
  · exact failsTextually_addGates _ _ _ _

/-- If the modules cannot be built, there is a fault in the text. -/
theorem failsTextually_buildModules (sources : List ModuleSource) :
    Numbered.FailsTextually (buildModules sources) :=
  .mapM fun _ => .bind .get fun _ => .bind (.foldlM failsTextually_declarePort _) fun declared =>
    .foldlM (failsTextually_addCell sources) declared

end Yosys

end Netlist
