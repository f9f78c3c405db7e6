/-!
# Outcomes

What is known of each of several steps, any of which may fail, once it is known how they end
together.
-/

namespace Netlist

variable {ε α β : Type}

/-- A sequence of two steps succeeds only if both do. -/
theorem eq_ok_of_bind {first : Except ε α} {next : α → Except ε β} {result : β}
    (succeeded : first >>= next = .ok result) :
    ∃ value, first = .ok value ∧ next value = .ok result := by
  cases first with
  | error fault => cases succeeded
  | ok value => exact ⟨value, rfl, succeeded⟩

/-- A sequence of two steps fails only if one of them does. -/
theorem bind_eq_error {first : Except ε α} {next : α → Except ε β} {error : ε}
    (failed : first >>= next = .error error) :
    first = .error error ∨ ∃ value, first = .ok value ∧ next value = .error error := by
  cases first with
  | error other =>
    cases failed
    exact Or.inl rfl
  | ok value => exact Or.inr ⟨value, rfl, failed⟩

/-- A property that every step keeps holds in the end. -/
theorem foldlM_invariant {step : β → α → Except ε β} {good : β → Prop} {items : List α}
    (keeps : ∀ state item next, good state → step state item = .ok next → good next)
    {state last : β} (start : good state) (run : items.foldlM step state = .ok last) :
    good last := by
  induction items generalizing state with
  | nil =>
    cases run
    exact start
  | cons item rest ih =>
    rw [List.foldlM_cons] at run
    obtain ⟨next, first, run⟩ := eq_ok_of_bind run
    exact ih (keeps state item next start first) run

/-- Steps that succeed one by one succeed together. -/
theorem mapM_eq_ok_of_forall {step : α → Except ε β} {result : α → β} {items : List α}
    (each : ∀ item ∈ items, step item = .ok (result item)) :
    items.mapM step = .ok (items.map result) := by
  induction items with
  | nil => rfl
  | cons item rest ih =>
    obtain ⟨head, others⟩ := List.forall_mem_cons.1 each
    rw [List.mapM_cons, head, ih others]
    rfl

/-- If a list of steps fails, one of them does. -/
theorem exists_of_mapM_eq_error {step : α → Except ε β} {items : List α} {error : ε}
    (failed : items.mapM step = .error error) : ∃ item ∈ items, step item = .error error := by
  induction items with
  | nil => cases failed
  | cons item rest ih =>
    rw [List.mapM_cons] at failed
    rcases bind_eq_error failed with head | ⟨value, _, failed⟩
    · exact ⟨item, List.mem_cons_self, head⟩
    · rcases bind_eq_error failed with others | ⟨values, _, failed⟩
      · obtain ⟨other, member, atOther⟩ := ih others
        exact ⟨other, List.mem_cons_of_mem _ member, atOther⟩
      · cases failed

end Netlist
