import Mathlib.Data.List.Basic

/-!
# Guarded executions of a step function

A step function maps a state and an event to the next state, or to nothing when the event is not
enabled.  `Run step guard` is the set of its finite executions all of whose steps meet `guard`.
-/

namespace Execution

variable {State Event : Type*}

/-- A finite execution from a first state, with every step meeting the guard. -/
inductive Run (step : State → Event → Option State) (guard : State → Event → Prop) :
    State → List Event → State → Prop
  | nil (state : State) : Run step guard state [] state
  | snoc {first before after : State} {events : List Event} {event : Event} :
      Run step guard first events before →
      guard before event →
      step before event = some after → Run step guard first (events ++ [event]) after

namespace Run

variable {step : State → Event → Option State} {guard weaker : State → Event → Prop}
  {first before after : State} {events later : List Event}

/-- A property that every guarded step preserves holds at the end of every run. -/
theorem invariant {property : State → Prop}
    (preserved : ∀ {source event target}, property source → guard source event →
      step source event = some target → property target)
    (initially : property first) (run : Run step guard first events after) : property after := by
  induction run with
  | nil => exact initially
  | snoc _ allowed taken ih => exact preserved ih allowed taken

theorem mono (weaken : ∀ {source event}, guard source event → weaker source event)
    (run : Run step guard first events after) : Run step weaker first events after := by
  induction run with
  | nil => exact .nil _
  | snoc _ allowed taken ih => exact .snoc ih (weaken allowed) taken

theorem trans (left : Run step guard first events before)
    (right : Run step guard before later after) : Run step guard first (events ++ later) after := by
  induction right with
  | nil => simpa using left
  | snoc _ allowed taken ih =>
    rw [← List.append_assoc]
    exact .snoc ih allowed taken

theorem single {event : Event} (allowed : guard before event)
    (taken : step before event = some after) : Run step guard before [event] after := by
  simpa using Run.snoc (.nil before) allowed taken

end Run

/-- Execute a fixed list of events, as long as every step meets the guard. -/
def exec (step : State → Event → Option State) (guard : State → Event → Prop)
    [∀ state event, Decidable (guard state event)] : List Event → State → Option State
  | [], state => some state
  | event :: events, state =>
    if guard state event then step state event >>= exec step guard events else none

/-- A successful execution of a list of events is a run. -/
theorem run_of_exec {step : State → Event → Option State} {guard : State → Event → Prop}
    [∀ state event, Decidable (guard state event)] {events : List Event} {before after : State}
    (execution : exec step guard events before = some after) :
    Run step guard before events after := by
  induction events generalizing before with
  | nil =>
    obtain rfl : before = after := by simpa [exec] using execution
    exact .nil before
  | cons event events ih =>
    simp only [exec, Option.ite_none_right_eq_some, Option.bind_eq_bind,
      Option.bind_eq_some_iff] at execution
    obtain ⟨allowed, middle, taken, rest⟩ := execution
    exact (Run.single allowed taken).trans (ih rest)

theorem exists_run_of_exec {step : State → Event → Option State} {guard : State → Event → Prop}
    [∀ state event, Decidable (guard state event)] {events : List Event} {before : State}
    {check : State → Bool} (execution : (exec step guard events before).any check = true) :
    ∃ after, Run step guard before events after ∧ check after = true := by
  cases reached : exec step guard events before with
  | none => simp [reached] at execution
  | some after => exact ⟨after, run_of_exec reached, by simpa [reached] using execution⟩

end Execution
