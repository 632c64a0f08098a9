import Mathlib.Data.List.Induction

/-!
# Machines whose steps may be impossible

A machine takes one event after the other; an event that cannot happen in a
state has no successor.  An invariant may speak of the events that led to a
state as well as of the state.
-/

namespace Woody

namespace Machine

variable {σ ε : Type*} (step : σ → ε → Option σ)

/-- The state behind a sequence of events. -/
def run : σ → List ε → Option σ
  | state, [] => some state
  | state, event :: events =>
      (step state event).bind fun later => run later events

variable {step}

theorem run_append (state : σ) (early late : List ε) :
    run step state (early ++ late) =
      (run step state early).bind fun middle => run step middle late := by
  induction early generalizing state with
  | nil => rfl
  | cons event early ih =>
      simp only [List.cons_append, run, Option.bind_assoc, ih]

/-- What holds of the start and is preserved by every step holds behind every
run. -/
theorem run_invariant {invariant : List ε → σ → Prop} {start final : σ}
    {events : List ε} (initially : invariant [] start)
    (preserved : ∀ history state event later, invariant history state →
      step state event = some later → invariant (history ++ [event]) later)
    (ran : run step start events = some final) : invariant events final := by
  induction events using List.reverseRecOn generalizing final with
  | nil =>
      cases ran
      exact initially
  | append_singleton history event ih =>
      rw [run_append] at ran
      obtain ⟨middle, ranHistory, stepped⟩ := Option.bind_eq_some_iff.mp ran
      simp only [run, Option.bind_fun_some] at stepped
      exact preserved history middle event final (ih ranHistory) stepped

end Machine

end Woody
