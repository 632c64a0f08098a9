import Mathlib.Data.List.Basic

/-!
# Machines that answer inputs with outputs

A transducer reads one input after the other, moves its state and answers
with a list of outputs.  Inputs that leave the state as it is can be taken out
of a run: the rest of the run is answered as before.
-/

namespace Woody

namespace Transducer

variable {σ ι ω : Type*} (step : σ → ι → σ × List ω)

/-- The state behind a sequence of inputs. -/
def after : σ → List ι → σ
  | state, [] => state
  | state, input :: inputs => after (step state input).1 inputs

/-- The inputs of a sequence, each with its answer. -/
def trace : σ → List ι → List (ι × List ω)
  | _, [] => []
  | state, input :: inputs =>
      (input, (step state input).2) :: trace (step state input).1 inputs

/-- All answers of a run. -/
def outputs (state : σ) (inputs : List ι) : List ω :=
  (trace step state inputs).flatMap Prod.snd

section Runs

variable {step}

/-- What the allowed inputs preserve holds behind every run of them. -/
theorem after_invariant {invariant : σ → Prop} {allowed : ι → Prop}
    (preserved : ∀ state input, allowed input → invariant state →
      invariant (step state input).1)
    {state : σ} (initially : invariant state) {inputs : List ι}
    (each : ∀ input ∈ inputs, allowed input) :
    invariant (after step state inputs) := by
  induction inputs generalizing state with
  | nil => exact initially
  | cons input inputs ih =>
      obtain ⟨first, later⟩ := List.forall_mem_cons.mp each
      exact ih (preserved state input first initially) later

theorem mem_outputs_iff {state : σ} {inputs : List ι} {output : ω} :
    output ∈ outputs step state inputs ↔
      ∃ early input late, inputs = early ++ input :: late ∧
        output ∈ (step (after step state early) input).2 := by
  induction inputs generalizing state with
  | nil => simp [outputs, trace]
  | cons first inputs ih =>
      have answered : outputs step state (first :: inputs) =
          (step state first).2 ++
            outputs step (step state first).1 inputs := rfl
      rw [answered, List.mem_append, ih]
      constructor
      · rintro (now | ⟨early, input, late, rfl, later⟩)
        · exact ⟨[], first, inputs, rfl, now⟩
        · exact ⟨first :: early, input, late, rfl, later⟩
      · rintro ⟨early, input, late, shape, member⟩
        cases early with
        | nil =>
            cases shape
            exact .inl member
        | cons other early =>
            cases shape
            exact .inr ⟨early, input, late, rfl, member⟩

end Runs

section Purge

variable (silent : ι × List ω → Bool)

/-- A sequence of inputs without those that are silent in its run. -/
def purge (state : σ) (inputs : List ι) : List ι :=
  ((trace step state inputs).filter fun entry => !silent entry).map Prod.fst

variable {step silent}

theorem purge_cons_silent {state : σ} {input : ι}
    (dropped : silent (input, (step state input).2)) (inputs : List ι) :
    purge step silent state (input :: inputs) =
      purge step silent (step state input).1 inputs := by
  simp [purge, trace, dropped]

theorem purge_cons_heard {state : σ} {input : ι}
    (kept : ¬ silent (input, (step state input).2)) (inputs : List ι) :
    purge step silent state (input :: inputs) =
      input :: purge step silent (step state input).1 inputs := by
  simp [purge, trace, kept]

/-- When the inputs alone decide what is silent, purging is filtering. -/
theorem purge_eq_filter (quiet : ι → Bool) (state : σ) (inputs : List ι) :
    purge step (fun entry => quiet entry.1) state inputs =
      inputs.filter fun input => !quiet input := by
  induction inputs generalizing state with
  | nil => rfl
  | cons input inputs ih =>
      by_cases dropped : quiet input = true
      · rw [purge_cons_silent dropped, ih]
        simp [dropped]
      · rw [purge_cons_heard dropped, ih]
        simp [dropped]

variable (unmoved : ∀ state input, silent (input, (step state input).2) →
  (step state input).1 = state)

include unmoved

theorem after_purge (state : σ) (inputs : List ι) :
    after step state (purge step silent state inputs) =
      after step state inputs := by
  induction inputs generalizing state with
  | nil => rfl
  | cons input inputs ih =>
      by_cases dropped : silent (input, (step state input).2) = true
      · have still := unmoved state input dropped
        have rest := ih (step state input).1
        rw [purge_cons_silent dropped, after]
        rwa [still] at rest ⊢
      · rw [purge_cons_heard dropped, after, after, ih]

theorem trace_purge (state : σ) (inputs : List ι) :
    trace step state (purge step silent state inputs) =
      (trace step state inputs).filter fun entry => !silent entry := by
  induction inputs generalizing state with
  | nil => rfl
  | cons input inputs ih =>
      by_cases dropped : silent (input, (step state input).2) = true
      · have still := unmoved state input dropped
        have rest := ih (step state input).1
        rw [purge_cons_silent dropped, trace]
        rw [still] at rest ⊢
        simp [rest, dropped]
      · rw [purge_cons_heard dropped, trace, trace, ih]
        simp [dropped]

/-- An observer that sees nothing of the silent inputs cannot tell the purged
run from the whole one. -/
theorem filterMap_outputs_purge {γ : Type*} {observe : ω → Option γ}
    (unseen : ∀ state input, silent (input, (step state input).2) →
      (step state input).2.filterMap observe = [])
    (state : σ) (inputs : List ι) :
    (outputs step state (purge step silent state inputs)).filterMap observe =
      (outputs step state inputs).filterMap observe := by
  induction inputs generalizing state with
  | nil => rfl
  | cons input inputs ih =>
      have answered (later : List ι) :
          outputs step state (input :: later) =
            (step state input).2 ++
              outputs step (step state input).1 later := rfl
      by_cases dropped : silent (input, (step state input).2) = true
      · have still := unmoved state input dropped
        have rest := ih (step state input).1
        rw [purge_cons_silent dropped, answered, List.filterMap_append,
          unseen state input dropped, List.nil_append]
        rwa [still] at rest ⊢
      · rw [purge_cons_heard dropped, answered, answered,
          List.filterMap_append, List.filterMap_append, ih]

end Purge

end Transducer

end Woody
