import Mathlib.Data.List.Basic

/-!
# Scanners

A scanner reads one symbol after the other, moves its state and writes
outputs.  It may stop in front of a symbol that it refuses, or behind a symbol
that is the last one for it.
-/

namespace Woody

/-- How a scanner goes on. -/
inductive Verdict where
  | advance
  /-- Stop in front of the symbol. -/
  | error
  /-- Stop behind the symbol. -/
  | exit
  deriving DecidableEq

/-- What a scanner does at a symbol. -/
structure Reaction (σ ω : Type*) where
  state : σ
  outputs : List ω
  verdict : Verdict

/-- How a scan of symbols ends: with `advance` when all of them are read. -/
structure Scanned (β σ ω : Type*) where
  state : σ
  outputs : List ω
  rest : List β
  verdict : Verdict

namespace Scanner

variable {β σ ω : Type*} (react : σ → β → Reaction σ ω)

def scan : σ → List β → Scanned β σ ω
  | state, [] => ⟨state, [], [], .advance⟩
  | state, symbol :: later =>
      let reaction := react state symbol
      match reaction.verdict with
      | .advance =>
          let scanned := scan reaction.state later
          { scanned with outputs := reaction.outputs ++ scanned.outputs }
      | .error => ⟨reaction.state, reaction.outputs, symbol :: later, .error⟩
      | .exit => ⟨reaction.state, reaction.outputs, later, .exit⟩

section Steps

variable {react} {state : σ} {symbol : β}

theorem scan_cons_advance (goesOn : (react state symbol).verdict = .advance)
    (later : List β) :
    scan react state (symbol :: later) =
      { scan react (react state symbol).state later with
        outputs := (react state symbol).outputs ++
          (scan react (react state symbol).state later).outputs } := by
  simp only [scan, goesOn]

theorem scan_cons_error (refused : (react state symbol).verdict = .error)
    (later : List β) :
    scan react state (symbol :: later) =
      ⟨(react state symbol).state, (react state symbol).outputs,
        symbol :: later, .error⟩ := by
  simp only [scan, refused]

theorem scan_cons_exit (left : (react state symbol).verdict = .exit)
    (later : List β) :
    scan react state (symbol :: later) =
      ⟨(react state symbol).state, (react state symbol).outputs, later,
        .exit⟩ := by
  simp only [scan, left]

theorem scan_append_advance {early : List β}
    (goesOn : (scan react state early).verdict = .advance) (late : List β) :
    scan react state (early ++ late) =
      { scan react (scan react state early).state late with
        outputs := (scan react state early).outputs ++
          (scan react (scan react state early).state late).outputs } := by
  induction early generalizing state with
  | nil => rfl
  | cons first early ih =>
      cases verdict : (react state first).verdict with
      | advance =>
          rw [scan_cons_advance verdict] at goesOn ⊢
          rw [List.cons_append, scan_cons_advance verdict, ih goesOn]
          simp only [List.append_assoc]
      | error =>
          rw [scan_cons_error verdict] at goesOn
          cases goesOn
      | exit =>
          rw [scan_cons_exit verdict] at goesOn
          cases goesOn

theorem scan_append_stop {early : List β}
    (stopped : (scan react state early).verdict ≠ .advance) (late : List β) :
    scan react state (early ++ late) =
      { scan react state early with
        rest := (scan react state early).rest ++ late } := by
  induction early generalizing state with
  | nil => exact (stopped rfl).elim
  | cons first early ih =>
      cases verdict : (react state first).verdict with
      | advance =>
          rw [scan_cons_advance verdict] at stopped ⊢
          rw [List.cons_append, scan_cons_advance verdict, ih stopped]
      | error =>
          rw [List.cons_append, scan_cons_error verdict,
            scan_cons_error verdict]
          rfl
      | exit =>
          rw [List.cons_append, scan_cons_exit verdict,
            scan_cons_exit verdict]

theorem rest_suffix (symbols : List β) :
    (scan react state symbols).rest <:+ symbols := by
  induction symbols generalizing state with
  | nil => exact List.suffix_refl _
  | cons first symbols ih =>
      cases verdict : (react state first).verdict with
      | advance =>
          rw [scan_cons_advance verdict]
          exact ih.trans (List.suffix_cons _ _)
      | error =>
          have unread : (scan react state (first :: symbols)).rest =
              first :: symbols := by
            rw [scan_cons_error verdict]
          exact unread.symm ▸ List.suffix_refl _
      | exit =>
          rw [scan_cons_exit verdict]
          exact List.suffix_cons _ _

end Steps

/-- What every symbol that is read preserves, of the outputs and of the state,
holds behind a scan that has read all symbols. -/
theorem scan_invariant {react : σ → β → Reaction σ ω}
    {invariant : List ω → σ → Prop}
    (preserved : ∀ history state symbol, invariant history state →
      (react state symbol).verdict = .advance →
      invariant (history ++ (react state symbol).outputs)
        (react state symbol).state)
    {history : List ω} {state : σ} (initially : invariant history state)
    {symbols : List β}
    (goesOn : (scan react state symbols).verdict = .advance) :
    invariant (history ++ (scan react state symbols).outputs)
      (scan react state symbols).state := by
  induction symbols generalizing history state with
  | nil => simpa [scan] using initially
  | cons first symbols ih =>
      cases verdict : (react state first).verdict with
      | advance =>
          rw [scan_cons_advance verdict] at goesOn ⊢
          have next := preserved history state first initially verdict
          have later := ih next goesOn
          rwa [List.append_assoc] at later
      | error =>
          rw [scan_cons_error verdict] at goesOn
          cases goesOn
      | exit =>
          rw [scan_cons_exit verdict] at goesOn
          cases goesOn

/-- A scan that stops has read some symbols and stops at the next one. -/
theorem exists_of_stop {react : σ → β → Reaction σ ω} {state : σ}
    {symbols : List β}
    (stopped : (scan react state symbols).verdict ≠ .advance) :
    ∃ early symbol late, symbols = early ++ symbol :: late ∧
      (scan react state early).verdict = .advance ∧
      (react (scan react state early).state symbol).verdict =
        (scan react state symbols).verdict := by
  induction symbols generalizing state with
  | nil => exact (stopped rfl).elim
  | cons first symbols ih =>
      cases verdict : (react state first).verdict with
      | advance =>
          rw [scan_cons_advance verdict] at stopped ⊢
          obtain ⟨early, symbol, late, rfl, read, stops⟩ := ih stopped
          refine ⟨first :: early, symbol, late, rfl, ?_, ?_⟩
          · rw [scan_cons_advance verdict]
            exact read
          · rw [scan_cons_advance verdict]
            exact stops
      | error =>
          refine ⟨[], first, symbols, rfl, rfl, ?_⟩
          rw [scan_cons_error verdict]
          exact verdict
      | exit =>
          refine ⟨[], first, symbols, rfl, rfl, ?_⟩
          rw [scan_cons_exit verdict]
          exact verdict

end Scanner

end Woody
