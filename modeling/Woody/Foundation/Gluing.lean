import Mathlib.Data.List.Basic

/-!
# Events that can be glued

A producer may report one thing as several events, one behind the other.  Two
reports are alike when they are the same once all neighbours that can be glued
are glued.
-/

namespace Woody

/-- Which events can be glued to the one behind them, and what they become.
Gluing is associative, and a glued event can be glued to what its parts could
be glued to. -/
structure Gluing (γ : Type*) where
  glue : γ → γ → Option γ
  glue_glue : ∀ {a b c ab bc}, glue a b = some ab → glue b c = some bc →
    ∃ abc, glue ab c = some abc ∧ glue a bc = some abc
  glue_left_none : ∀ {a b c ab}, glue a b = some ab → glue b c = none →
    glue ab c = none
  glue_right_none : ∀ {a b c bc}, glue a b = none → glue b c = some bc →
    glue a bc = none

namespace Gluing

variable {γ : Type*} (gluing : Gluing γ)

/-- An event in front of events that are glued. -/
def cons (a : γ) : List γ → List γ
  | [] => [a]
  | b :: later =>
      match gluing.glue a b with
      | some ab => ab :: later
      | none => a :: b :: later

/-- All events, neighbours glued. -/
def join : List γ → List γ
  | [] => []
  | a :: later => gluing.cons a (join later)

/-- Two reports of the same. -/
def Alike (left right : List γ) : Prop := gluing.join left = gluing.join right

section Join

variable {gluing}

theorem cons_of_glue {a b ab : γ} (glued : gluing.glue a b = some ab)
    (later : List γ) : gluing.cons a (b :: later) = ab :: later := by
  simp [cons, glued]

theorem cons_of_none {a b : γ} (apart : gluing.glue a b = none)
    (later : List γ) : gluing.cons a (b :: later) = a :: b :: later := by
  simp [cons, apart]

theorem cons_cons {a b ab : γ} (glued : gluing.glue a b = some ab)
    (later : List γ) :
    gluing.cons a (gluing.cons b later) = gluing.cons ab later := by
  cases later with
  | nil => exact cons_of_glue glued []
  | cons c later =>
      cases behind : gluing.glue b c with
      | none =>
          rw [cons_of_none behind, cons_of_glue glued,
            cons_of_none (gluing.glue_left_none glued behind)]
      | some bc =>
          obtain ⟨abc, left, right⟩ := gluing.glue_glue glued behind
          rw [cons_of_glue behind, cons_of_glue left, cons_of_glue right]

theorem join_cons_append (a : γ) (early late : List γ) :
    gluing.join (gluing.cons a early ++ late) =
      gluing.cons a (gluing.join (early ++ late)) := by
  cases early with
  | nil => rfl
  | cons b early =>
      cases glued : gluing.glue a b with
      | none =>
          rw [cons_of_none glued]
          rfl
      | some ab =>
          rw [cons_of_glue glued, List.cons_append, List.cons_append, join,
            join, cons_cons glued]

theorem join_join_append (early late : List γ) :
    gluing.join (gluing.join early ++ late) =
      gluing.join (early ++ late) := by
  induction early with
  | nil => rfl
  | cons a early ih => rw [join, join_cons_append, ih, List.cons_append, join]

theorem join_eq_nil_iff {events : List γ} :
    gluing.join events = [] ↔ events = [] := by
  cases events with
  | nil => simp [join]
  | cons a later =>
      refine iff_of_false ?_ (List.cons_ne_nil a later)
      rw [join]
      cases gluing.join later with
      | nil => exact List.cons_ne_nil _ _
      | cons b rest =>
          cases glued : gluing.glue a b with
          | none =>
              rw [cons_of_none glued]
              exact List.cons_ne_nil _ _
          | some ab =>
              rw [cons_of_glue glued]
              exact List.cons_ne_nil _ _

/-- What is glued to one event is that event, or two parts of it. -/
theorem parts_of_join_eq_singleton {part : List γ} {event : γ}
    (same : gluing.join part = [event]) :
    part = [event] ∨ ∃ first second later, part = first :: later ∧
      gluing.join later = [second] ∧ gluing.glue first second = some event := by
  cases part with
  | nil => cases same
  | cons first later =>
      rw [join] at same
      cases behind : gluing.join later with
      | nil =>
          rw [behind] at same
          have isEvent : first = event := (List.cons.inj same).1
          exact .inl (by rw [isEvent, join_eq_nil_iff.mp behind])
      | cons second rest =>
          rw [behind] at same
          cases glued : gluing.glue first second with
          | none =>
              rw [cons_of_none glued] at same
              cases same
          | some whole =>
              rw [cons_of_glue glued] at same
              cases same
              exact .inr ⟨first, second, later, rfl, behind, glued⟩

/-- The events that are glued to the first one stand in front. -/
theorem exists_of_join_eq_cons {events joined : List γ} {first : γ}
    (same : gluing.join events = first :: joined) :
    ∃ part rest, events = part ++ rest ∧ gluing.join part = [first] ∧
      gluing.join rest = joined := by
  induction events generalizing first joined with
  | nil => cases same
  | cons a later ih =>
      rw [join] at same
      cases behind : gluing.join later with
      | nil =>
          rw [behind] at same
          cases same
          exact ⟨[a], later, rfl, rfl, behind⟩
      | cons b rest =>
          rw [behind] at same
          cases glued : gluing.glue a b with
          | none =>
              rw [cons_of_none glued] at same
              cases same
              exact ⟨[a], later, rfl, rfl, behind⟩
          | some ab =>
              rw [cons_of_glue glued] at same
              cases same
              obtain ⟨part, rest, rfl, one, later⟩ := ih behind
              refine ⟨a :: part, rest, rfl, ?_, later⟩
              rw [join, one, cons_of_glue glued]

theorem exists_of_join_eq_append {events early late : List γ}
    (same : gluing.join events = early ++ late) :
    ∃ front behind, events = front ++ behind ∧ gluing.join front = early ∧
      gluing.join behind = late := by
  induction early generalizing events with
  | nil => exact ⟨[], events, rfl, rfl, same⟩
  | cons first early ih =>
      obtain ⟨part, rest, rfl, one, later⟩ := exists_of_join_eq_cons same
      obtain ⟨front, behind, rfl, isEarly, isLate⟩ := ih later
      have glues (events : List γ) : gluing.join (part ++ events) =
          gluing.cons first (gluing.join events) := by
        rw [← join_join_append part, one]
        rfl
      refine ⟨part ++ front, behind, (List.append_assoc ..).symm, ?_, isLate⟩
      rw [glues, later] at same
      rw [glues, isEarly]
      cases early with
      | nil => rfl
      | cons b early =>
          cases glued : gluing.glue first b with
          | none => exact cons_of_none glued early
          | some ab =>
              change gluing.cons first (b :: (early ++ late)) = _ at same
              rw [cons_of_glue glued] at same
              have lengths := congrArg List.length same
              simp at lengths

/-- An event that is not glued to any other separates what is around it. -/
theorem join_append_cons {c : γ}
    (solid : ∀ other, gluing.glue other c = none ∧ gluing.glue c other = none)
    (early late : List γ) :
    gluing.join (early ++ c :: late) =
      gluing.join early ++ c :: gluing.join late := by
  induction early with
  | nil =>
      change gluing.cons c (gluing.join late) = c :: gluing.join late
      cases gluing.join late with
      | nil => rfl
      | cons b rest => exact cons_of_none (solid b).2 rest
  | cons a early ih =>
      rw [List.cons_append, join, ih, join]
      cases gluing.join early with
      | nil => exact cons_of_none (solid a).1 _
      | cons b rest =>
          cases glued : gluing.glue a b with
          | none =>
              rw [List.cons_append, cons_of_none glued, cons_of_none glued]
              rfl
          | some ab =>
              rw [List.cons_append, cons_of_glue glued, cons_of_glue glued]
              rfl

end Join

namespace Alike

variable {gluing}

theorem refl (events : List γ) : gluing.Alike events events := rfl

theorem symm {left right : List γ} (alike : gluing.Alike left right) :
    gluing.Alike right left :=
  Eq.symm alike

theorem trans {left middle right : List γ}
    (first : gluing.Alike left middle) (second : gluing.Alike middle right) :
    gluing.Alike left right :=
  Eq.trans first second

theorem append_right {left right : List γ} (alike : gluing.Alike left right)
    (late : List γ) : gluing.Alike (left ++ late) (right ++ late) := by
  unfold Alike at alike ⊢
  rw [← join_join_append left, alike, join_join_append]

theorem append_left (early : List γ) {left right : List γ}
    (alike : gluing.Alike left right) :
    gluing.Alike (early ++ left) (early ++ right) := by
  induction early with
  | nil => exact alike
  | cons a early ih => exact congrArg (gluing.cons a) ih

theorem glued {a b ab : γ} (glue : gluing.glue a b = some ab)
    (early late : List γ) :
    gluing.Alike (early ++ a :: b :: late) (early ++ ab :: late) := by
  apply append_left
  exact cons_cons glue (gluing.join late)

end Alike

end Gluing

end Woody
