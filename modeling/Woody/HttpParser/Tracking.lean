import Woody.HttpParser.Graph

/-!
# What the marks of a call stand for

During a call at most one token is open: its mark points to where it begins in
the data, so the bytes from the mark to the current position belong to it and
are not reported yet.  A call tracks the machine when its callbacks, with the
open token behind them, report what the machine reports.
-/

namespace Woody

namespace Progress

@[simp] theorem set_marks (progress : Progress) (parser : RequestParser) :
    (progress.set parser).marks = progress.marks := rfl

@[simp] theorem set_callbacks (progress : Progress) (parser : RequestParser) :
    (progress.set parser).callbacks = progress.callbacks := rfl

@[simp] theorem parser_set (progress : Progress) (parser : RequestParser) :
    (progress.set parser).parser.toRequestParser = parser := rfl

@[simp] theorem parser_mark (progress : Progress) (token : Token) (p : Bytes) :
    (progress.mark token p).parser = progress.parser := by
  unfold mark
  cases progress.marks token <;> rfl

@[simp] theorem parser_data (progress : Progress) (token : Token) (p : Bytes) :
    (progress.data token p).parser = progress.parser := by
  unfold data
  cases progress.marks token <;> rfl

/-- An effect writes to no field but the count. -/
@[simp] theorem parser_effect (p : Bytes) (progress : Progress)
    (effect : Effect) :
    (Progress.effect p progress effect).parser.toRequestParser =
      progress.parser.toRequestParser := by
  cases effect with
  | mark token => exact congrArg _ (parser_mark progress token p)
  | data token => exact congrArg _ (parser_data progress token p)
  | notify callback => rfl
  | resetRead => rfl

theorem parser_finish (progress : Progress) :
    progress.finish.parser = progress.parser := by
  simp [finish]

theorem parser_effects (p : Bytes) (effects : List Effect)
    (progress : Progress) :
    (effects.foldl (Progress.effect p) progress).parser.toRequestParser =
      progress.parser.toRequestParser := by
  induction effects generalizing progress with
  | nil => rfl
  | cons effect effects ih => rw [List.foldl_cons, ih, parser_effect]

end Progress

/-- The token that is open, and what has been read of it in this call. -/
abbrev Pending := Option (Token × Bytes)

namespace Pending

/-- The marks of a call that has come to `p`. -/
def marks (pending : Pending) (p : Bytes) : Marks := fun token =>
  pending.bind fun opened =>
    if opened.1 = token then some (opened.2 ++ p) else none

/-- The callback that is due. -/
def callbacks (pending : Pending) : List HttpCallback :=
  pending.toList.map fun opened => opened.1.callback opened.2

def token (pending : Pending) : Option Token := pending.map Prod.fst

/-- One more byte belongs to the open token. -/
def push (pending : Pending) (bytes : Bytes) : Pending :=
  pending.map fun opened => (opened.1, opened.2 ++ bytes)

@[simp] theorem token_push (pending : Pending) (bytes : Bytes) :
    (pending.push bytes).token = pending.token := by
  cases pending <;> rfl

theorem marks_push (pending : Pending) (bytes p : Bytes) :
    (pending.push bytes).marks p = pending.marks (bytes ++ p) := by
  cases pending with
  | none => rfl
  | some opened =>
      funext token
      simp [marks, push]

/-- What is pending when a token has been reported. -/
def close (token : Token) (pending : Pending) : Pending :=
  if pending.token = some token then none else pending

theorem close_all (pending : Pending) :
    (((pending.close .headerField).close .headerValue).close .url).close
      .body = none := by
  rcases pending with - | ⟨token, content⟩
  · rfl
  · cases token <;> rfl

theorem marks_of_ne {pending : Pending} {token : Token}
    (other : pending.token ≠ some token) (p : Bytes) :
    pending.marks p token = none := by
  cases pending with
  | none => rfl
  | some opened =>
      have differs : opened.1 ≠ token := by
        rintro rfl
        exact other rfl
      simp [marks, differs]

theorem eq_none_of_token {pending : Pending} (closed : pending.token = none) :
    pending = none := by
  cases pending with
  | none => rfl
  | some opened => cases closed

end Pending

/-- The callbacks of the call, after those of earlier calls, report what the
machine has put out. -/
structure Tracks (history outputs : List HttpCallback) (pending : Pending)
    (p : Bytes) (progress : Progress) : Prop where
  marks : progress.marks = pending.marks p
  alike : HttpCallback.gluing.Alike
    (history ++ progress.callbacks ++ pending.callbacks) (history ++ outputs)

namespace Tracks

variable {history outputs : List HttpCallback} {pending : Pending}
  {p : Bytes} {progress : Progress}

theorem of_alike {other : List HttpCallback}
    (tracks : Tracks history outputs pending p progress)
    (alike : HttpCallback.gluing.Alike (history ++ outputs)
      (history ++ other)) :
    Tracks history other pending p progress :=
  ⟨tracks.marks, tracks.alike.trans alike⟩

theorem set {other : RequestParser}
    (tracks : Tracks history outputs pending p progress) :
    Tracks history outputs pending p (progress.set other) :=
  ⟨tracks.marks, tracks.alike⟩

theorem mark {token : Token}
    (tracks : Tracks history outputs pending p progress)
    (free : pending.token = none ∨ pending.token = some token) :
    ∃ later : Pending, later.token = some token ∧
      Tracks history (outputs ++ [token.callback []]) later p
        (progress.mark token p) := by
  have marks := congrFun tracks.marks token
  cases pending with
  | none =>
      refine ⟨some (token, []), rfl, ?_, ?_⟩
      · unfold Progress.mark
        simp only [marks, Pending.marks, Option.bind_none]
        funext other
        simp [setMark, Pending.marks, tracks.marks, eq_comm]
      · have alike := tracks.alike.append_right [token.callback []]
        have same : (progress.mark token p).callbacks = progress.callbacks := by
          simp [Progress.mark, marks, Pending.marks]
        simpa [same, Pending.callbacks] using alike
  | some opened =>
      rcases opened with ⟨found, content⟩
      have sameToken : found = token := by simpa [Pending.token] using free
      subst found
      have unmoved : progress.mark token p = progress := by
        simp [Progress.mark, marks, Pending.marks]
      refine ⟨some (token, content), rfl, ?_, ?_⟩
      · rw [unmoved]
        exact tracks.marks
      · rw [unmoved]
        have glued := Gluing.Alike.glued
          (HttpCallback.glue_token token content [])
          (history ++ progress.callbacks) []
        have alike := tracks.alike.append_right [token.callback []]
        simp only [Pending.callbacks, Option.toList_some, List.map_cons,
          List.map_nil, List.append_assoc, List.append_nil, List.cons_append,
          List.nil_append] at glued alike ⊢
        exact glued.symm.trans alike

theorem data {token : Token}
    (tracks : Tracks history outputs pending p progress)
    (free : pending.token = none ∨ pending.token = some token) :
    Tracks history outputs none p (progress.data token p) := by
  have marks := congrFun tracks.marks token
  cases pending with
  | none =>
      have unmoved : progress.data token p = progress := by
        simp [Progress.data, marks, Pending.marks]
      rw [unmoved]
      exact tracks
  | some opened =>
      rcases opened with ⟨found, content⟩
      have sameToken : found = token := by simpa [Pending.token] using free
      subst found
      have taken : (content ++ p).take ((content ++ p).length - p.length) =
          content := by
        simp
      refine ⟨?_, ?_⟩
      · funext other
        simp only [Progress.data, marks, Pending.marks, Option.bind_some,
          if_pos, setMark, Option.bind_none]
        split_ifs with here
        · rfl
        · have there := congrFun tracks.marks other
          rw [there]
          have differs : Pending.token (some (token, content)) ≠ some other := by
            rintro ⟨⟩
            exact here rfl
          exact Pending.marks_of_ne differs p
      · have alike := tracks.alike
        simp only [Progress.data, marks, Pending.marks, Option.bind_some,
          if_pos, taken]
        simpa [Pending.callbacks] using alike

theorem notify {callback : HttpCallback}
    (tracks : Tracks history outputs pending p progress)
    (closed : pending.token = none) :
    Tracks history (outputs ++ [callback]) none p
      (progress.notify callback) := by
  have none := Pending.eq_none_of_token closed
  subst none
  refine ⟨tracks.marks, ?_⟩
  have alike := tracks.alike.append_right [callback]
  simpa [Progress.notify, Pending.callbacks] using alike

theorem effect {effect : Effect} {last : Option Token}
    (tracks : Tracks history outputs pending p progress)
    (moved : effect.marks.foldlM Mark.move pending.token = some last) :
    ∃ later : Pending, later.token = last ∧
      Tracks history (outputs ++ effect.outputs) later p
        (progress.effect p effect) := by
  cases effect with
  | mark token =>
      simp only [Effect.marks, List.foldlM_cons, List.foldlM_nil, Mark.move,
        bind_pure, Option.ite_none_right_eq_some, Option.some.injEq] at moved
      obtain ⟨free, rfl⟩ := moved
      exact tracks.mark free
  | data token =>
      simp only [Effect.marks, List.foldlM_cons, List.foldlM_nil, Mark.move,
        bind_pure, Option.ite_none_right_eq_some, Option.some.injEq] at moved
      obtain ⟨free, rfl⟩ := moved
      refine ⟨none, rfl, ?_⟩
      rw [Effect.outputs, List.append_nil]
      exact tracks.data free
  | notify callback =>
      simp only [Effect.marks, List.foldlM_cons, List.foldlM_nil, Mark.move,
        bind_pure, Option.ite_none_right_eq_some, Option.some.injEq] at moved
      obtain ⟨closed, rfl⟩ := moved
      exact ⟨none, rfl, tracks.notify closed⟩
  | resetRead =>
      cases moved
      rw [Effect.outputs, List.append_nil]
      exact ⟨pending, rfl, tracks.marks, tracks.alike⟩

theorem effects {effects : List Effect} {last : Option Token}
    (tracks : Tracks history outputs pending p progress)
    (moved : (effects.flatMap Effect.marks).foldlM Mark.move pending.token =
      some last) :
    ∃ later : Pending, later.token = last ∧
      Tracks history (outputs ++ effects.flatMap Effect.outputs) later p
        (effects.foldl (Progress.effect p) progress) := by
  induction effects generalizing outputs pending progress with
  | nil =>
      cases moved
      rw [List.flatMap_nil, List.append_nil]
      exact ⟨pending, rfl, tracks⟩
  | cons first effects ih =>
      rw [List.flatMap_cons, List.foldlM_append] at moved
      obtain ⟨middle, movedFirst, movedLater⟩ := Option.bind_eq_some_iff.mp moved
      obtain ⟨between, rfl, tracksFirst⟩ := tracks.effect movedFirst
      obtain ⟨later, last, tracksLater⟩ := ih tracksFirst movedLater
      refine ⟨later, last, ?_⟩
      rw [List.flatMap_cons, ← List.append_assoc]
      exact tracksLater

theorem close (token : Token)
    (tracks : Tracks history outputs pending p progress) :
    Tracks history outputs (pending.close token) p
      (progress.data token p) := by
  unfold Pending.close
  split_ifs with opened
  · exact tracks.data (.inr opened)
  · have unset := Pending.marks_of_ne opened p
    rw [← tracks.marks] at unset
    have unmoved : progress.data token p = progress := by
      simp [Progress.data, unset]
    rw [unmoved]
    exact tracks

/-- The callbacks at the end of a call report the token that is open,
whichever it is. -/
theorem finish (tracks : Tracks history outputs pending [] progress) :
    Tracks history outputs none [] progress.finish := by
  have closed := (((tracks.close .headerField).close .headerValue).close
    .url).close .body
  rwa [Pending.close_all] at closed

/-- The position moves over bytes of the open token. -/
theorem move {token : Token} (bytes : Bytes)
    (tracks : Tracks history outputs pending (bytes ++ p) progress)
    (opened : pending.token = some token) :
    Tracks history (outputs ++ bytes.map fun ch => token.callback [ch])
      (pending.push bytes) p progress := by
  refine ⟨?_, ?_⟩
  · rw [Pending.marks_push]
    exact tracks.marks
  · cases pending with
    | none => cases opened
    | some found =>
        rcases found with ⟨found, content⟩
        cases opened
        have alike := tracks.alike
        clear tracks
        induction bytes generalizing content outputs with
        | nil => simpa [Pending.push] using alike
        | cons ch bytes ih =>
            have glued := Gluing.Alike.glued
              (HttpCallback.glue_token found content [ch])
              (history ++ progress.callbacks) []
            have next := alike.append_right [found.callback [ch]]
            simp only [Pending.callbacks, Option.toList_some, List.map_cons,
              List.map_nil, List.append_assoc, List.cons_append,
              List.nil_append] at glued next ih ⊢
            simpa [Pending.push] using
              ih (content ++ [ch]) (glued.symm.trans next)

/-- The position moves over a byte that belongs to no token. -/
theorem skip (bytes : Bytes)
    (tracks : Tracks history outputs none (bytes ++ p) progress) :
    Tracks history outputs none p progress :=
  ⟨tracks.marks, tracks.alike⟩

/-- The position moves over the byte that has led to the current state. -/
theorem piece {ch : UInt8} {parser : RequestParser}
    (tracks : Tracks history outputs pending (ch :: p) progress)
    (token : pending.token = CountingParser.tokenAt parser.state) :
    Tracks history (outputs ++ parser.piece ch) (pending.push [ch]) p
      progress := by
  unfold RequestParser.piece
  cases opened : CountingParser.tokenAt parser.state with
  | none =>
      rw [opened] at token
      have none := Pending.eq_none_of_token token
      subst none
      rw [List.append_nil]
      exact tracks.skip [ch]
  | some found =>
      rw [opened] at token
      exact tracks.move [ch] token

end Tracks

end Woody
