import Woody.Foundation.Framing

/-!
# Resumable decoders

A resumable decoder is called again and again with some prefix of the symbols
its caller still holds, and reports how many of them it took.  It may carry a
register from frame to frame; what it hands over for a frame may depend on
that register.  `Resumes` says what one call has to do so that every schedule
of calls hands over exactly the frames of the stream.
-/

namespace Woody

/-- The outcome of one call of a resumable decoder. -/
structure Call (γ σ : Type*) where
  state : σ
  consumed : Nat
  delivered : Option γ

/-- The outcome of a schedule of calls on one stream. -/
structure Drive (β γ σ : Type*) where
  state : σ
  consumed : Nat
  rest : List β
  delivered : List γ

section Drive

variable {β γ σ : Type*}

/-- Call the decoder once for every entry of the schedule, with that many of
the remaining symbols, and drop exactly what it consumed. -/
def drive (call : σ → List β → Call γ σ) :
    σ → List β → List Nat → Drive β γ σ
  | state, stream, [] => ⟨state, 0, stream, []⟩
  | state, stream, size :: schedule =>
      let first := call state (stream.take size)
      let later := drive call first.state (stream.drop first.consumed) schedule
      { later with
        consumed := first.consumed + later.consumed
        delivered := first.delivered.toList ++ later.delivered }

theorem drive_rest (call : σ → List β → Call γ σ) (state : σ)
    (stream : List β) (schedule : List Nat) :
    (drive call state stream schedule).rest =
      stream.drop (drive call state stream schedule).consumed := by
  induction schedule generalizing state stream with
  | nil => simp [drive]
  | cons size schedule ih => simp [drive, ih, List.drop_drop]

end Drive

section Emit

variable {α γ κ : Type*} (emit : κ → α → κ × γ)

/-- What is handed over for a list of frames, the register threaded. -/
def emitAll : κ → List α → List γ
  | _, [] => []
  | register, value :: values =>
      (emit register value).2 :: emitAll (emit register value).1 values

/-- The register behind a list of frames. -/
def carry : κ → List α → κ
  | register, [] => register
  | register, value :: values => carry (emit register value).1 values

theorem emitAll_append (register : κ) (early late : List α) :
    emitAll emit register (early ++ late) =
      emitAll emit register early ++
        emitAll emit (carry emit register early) late := by
  induction early generalizing register with
  | nil => rfl
  | cons value early ih => simp [emitAll, carry, ih]

theorem carry_append (register : κ) (early late : List α) :
    carry emit register (early ++ late) =
      carry emit (carry emit register early) late := by
  induction early generalizing register with
  | nil => rfl
  | cons value early ih => simp [carry, ih]

end Emit

/-- One call of the decoder on a framing.  `Holds register pending state`
says that the decoder has taken `pending` of an unfinished frame. -/
structure Resumes {α β γ κ σ : Type*} (framing : Framing β α)
    (call : σ → List β → Call γ σ) (emit : κ → α → κ × γ)
    (Holds : κ → List β → σ → Prop) : Prop where
  unfinished : ∀ {register pending state},
    Holds register pending state → framing.Unfinished pending
  on_frame : ∀ {register pending state data value size},
    Holds register pending state →
    framing.front (pending ++ data) = .frame value size →
      pending.length + (call state data).consumed = size ∧
      (call state data).delivered = some (emit register value).2 ∧
      Holds (emit register value).1 [] (call state data).state
  on_unfinished : ∀ {register pending state data},
    Holds register pending state →
    framing.Unfinished (pending ++ data) →
      (call state data).consumed ≤ data.length ∧
      (call state data).delivered = none ∧
      Holds register (pending ++ data.take (call state data).consumed)
        (call state data).state

namespace Resumes

variable {α β γ κ σ : Type*} {framing : Framing β α}
  {call : σ → List β → Call γ σ} {emit : κ → α → κ × γ}
  {Holds : κ → List β → σ → Prop}

/-- The step lemma: the symbols one call consumes grow the frames and the
residue exactly as they grow in the stream. -/
theorem step (resumes : Resumes framing call emit Holds)
    {register : κ} {pending : List β} {state : σ}
    (holds : Holds register pending state) (data : List β) :
    let result := call state data
    let absorbed := pending ++ data.take result.consumed
    result.consumed ≤ data.length ∧
      result.delivered.toList = emitAll emit register (framing.frames absorbed) ∧
      Holds (carry emit register (framing.frames absorbed))
        (framing.residue absorbed) result.state := by
  intro result absorbed
  by_cases open_ : framing.Unfinished (pending ++ data)
  · obtain ⟨bounded, silent, held⟩ := resumes.on_unfinished holds open_
    have absorbedOpen : framing.Unfinished absorbed := resumes.unfinished held
    refine ⟨bounded, ?_, ?_⟩
    · rw [Framing.frames_of_unfinished absorbedOpen]
      exact congrArg Option.toList silent
    · rw [Framing.frames_of_unfinished absorbedOpen,
        Framing.residue_of_unfinished absorbedOpen]
      exact held
  · simp only [Framing.Unfinished, not_forall, not_not] at open_
    obtain ⟨value, size, found⟩ := open_
    obtain ⟨consumed, delivered, held⟩ := resumes.on_frame holds found
    have bounded := framing.size_le found
    rw [List.length_append] at bounded
    have absorbedEq : absorbed = (pending ++ data).take size := by
      rw [← consumed]
      exact (List.take_length_add_append _).symm
    have absorbedFound : framing.front absorbed = .frame value size := by
      rw [absorbedEq]
      exact framing.frame_take found
    have exhausted : absorbed.drop size = [] := by
      apply List.drop_eq_nil_of_le
      rw [absorbedEq]
      exact List.length_take_le _ _
    refine ⟨by simp only [result]; omega, ?_, ?_⟩
    · rw [Framing.frames_of_frame absorbedFound, exhausted,
        Framing.frames_nil]
      exact congrArg Option.toList delivered
    · rw [Framing.frames_of_frame absorbedFound,
        Framing.residue_of_frame absorbedFound, exhausted,
        Framing.frames_nil, Framing.residue_nil]
      exact held

/-- The run lemma, by induction on the schedule. -/
theorem drive_absorbs (resumes : Resumes framing call emit Holds)
    {register : κ} {pending : List β} {state : σ}
    (holds : Holds register pending state)
    (stream : List β) (schedule : List Nat) :
    let result := drive call state stream schedule
    let absorbed := pending ++ stream.take result.consumed
    result.consumed ≤ stream.length ∧
      result.delivered = emitAll emit register (framing.frames absorbed) ∧
      Holds (carry emit register (framing.frames absorbed))
        (framing.residue absorbed) result.state := by
  induction schedule generalizing register pending state stream with
  | nil =>
      have open_ := resumes.unfinished holds
      simp only [drive, List.take_zero, List.append_nil,
        Framing.frames_of_unfinished open_,
        Framing.residue_of_unfinished open_]
      exact ⟨Nat.zero_le _, rfl, holds⟩
  | cons size schedule ih =>
      obtain ⟨bounded, delivered, held⟩ :=
        resumes.step holds (stream.take size)
      rw [List.length_take] at bounded
      have firstTake :
          (stream.take size).take (call state (stream.take size)).consumed =
            stream.take (call state (stream.take size)).consumed := by
        rw [List.take_take, Nat.min_eq_left (by omega)]
      rw [firstTake] at delivered held
      obtain ⟨laterBounded, laterDelivered, laterHeld⟩ :=
        ih held (stream.drop (call state (stream.take size)).consumed)
      rw [List.length_drop] at laterBounded
      simp only [drive]
      rw [List.take_add, ← List.append_assoc]
      refine ⟨by omega, ?_, ?_⟩
      · rw [Framing.frames_append, emitAll_append, delivered, laterDelivered]
      · rw [Framing.frames_append, carry_append,
          Framing.residue_append (pending ++ _)]
        exact laterHeld

/-- Every schedule hands over a first part of the frames of the stream. -/
theorem drive_delivers (resumes : Resumes framing call emit Holds)
    {register : κ} {state : σ} (holds : Holds register [] state)
    (stream : List β) (schedule : List Nat) :
    let result := drive call state stream schedule
    let received := framing.frames (stream.take result.consumed)
    result.delivered = emitAll emit register received ∧
      received <+: framing.frames stream := by
  intro result received
  obtain ⟨-, delivered, -⟩ := resumes.drive_absorbs holds stream schedule
  refine ⟨delivered, ?_⟩
  have whole := framing.frames_prefix (stream.take result.consumed)
    (stream.drop result.consumed)
  rwa [List.take_append_drop] at whole

/-- A call that is given enough to complete the next frame hands it over. -/
theorem step_progress (resumes : Resumes framing call emit Holds)
    {register : κ} {pending : List β} {state : σ}
    (holds : Holds register pending state) {data : List β} {value : α}
    {values : List α}
    (ahead : framing.frames (pending ++ data) = value :: values) :
    (call state data).delivered = some (emit register value).2 := by
  by_cases open_ : framing.Unfinished (pending ++ data)
  · rw [Framing.frames_of_unfinished open_] at ahead
    cases ahead
  · simp only [Framing.Unfinished, not_forall, not_not] at open_
    obtain ⟨first, size, found⟩ := open_
    rw [Framing.frames_of_frame found] at ahead
    cases ahead
    exact (resumes.on_frame holds found).2.1

/-- A frame that is given in two parts is handed over by the second call, when
that one is also given what the first one left. -/
theorem on_split (resumes : Resumes framing call emit Holds)
    {register : κ} {state : σ} {early late : List β} {value : α}
    (holds : Holds register [] state)
    (found : framing.front (early ++ late) =
      .frame value (early ++ late).length)
    (proper : late ≠ []) :
    let first := call state early
    let rest := early.drop first.consumed ++ late
    first.delivered = none ∧
      (∃ pending, Holds register pending first.state) ∧
      (call first.state rest).delivered = some (emit register value).2 := by
  intro first rest
  have unfinished := Framing.unfinished_of_split found proper
  obtain ⟨bounded, silent, held⟩ := resumes.on_unfinished holds unfinished
  have whole : early.take first.consumed ++ rest = early ++ late := by
    rw [← List.append_assoc, List.take_append_drop]
  have completed : framing.front ([] ++ early.take first.consumed ++ rest) =
      .frame value (early ++ late).length := by
    rw [List.nil_append, whole]
    exact found
  exact ⟨silent, ⟨_, held⟩, (resumes.on_frame held completed).2.1⟩

/-- Calls with everything that is left hand over all frames, one a call. -/
theorem drive_complete (resumes : Resumes framing call emit Holds)
    {register : κ} {pending : List β} {state : σ}
    (holds : Holds register pending state) {stream : List β}
    {size count : Nat} (whole : stream.length ≤ size)
    (enough : (framing.frames (pending ++ stream)).length ≤ count) :
    (drive call state stream (List.replicate count size)).delivered =
      emitAll emit register (framing.frames (pending ++ stream)) := by
  induction count generalizing register pending state stream with
  | zero =>
      have none_ : framing.frames (pending ++ stream) = [] :=
        List.eq_nil_of_length_eq_zero (Nat.le_zero.mp enough)
      rw [none_]
      rfl
  | succ count ih =>
      have all : stream.take size = stream := List.take_of_length_le whole
      have shorter (consumed : Nat) :
          (stream.drop consumed).length ≤ size :=
        Nat.le_trans (by rw [List.length_drop]; omega) whole
      simp only [List.replicate_succ, drive, all]
      by_cases open_ : framing.Unfinished (pending ++ stream)
      · obtain ⟨bounded, silent, held⟩ := resumes.on_unfinished holds open_
        have same : pending ++ stream.take (call state stream).consumed ++
            stream.drop (call state stream).consumed = pending ++ stream := by
          rw [List.append_assoc, List.take_append_drop]
        have later := ih held (shorter _) (by
          rw [same, Framing.frames_of_unfinished open_]
          exact Nat.zero_le _)
        rw [silent, later, same, Option.toList_none, List.nil_append]
      · simp only [Framing.Unfinished, not_forall, not_not] at open_
        obtain ⟨value, total, found⟩ := open_
        obtain ⟨consumed, delivered, held⟩ := resumes.on_frame holds found
        have rest : (pending ++ stream).drop total =
            stream.drop (call state stream).consumed := by
          rw [← consumed, List.drop_length_add_append]
        rw [Framing.frames_of_frame found, rest, List.length_cons] at enough
        have later := ih held (shorter _) (Nat.le_of_succ_le_succ enough)
        rw [delivered, later, Framing.frames_of_frame found, rest]
        rfl

end Resumes

end Woody
