import Woody.Websocket.CodecRefinement
import Woody.Websocket.Handler

/-!
# What one read does

The read loop on a handler whose parser has taken `pending`, and a buffer
that holds `data`, is determined by the reference decoding of
`pending ++ data`.
-/

namespace Woody

namespace WebsocketHandler

@[simp] theorem onEvent_codec (handler : WebsocketHandler)
    (event : CodecEvent) : (handler.onEvent event).codec = handler.codec := by
  cases event <;> rfl

private theorem foldl_onEvent_codec (handler : WebsocketHandler)
    (events : List CodecEvent) :
    (events.foldl onEvent handler).codec = handler.codec := by
  induction events generalizing handler with
  | nil => rfl
  | cons event events ih => exact (ih _).trans (onEvent_codec handler event)

@[simp] theorem onCodec_codec (handler : WebsocketHandler)
    (result : WebsocketCodec.DataResult) :
    (handler.onCodec result).codec = result.codec :=
  foldl_onEvent_codec _ _

/-- What the codec reports about the bytes behind the last complete frame. -/
def complaint (residue : Bytes) : List CodecEvent :=
  match HeaderFraming.front residue with
  | .reject => [.error "Parser error"]
  | .needMore =>
      if residue.length = 1 then [.error "Parser error"] else []
  | .frame _ _ => []

/-- What the parser keeps of the bytes behind the last complete frame. -/
def kept (residue : Bytes) : Bytes :=
  match HeaderFraming.front residue with
  | .frame _ _ => residue
  | _ => []

/-- What is thrown away of them: an incomplete or a refused header. -/
def lost (residue : Bytes) : Bytes :=
  match HeaderFraming.front residue with
  | .frame _ _ => []
  | _ => residue

/-- At most `kCheapPrepend` bytes stand behind the first frame. -/
def Room (stream : Bytes) : Prop :=
  ∀ wire total, WireFraming.front stream = .frame wire total →
    stream.length ≤ total + kCheapPrepend

theorem room_of_unfinished {stream : Bytes}
    (unfinished : WireFraming.Unfinished stream) : Room stream :=
  fun wire total found => (unfinished wire total found).elim

/-- There is nothing behind the last frame, or a complete header. -/
def Headed (residue : Bytes) : Prop :=
  residue = [] ∨
    ∃ header size, HeaderFraming.front residue = .frame header size

theorem headed_of_holds {key : UInt32} {pending : Bytes}
    {parser : WebsocketParser} (holds : parser.Holds key pending) :
    Headed pending := by
  cases holds with
  | header => exact .inl rfl
  | body headed => exact .inr ⟨_, _, headed⟩

theorem Headed.complaint_eq {residue : Bytes} (headed : Headed residue) :
    complaint residue = [] := by
  rcases headed with rfl | ⟨header, size, found⟩
  · rfl
  · simp only [complaint, found]

theorem Headed.kept_eq {residue : Bytes} (headed : Headed residue) :
    kept residue = residue := by
  rcases headed with rfl | ⟨header, size, found⟩
  · rfl
  · simp only [kept, found]

theorem lost_eq_nil_iff {residue : Bytes} :
    lost residue = [] ↔ Headed residue := by
  unfold lost Headed
  split
  · rename_i header size found
    simp [found]
  · rename_i unheaded
    constructor
    · exact .inl
    · rintro (empty | ⟨header, size, found⟩)
      · exact empty
      · exact (unheaded header size found).elim

/-- All events of the frames of a stream. -/
def frameEvents (register : WebsocketCodec.Register) (stream : Bytes) :
    List CodecEvent :=
  (emitAll WebsocketCodec.deliver register (WireFraming.frames stream)).flatMap
    WebsocketCodec.Delivery.events

/-- The two ways the loop can end, for a parser that has taken `pending` and a
buffer that completes it to `stream`. -/
inductive Outcome (register : WebsocketCodec.Register)
    (pending stream : Bytes) (result : LoopResult) : Prop where
  | completed
      (room : Room stream)
      (exit : result.exit = .drained ∨ result.exit = .stopped)
      (empty : result.buffer.readable = [])
      (events : result.events = frameEvents register stream ++
        complaint (WireFraming.residue stream))
      (consumed : pending.length + result.consumed +
        (lost (WireFraming.residue stream)).length = stream.length)
      (held : result.handler.codec.Holds
        (carry WebsocketCodec.deliver register (WireFraming.frames stream))
        (kept (WireFraming.residue stream)))
  | aborted {wire : WireFrame} {total : Nat}
      (found : WireFraming.front stream = .frame wire total)
      (crowded : total + kCheapPrepend < stream.length)
      (exit : result.exit = .aborted)
      (events : result.events =
        (WebsocketCodec.deliver register wire).2.events)

private theorem outcome_drained {register : WebsocketCodec.Register}
    {pending : Bytes} {handler : WebsocketHandler} {buffer : Buffer}
    (holds : handler.codec.Holds register pending)
    (empty : buffer.readable = []) :
    Outcome register pending (pending ++ buffer.readable)
      ⟨handler, buffer, [], 0, [], .drained⟩ := by
  have unfinished := holds.unfinished
  have frames := Framing.frames_of_unfinished unfinished
  have residue := Framing.residue_of_unfinished unfinished
  have headed := headed_of_holds holds.parser
  rw [empty, List.append_nil]
  refine .completed (room_of_unfinished unfinished) (.inl rfl) empty ?_ ?_ ?_
  · rw [residue, headed.complaint_eq, frameEvents, frames]
    rfl
  · rw [residue, lost_eq_nil_iff.mpr headed]
    rfl
  · rw [residue, headed.kept_eq, frames]
    exact holds

/-- A loop left at a header that is incomplete or refused. -/
private theorem outcome_stopped {register : WebsocketCodec.Register}
    {data : Bytes} {result : LoopResult}
    (unheaded : ∀ header size, HeaderFraming.front data ≠ .frame header size)
    (exit : result.exit = .stopped) (empty : result.buffer.readable = [])
    (events : result.events = complaint data) (consumed : result.consumed = 0)
    (held : result.handler.codec.Holds register []) :
    Outcome register [] data result := by
  have unfinished : WireFraming.Unfinished data := by
    intro wire total found
    obtain ⟨header, size, headed, -⟩ := WebsocketParser.front_of_frame found
    exact unheaded header size headed
  have frames := Framing.frames_of_unfinished unfinished
  have residue := Framing.residue_of_unfinished unfinished
  have keptNothing : kept data = [] := by
    unfold kept
    split
    · exact (unheaded _ _ ‹_›).elim
    · rfl
  have lostAll : lost data = data := by
    unfold lost
    split
    · exact (unheaded _ _ ‹_›).elim
    · rfl
  refine .completed (room_of_unfinished unfinished) (.inr exit) empty ?_ ?_ ?_
  · rw [events, residue, frameEvents, frames]
    rfl
  · rw [residue, lostAll, consumed]
    simp
  · rw [residue, keptNothing, frames]
    exact held

/-- A first frame in front of what the rest of the loop does. -/
private theorem outcome_cons {register : WebsocketCodec.Register}
    {pending stream : Bytes} {wire : WireFrame} {total parsedBytes : Nat}
    {call : PrependCall} {later : LoopResult}
    (found : WireFraming.front stream = .frame wire total)
    (room : stream.length ≤ total + kCheapPrepend)
    (parsed : pending.length + parsedBytes = total)
    (outcome : Outcome (WebsocketCodec.deliver register wire).1 []
      (stream.drop total) later) :
    Outcome register pending stream
      { later with
        events := (WebsocketCodec.deliver register wire).2.events ++
          later.events
        consumed := parsedBytes + later.consumed
        prepends := call :: later.prepends } := by
  have frames := Framing.frames_of_frame found
  have residue := Framing.residue_of_frame found
  have bounded := WireFraming.size_le found
  cases outcome with
  | completed _ exit empty events consumed held =>
      refine .completed ?_ exit empty ?_ ?_ ?_
      · intro other otherTotal otherFound
        rw [found] at otherFound
        cases otherFound
        exact room
      · rw [residue, frameEvents, frames, events, frameEvents, emitAll,
          List.flatMap_cons, List.append_assoc]
      · rw [residue]
        simp only [List.length_drop, List.length_nil] at consumed ⊢
        omega
      · rw [residue, frames]
        exact held
  | aborted _ crowded =>
      rw [List.length_drop] at crowded
      omega

/-- A call that takes everything into an unfinished body, in front of what
the rest of the loop does. -/
private theorem outcome_taken {register : WebsocketCodec.Register}
    {pending data stream : Bytes} {call : PrependCall} {later : LoopResult}
    (outcome : Outcome register (pending ++ data) stream later) :
    Outcome register pending stream
      { later with
        events := [] ++ later.events
        consumed := data.length + later.consumed
        prepends := call :: later.prepends } := by
  cases outcome with
  | completed room exit empty events consumed held =>
      refine .completed room exit empty events ?_ held
      simp only [List.length_append] at consumed ⊢
      omega
  | aborted found crowded exit events => exact .aborted found crowded exit events

section Iteration

variable {fuel : Nat} {handler : WebsocketHandler} {buffer : Buffer}
  {result : WebsocketCodec.DataResult}

theorem onDataLoop_drained (empty : buffer.readableBytes = 0) :
    handler.onDataLoop (fuel + 1) buffer =
      ⟨handler, buffer, [], 0, [], .drained⟩ := by
  simp only [onDataLoop, empty, Nat.lt_irrefl, gt_iff_lt, if_false]

theorem onDataLoop_stopped (readable : 0 < buffer.readableBytes)
    (called : handler.codec.onData buffer.readable 0 = result)
    (stop : result.ok = false ∨ result.parsedBytes = 0) :
    handler.onDataLoop (fuel + 1) buffer =
      ⟨handler.onCodec result, buffer.retrieveAll, result.events,
        result.parsedBytes, [], .stopped⟩ := by
  have left : ¬ result.ok = true ∨ result.parsedBytes = 0 := by
    rwa [Bool.not_eq_true]
  simp only [onDataLoop, gt_iff_lt, readable, if_true,
    Buffer.retrieveAllAsString, called, left]

theorem onDataLoop_aborted (readable : 0 < buffer.readableBytes)
    (called : handler.codec.onData buffer.readable 0 = result)
    (ok : result.ok = true) (progress : result.parsedBytes ≠ 0)
    (crowded : buffer.retrieveAll.prepend
      (buffer.readable.drop result.parsedBytes) = none) :
    handler.onDataLoop (fuel + 1) buffer =
      ⟨handler.onCodec result, buffer.retrieveAll, result.events,
        result.parsedBytes,
        [⟨buffer.retrieveAll, buffer.readable, result.parsedBytes⟩],
        .aborted⟩ := by
  simp only [onDataLoop, gt_iff_lt, readable, if_true,
    Buffer.retrieveAllAsString, called, ok, not_true_eq_false, progress,
    or_self, if_false, PrependCall.unparsed, crowded]

theorem onDataLoop_continued {refilled : Buffer}
    (readable : 0 < buffer.readableBytes)
    (called : handler.codec.onData buffer.readable 0 = result)
    (ok : result.ok = true) (progress : result.parsedBytes ≠ 0)
    (prepended : buffer.retrieveAll.prepend
      (buffer.readable.drop result.parsedBytes) = some refilled) :
    handler.onDataLoop (fuel + 1) buffer =
      let later := (handler.onCodec result).onDataLoop fuel refilled
      { later with
        events := result.events ++ later.events
        consumed := result.parsedBytes + later.consumed
        prepends :=
          ⟨buffer.retrieveAll, buffer.readable, result.parsedBytes⟩ ::
            later.prepends } := by
  simp only [onDataLoop, gt_iff_lt, readable, if_true,
    Buffer.retrieveAllAsString, called, ok, not_true_eq_false, progress,
    or_self, if_false, PrependCall.unparsed, prepended]

variable {register : WebsocketCodec.Register} {pending : Bytes}

private theorem outcome_headless (readable : 0 < buffer.readableBytes)
    (called : handler.codec.onData buffer.readable 0 = result)
    (stop : result.ok = false ∨ result.parsedBytes = 0)
    (unheaded : ∀ header size,
      HeaderFraming.front buffer.readable ≠ .frame header size)
    (events : result.events = complaint buffer.readable)
    (consumed : result.parsedBytes = 0)
    (held : result.codec.Holds register []) :
    Outcome register [] buffer.readable
      (handler.onDataLoop (fuel + 1) buffer) := by
  rw [onDataLoop_stopped readable called stop]
  apply outcome_stopped unheaded rfl buffer.retrieveAll_readable events consumed
  rw [onCodec_codec]
  exact held

/-- An iteration that completes a frame: the bytes behind it are put back, or
there is no room for them. -/
private theorem outcome_frame {wire : WireFrame} {total : Nat}
    (readable : 0 < buffer.readableBytes)
    (called : handler.codec.onData buffer.readable 0 = result)
    (ok : result.ok = true) (behind : pending.length < total)
    (parsed : pending.length + result.parsedBytes = total)
    (events : result.events =
      (WebsocketCodec.deliver register wire).2.events)
    (found : WireFraming.front (pending ++ buffer.readable) =
      .frame wire total)
    (rest : ∀ refilled : Buffer,
      refilled.readable = (pending ++ buffer.readable).drop total →
        Outcome (WebsocketCodec.deliver register wire).1 [] refilled.readable
          ((handler.onCodec result).onDataLoop fuel refilled)) :
    Outcome register pending (pending ++ buffer.readable)
      (handler.onDataLoop (fuel + 1) buffer) := by
  have progress : result.parsedBytes ≠ 0 := by omega
  have unparsed : buffer.readable.drop result.parsedBytes =
      (pending ++ buffer.readable).drop total := by
    rw [← parsed, List.drop_append]
    simp
  have remaining := congrArg List.length unparsed
  rw [List.length_drop, List.length_drop] at remaining
  by_cases room : (pending ++ buffer.readable).length ≤ total + kCheapPrepend
  · obtain ⟨refilled, prepended, refilledReadable⟩ :=
      @Buffer.retrieveAll_prepend buffer
        (buffer.readable.drop result.parsedBytes)
        (by rw [List.length_drop]; omega)
    rw [onDataLoop_continued readable called ok progress prepended]
    rw [unparsed] at refilledReadable
    have later := rest refilled refilledReadable
    rw [refilledReadable] at later
    rw [events]
    exact outcome_cons found room parsed later
  · have crowded := @Buffer.retrieveAll_prepend_none buffer
      (buffer.readable.drop result.parsedBytes)
      (by rw [List.length_drop]; omega)
    rw [onDataLoop_aborted readable called ok progress crowded]
    exact .aborted found (Nat.not_le.mp room) rfl events

private theorem outcome_body (readable : 0 < buffer.readableBytes)
    (called : handler.codec.onData buffer.readable 0 = result)
    (ok : result.ok = true)
    (parsed : result.parsedBytes = buffer.readable.length)
    (events : result.events = [])
    (rest : ∀ refilled : Buffer, refilled.readable = [] →
      Outcome register (pending ++ buffer.readable)
        (pending ++ buffer.readable ++ refilled.readable)
        ((handler.onCodec result).onDataLoop fuel refilled)) :
    Outcome register pending (pending ++ buffer.readable)
      (handler.onDataLoop (fuel + 1) buffer) := by
  have length := buffer.readable_length
  have progress : result.parsedBytes ≠ 0 := by omega
  have all : buffer.readable.drop result.parsedBytes = [] := by
    rw [parsed, List.drop_length]
  obtain ⟨refilled, prepended, refilledReadable⟩ :=
    @Buffer.retrieveAll_prepend buffer [] (Nat.zero_le _)
  have later := rest refilled refilledReadable
  rw [refilledReadable, List.append_nil] at later
  rw [onDataLoop_continued readable called ok progress
    (by rw [all]; exact prepended), events, parsed]
  exact outcome_taken later

end Iteration

/-- The run lemma, by induction on the iterations. -/
theorem onDataLoop_outcome {fuel : Nat} {register : WebsocketCodec.Register}
    {pending : Bytes} {handler : WebsocketHandler} {buffer : Buffer}
    (holds : handler.codec.Holds register pending)
    (enough : buffer.readableBytes < fuel) :
    Outcome register pending (pending ++ buffer.readable)
      (handler.onDataLoop fuel buffer) := by
  induction fuel generalizing register pending handler buffer with
  | zero => exact (Nat.not_lt_zero _ enough).elim
  | succ fuel ih =>
      have length := buffer.readable_length
      by_cases empty : buffer.readableBytes = 0
      · rw [onDataLoop_drained empty]
        exact outcome_drained holds
          (List.eq_nil_of_length_eq_zero (length.trans empty))
      · have readable : 0 < buffer.readableBytes := Nat.pos_of_ne_zero empty
        have turn := holds.turn buffer.readable
        generalize called : handler.codec.onData buffer.readable 0 = result
          at turn
        cases turn with
        | frame found behind held =>
            have parsed := Nat.add_sub_of_le (Nat.le_of_lt behind)
            apply outcome_frame readable called rfl behind parsed rfl found
            intro refilled refilledReadable
            have shorter : refilled.readableBytes < fuel := by
              rw [← refilled.readable_length, refilledReadable,
                List.length_drop, List.length_append]
              omega
            rw [← List.nil_append refilled.readable]
            apply ih ?_ shorter
            rw [onCodec_codec]
            exact held
        | reject boundary found held =>
            subst boundary
            have headed := Framing.prefixedFront_eq_reject_iff.mp found
            apply outcome_headless readable called (.inl rfl) ?_ ?_ rfl held
            · simp [headed]
            · simp only [complaint, headed]
        | tooShort boundary found short held =>
            subst boundary
            have one : buffer.readable.length = 1 := by omega
            apply outcome_headless readable called (.inl rfl) ?_ ?_ rfl held
            · simp [found]
            · simp only [complaint, found, one, if_true]
        | headerIncomplete boundary found long held =>
            subst boundary
            have several : buffer.readable.length ≠ 1 := by omega
            apply outcome_headless readable called (.inr rfl) ?_ ?_ rfl held
            · simp [found]
            · simp only [complaint, found, several, if_false]
        | bodyIncomplete headed short held =>
            apply outcome_body readable called rfl rfl rfl
            intro refilled refilledReadable
            have shorter : refilled.readableBytes < fuel := by
              rw [← refilled.readable_length, refilledReadable,
                List.length_nil]
              omega
            apply ih ?_ shorter
            rw [onCodec_codec]
            exact held

theorem onData_outcome {register : WebsocketCodec.Register} {pending : Bytes}
    {handler : WebsocketHandler}
    (holds : handler.codec.Holds register pending) (buffer : Buffer) :
    Outcome register pending (pending ++ buffer.readable)
      (handler.onData buffer) :=
  onDataLoop_outcome holds (Nat.lt_succ_self _)

theorem Outcome.room_iff {register : WebsocketCodec.Register}
    {pending stream : Bytes} {result : LoopResult}
    (outcome : Outcome register pending stream result) :
    result.exit ≠ .aborted ↔ Room stream := by
  cases outcome with
  | completed room exit =>
      refine iff_of_true ?_ room
      rcases exit with exit | exit <;> simp [exit]
  | aborted found crowded exit =>
      refine iff_of_false (not_not.mpr exit) ?_
      intro room
      exact absurd (room _ _ found) (Nat.not_le.mpr crowded)

theorem Outcome.exit_ne_outOfFuel {register : WebsocketCodec.Register}
    {pending stream : Bytes} {result : LoopResult}
    (outcome : Outcome register pending stream result) :
    result.exit ≠ .outOfFuel := by
  cases outcome with
  | completed _ exit => rcases exit with exit | exit <;> simp [exit]
  | aborted _ _ exit => simp [exit]

theorem carry_deliver_sound {register : WebsocketCodec.Register}
    (sound : register.assembly.Sound) (wires : List WireFrame) :
    (carry WebsocketCodec.deliver register wires).assembly.Sound := by
  induction wires generalizing register with
  | nil => exact sound
  | cons wire wires ih =>
      exact @ih (WebsocketCodec.deliver register wire).1
        (sound.onParsedFrame _)

/-- The parser of a reachable handler has taken a part of some frame, and its
codec is sound. -/
theorem Reachable.holds {handler : WebsocketHandler}
    (reachable : Reachable handler) :
    ∃ register pending, handler.codec.Holds register pending ∧
      register.assembly.Sound := by
  induction reachable with
  | upgraded conn memory =>
      exact ⟨_, _, WebsocketCodec.Holds.init memory,
        WebsocketCodec.sound_init memory⟩
  | onData buffer _ survived ih =>
      obtain ⟨register, pending, holds, sound⟩ := ih
      have outcome := onData_outcome holds buffer
      cases outcome with
      | completed _ _ _ _ _ held =>
          exact ⟨_, _, held, carry_deliver_sound sound _⟩
      | aborted _ _ exit => exact (survived exit).elim

/-- Every `prepend` of the loop but one that aborts is safe. -/
theorem onDataLoop_prepends (fuel : Nat) (handler : WebsocketHandler)
    (buffer : Buffer) :
    (∀ call ∈ (handler.onDataLoop fuel buffer).prepends, call.Safe) ↔
      (handler.onDataLoop fuel buffer).exit ≠ .aborted := by
  induction fuel generalizing handler buffer with
  | zero => simp [onDataLoop]
  | succ fuel ih =>
      by_cases empty : buffer.readableBytes = 0
      · simp [onDataLoop_drained empty]
      · have readable : 0 < buffer.readableBytes := Nat.pos_of_ne_zero empty
        generalize called : handler.codec.onData buffer.readable 0 = result
        by_cases stop : result.ok = false ∨ result.parsedBytes = 0
        · simp [onDataLoop_stopped readable called stop]
        · obtain ⟨ok, progress⟩ := not_or.mp stop
          rw [Bool.not_eq_false] at ok
          cases prepended : buffer.retrieveAll.prepend
              (buffer.readable.drop result.parsedBytes) with
          | none =>
              rw [onDataLoop_aborted readable called ok progress prepended]
              refine iff_of_false ?_ (not_not.mpr rfl)
              intro safe
              obtain ⟨later, some, -⟩ :=
                (safe _ List.mem_cons_self).readable
              simp only [PrependCall.unparsed, prepended] at some
              cases some
          | some refilled =>
              rw [onDataLoop_continued readable called ok progress prepended]
              have refilledReadable := Buffer.readable_prepend prepended
              rw [Buffer.retrieveAll_readable, List.append_nil]
                at refilledReadable
              have first : PrependCall.Safe ⟨buffer.retrieveAll,
                  buffer.readable, result.parsedBytes⟩ := by
                refine ⟨?_, refilled, prepended, refilledReadable⟩
                exact (Buffer.prepend_isSome_iff _ _).mp
                  (Option.isSome_of_eq_some prepended)
              simp only [List.forall_mem_cons]
              rw [ih]
              exact and_iff_right first

end WebsocketHandler

end Woody
