import Woody.Websocket.BufferSafety

/-!
# Frames behind a rejected frame

The frame handlers return whether they accept a frame, and `OnParsedFrame`
drops the answer, so the read loop goes on behind a rejected frame.  Whether
a later frame still reaches a callback depends on the frames alone.
-/

namespace Woody

/-- What becomes of a frame: it is reported as an error, it only moves the
assembly, or it is answered by a message callback. -/
inductive Fate where
  | refused
  | absorbed
  | answered
  deriving DecidableEq

namespace WebsocketFrame

/-- A payload under the key zero. -/
def Keyless (frame : WebsocketFrame) : Prop :=
  frame.body ≠ [] ∧ frame.maskingKey = 0

instance (frame : WebsocketFrame) : Decidable frame.Keyless :=
  inferInstanceAs (Decidable (_ ∧ _))

/-- The fate of a frame, and whether a message is in progress behind it. -/
def judge (busy : Bool) (frame : WebsocketFrame) : Fate × Bool :=
  if frame.Keyless then
    (.refused, busy)
  else if frame.IsControl then
    (.answered, busy)
  else if frame.opcode = opcodeContinuation then
    match busy with
    | false => (.refused, false)
    | true => (if frame.fin = 1 then .answered else .absorbed, false)
  else
    match busy with
    | true => (.refused, true)
    | false => if frame.fin = 1 then (.answered, false) else (.absorbed, true)

/-- The fates of a sequence of frames. -/
def fates : Bool → List WebsocketFrame → List Fate
  | _, [] => []
  | busy, frame :: frames =>
      (frame.judge busy).1 :: fates (frame.judge busy).2 frames

end WebsocketFrame

/-- No message event stands behind an error event. -/
def Silent (events : List CodecEvent) : Prop :=
  events.Pairwise fun earlier later => earlier.IsError → later.IsError

instance (events : List CodecEvent) : Decidable (Silent events) :=
  inferInstanceAs (Decidable (List.Pairwise _ _))

/-- The events that a frame of a given fate causes. -/
inductive Fate.Shows : Fate → List CodecEvent → Prop where
  | refused (reason : String) : Fate.Shows .refused [.error reason]
  | absorbed : Fate.Shows .absorbed []
  | answered {event : CodecEvent} (message : ¬ event.IsError) :
      Fate.Shows .answered [event]

theorem Fate.Shows.silent {fate : Fate} {events : List CodecEvent}
    (shows : fate.Shows events) : Silent events := by
  cases shows <;> simp [Silent]

theorem CodecEvent.IsControlMessage.not_error {event : CodecEvent}
    (message : event.IsControlMessage) : ¬ event.IsError := by
  cases event <;> simp_all [CodecEvent.IsControlMessage, CodecEvent.IsError]

namespace WebsocketCodec

/-- A message is in progress. -/
def busy (codec : WebsocketCodec) : Bool := codec.curMessageType ≠ .none

theorem handleFrameBody_error_iff {codec : WebsocketCodec}
    (sound : codec.Sound) (frame : WebsocketFrame) :
    (∃ reason, codec.handleFrameBody frame = .error reason) ↔
      frame.Keyless := by
  unfold handleFrameBody WebsocketFrame.Keyless
  by_cases empty : frame.body = []
  · simp [empty]
  · by_cases zero : frame.maskingKey = 0
    · simp [empty, zero, sound.expected]
    · simp [empty, zero, sound.expected]

private theorem not_keyless {codec : WebsocketCodec} (sound : codec.Sound)
    {frame : WebsocketFrame} {body : Bytes}
    (accepted : codec.handleFrameBody frame = .ok body) :
    ¬ frame.Keyless := by
  intro keyless
  obtain ⟨reason, refused⟩ := (handleFrameBody_error_iff sound frame).mpr keyless
  rw [accepted] at refused
  cases refused

private theorem judge_continuation {frame : WebsocketFrame}
    (opcode : frame.opcode = opcodeContinuation) (keyed : ¬ frame.Keyless)
    (busy : Bool) :
    frame.judge busy =
      match busy with
      | false => (.refused, false)
      | true => (if frame.fin = 1 then .answered else .absorbed, false) := by
  have notControl : ¬ frame.IsControl := by
    rintro (control | control | control) <;> rw [opcode] at control <;>
      exact absurd control (by decide)
  simp only [WebsocketFrame.judge, keyed, notControl, opcode, if_false, if_true]

private theorem judge_data {frame : WebsocketFrame} {kind : DataType}
    (opcode : frame.opcode = kind.opcode) (keyed : ¬ frame.Keyless)
    (busy : Bool) :
    frame.judge busy =
      match busy with
      | true => (.refused, true)
      | false =>
          if frame.fin = 1 then (.answered, false) else (.absorbed, true) := by
  have notControl : ¬ frame.IsControl := by
    rintro (control | control | control) <;> rw [opcode] at control <;>
      revert control <;> cases kind <;> decide
  have notContinuation : frame.opcode ≠ opcodeContinuation := by
    rw [opcode]
    cases kind <;> decide
  simp only [WebsocketFrame.judge, keyed, notControl, notContinuation,
    if_false]

/-- The step lemma: the frame handlers follow the fates. -/
theorem onParsedFrame_judge {codec : WebsocketCodec} (sound : codec.Sound)
    {frame : WebsocketFrame} (handled : frame.IsHandled) :
    (frame.judge codec.busy).1.Shows (codec.onParsedFrame frame).2 ∧
      (codec.onParsedFrame frame).1.busy = (frame.judge codec.busy).2 := by
  have step := codec.onParsedFrame_step frame
  generalize codec.onParsedFrame frame = result at step
  cases step with
  | unhandled unhandled => exact (unhandled handled).elim
  | refused _ body =>
      have keyless := (handleFrameBody_error_iff sound frame).mp ⟨_, body⟩
      simp only [WebsocketFrame.judge, keyless, if_true]
      exact ⟨.refused _, trivial⟩
  | control control accepted message =>
      have keyed := not_keyless sound accepted
      simp only [WebsocketFrame.judge, keyed, control, if_false, if_true]
      exact ⟨.answered message.not_error, trivial⟩
  | notStarted opcode accepted idle =>
      have idle' : codec.busy = false := by simp [busy, idle]
      rw [judge_continuation opcode (not_keyless sound accepted), idle']
      exact ⟨.refused _, rfl⟩
  | overlapping opcode accepted busy' =>
      have isBusy : codec.busy = true := by simp [busy, busy']
      rw [judge_data opcode (not_keyless sound accepted), isBusy]
      exact ⟨.refused _, rfl⟩
  | @started body kind opcode accepted idle more =>
      have idle' : codec.busy = false := by simp [busy, idle]
      rw [judge_data opcode (not_keyless sound accepted), idle']
      simp only [more, if_false]
      exact ⟨.absorbed, by cases kind <;> rfl⟩
  | @single body kind opcode accepted idle final =>
      have idle' : codec.busy = false := by simp [busy, idle]
      rw [judge_data opcode (not_keyless sound accepted), idle']
      simp only [final, if_true]
      exact ⟨.answered (kind.callback_not_error _), rfl⟩
  | @continued body kind opcode accepted busy' more =>
      have isBusy : codec.busy = true := by
        rw [busy, busy']
        cases kind <;> rfl
      rw [judge_continuation opcode (not_keyless sound accepted), isBusy]
      simp only [more, if_false]
      exact ⟨.absorbed, rfl⟩
  | @finished body kind opcode accepted busy' final =>
      have isBusy : codec.busy = true := by
        rw [busy, busy']
        cases kind <;> rfl
      rw [judge_continuation opcode (not_keyless sound accepted), isBusy]
      simp only [final, if_true]
      exact ⟨.answered (kind.callback_not_error _), rfl⟩
  | stray opcode accepted started other =>
      rcases sound.type with idle | ⟨kind, type⟩
      · exact (started idle).elim
      · exact (other kind type).elim

/-- The run lemma, by induction on the decoded frames. -/
theorem emitAll_deliver_shows {register : Register}
    (sound : register.assembly.Sound) {wires : List WireFrame}
    (handled : ∀ wire ∈ wires, ∀ key,
      (WebsocketParser.emit key wire).2.IsHandled) :
    List.Forall₂ Fate.Shows
      (WebsocketFrame.fates register.assembly.busy
        (emitAll WebsocketParser.emit register.key wires))
      ((emitAll deliver register wires).map Delivery.events) := by
  induction wires generalizing register with
  | nil => exact .nil
  | cons wire wires ih =>
      obtain ⟨shows, next⟩ := onParsedFrame_judge sound
        (handled wire List.mem_cons_self register.key)
      refine .cons shows ?_
      rw [← next]
      exact @ih (deliver register wire).1 (sound.onParsedFrame _)
        fun later member => handled later (List.mem_cons_of_mem _ member)

end WebsocketCodec

/-- No answered frame stands behind a refused one. -/
def Hushed (fates : List Fate) : Prop :=
  fates.Pairwise fun earlier later => earlier = .refused → later ≠ .answered

instance (fates : List Fate) : Decidable (Hushed fates) :=
  inferInstanceAs (Decidable (List.Pairwise _ _))

private theorem shows_error_iff {fate : Fate} {events : List CodecEvent}
    (shows : fate.Shows events) :
    fate ≠ .answered ↔ ∀ event ∈ events, event.IsError := by
  cases shows with
  | refused reason => simp [CodecEvent.IsError]
  | absorbed => simp
  | answered message => simp [message]

private theorem no_answer_iff {fates : List Fate}
    {reports : List (List CodecEvent)}
    (shows : List.Forall₂ Fate.Shows fates reports) :
    (∀ fate ∈ fates, fate ≠ .answered) ↔
      ∀ event ∈ reports.flatten, event.IsError := by
  induction shows with
  | nil => simp
  | cons head _ ih =>
      rw [List.flatten_cons, List.forall_mem_append, List.forall_mem_cons,
        shows_error_iff head, ih]

theorem silent_flatten_iff {fates : List Fate}
    {reports : List (List CodecEvent)}
    (shows : List.Forall₂ Fate.Shows fates reports) :
    Silent reports.flatten ↔ Hushed fates := by
  induction shows with
  | nil => simp [Silent, Hushed]
  | @cons fate events fates reports head tail ih =>
      have hushed : Hushed (fate :: fates) ↔
          (fate = .refused → ∀ later ∈ fates, later ≠ .answered) ∧
            Hushed fates := by
        simp only [Hushed, List.pairwise_cons]
        apply and_congr_left
        intro _
        constructor
        · intro each refused later member
          exact each later member refused
        · intro each later member refused
          exact each refused later member
      rw [hushed, ← ih, List.flatten_cons]
      cases head with
      | refused reason =>
          rw [no_answer_iff tail]
          simp [Silent, CodecEvent.IsError]
      | absorbed => simp
      | @answered event message => simp [Silent, message]

namespace WebsocketParser

/-- The frames that the data completes, as they will be delivered. -/
def ahead (parser : WebsocketParser) (data : Bytes) : List WebsocketFrame :=
  let behind :=
    emitAll emit parser.maskingKey (WireFraming.frames (data.drop parser.missing))
  if parser.state = .headerBegin then
    behind
  else if parser.missing ≤ data.length then
    { parser.frame with body := parser.body ++ data.take parser.missing } ::
      behind
  else
    []

theorem Holds.ahead_eq {key : UInt32} {pending data : Bytes}
    {parser : WebsocketParser} (holds : Holds key pending parser) :
    parser.ahead data =
      emitAll emit key (WireFraming.frames (pending ++ data)) := by
  cases holds with
  | header state body register =>
      simp only [ahead, missing, state, if_true, List.drop_zero,
        List.nil_append, register]
  | @body header headerSize pending headed short =>
      have extended := HeaderFraming.frame_append data headed
      have bounded := HeaderFraming.size_le headed
      have inBody : (awaiting key header (pending.drop headerSize)).state ≠
          .headerBegin := by
        simp [awaiting]
      have need : (awaiting key header (pending.drop headerSize)).missing =
          headerSize + header.payloadLength.toNat - pending.length := by
        rw [missing_awaiting, List.length_drop]
        omega
      simp only [ahead, inBody, if_false, need]
      by_cases reached : headerSize + header.payloadLength.toNat ≤
          (pending ++ data).length
      · have found := Wire.front_of_reached extended reached
        have payload : pending.drop headerSize ++
            data.take (headerSize + header.payloadLength.toNat -
              pending.length) =
              ((pending ++ data).drop headerSize).take
                header.payloadLength.toNat := by
          have all : (pending.drop headerSize).take
              header.payloadLength.toNat = pending.drop headerSize :=
            List.take_of_length_le (by rw [List.length_drop]; omega)
          have rest : headerSize + header.payloadLength.toNat -
              pending.length = header.payloadLength.toNat -
                (pending.length - headerSize) := by omega
          rw [List.drop_append_of_le_length bounded, List.take_append, all,
            List.length_drop, rest]
        have behind : (pending ++ data).drop
            (headerSize + header.payloadLength.toNat) =
              data.drop (headerSize + header.payloadLength.toNat -
                pending.length) := by
          rw [List.drop_append, List.drop_eq_nil_of_le (Nat.le_of_lt short),
            List.nil_append]
        rw [List.length_append] at reached
        rw [if_pos (by omega), Framing.frames_of_frame found, behind, emitAll]
        simp only [awaiting, frame, payload, emit, FrameHeader.mask]
      · have open_ := Framing.unfinished_of_needMore
          (Wire.front_of_short extended (Nat.not_le.mp reached))
        rw [List.length_append] at reached
        rw [if_neg (by omega), Framing.frames_of_unfinished open_]
        rfl

end WebsocketParser

namespace WebsocketHandler

/-- The bytes behind the last frame are at worst reported as an error. -/
theorem complaint_isError (residue : Bytes) :
    ∀ event ∈ complaint residue, event.IsError := by
  unfold complaint
  split
  · simp [CodecEvent.IsError]
  · split <;> simp [CodecEvent.IsError]
  · simp

theorem silent_append_complaint_iff (events : List CodecEvent)
    (residue : Bytes) :
    Silent (events ++ complaint residue) ↔ Silent events := by
  have errors := complaint_isError residue
  rw [Silent, List.pairwise_append]
  constructor
  · rintro ⟨silent, -, -⟩
    exact silent
  · intro silent
    refine ⟨silent, ?_, ?_⟩
    · exact List.pairwise_of_forall_mem_list
        fun _ _ later member _ => errors later member
    · exact fun _ _ later member _ => errors later member

/-- When a read is silent behind an error.  Among the frames that the
buffer completes no answered frame stands behind a refused one, unless the
server aborts at the first frame. -/
theorem silent_iff {handler : WebsocketHandler}
    (reachable : Reachable handler) (buffer : Buffer) :
    let parser := handler.codec.parser
    Silent (handler.onData buffer).events ↔
      ¬ parser.RoomBehind buffer.readable ∨
        Hushed (WebsocketFrame.fates handler.codec.busy
          (parser.ahead buffer.readable)) := by
  intro parser
  obtain ⟨register, pending, holds, sound⟩ := reachable.holds
  have sameBusy : handler.codec.busy = register.assembly.busy := by
    rw [holds.assembly]
    rfl
  have shows := @WebsocketCodec.emitAll_deliver_shows register sound
    (WireFraming.frames (pending ++ buffer.readable))
    fun _ member key => WebsocketCodec.isHandled_emit member key
  have room := @WebsocketParser.Holds.room_iff _ _ buffer.readable _
    holds.parser
  have outcome := onData_outcome holds buffer
  rw [holds.parser.ahead_eq, sameBusy, ← silent_flatten_iff shows]
  cases outcome with
  | completed fits _ _ events =>
      rw [events, silent_append_complaint_iff, frameEvents,
        List.flatMap_def]
      exact (or_iff_right (not_not.mpr (room.mp fits))).symm
  | @aborted wire total found crowded _ events =>
      have first : wire ∈ Wire.ref (pending ++ buffer.readable) := by
        rw [Wire.ref, Framing.frames_of_frame found]
        exact List.mem_cons_self
      have alone := (WebsocketCodec.onParsedFrame_judge sound
        (WebsocketCodec.isHandled_emit first register.key)).1.silent
      rw [events]
      apply iff_of_true alone
      apply Or.inl
      intro behind
      exact absurd (room.mpr behind wire total found) (Nat.not_le.mpr crowded)

/-- A continuation frame of no message, and a text frame behind it. -/
def strayContinuation : Bytes := [0x80, 0x00, 0x81, 0x00]

/-- Behind it another one and the first fragment of a text cause no message. -/
theorem fragment_behind_error_silent :
    let result := (upgraded ⟨.connected, 0⟩ default).onData
      (Buffer.init.readFd [0x80, 0x00, 0x80, 0x00, 0x01, 0x00])
    result.events.length = 2 ∧ Silent result.events := by
  refine ⟨by decide +kernel, ?_⟩
  apply (silent_iff (.upgraded ⟨.connected, 0⟩ default) _).mpr
  rw [Buffer.readFd_readable, Buffer.init_readable]
  apply Or.inr
  decide

/-- The text frame is delivered behind the error. -/
theorem text_behind_error :
    let result := (upgraded ⟨.connected, 0⟩ default).onData
      (Buffer.init.readFd strayContinuation)
    result.events = [.error "Message not started yet.", .text ⟨.none, []⟩] ∧
      ¬ Silent result.events := by
  intro result
  have events : result.events =
      [.error "Message not started yet.", .text ⟨.none, []⟩] := by
    decide +kernel
  rw [events]
  decide

end WebsocketHandler

end Woody
