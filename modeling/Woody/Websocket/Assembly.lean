import Woody.Foundation.Transducer
import Woody.Websocket.Codec

/-!
# What one frame does to the codec

`FrameStep` lists every way `OnParsedFrame` can handle a frame.  A rejected
frame and a control frame leave the codec as it was; the remaining steps move
one accumulator and the type of the message in progress.
-/

namespace Woody

namespace WebsocketFrame

/-- Close, ping and pong frames. -/
def IsControl (frame : WebsocketFrame) : Prop :=
  frame.opcode = opcodeClose ∨ frame.opcode = opcodePing ∨
    frame.opcode = opcodePong

instance (frame : WebsocketFrame) : Decidable frame.IsControl :=
  inferInstanceAs (Decidable (_ ∨ _ ∨ _))

/-- Frames `OnParsedFrame` has a handler for. -/
def IsHandled (frame : WebsocketFrame) : Prop :=
  frame.opcode = opcodeContinuation ∨
    (∃ kind : DataType, frame.opcode = kind.opcode) ∨ frame.IsControl

end WebsocketFrame

/-- The data message an event delivers. -/
def CodecEvent.dataMessage? : CodecEvent → Option (DataType × Bytes)
  | .text message => some (.text, message.data)
  | .binary message => some (.binary, message.data)
  | _ => none

@[simp] theorem DataType.callback_dataMessage? (kind : DataType)
    (message : WebsocketMessage) :
    (kind.callback message).dataMessage? = some (kind, message.data) := by
  cases kind <;> rfl

theorem DataType.callback_not_error (kind : DataType)
    (message : WebsocketMessage) : ¬ (kind.callback message).IsError := by
  cases kind <;> simp [DataType.callback, CodecEvent.IsError]

/-- The events of the control frame handlers. -/
def CodecEvent.IsControlMessage : CodecEvent → Prop
  | .close _ => True
  | .ping _ => True
  | .pong _ => True
  | _ => False

namespace WebsocketCodec

section Slots

variable (codec : WebsocketCodec) (kind : DataType)
  (first second : WebsocketMessage)

@[simp] theorem message_setMessage :
    (codec.setMessage kind first).message kind = first := by
  cases kind <;> rfl

@[simp] theorem setMessage_setMessage :
    (codec.setMessage kind first).setMessage kind second =
      codec.setMessage kind second := by
  cases kind <;> rfl

@[simp] theorem setMessage_isExpectedMasking :
    (codec.setMessage kind first).isExpectedMasking =
      codec.isExpectedMasking := by
  cases kind <;> rfl

@[simp] theorem message_setType (type : MessageType) :
    (codec.setType type).message kind = codec.message kind := by
  cases kind <;> rfl

@[simp] theorem setMessage_setType (type : MessageType) :
    (codec.setType type).setMessage kind first =
      (codec.setMessage kind first).setType type := by
  cases kind <;> rfl

@[simp] theorem setType_setType (type later : MessageType) :
    (codec.setType type).setType later = codec.setType later := rfl

@[simp] theorem setType_isExpectedMasking (type : MessageType) :
    (codec.setType type).isExpectedMasking = codec.isExpectedMasking := rfl

end Slots

/-- The codec with one accumulator replaced and the given message type. -/
def advance (codec : WebsocketCodec) (kind : DataType)
    (message : WebsocketMessage) (type : MessageType) : WebsocketCodec :=
  (codec.setMessage kind message).setType type

theorem onParsedFrame_data {frame : WebsocketFrame} {kind : DataType}
    (opcode : frame.opcode = kind.opcode) (codec : WebsocketCodec) :
    codec.onParsedFrame frame =
      ((onDataFrame kind codec frame).codec,
        (onDataFrame kind codec frame).events) := by
  cases kind <;> simp only [onParsedFrame, opcode] <;> rfl

theorem onParsedFrame_continuation {frame : WebsocketFrame}
    (opcode : frame.opcode = opcodeContinuation) (codec : WebsocketCodec) :
    codec.onParsedFrame frame =
      ((codec.onContinuationFrame frame).codec,
        (codec.onContinuationFrame frame).events) := by
  simp only [onParsedFrame, opcode, if_true]

theorem onContinuationFrame_busy {codec : WebsocketCodec}
    {frame : WebsocketFrame} {body : Bytes} {kind : DataType}
    (accepted : codec.handleFrameBody frame = .ok body)
    (busy : codec.curMessageType = kind.messageType) :
    codec.onContinuationFrame frame =
      codec.continueMessage kind frame body := by
  cases kind <;> simp [onContinuationFrame, accepted, busy,
    DataType.messageType]

/-- Every way a frame can be handled. -/
inductive FrameStep (codec : WebsocketCodec) (frame : WebsocketFrame) :
    WebsocketCodec × List CodecEvent → Prop where
  | unhandled (unhandled : ¬ frame.IsHandled) :
      FrameStep codec frame (codec, [])
  | refused {reason : String} (handled : frame.IsHandled)
      (body : codec.handleFrameBody frame = .error reason) :
      FrameStep codec frame (codec, [.error reason])
  | control {body : Bytes} {event : CodecEvent}
      (control : frame.IsControl)
      (accepted : codec.handleFrameBody frame = .ok body)
      (message : event.IsControlMessage) :
      FrameStep codec frame (codec, [event])
  | notStarted {body : Bytes}
      (opcode : frame.opcode = opcodeContinuation)
      (accepted : codec.handleFrameBody frame = .ok body)
      (idle : codec.curMessageType = .none) :
      FrameStep codec frame (codec, [.error "Message not started yet."])
  | overlapping {body : Bytes} {kind : DataType}
      (opcode : frame.opcode = kind.opcode)
      (accepted : codec.handleFrameBody frame = .ok body)
      (busy : codec.curMessageType ≠ .none) :
      FrameStep codec frame (codec,
        [.error "Received a new message before completing previous"])
  | started {body : Bytes} {kind : DataType}
      (opcode : frame.opcode = kind.opcode)
      (accepted : codec.handleFrameBody frame = .ok body)
      (idle : codec.curMessageType = .none) (more : frame.fin ≠ 1) :
      FrameStep codec frame
        (codec.advance kind ((codec.message kind).append body)
          kind.messageType, [])
  | single {body : Bytes} {kind : DataType}
      (opcode : frame.opcode = kind.opcode)
      (accepted : codec.handleFrameBody frame = .ok body)
      (idle : codec.curMessageType = .none) (final : frame.fin = 1) :
      FrameStep codec frame
        (codec.advance kind (codec.message kind).cleanUp .none,
          [kind.callback ((codec.message kind).append body)])
  | continued {body : Bytes} {kind : DataType}
      (opcode : frame.opcode = opcodeContinuation)
      (accepted : codec.handleFrameBody frame = .ok body)
      (busy : codec.curMessageType = kind.messageType)
      (more : frame.fin ≠ 1) :
      FrameStep codec frame
        (codec.advance kind ((codec.message kind).append body) .none, [])
  | finished {body : Bytes} {kind : DataType}
      (opcode : frame.opcode = opcodeContinuation)
      (accepted : codec.handleFrameBody frame = .ok body)
      (busy : codec.curMessageType = kind.messageType)
      (final : frame.fin = 1) :
      FrameStep codec frame
        (codec.advance kind (codec.message kind).cleanUp .none,
          [kind.callback ((codec.message kind).append body)])
  | stray {body : Bytes}
      (opcode : frame.opcode = opcodeContinuation)
      (accepted : codec.handleFrameBody frame = .ok body)
      (idle : codec.curMessageType ≠ .none)
      (other : ∀ kind : DataType, codec.curMessageType ≠ kind.messageType) :
      FrameStep codec frame (codec.setType .none, [])

private theorem continuation_step {codec : WebsocketCodec}
    {frame : WebsocketFrame} (opcode : frame.opcode = opcodeContinuation) :
    FrameStep codec frame ((codec.onContinuationFrame frame).codec,
      (codec.onContinuationFrame frame).events) := by
  have continued (kind : DataType) {body : Bytes}
      (accepted : codec.handleFrameBody frame = .ok body)
      (busy : codec.curMessageType = kind.messageType) :
      FrameStep codec frame ((codec.continueMessage kind frame body).codec,
        (codec.continueMessage kind frame body).events) := by
    unfold continueMessage
    by_cases final : frame.fin = 1
    · simp only [final, if_true, message_setMessage, setMessage_setMessage]
      exact .finished opcode accepted busy final
    · simp only [final, if_false]
      exact .continued opcode accepted busy final
  unfold onContinuationFrame
  cases accepted : codec.handleFrameBody frame with
  | error reason => exact .refused (.inl opcode) accepted
  | ok body =>
      cases type : codec.curMessageType with
      | none => exact .notStarted opcode accepted type
      | text => exact continued .text accepted type
      | binary => exact continued .binary accepted type
      | close =>
          exact .stray opcode accepted (by simp [type])
            (by intro kind; cases kind <;> simp [type, DataType.messageType])
      | ping =>
          exact .stray opcode accepted (by simp [type])
            (by intro kind; cases kind <;> simp [type, DataType.messageType])
      | pong =>
          exact .stray opcode accepted (by simp [type])
            (by intro kind; cases kind <;> simp [type, DataType.messageType])

private theorem data_step {codec : WebsocketCodec} {frame : WebsocketFrame}
    {kind : DataType} (opcode : frame.opcode = kind.opcode) :
    FrameStep codec frame ((codec.onDataFrame kind frame).codec,
      (codec.onDataFrame kind frame).events) := by
  unfold onDataFrame
  cases accepted : codec.handleFrameBody frame with
  | error reason => exact .refused (.inr (.inl ⟨kind, opcode⟩)) accepted
  | ok body =>
      by_cases busy : codec.curMessageType ≠ .none
      · simp only
        rw [if_pos busy]
        exact .overlapping opcode accepted busy
      · have idle : codec.curMessageType = .none := not_not.mp busy
        simp only [message_setType, setMessage_setType, message_setMessage,
          setMessage_setMessage, setType_setType]
        rw [if_neg busy]
        by_cases final : frame.fin = 1
        · rw [if_pos final]
          exact .single opcode accepted idle final
        · rw [if_neg final]
          exact .started opcode accepted idle final

private theorem control_step {codec : WebsocketCodec}
    {frame : WebsocketFrame} {callback : Bytes → CodecEvent}
    (control : frame.IsControl)
    (message : ∀ body, (callback body).IsControlMessage) :
    FrameStep codec frame ((onControlFrame callback codec frame).codec,
      (onControlFrame callback codec frame).events) := by
  unfold onControlFrame
  cases accepted : codec.handleFrameBody frame with
  | error reason => exact .refused (.inr (.inr control)) accepted
  | ok body => exact .control control accepted (message body)

/-- Every frame is handled in one of these ways. -/
theorem onParsedFrame_step (codec : WebsocketCodec) (frame : WebsocketFrame) :
    FrameStep codec frame (codec.onParsedFrame frame) := by
  unfold onParsedFrame
  split_ifs with continuation text binary close ping pong
  · exact continuation_step continuation
  · exact @data_step _ _ .text text
  · exact @data_step _ _ .binary binary
  · exact control_step (.inl close) fun _ => trivial
  · exact control_step (.inr (.inl ping)) fun _ => trivial
  · exact control_step (.inr (.inr pong)) fun _ => trivial
  · refine .unhandled ?_
    rintro (isContinuation | ⟨kind, isData⟩ | isControl)
    · exact continuation isContinuation
    · cases kind
      · exact text isData
      · exact binary isData
    · rcases isControl with isClose | isPing | isPong
      · exact close isClose
      · exact ping isPing
      · exact pong isPong

theorem FrameStep.isExpectedMasking {codec : WebsocketCodec}
    {frame : WebsocketFrame} {result : WebsocketCodec × List CodecEvent}
    (step : FrameStep codec frame result) :
    result.1.isExpectedMasking = codec.isExpectedMasking := by
  cases step <;> simp [advance]

theorem onParsedFrame_refused {codec : WebsocketCodec}
    {frame : WebsocketFrame} {reason : String} (handled : frame.IsHandled)
    (refused : codec.handleFrameBody frame = .error reason) :
    codec.onParsedFrame frame = (codec, [.error reason]) := by
  have step := codec.onParsedFrame_step frame
  generalize codec.onParsedFrame frame = result at step
  cases step with
  | unhandled unhandled => exact (unhandled handled).elim
  | refused _ body =>
      rw [refused] at body
      cases body
      rfl
  | control _ accepted | notStarted _ accepted | overlapping _ accepted
  | started _ accepted | single _ accepted | continued _ accepted
  | finished _ accepted | stray _ accepted =>
      rw [refused] at accepted
      cases accepted

/-- A control frame leaves the codec as it was and delivers no data. -/
theorem FrameStep.of_control {codec : WebsocketCodec}
    {frame : WebsocketFrame} {result : WebsocketCodec × List CodecEvent}
    (step : FrameStep codec frame result) (control : frame.IsControl) :
    result.1 = codec ∧ result.2.filterMap CodecEvent.dataMessage? = [] := by
  have notContinuation : frame.opcode ≠ opcodeContinuation := by
    rcases control with opcode | opcode | opcode <;> rw [opcode] <;> decide
  have notData (kind : DataType) : frame.opcode ≠ kind.opcode := by
    rcases control with opcode | opcode | opcode <;> rw [opcode] <;>
      cases kind <;> decide
  cases step with
  | unhandled => exact ⟨rfl, rfl⟩
  | refused => exact ⟨rfl, rfl⟩
  | @control body event _ accepted message =>
      refine ⟨rfl, ?_⟩
      cases event <;> first | rfl | exact message.elim
  | notStarted opcode => exact (notContinuation opcode).elim
  | overlapping opcode => exact (notData _ opcode).elim
  | started opcode => exact (notData _ opcode).elim
  | single opcode => exact (notData _ opcode).elim
  | continued opcode => exact (notContinuation opcode).elim
  | finished opcode => exact (notContinuation opcode).elim
  | stray opcode => exact (notContinuation opcode).elim

/-- A codec of a server: it expects masks, and the message in progress is a
data message. -/
structure Sound (codec : WebsocketCodec) : Prop where
  expected : codec.isExpectedMasking = true
  type : codec.curMessageType = .none ∨
    ∃ kind : DataType, codec.curMessageType = kind.messageType

theorem sound_init (memory : WebsocketParser) : Sound (init memory) :=
  ⟨rfl, .inl rfl⟩

theorem FrameStep.sound {codec : WebsocketCodec} {frame : WebsocketFrame}
    {result : WebsocketCodec × List CodecEvent}
    (step : FrameStep codec frame result) (sound : codec.Sound) :
    result.1.Sound := by
  refine ⟨step.isExpectedMasking.trans sound.expected, ?_⟩
  cases step with
  | unhandled | refused | control | notStarted | overlapping =>
      exact sound.type
  | @started _ kind => exact .inr ⟨kind, rfl⟩
  | single | continued | finished | stray => exact .inl rfl

theorem Sound.onParsedFrame {codec : WebsocketCodec} (sound : codec.Sound)
    (frame : WebsocketFrame) : (codec.onParsedFrame frame).1.Sound :=
  (codec.onParsedFrame_step frame).sound sound

/-- The codec behind a sequence of frames. -/
def after (codec : WebsocketCodec) : List WebsocketFrame → WebsocketCodec
  | [] => codec
  | frame :: frames => after (codec.onParsedFrame frame).1 frames

/-- The frames of a sequence, each with the events it causes. -/
def trace (codec : WebsocketCodec) :
    List WebsocketFrame → List (WebsocketFrame × List CodecEvent)
  | [] => []
  | frame :: frames =>
      (frame, (codec.onParsedFrame frame).2) ::
        trace (codec.onParsedFrame frame).1 frames

/-- All events of a sequence of frames. -/
def events (codec : WebsocketCodec) (frames : List WebsocketFrame) :
    List CodecEvent :=
  (codec.trace frames).flatMap Prod.snd

theorem after_eq (codec : WebsocketCodec) (frames : List WebsocketFrame) :
    codec.after frames = Transducer.after onParsedFrame codec frames := by
  induction frames generalizing codec with
  | nil => rfl
  | cons frame frames ih => exact ih _

theorem trace_eq (codec : WebsocketCodec) (frames : List WebsocketFrame) :
    codec.trace frames = Transducer.trace onParsedFrame codec frames := by
  induction frames generalizing codec with
  | nil => rfl
  | cons frame frames ih => exact congrArg _ (ih _)

/-- The frames of a sequence that are not control frames. -/
def dataFrames (frames : List WebsocketFrame) : List WebsocketFrame :=
  frames.filter fun frame => ¬ frame.IsControl

theorem dataFrames_eq (codec : WebsocketCodec)
    (frames : List WebsocketFrame) :
    dataFrames frames =
      Transducer.purge onParsedFrame
        (fun entry => decide entry.1.IsControl) codec frames := by
  rw [Transducer.purge_eq_filter
    fun frame : WebsocketFrame => decide frame.IsControl]
  simp [dataFrames]

theorem control_unmoved (codec : WebsocketCodec) (frame : WebsocketFrame)
    (control : decide frame.IsControl = true) :
    (codec.onParsedFrame frame).1 = codec :=
  ((codec.onParsedFrame_step frame).of_control (of_decide_eq_true control)).1

/-- Control frames are invisible to message assembly. -/
theorem after_dataFrames (codec : WebsocketCodec)
    (frames : List WebsocketFrame) :
    codec.after (dataFrames frames) = codec.after frames := by
  rw [dataFrames_eq codec, after_eq, after_eq,
    Transducer.after_purge control_unmoved]

theorem trace_dataFrames (codec : WebsocketCodec)
    (frames : List WebsocketFrame) :
    codec.trace (dataFrames frames) =
      (codec.trace frames).filter fun entry => ¬ entry.1.IsControl := by
  rw [dataFrames_eq codec, trace_eq, trace_eq,
    Transducer.trace_purge control_unmoved]
  simp

/-- The data messages a sequence of frames delivers. -/
def messages (codec : WebsocketCodec) (frames : List WebsocketFrame) :
    List (DataType × Bytes) :=
  (codec.events frames).filterMap CodecEvent.dataMessage?

theorem messages_eq (codec : WebsocketCodec) (frames : List WebsocketFrame) :
    codec.messages frames =
      (Transducer.outputs onParsedFrame codec frames).filterMap
        CodecEvent.dataMessage? := by
  rw [messages, events, trace_eq, Transducer.outputs]

theorem messages_dataFrames (codec : WebsocketCodec)
    (frames : List WebsocketFrame) :
    codec.messages (dataFrames frames) = codec.messages frames := by
  rw [dataFrames_eq codec, messages_eq, messages_eq]
  apply Transducer.filterMap_outputs_purge control_unmoved
  intro codec frame control
  exact ((codec.onParsedFrame_step frame).of_control
    (of_decide_eq_true control)).2

/-- The codecs a connection can hold, fed with bytes or with frames. -/
inductive Reachable : WebsocketCodec → Prop where
  | init (memory : WebsocketParser) : Reachable (WebsocketCodec.init memory)
  | onData {codec : WebsocketCodec} (data : Bytes) :
      Reachable codec → Reachable (codec.onData data 0).codec
  | onParsedFrame {codec : WebsocketCodec} (frame : WebsocketFrame) :
      Reachable codec → Reachable (codec.onParsedFrame frame).1

theorem onParsedFrame_isExpectedMasking (codec : WebsocketCodec)
    (frame : WebsocketFrame) :
    (codec.onParsedFrame frame).1.isExpectedMasking =
      codec.isExpectedMasking :=
  (codec.onParsedFrame_step frame).isExpectedMasking

theorem onData_isExpectedMasking (codec : WebsocketCodec) (data : Bytes)
    (parsedBytes : Nat) :
    (codec.onData data parsedBytes).codec.isExpectedMasking =
      codec.isExpectedMasking := by
  cases delivered : (codec.parser.parse data parsedBytes).delivered with
  | none =>
      simp only [onData, delivered, onDelivered]
      rfl
  | some frame =>
      simp only [onData, delivered, onDelivered,
        onParsedFrame_isExpectedMasking]
      rfl

theorem Reachable.isExpectedMasking {codec : WebsocketCodec}
    (reachable : Reachable codec) : codec.isExpectedMasking = true := by
  induction reachable with
  | init memory => rfl
  | onData data _ ih => exact (onData_isExpectedMasking _ _ _).trans ih
  | onParsedFrame frame _ ih =>
      exact (onParsedFrame_isExpectedMasking _ _).trans ih

end WebsocketCodec

end Woody
