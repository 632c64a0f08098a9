import Woody.Websocket.Assembly
import Woody.Websocket.ParserRefinement

/-!
# The codec as a resumable decoder

A codec is its parser and the state of message assembly.  Frame handlers
never touch the parser, and the parser never looks at the assembly state, so
the simulation of the parser extends to the codec: one call of
`WebsocketCodec::OnData` does what the reference decoder and the frame
handlers say.
-/

namespace Woody

namespace WebsocketCodec

section Parser

variable (codec : WebsocketCodec) (parser later : WebsocketParser)

@[simp] theorem setParser_setParser :
    (codec.setParser parser).setParser later = codec.setParser later := rfl

@[simp] theorem setParser_message (kind : DataType) :
    (codec.setParser parser).message kind = codec.message kind := by
  cases kind <;> rfl

@[simp] theorem setParser_curMessageType :
    (codec.setParser parser).curMessageType = codec.curMessageType := rfl

@[simp] theorem setParser_handleFrameBody (frame : WebsocketFrame) :
    (codec.setParser parser).handleFrameBody frame =
      codec.handleFrameBody frame := rfl

theorem setParser_setMessage (kind : DataType) (message : WebsocketMessage) :
    (codec.setParser parser).setMessage kind message =
      (codec.setMessage kind message).setParser parser := by
  cases kind <;> rfl

theorem setParser_setType (type : MessageType) :
    (codec.setParser parser).setType type =
      (codec.setType type).setParser parser := rfl

end Parser

/-- A frame handler, seen from a codec with another parser. -/
private def Handled.setParser (handled : Handled) (parser : WebsocketParser) :
    Handled :=
  { handled with codec := handled.codec.setParser parser }

private theorem setParser_continueMessage (codec : WebsocketCodec)
    (parser : WebsocketParser) (kind : DataType) (frame : WebsocketFrame)
    (body : Bytes) :
    (codec.setParser parser).continueMessage kind frame body =
      (codec.continueMessage kind frame body).setParser parser := by
  unfold continueMessage
  simp only [setParser_message, setParser_setMessage, setParser_setType]
  split_ifs <;> rfl

private theorem setParser_onContinuationFrame (codec : WebsocketCodec)
    (parser : WebsocketParser) (frame : WebsocketFrame) :
    (codec.setParser parser).onContinuationFrame frame =
      (codec.onContinuationFrame frame).setParser parser := by
  unfold onContinuationFrame
  simp only [setParser_handleFrameBody, setParser_curMessageType,
    setParser_continueMessage]
  cases codec.handleFrameBody frame with
  | error reason => rfl
  | ok body => cases codec.curMessageType <;> rfl

private theorem setParser_onDataFrame (codec : WebsocketCodec)
    (parser : WebsocketParser) (kind : DataType) (frame : WebsocketFrame) :
    onDataFrame kind (codec.setParser parser) frame =
      (onDataFrame kind codec frame).setParser parser := by
  unfold onDataFrame
  simp only [setParser_handleFrameBody, setParser_curMessageType]
  cases codec.handleFrameBody frame with
  | error reason => rfl
  | ok body =>
      simp only [setParser_setType, setParser_message, setParser_setMessage]
      split_ifs <;> rfl

private theorem setParser_onControlFrame (callback : Bytes → CodecEvent)
    (codec : WebsocketCodec) (parser : WebsocketParser)
    (frame : WebsocketFrame) :
    onControlFrame callback (codec.setParser parser) frame =
      (onControlFrame callback codec frame).setParser parser := by
  unfold onControlFrame
  simp only [setParser_handleFrameBody]
  cases codec.handleFrameBody frame <;> rfl

theorem setParser_onParsedFrame (codec : WebsocketCodec)
    (parser : WebsocketParser) (frame : WebsocketFrame) :
    (codec.setParser parser).onParsedFrame frame =
      ((codec.onParsedFrame frame).1.setParser parser,
        (codec.onParsedFrame frame).2) := by
  unfold onParsedFrame onTextFrame onBinaryFrame onCloseFrame onPingFrame
    onPongFrame
  simp only [setParser_onContinuationFrame, setParser_onDataFrame,
    setParser_onControlFrame]
  split_ifs <;> rfl

theorem isHandled_emit {stream : Bytes} {wire : WireFrame}
    (member : wire ∈ Wire.ref stream) (key : UInt32) :
    (WebsocketParser.emit key wire).2.IsHandled := by
  have opcode := (Wire.ref_legal stream wire member).1
  simp only [List.mem_cons, List.not_mem_nil, or_false] at opcode
  rcases opcode with opcode | opcode | opcode | opcode | opcode | opcode
  · exact .inl opcode
  · exact .inr (.inl ⟨.text, opcode⟩)
  · exact .inr (.inl ⟨.binary, opcode⟩)
  · exact .inr (.inr (.inl opcode))
  · exact .inr (.inr (.inr (.inl opcode)))
  · exact .inr (.inr (.inr (.inr opcode)))

/-- What a codec carries from frame to frame: the key of the last masked
frame, and the assembly state.  The parser of `assembly` does not matter. -/
structure Register where
  key : UInt32
  assembly : WebsocketCodec

/-- What becomes of one frame: the verdict of `HandleFrameBody` and the
events of its handler. -/
structure Delivery where
  verdict : Except String Bytes
  events : List CodecEvent

def deliver (register : Register) (wire : WireFrame) : Register × Delivery :=
  let parsed := WebsocketParser.emit register.key wire
  let handled := register.assembly.onParsedFrame parsed.2
  (⟨parsed.1, handled.1⟩,
    ⟨register.assembly.handleFrameBody parsed.2, handled.2⟩)

/-- The codec has taken `pending` of an unfinished frame. -/
structure Holds (register : Register) (pending : Bytes)
    (codec : WebsocketCodec) : Prop where
  parser : codec.parser.Holds register.key pending
  assembly : codec = register.assembly.setParser codec.parser

/-- The register of a fresh codec. -/
def Register.init (memory : WebsocketParser) : Register :=
  ⟨memory.maskingKey, WebsocketCodec.init memory⟩

theorem Holds.init (memory : WebsocketParser) :
    Holds (.init memory) [] (WebsocketCodec.init memory) :=
  ⟨WebsocketParser.Holds.init memory, rfl⟩

theorem Holds.unfinished {register : Register} {pending : Bytes}
    {codec : WebsocketCodec} (holds : Holds register pending codec) :
    WireFraming.Unfinished pending :=
  holds.parser.unfinished

theorem Holds.setParser {register : Register} {pending later : Bytes}
    {codec : WebsocketCodec} {parser : WebsocketParser}
    (holds : Holds register pending codec)
    (held : parser.Holds register.key later) :
    Holds register later (codec.setParser parser) := by
  refine ⟨held, ?_⟩
  rw [holds.assembly]
  rfl

/-- Everything one call of `OnData` can do. -/
inductive Turn (register : Register) (pending data : Bytes) :
    DataResult → Prop where
  | frame {wire : WireFrame} {total : Nat} {later : WebsocketCodec}
      (found : WireFraming.front (pending ++ data) = .frame wire total)
      (behind : pending.length < total)
      (held : Holds (deliver register wire).1 [] later) :
      Turn register pending data
        ⟨true, total - pending.length, later, (deliver register wire).2.events⟩
  | reject {later : WebsocketCodec}
      (boundary : pending = [])
      (found : WireFraming.front data = .reject)
      (held : Holds register [] later) :
      Turn register pending data ⟨false, 0, later, [.error "Parser error"]⟩
  | tooShort {later : WebsocketCodec}
      (boundary : pending = [])
      (found : HeaderFraming.front data = .needMore)
      (short : data.length < 2)
      (held : Holds register [] later) :
      Turn register pending data ⟨false, 0, later, [.error "Parser error"]⟩
  | headerIncomplete {later : WebsocketCodec}
      (boundary : pending = [])
      (found : HeaderFraming.front data = .needMore)
      (long : 2 ≤ data.length)
      (held : Holds register [] later) :
      Turn register pending data ⟨true, 0, later, []⟩
  | bodyIncomplete {header : FrameHeader} {size : Nat}
      {later : WebsocketCodec}
      (headed : HeaderFraming.front (pending ++ data) = .frame header size)
      (short : (pending ++ data).length <
        size + header.payloadLength.toNat)
      (held : Holds register (pending ++ data) later) :
      Turn register pending data ⟨true, data.length, later, []⟩

theorem Holds.turn {register : Register} {pending : Bytes}
    {codec : WebsocketCodec} (holds : Holds register pending codec)
    (data : Bytes) : Turn register pending data (codec.onData data 0) := by
  have turn := holds.parser.turn data
  unfold onData
  generalize codec.parser.parse data 0 = result at turn
  cases turn with
  | frame found behind held =>
      have handled := setParser_onParsedFrame register.assembly
      simp only [onDelivered, if_true]
      rw [holds.assembly]
      simp only [setParser_setParser, handled]
      exact .frame found behind ⟨held, rfl⟩
  | reject boundary found same =>
      subst boundary
      exact .reject rfl found (holds.setParser (holds.parser.sameCore same))
  | headerIncomplete boundary found same =>
      subst boundary
      have held := holds.setParser (holds.parser.sameCore same)
      by_cases long : 2 ≤ data.length
      · simp only [long, decide_true, if_true, onDelivered]
        exact .headerIncomplete rfl found long held
      · simp only [long, decide_false, onDelivered]
        exact .tooShort rfl found (Nat.not_le.mp long) held
  | bodyIncomplete headed short =>
      exact .bodyIncomplete headed short (holds.setParser (.body headed short))

/-- A call that completes a frame does what the handlers say of it. -/
theorem Holds.onData_of_frame {register : Register} {pending data : Bytes}
    {codec : WebsocketCodec} {wire : WireFrame} {total : Nat}
    (holds : Holds register pending codec)
    (found : WireFraming.front (pending ++ data) = .frame wire total) :
    let result := codec.onData data 0
    result.ok = true ∧ result.parsedBytes = total - pending.length ∧
      result.events = (deliver register wire).2.events := by
  intro result
  have turn : Turn register pending data result := holds.turn data
  clear_value result
  cases turn with
  | frame found' =>
      rw [found] at found'
      cases found'
      exact ⟨rfl, rfl, rfl⟩
  | reject boundary rejected =>
      subst boundary
      rw [List.nil_append, rejected] at found
      cases found
  | tooShort boundary incomplete | headerIncomplete boundary incomplete =>
      subst boundary
      obtain ⟨header, size, headed, -⟩ := WebsocketParser.front_of_frame found
      rw [List.nil_append, incomplete] at headed
      cases headed
  | bodyIncomplete headed short =>
      have incomplete := Wire.front_of_short headed short
      rw [found] at incomplete
      cases incomplete

/-- One call of `OnData` with `parsed_bytes = 0`; for a call that completes a
frame, with the verdict on the frame and the events of the call. -/
def call (codec : WebsocketCodec) (data : Bytes) :
    Call Delivery WebsocketCodec :=
  let result := codec.onData data 0
  { state := result.codec
    consumed := result.parsedBytes
    delivered := (codec.parser.parse data 0).delivered.map fun frame =>
      ⟨codec.handleFrameBody frame, result.events⟩ }

/-- Every call of `OnData` is a call of a resumable decoder. -/
theorem resumes : Resumes WireFraming call deliver Holds where
  unfinished holds := holds.unfinished
  on_frame := by
    intro register pending codec data wire total holds found
    obtain ⟨consumed, delivered, held⟩ :=
      WebsocketParser.resumes.on_frame holds.parser found
    have ok := holds.parser.ok_of_delivered delivered
    have handled := setParser_onParsedFrame register.assembly
    simp only [WebsocketParser.call] at consumed delivered held
    have assembled := holds.assembly
    refine ⟨consumed, ?_, ?_⟩
    · simp only [call, onData, delivered, Option.map_some, onDelivered, ok,
        if_true]
      rw [assembled]
      simp only [setParser_setParser, handled, setParser_handleFrameBody]
      rfl
    · simp only [call, onData, delivered, onDelivered]
      rw [assembled]
      simp only [setParser_setParser, handled]
      exact ⟨held, rfl⟩
  on_unfinished := by
    intro register pending codec data holds unfinished
    obtain ⟨consumed, delivered, held⟩ :=
      WebsocketParser.resumes.on_unfinished holds.parser unfinished
    simp only [WebsocketParser.call] at consumed delivered held
    refine ⟨consumed, ?_, ?_⟩
    · simp only [call, delivered, Option.map_none]
    · simp only [call, onData, delivered, onDelivered]
      exact holds.setParser held

end WebsocketCodec

end Woody
