import Woody.Websocket.Encoding
import Woody.Websocket.Masking

/-!
# The payload of control frames

A pong has to carry the payload of the ping it answers.  The handlers of close,
ping and pong frames unmask the payload; the close handler appends it to the
message, and the other two give an empty message to the application.
-/

namespace Woody

/-- The three kinds of control frames. -/
inductive ControlType where
  | close
  | ping
  | pong
  deriving DecidableEq

namespace ControlType

def opcode : ControlType → Nat
  | .close => opcodeClose
  | .ping => opcodePing
  | .pong => opcodePong

/-- `close_message_callback_`, `ping_message_callback_` or
`pong_message_callback_`. -/
def callback : ControlType → WebsocketMessage → CodecEvent
  | .close => .close
  | .ping => .ping
  | .pong => .pong

/-- The message that the frame handler makes of the unmasked payload. -/
def message (type : ControlType) (payload : Bytes) : WebsocketMessage :=
  match type with
  | .close => ({} : WebsocketMessage).append payload
  | .ping | .pong => {}

theorem callback_injective (type : ControlType) :
    Function.Injective type.callback := by
  intro first second same
  cases type with
  | close | ping | pong => injection same

theorem message_data_eq_iff (type : ControlType) (payload : Bytes) :
    (type.message payload).data = payload ↔ type = .close ∨ payload = [] := by
  cases type with
  | close => simp [message]
  | ping | pong => simp [message, eq_comm]

end ControlType

/-- A masked control frame of a client. -/
def WireFrame.maskedControl (type : ControlType) (length : UInt64)
    (key : UInt32) (payload : Bytes) : WireFrame where
  fin := 1
  opcode := type.opcode
  payloadLength := length
  maskingKey := some key
  body := Websocket.mask payload key

namespace WebsocketCodec

/-- The pong with the data of the message is encoded, and a fresh parser reads
it back as a pong with the payload. -/
def Echoes (message : WebsocketMessage) (payload : Bytes) : Prop :=
  ∃ frame bytes,
    convertMessageToFrame .pong message.data = some frame ∧
      convertFrameToString frame [] = (true, bytes, []) ∧
      ∀ memory : WebsocketParser,
        let result := memory.init.parse bytes 0
        result.ok = true ∧ result.parsedBytes = bytes.length ∧
          ∃ pong, result.delivered = some pong ∧
            pong.opcode = opcodePong ∧ pong.body = payload

/-- The callback of the frame gets one message, with the whole payload; that of
a ping can be echoed. -/
def Faithful (type : ControlType) (payload : Bytes)
    (events : List CodecEvent) : Prop :=
  ∃ message, events = [type.callback message] ∧
    match type with
    | .ping => Echoes message payload
    | .close | .pong => message.data = payload

theorem echoes_iff {message : WebsocketMessage}
    (small : message.data.length ≤ 0xffffffff) (payload : Bytes) :
    Echoes message payload ↔ message.data = payload := by
  have sendable : Sendable (.pong, message.data) :=
    ⟨(fun none_ => nomatch none_), small⟩
  have encodable := WebsocketFrame.ofMessage_encodable sendable
  have made := WebsocketHandler.convertMessageToFrame_eq sendable.1
  have converted := convertFrameToString_eq encodable []
  rw [List.nil_append] at converted
  have read (memory : WebsocketParser) :=
    WebsocketParser.parse_encode (.init memory) encodable []
  simp only [List.append_nil] at read
  constructor
  · rintro ⟨frame, bytes, isFrame, isBytes, decoded⟩
    rw [made] at isFrame
    cases isFrame
    rw [converted] at isBytes
    cases isBytes
    obtain ⟨-, -, pong, delivered, -, body⟩ := decoded default
    obtain ⟨same, isSame, agrees⟩ := (read default).1.delivered
    rw [delivered] at isSame
    cases isSame
    exact agrees.body.symm.trans body
  · rintro rfl
    refine ⟨_, _, made, converted, ?_⟩
    intro memory result
    obtain ⟨decodes, consumed, -⟩ := read memory
    obtain ⟨pong, delivered, agrees⟩ := decodes.delivered
    exact ⟨decodes.ok, consumed, pong, delivered, agrees.opcode, agrees.body⟩

theorem Reachable.holds {codec : WebsocketCodec}
    (reachable : Reachable codec) :
    ∃ register pending, Holds register pending codec := by
  induction reachable with
  | init memory => exact ⟨_, _, .init memory⟩
  | onData data _ ih =>
      obtain ⟨register, pending, holds⟩ := ih
      have turn := holds.turn data
      generalize WebsocketCodec.onData _ data 0 = result at turn
      cases turn with
      | frame _ _ held | reject _ _ held | tooShort _ _ _ held
      | headerIncomplete _ _ _ held | bodyIncomplete _ _ held =>
          exact ⟨_, _, held⟩
  | onParsedFrame frame _ ih =>
      obtain ⟨register, pending, holds⟩ := ih
      have handled := setParser_onParsedFrame register.assembly
      refine ⟨⟨register.key, (register.assembly.onParsedFrame frame).1⟩,
        pending, ?_⟩
      rw [holds.assembly, handled]
      exact ⟨holds.parser, rfl⟩

/-- At a frame boundary nothing of a frame has been taken, and the register is
that of the codec itself. -/
theorem Reachable.boundary {codec : WebsocketCodec}
    (reachable : Reachable codec)
    (state : codec.parser.state = .headerBegin) :
    Holds ⟨codec.parser.maskingKey, codec⟩ [] codec := by
  obtain ⟨register, pending, holds⟩ := reachable.holds
  exact ⟨holds.parser.boundary state, rfl⟩

theorem onParsedFrame_control {codec : WebsocketCodec}
    {frame : WebsocketFrame} {type : ControlType} {payload : Bytes}
    (opcode : frame.opcode = type.opcode)
    (accepted : codec.handleFrameBody frame = .ok payload) :
    (codec.onParsedFrame frame).2 = [type.callback (type.message payload)] := by
  have handled (callback : Bytes → CodecEvent) :
      (onControlFrame callback codec frame).events = [callback payload] := by
    simp only [onControlFrame, accepted]
  cases type with
  | close | ping | pong =>
      simp only [onParsedFrame, opcode]
      exact handled _

theorem events_maskedControl {register : Register}
    (expected : register.assembly.isExpectedMasking = true)
    (type : ControlType) (length : UInt64) {key : UInt32}
    (nonzero : key ≠ 0) (payload : Bytes) :
    (deliver register (.maskedControl type length key payload)).2.events =
      [type.callback (type.message payload)] := by
  let wire := WireFrame.maskedControl type length key payload
  have masked : ¬ wire.LacksMask := fun lacking => nomatch lacking.1
  have verdict := handleFrameBody_masked expected register.key masked
  rw [WireFrame.ownVerdict_of_masked rfl rfl, if_pos (.inl nonzero)] at verdict
  exact onParsedFrame_control rfl verdict

theorem faithful_message_iff (type : ControlType) (payload : Bytes) :
    Faithful type payload [type.callback (type.message payload)] ↔
      type = .close ∨ payload = [] := by
  rw [← ControlType.message_data_eq_iff]
  have only (property : WebsocketMessage → Prop) :
      (∃ message, [type.callback (type.message payload)] =
          [type.callback message] ∧ property message) ↔
        property (type.message payload) := by
    constructor
    · rintro ⟨message, same, holds⟩
      rwa [type.callback_injective (List.cons.inj same).1]
    · exact fun holds => ⟨_, rfl, holds⟩
  unfold Faithful
  rw [only]
  cases type with
  | close | pong => exact Iff.rfl
  | ping => exact echoes_iff (Nat.zero_le _) payload

/-- The payload of a masked control frame reaches the application exactly
when the frame is a close frame or its payload is empty. -/
theorem control_payload_faithful_iff {codec : WebsocketCodec}
    (reachable : Reachable codec)
    (boundary : codec.parser.state = .headerBegin) (type : ControlType)
    (length : UInt64) {key : UInt32} (nonzero : key ≠ 0)
    (payload stream : Bytes)
    (sent : WireFraming.front stream =
      .frame (.maskedControl type length key payload) stream.length) :
    Faithful type payload (codec.onData stream 0).events ↔
      type = .close ∨ payload = [] := by
  have holds := reachable.boundary boundary
  obtain ⟨-, -, reported⟩ := holds.onData_of_frame
    (by rw [List.nil_append]; exact sent)
  rw [reported, events_maskedControl reachable.isExpectedMasking type length
    nonzero payload, faithful_message_iff]

/-- A close frame with the status code 1000, behind the first fragment of a
text. -/
theorem close_code_delivered :
    let codec :=
      ((WebsocketCodec.init default).onData [1, 129, 0, 0, 0, 7, 111] 0).codec
    let stream : Bytes := [136, 130, 0, 0, 0, 7, 3, 232]
    codec.curMessageType = .text ∧
      Faithful .close [3, 232] (codec.onData stream 0).events :=
  ⟨by decide +kernel, (control_payload_faithful_iff
    (.onData [1, 129, 0, 0, 0, 7, 111] (.init default)) (by decide +kernel)
    .close 2 (by decide : (7 : UInt32) ≠ 0) [3, 232]
    [136, 130, 0, 0, 0, 7, 3, 232] (by decide +kernel)).mpr (.inl rfl)⟩

/-- The ping `hi` under the key 7 cannot be echoed. -/
theorem ping_payload_dropped :
    let stream : Bytes := [137, 130, 0, 0, 0, 7, 104, 105]
    WireFraming.front stream =
        .frame (.maskedControl .ping 2 7 [104, 105]) stream.length ∧
      ((WebsocketCodec.init default).onData stream 0).events = [.ping {}] ∧
      ¬ Echoes {} [104, 105] := by
  intro stream
  refine ⟨by decide +kernel, by decide +kernel, ?_⟩
  rw [echoes_iff (Nat.zero_le _)]
  exact fun same => nomatch same

end WebsocketCodec

end Woody
