import Woody.Websocket.Parser

/-!
# The WebSocket codec

`WebsocketCodec` turns parsed frames into messages and messages into frames.
Its callbacks are observed as a list of events: the five message callbacks
with the message they are given, and `OnCodecError` with the reason it logs
before it runs the error callback.
-/

namespace Woody

/-- `WebsocketMessage::MessageType`. -/
inductive MessageType where
  | none
  | text
  | binary
  | close
  | ping
  | pong
  deriving DecidableEq

/-- The message classes differ in their names only: every one of them is
constructed with the default type `kNoneMessage`. -/
structure WebsocketMessage where
  type : MessageType := .none
  data : Bytes := []
  deriving DecidableEq

namespace WebsocketMessage

def append (message : WebsocketMessage) (data : Bytes) : WebsocketMessage :=
  { message with data := message.data ++ data }

def cleanUp (message : WebsocketMessage) : WebsocketMessage :=
  { message with data := [] }

@[simp] theorem append_data (message : WebsocketMessage) (data : Bytes) :
    (message.append data).data = message.data ++ data := rfl

end WebsocketMessage

inductive CodecEvent where
  | text (message : WebsocketMessage)
  | binary (message : WebsocketMessage)
  | close (message : WebsocketMessage)
  | ping (message : WebsocketMessage)
  | pong (message : WebsocketMessage)
  | error (reason : String)
  deriving DecidableEq

/-- The error callback fires. -/
def CodecEvent.IsError : CodecEvent → Prop
  | .error _ => True
  | _ => False

instance (event : CodecEvent) : Decidable event.IsError := by
  cases event <;> unfold CodecEvent.IsError <;> infer_instance

structure WebsocketCodec where
  parser : WebsocketParser
  isExpectedMasking : Bool
  curMessageType : MessageType
  textMessage : WebsocketMessage
  binaryMessage : WebsocketMessage
  deriving DecidableEq

/-- The two kinds of data messages. -/
inductive DataType where
  | text
  | binary
  deriving DecidableEq

namespace DataType

def messageType : DataType → MessageType
  | .text => .text
  | .binary => .binary

def opcode : DataType → Nat
  | .text => opcodeText
  | .binary => opcodeBinary

/-- `text_message_callback_` or `binary_message_callback_`. -/
def callback : DataType → WebsocketMessage → CodecEvent
  | .text => .text
  | .binary => .binary

end DataType

namespace WebsocketCodec

def init (memory : WebsocketParser) : WebsocketCodec where
  parser := memory.init
  isExpectedMasking := true
  curMessageType := .none
  textMessage := {}
  binaryMessage := {}

/-- `text_message_` or `binary_message_`. -/
def message (codec : WebsocketCodec) : DataType → WebsocketMessage
  | .text => codec.textMessage
  | .binary => codec.binaryMessage

def setMessage (codec : WebsocketCodec) (kind : DataType)
    (message : WebsocketMessage) : WebsocketCodec :=
  match kind with
  | .text => { codec with textMessage := message }
  | .binary => { codec with binaryMessage := message }

/-- `cur_message_type_ = type`. -/
def setType (codec : WebsocketCodec) (type : MessageType) : WebsocketCodec :=
  { codec with curMessageType := type }

/-- What a frame handler returns, leaves behind and reports. -/
structure Handled where
  ok : Bool
  codec : WebsocketCodec
  events : List CodecEvent
  deriving DecidableEq

/-- `HandleFrameBody`: the handled body, or the reason it passes to
`OnCodecError`.  Every caller starts from an empty handled body. -/
def handleFrameBody (codec : WebsocketCodec) (frame : WebsocketFrame) :
    Except String Bytes :=
  let frameBody := frame.body
  if frameBody ≠ [] then
    if frame.maskingKey ≠ 0 ∧ codec.isExpectedMasking then
      .ok (Websocket.unMask frameBody frame.maskingKey)
    else if frame.maskingKey ≠ 0 ∧ ¬ codec.isExpectedMasking then
      .error "Masked when not expected."
    else if frame.maskingKey = 0 ∧ codec.isExpectedMasking then
      .error "Missing mask."
    else
      .ok []
  else
    .ok []

/-- The branch of `OnContinuationFrame` for a message in progress. -/
def continueMessage (codec : WebsocketCodec) (kind : DataType)
    (frame : WebsocketFrame) (frameBody : Bytes) : Handled :=
  let codec := codec.setMessage kind ((codec.message kind).append frameBody)
  if frame.fin = 1 then
    let event := kind.callback (codec.message kind)
    let codec := codec.setMessage kind (codec.message kind).cleanUp
    ⟨true, codec.setType .none, [event]⟩
  else
    -- the reset behind the branches does not look at FIN
    ⟨true, codec.setType .none, []⟩

def onContinuationFrame (codec : WebsocketCodec) (frame : WebsocketFrame) :
    Handled :=
  match codec.handleFrameBody frame with
  | .error reason => ⟨false, codec, [.error reason]⟩
  | .ok frameBody =>
      match codec.curMessageType with
      | .none => ⟨false, codec, [.error "Message not started yet."]⟩
      | .text => codec.continueMessage .text frame frameBody
      | .binary => codec.continueMessage .binary frame frameBody
      | _ => ⟨true, codec.setType .none, []⟩

/-- The common body of `OnTextFrame` and `OnBinaryFrame`. -/
def onDataFrame (kind : DataType) (codec : WebsocketCodec)
    (frame : WebsocketFrame) : Handled :=
  match codec.handleFrameBody frame with
  | .error reason => ⟨false, codec, [.error reason]⟩
  | .ok frameBody =>
      if codec.curMessageType ≠ .none then
        ⟨false, codec,
          [.error "Received a new message before completing previous"]⟩
      else
        let codec := codec.setType kind.messageType
        let codec :=
          codec.setMessage kind ((codec.message kind).append frameBody)
        if frame.fin = 1 then
          let event := kind.callback (codec.message kind)
          let codec := codec.setMessage kind (codec.message kind).cleanUp
          ⟨true, codec.setType .none, [event]⟩
        else
          ⟨true, codec, []⟩

def onTextFrame : WebsocketCodec → WebsocketFrame → Handled :=
  onDataFrame .text

def onBinaryFrame : WebsocketCodec → WebsocketFrame → Handled :=
  onDataFrame .binary

/-- The common body of the three control frame handlers. -/
def onControlFrame (callback : Bytes → CodecEvent) (codec : WebsocketCodec)
    (frame : WebsocketFrame) : Handled :=
  match codec.handleFrameBody frame with
  | .error reason => ⟨false, codec, [.error reason]⟩
  | .ok frameBody => ⟨true, codec, [callback frameBody]⟩

def onCloseFrame : WebsocketCodec → WebsocketFrame → Handled :=
  onControlFrame fun frameBody =>
    .close (({} : WebsocketMessage).append frameBody)

/-- Unlike the close handler, the ping handler does not append the body. -/
def onPingFrame : WebsocketCodec → WebsocketFrame → Handled :=
  onControlFrame fun _ => .ping {}

def onPongFrame : WebsocketCodec → WebsocketFrame → Handled :=
  onControlFrame fun _ => .pong {}

/-- `OnParsedFrame` discards the result of the handler it runs. -/
def onParsedFrame (codec : WebsocketCodec) (frame : WebsocketFrame) :
    WebsocketCodec × List CodecEvent :=
  let handled :=
    if frame.opcode = opcodeContinuation then codec.onContinuationFrame frame
    else if frame.opcode = opcodeText then codec.onTextFrame frame
    else if frame.opcode = opcodeBinary then codec.onBinaryFrame frame
    else if frame.opcode = opcodeClose then codec.onCloseFrame frame
    else if frame.opcode = opcodePing then codec.onPingFrame frame
    else if frame.opcode = opcodePong then codec.onPongFrame frame
    else ⟨true, codec, []⟩
  (handled.codec, handled.events)

/-- What one call of `WebsocketCodec::OnData` does. -/
structure DataResult where
  ok : Bool
  parsedBytes : Nat
  codec : WebsocketCodec
  events : List CodecEvent
  deriving DecidableEq

def setParser (codec : WebsocketCodec) (parser : WebsocketParser) :
    WebsocketCodec :=
  { codec with parser := parser }

/-- The parsing-complete callback, run for a frame that was delivered. -/
def onDelivered (codec : WebsocketCodec) :
    Option WebsocketFrame → WebsocketCodec × List CodecEvent
  | none => (codec, [])
  | some frame => codec.onParsedFrame frame

/-- `OnData`.  The frame handler runs inside `Parse`, between the completion
of the frame and `CleanUp`; it does not touch the parser. -/
def onData (codec : WebsocketCodec) (data : Bytes) (parsedBytes : Nat) :
    DataResult :=
  let result := codec.parser.parse data parsedBytes
  let handled :=
    (codec.setParser result.parser).onDelivered result.delivered
  { ok := result.ok
    parsedBytes := result.parsedBytes
    codec := handled.1
    events :=
      if result.ok then handled.2
      else handled.2 ++ [.error "Parser error"] }

/-- `ConvertFrameToString`: the result, and the output string with the frame
appended.  The bytes of the length are those of the converted integer, the
least significant last. -/
def convertFrameToString (frame : WebsocketFrame) (parsedString : Bytes) :
    Bool × Bytes × List CodecEvent :=
  let firstByte : UInt8 := 0
  let firstByte := firstByte ||| UInt8.ofNat (frame.fin <<< 7)
  let firstByte := firstByte ||| UInt8.ofNat (frame.rsv1 <<< 6)
  let firstByte := firstByte ||| UInt8.ofNat (frame.rsv2 <<< 5)
  let firstByte := firstByte ||| UInt8.ofNat (frame.rsv3 <<< 4)
  let firstByte := firstByte ||| UInt8.ofNat frame.opcode
  let parsedString := parsedString ++ [firstByte]
  let secondByte : UInt8 := 0
  let secondByte := secondByte ||| UInt8.ofNat (frame.mask <<< 7)
  let payloadLength := frame.payloadLength
  let payloadLengthBytes := imageOf 8 (hostToNetwork64 payloadLength).toNat
  let keyBytes :=
    if frame.mask ≠ 0 then
      imageOf 4 (hostToNetwork32 frame.maskingKey).toNat
    else
      []
  if payloadLength ≤ 125 then
    let secondByte := secondByte ||| payloadLengthBytes.getD 7 0
    (true, parsedString ++ [secondByte] ++ keyBytes ++ frame.body, [])
  else if payloadLength ≤ 0xff then
    let secondByte := secondByte ||| 126
    (true,
      parsedString ++ [secondByte] ++ payloadLengthBytes.drop 6 ++ keyBytes ++
        frame.body, [])
  else if payloadLength ≤ 0xffffffff then
    let secondByte := secondByte ||| 127
    (true,
      parsedString ++ [secondByte] ++ payloadLengthBytes ++ keyBytes ++
        frame.body, [])
  else
    (false, parsedString, [.error "Frame too large."])

/-- `ConvertMessageToFrame`, `none` when it returns false.  The server never
masks, so the branch that draws a random key is dead. -/
def convertMessageToFrame (type : MessageType) (data : Bytes) :
    Option WebsocketFrame :=
  let frame (opcode : Nat) : WebsocketFrame :=
    { fin := 1
      rsv1 := 0
      rsv2 := 0
      rsv3 := 0
      opcode := opcode
      mask := 0
      payloadLength := UInt64.ofNat data.length
      maskingKey := 0
      body := data }
  match type with
  | .none => none
  | .text => some (frame opcodeText)
  | .binary => some (frame opcodeBinary)
  | .close => some (frame opcodeClose)
  | .ping => some (frame opcodePing)
  | .pong => some (frame opcodePong)

end WebsocketCodec

end Woody
