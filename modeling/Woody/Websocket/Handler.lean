import Woody.Net.TcpConnection
import Woody.Websocket.Codec

/-!
# The WebSocket handler

`WebsocketHandler::OnData` takes everything out of the input buffer, lets the
codec parse it, and puts back what the codec did not consume.
-/

namespace Woody

structure WebsocketHandler where
  conn : TcpConnection
  codec : WebsocketCodec
  deriving DecidableEq

/-- One `buf->prepend` of the read loop: the buffer it is applied to, the
string taken out of it and the bytes the codec consumed. -/
structure PrependCall where
  buffer : Buffer
  data : Bytes
  parsedBytes : Nat

/-- `unparsed_str`. -/
def PrependCall.unparsed (call : PrependCall) : Bytes :=
  call.data.drop call.parsedBytes

/-- The precondition of `prepend` holds, and the call leaves exactly the bytes
that were not consumed. -/
structure PrependCall.Safe (call : PrependCall) : Prop where
  precondition : call.unparsed.length ≤ call.buffer.prependableBytes
  readable : ∃ later, call.buffer.prepend call.unparsed = some later ∧
    later.readable = call.unparsed

inductive LoopExit where
  /-- The buffer is empty. -/
  | drained
  /-- The loop was left with `break`. -/
  | stopped
  /-- The assertion of `prepend` failed. -/
  | aborted
  | outOfFuel
  deriving DecidableEq

/-- What the loop leaves behind, reports, consumes and puts back. -/
structure LoopResult where
  handler : WebsocketHandler
  buffer : Buffer
  events : List CodecEvent
  consumed : Nat
  prepends : List PrependCall
  exit : LoopExit

namespace WebsocketHandler

/-- The handler of a connection that has just been upgraded. -/
def upgraded (conn : TcpConnection) (memory : WebsocketParser) :
    WebsocketHandler where
  conn := conn
  codec := WebsocketCodec.init memory

def forceClose (handler : WebsocketHandler) : WebsocketHandler :=
  { handler with conn := handler.conn.forceClose }

def handleError (handler : WebsocketHandler) : WebsocketHandler :=
  handler.forceClose

/-- The codec's callbacks: errors close the connection, messages go to the
application. -/
def onEvent (handler : WebsocketHandler) : CodecEvent → WebsocketHandler
  | .error _ => handler.handleError
  | _ => handler

/-- The handler behind one call of the codec. -/
def onCodec (handler : WebsocketHandler) (result : WebsocketCodec.DataResult) :
    WebsocketHandler :=
  result.events.foldl onEvent { handler with codec := result.codec }

/-- The loop of `OnData`, at most `fuel` times. -/
def onDataLoop : Nat → WebsocketHandler → Buffer → LoopResult
  | 0, handler, buffer => ⟨handler, buffer, [], 0, [], .outOfFuel⟩
  | fuel + 1, handler, buffer =>
      if buffer.readableBytes > 0 then
        let retrieved := buffer.retrieveAllAsString
        let data := retrieved.1
        let result := handler.codec.onData data 0
        let handler := handler.onCodec result
        if ¬ result.ok ∨ result.parsedBytes = 0 then
          ⟨handler, retrieved.2, result.events, result.parsedBytes, [], .stopped⟩
        else
          let call : PrependCall := ⟨retrieved.2, data, result.parsedBytes⟩
          match retrieved.2.prepend call.unparsed with
          | none =>
              ⟨handler, retrieved.2, result.events, result.parsedBytes, [call],
                .aborted⟩
          | some buffer =>
              let later := onDataLoop fuel handler buffer
              { later with
                events := result.events ++ later.events
                consumed := result.parsedBytes + later.consumed
                prepends := call :: later.prepends }
      else
        ⟨handler, buffer, [], 0, [], .drained⟩

/-- `OnData`.  Every iteration but the last one consumes a byte. -/
def onData (handler : WebsocketHandler) (buffer : Buffer) : LoopResult :=
  handler.onDataLoop (buffer.readableBytes + 1) buffer

/-- `SendWebsocketMessage`: the string given to the connection, `none` when it
returns false. -/
def sendWebsocketMessage (type : MessageType) (data : Bytes) : Option Bytes :=
  match WebsocketCodec.convertMessageToFrame type data with
  | none => none
  | some frame =>
      match WebsocketCodec.convertFrameToString frame [] with
      | (true, frameString, _) => some frameString
      | (false, _, _) => none

/-- The states of the handler of an upgraded connection, whatever its input
buffer holds when `OnData` runs. -/
inductive Reachable : WebsocketHandler → Prop where
  | upgraded (conn : TcpConnection) (memory : WebsocketParser) :
      Reachable (WebsocketHandler.upgraded conn memory)
  | onData {handler : WebsocketHandler} (buffer : Buffer) :
      Reachable handler → (handler.onData buffer).exit ≠ .aborted →
        Reachable (handler.onData buffer).handler

end WebsocketHandler

end Woody
