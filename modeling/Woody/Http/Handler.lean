import Woody.Http.Codec
import Woody.Websocket.Upgrade

/-!
# The HTTP handler

`HTTPHandler::OnData` takes everything out of the input buffer, gives it to
the codec and puts back what `http_parser` did not take.  Completed requests
go to the applications of the server, which may hand the connection over to a
WebSocket handler while the loop is still running.
-/

namespace Woody

/-- Whose `OnData` and `OnClose` a connection runs. -/
inductive ConnectionOwner where
  | http
  /-- A WebSocket handler, with its codec. -/
  | websocket (codec : WebsocketCodec)

/-- What a handler runs when its connection closes. -/
inductive CloseCallback where
  /-- `HTTPServer::OnHandlerClose`. -/
  | onHandlerClose
  | application
  deriving DecidableEq

/-- An HTTP handler with its connection, which nobody else keeps once the
server has closed it. -/
structure HTTPHandler (parser : HttpParser) where
  name : Bytes
  conn : TcpConnection
  inputBuffer : Buffer
  owner : ConnectionOwner
  parserState : parser.State
  codec : HTTPCodec
  closeCallback : Option CloseCallback
  closeCallbackWithThis : Option CloseCallback

/-- What an application does to the handler that comes with a request.
Sending changes nothing here. -/
inductive AppAction where
  | forceClose
  | setCloseCallback
  | setCloseCallbackWithThis
  /-- `WebsocketHandler::HandleUpgrade`, called with this response. -/
  | upgrade (websocket : DetachedHandler) (response : HTTPResponse)

/-- The applications of a server.  `HandleRequest` returns: an exception that
`HandleUpgrade` lets through is caught by the application that calls it. -/
structure Applications where
  boost : Boost
  State : Type
  init : State
  /-- `apps_`: a path prefix and the `HandleRequest` behind it. -/
  apps : List (Bytes × (State → HTTPRequest → State × List AppAction))

/-- `0 == s.find(p)`. -/
def isStringBeginWith (s p : Bytes) : Bool := p.isPrefixOf s

/-- `HTTPServer::OnRequest`: the first application whose prefix fits. -/
def Applications.onRequest (apps : Applications) (state : apps.State)
    (request : HTTPRequest) : apps.State × List AppAction :=
  match apps.apps.find? fun app => isStringBeginWith request.url app.1 with
  | some app => app.2 state request
  | none => (state, [])

/-- One `codec_.OnData` of the read loop. -/
structure CodecCall where
  data : Bytes
  bytesParsed : Nat
  failed : Bool

/-- What the read loop leaves behind, gives to the codec and puts back. -/
structure HTTPLoopResult (parser : HttpParser) (apps : Applications) where
  handler : HTTPHandler parser
  state : apps.State
  calls : List CodecCall
  prepends : List PrependCall
  exit : LoopExit

namespace HTTPHandler

variable {parser : HttpParser}

/-- The constructor, for a connection that has just been established. -/
def create (parser : HttpParser) (name : Bytes) : HTTPHandler parser where
  name := name
  conn := ⟨.connected, 0⟩
  inputBuffer := Buffer.init
  owner := .http
  parserState := parser.init
  codec := HTTPCodec.init
  closeCallback := none
  closeCallbackWithThis := none

def setInputBuffer (handler : HTTPHandler parser) (buffer : Buffer) :
    HTTPHandler parser :=
  { handler with inputBuffer := buffer }

def forceClose (handler : HTTPHandler parser) : HTTPHandler parser :=
  { handler with conn := handler.conn.forceClose }

def handleError (handler : HTTPHandler parser) : HTTPHandler parser :=
  handler.forceClose

def perform (boost : Boost) (request : HTTPRequest)
    (handler : HTTPHandler parser) : AppAction → HTTPHandler parser
  | .forceClose => handler.forceClose
  | .setCloseCallback => { handler with closeCallback := some .application }
  | .setCloseCallbackWithThis =>
      { handler with closeCallbackWithThis := some .application }
  | .upgrade websocket response =>
      match (websocket.handleUpgrade boost handler.conn request
          response).rewired with
      | some upgraded => { handler with owner := .websocket upgraded.codec }
      | none => handler

/-- `OnMessageComplete`. -/
def onMessageComplete (apps : Applications)
    (served : HTTPHandler parser × apps.State) (request : HTTPRequest) :
    HTTPHandler parser × apps.State :=
  let answered := apps.onRequest served.2 request
  (answered.2.foldl (perform apps.boost request) served.1, answered.1)

/-- One call of the codec, with the callbacks it runs. -/
def feed (apps : Applications) (handler : HTTPHandler parser)
    (state : apps.State) (data : Bytes) :
    (HTTPHandler parser × apps.State) × CodecCall :=
  let result := HTTPCodec.onData parser handler.parserState handler.codec data
  let handler :=
    { handler with parserState := result.parserState, codec := result.codec }
  let served := result.requests.foldl (onMessageComplete apps) (handler, state)
  let handler := if result.failed then served.1.handleError else served.1
  ((handler, served.2), ⟨data, result.bytesParsed, result.failed⟩)

/-- The loop of `OnData`, at most `fuel` times. -/
def onDataLoop (apps : Applications) :
    Nat → HTTPHandler parser → apps.State → HTTPLoopResult parser apps
  | 0, handler, state => ⟨handler, state, [], [], .outOfFuel⟩
  | fuel + 1, handler, state =>
      if handler.inputBuffer.readableBytes > 0 then
        let retrieved := handler.inputBuffer.retrieveAllAsString
        let data := retrieved.1
        let fed := (handler.setInputBuffer retrieved.2).feed apps state data
        let handler := fed.1.1
        if fed.2.bytesParsed = 0 then
          ⟨handler, fed.1.2, [fed.2], [], .stopped⟩
        else
          let call : PrependCall :=
            ⟨handler.inputBuffer, data, fed.2.bytesParsed⟩
          match handler.inputBuffer.prepend call.unparsed with
          | none => ⟨handler, fed.1.2, [fed.2], [call], .aborted⟩
          | some buffer =>
              let later :=
                onDataLoop apps fuel (handler.setInputBuffer buffer) fed.1.2
              { later with
                calls := fed.2 :: later.calls
                prepends := call :: later.prepends }
      else
        ⟨handler, state, [], [], .drained⟩

/-- `OnData`.  Every iteration but the last one takes a byte. -/
def onData (apps : Applications) (handler : HTTPHandler parser)
    (state : apps.State) : HTTPLoopResult parser apps :=
  handler.onDataLoop apps (handler.inputBuffer.readableBytes + 1) state

/-- `WebsocketHandler::OnData`, once the connection has been handed over. -/
def onWebsocketData (apps : Applications) (handler : HTTPHandler parser)
    (state : apps.State) (codec : WebsocketCodec) :
    HTTPLoopResult parser apps :=
  let result := WebsocketHandler.onData ⟨handler.conn, codec⟩
    handler.inputBuffer
  { handler :=
      { handler with
        conn := result.handler.conn
        inputBuffer := result.buffer
        owner := .websocket result.handler.codec }
    state := state
    calls := []
    prepends := []
    exit := result.exit }

/-- `TcpConnection::handleRead` with the bytes that were read; the prepend
calls are those of the HTTP handler. -/
def handleRead (apps : Applications) (handler : HTTPHandler parser)
    (state : apps.State) (received : Bytes) : HTTPLoopResult parser apps :=
  let handler :=
    handler.setInputBuffer (handler.inputBuffer.readFd received)
  match handler.owner with
  | .http => handler.onData apps state
  | .websocket codec => handler.onWebsocketData apps state codec

end HTTPHandler

end Woody
