import Woody.Http.Request

/-!
# The HTTP codec

`HTTPCodec` assembles requests from the callbacks of `http_parser`.  The
parser itself is a parameter: what one call of `http_parser_execute` reports,
consumes and leaves behind.  The callbacks of the codec always return zero, so
the parser never stops because of them.
-/

namespace Woody

/-- The callbacks of `http_parser`.  With `on_headers_complete` come the two
fields of the parser that the codec reads there. -/
inductive HttpCallback where
  | messageBegin
  | url (data : Bytes)
  | headerField (data : Bytes)
  | headerValue (data : Bytes)
  | headersComplete (method : Bytes) (upgrade : Bool)
  | body (data : Bytes)
  | messageComplete
  deriving DecidableEq

structure HttpParser where
  State : Type
  init : State
  /-- `http_parser_execute`: the callbacks it runs and the bytes it parses. -/
  execute : State → Bytes → State × List HttpCallback × Nat
  /-- `HTTP_PARSER_ERRNO` is neither `HPE_OK` nor `HPE_PAUSED`. -/
  failed : State → Bool

inductive HeaderParseState where
  | nothing
  | begin
  | name
  | value
  deriving DecidableEq

structure HTTPCodec where
  parseState : HeaderParseState
  curHeaderName : Bytes
  curHeaderValue : Bytes
  request : HTTPRequest

namespace HTTPCodec

def init : HTTPCodec where
  parseState := .nothing
  curHeaderName := []
  curHeaderValue := []
  request := .init

def onMessageBegin (codec : HTTPCodec) : HTTPCodec :=
  { codec with parseState := .begin }

def onUrl (codec : HTTPCodec) (data : Bytes) : HTTPCodec :=
  { codec with request := codec.request.setUrl data }

def onHeaderField (codec : HTTPCodec) (data : Bytes) : HTTPCodec :=
  let codec :=
    match codec.parseState with
    | .value =>
        { codec with
          request :=
            codec.request.addHeader codec.curHeaderName codec.curHeaderValue
          curHeaderName := data }
    | .name | .begin =>
        { codec with curHeaderName := codec.curHeaderName ++ data }
    | .nothing => codec
  { codec with parseState := .name }

def onHeaderValue (codec : HTTPCodec) (data : Bytes) : HTTPCodec :=
  let codec :=
    match codec.parseState with
    | .name => { codec with curHeaderValue := data }
    | .value => { codec with curHeaderValue := codec.curHeaderValue ++ data }
    | .begin | .nothing => codec
  { codec with parseState := .value }

def onHeadersComplete (codec : HTTPCodec) (method : Bytes)
    (upgrade : Bool) : HTTPCodec :=
  let request :=
    codec.request.addHeader codec.curHeaderName codec.curHeaderValue
  let request := (request.setMethod method).parseUrl
  { codec with request := if upgrade then request.setUpgrade else request }

def onBody (codec : HTTPCodec) (data : Bytes) : HTTPCodec :=
  { codec with request := codec.request.setBody data }

/-- The request goes to `message_complete_callback_`, which the handler has
set, and is cleaned up. -/
def onMessageComplete (codec : HTTPCodec) : HTTPCodec × HTTPRequest :=
  ({ codec with request := codec.request.cleanUp }, codec.request)

def onCallback (codec : HTTPCodec) :
    HttpCallback → HTTPCodec × Option HTTPRequest
  | .messageBegin => (codec.onMessageBegin, none)
  | .url data => (codec.onUrl data, none)
  | .headerField data => (codec.onHeaderField data, none)
  | .headerValue data => (codec.onHeaderValue data, none)
  | .headersComplete method upgrade =>
      (codec.onHeadersComplete method upgrade, none)
  | .body data => (codec.onBody data, none)
  | .messageComplete =>
      let completed := codec.onMessageComplete
      (completed.1, some completed.2)

/-- The callbacks in order, with the requests that are completed. -/
def onCallbacks : HTTPCodec → List HttpCallback → HTTPCodec × List HTTPRequest
  | codec, [] => (codec, [])
  | codec, callback :: callbacks =>
      let first := codec.onCallback callback
      let later := onCallbacks first.1 callbacks
      (later.1, first.2.toList ++ later.2)

/-- What one `HTTPCodec::OnData` does; `failed` is the error callback. -/
structure DataResult (parser : HttpParser) where
  parserState : parser.State
  codec : HTTPCodec
  bytesParsed : Nat
  requests : List HTTPRequest
  failed : Bool

def onData (parser : HttpParser) (parserState : parser.State)
    (codec : HTTPCodec) (data : Bytes) : DataResult parser :=
  let executed := parser.execute parserState data
  let handled := codec.onCallbacks executed.2.1
  { parserState := executed.1
    codec := handled.1
    bytesParsed := executed.2.2
    requests := handled.2
    failed := parser.failed executed.1 }

/-- The requests completed by a sequence of `OnData` calls. -/
def requestsOf (parser : HttpParser) (parserState : parser.State)
    (codec : HTTPCodec) : List Bytes → List HTTPRequest
  | [] => []
  | data :: later =>
      let result := onData parser parserState codec data
      result.requests ++
        requestsOf parser result.parserState result.codec later

end HTTPCodec

/-- The callbacks that a sequence of `http_parser_execute` calls runs. -/
def HttpParser.callbacks (parser : HttpParser) (state : parser.State) :
    List Bytes → List HttpCallback
  | [] => []
  | data :: later =>
      let executed := parser.execute state data
      executed.2.1 ++ HttpParser.callbacks parser executed.1 later

end Woody
