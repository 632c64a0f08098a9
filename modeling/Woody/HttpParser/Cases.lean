import Woody.Foundation.Scanner
import Woody.HttpParser.State

/-!
# One byte of `http_parser_execute`

The cases of the switch that look at one byte.  A case moves the parser, sets
marks and runs callbacks, and ends in `break`, at the label `error` or in a
return behind the current byte.  A case that is left with `REEXECUTE` goes on
with the case of the new state.
-/

namespace Woody

/-- What the data callbacks report. -/
inductive Token where
  | url
  | headerField
  | headerValue
  | body
  deriving DecidableEq

def Token.callback : Token → Bytes → HttpCallback
  | .url => .url
  | .headerField => .headerField
  | .headerValue => .headerValue
  | .body => .body

inductive Effect where
  /-- `MARK`. -/
  | mark (token : Token)
  /-- `CALLBACK_DATA`: what lies between the mark and the current byte. -/
  | data (token : Token)
  /-- `CALLBACK_NOTIFY`. -/
  | notify (callback : HttpCallback)
  /-- `parser->nread = 0`. -/
  | resetRead

/-- How a case ends: with `break`, at the label `error`, or with
`RETURN((p - data) + 1)`. -/
abbrev Control := Verdict

structure Case where
  parser : RequestParser
  effects : List Effect
  control : Control

namespace Case

def advance (parser : RequestParser) (effects : List Effect) : Case :=
  ⟨parser, effects, .advance⟩

/-- `SET_ERRNO` and `goto error`. -/
def error (parser : RequestParser) (errno : HttpErrno) : Case :=
  ⟨{ parser with httpErrno := errno }, [], .error⟩

/-- Effects of the case that is left with `REEXECUTE`. -/
def behind (effects : List Effect) (later : Case) : Case :=
  { later with effects := effects ++ later.effects }

/-- `STRICT_CHECK`. -/
def strictCheck (parser : RequestParser) (failed : Bool) (later : Case) :
    Case :=
  if failed then error parser .strict else later

end Case

/-- Where a matcher stands behind one more character. -/
inductive Matched where
  | failed
  | complete
  | more
  deriving DecidableEq

/-- The comparison of the matching states, at the index of the character. -/
def matchAt (word : Bytes) (index : Nat) (c : UInt8) : Matched :=
  if index > word.length ∨ c ≠ word.getD index 0 then .failed
  else if index = word.length - 1 then .complete
  else .more

def PROXY_CONNECTION : Bytes := ascii "proxy-connection"
def CONNECTION : Bytes := ascii "connection"
def CONTENT_LENGTH : Bytes := ascii "content-length"
def TRANSFER_ENCODING : Bytes := ascii "transfer-encoding"
def UPGRADE : Bytes := ascii "upgrade"
def CHUNKED : Bytes := ascii "chunked"
def KEEP_ALIVE : Bytes := ascii "keep-alive"
def CLOSE : Bytes := ascii "close"

namespace HttpMethod

/-- The method that the first letter suggests. -/
def ofFirst (ch : UInt8) : Option HttpMethod :=
  if ch = octet 'A' then some .acl
  else if ch = octet 'B' then some .bind
  else if ch = octet 'C' then some .connect
  else if ch = octet 'D' then some .delete
  else if ch = octet 'G' then some .get
  else if ch = octet 'H' then some .head
  else if ch = octet 'L' then some .lock
  else if ch = octet 'M' then some .mkcol
  else if ch = octet 'N' then some .notify
  else if ch = octet 'O' then some .options
  else if ch = octet 'P' then some .post
  else if ch = octet 'R' then some .report
  else if ch = octet 'S' then some .subscribe
  else if ch = octet 'T' then some .trace
  else if ch = octet 'U' then some .unlock
  else none

/-- The method to go on with when the letter at an index is another one. -/
def other (method : HttpMethod) (index : Nat) (ch : UInt8) :
    Option HttpMethod :=
  if method = .connect then
    if index = 1 ∧ ch = octet 'H' then some .checkout
    else if index = 2 ∧ ch = octet 'P' then some .copy
    else none
  else if method = .mkcol then
    if index = 1 ∧ ch = octet 'O' then some .move
    else if index = 1 ∧ ch = octet 'E' then some .merge
    else if index = 1 ∧ ch = octet '-' then some .msearch
    else if index = 2 ∧ ch = octet 'A' then some .mkactivity
    else if index = 3 ∧ ch = octet 'A' then some .mkcalendar
    else none
  else if method = .subscribe then
    if index = 1 ∧ ch = octet 'E' then some .search else none
  else if method = .report then
    if index = 2 ∧ ch = octet 'B' then some .rebind else none
  else if index = 1 then
    if method = .post then
      if ch = octet 'R' then some .propfind
      else if ch = octet 'U' then some .put
      else if ch = octet 'A' then some .patch
      else none
    else if method = .lock then
      if ch = octet 'I' then some .link else none
    else
      -- The source has no `else` here: any letter will do.
      some method
  else if index = 2 then
    if method = .put then
      if ch = octet 'R' then some .purge else none
    else if method = .unlock then
      if ch = octet 'S' then some .unsubscribe
      else if ch = octet 'B' then some .unbind
      else none
    else none
  else if index = 4 ∧ method = .propfind ∧ ch = octet 'P' then some .proppatch
  else if index = 3 ∧ method = .unlock ∧ ch = octet 'I' then some .unlink
  else none

end HttpMethod

namespace RequestParser

def setErrno (parser : RequestParser) (errno : HttpErrno) : RequestParser :=
  { parser with httpErrno := errno }

def onDead (parser : RequestParser) (ch : UInt8) : Case :=
  if ch = CR ∨ ch = LF then .advance parser []
  else .error parser .closedConnection

def onStartReq (parser : RequestParser) (ch : UInt8) : Case :=
  if ch = CR ∨ ch = LF then .advance parser []
  else
    let parser := { parser with flags := .none, contentLength := ullongMax }
    if !isAlpha ch then .error parser .invalidMethod
    else
      let parser := { parser with method := .delete, index := 1 }
      match HttpMethod.ofFirst ch with
      | none => .error parser .invalidMethod
      | some method =>
          .advance { parser with method := method, state := .reqMethod }
            [.notify .messageBegin]

def onReqMethod (parser : RequestParser) (ch : UInt8) : Case :=
  if ch = 0 then .error parser .invalidMethod
  else
    let expected := parser.method.string.getD parser.index 0
    if ch = octet ' ' ∧ expected = 0 then
      .advance
        { parser with
          state := .reqSpacesBeforeUrl
          index := parser.index + 1 } []
    else if ch = expected then
      .advance { parser with index := parser.index + 1 } []
    else
      match parser.method.other parser.index ch with
      | none => .error parser .invalidMethod
      | some method =>
          .advance
            { parser with method := method, index := parser.index + 1 } []

/-- `UPDATE_STATE(parse_url_char(CURRENT_STATE(), ch))`. -/
def onUrlChar (parser : RequestParser) (ch : UInt8)
    (effects : List Effect) : Case :=
  let parser := parser.goto (parseUrlChar parser.state ch)
  if parser.state = .dead then .error parser .invalidUrl
  else .advance parser effects

def onReqSpacesBeforeUrl (parser : RequestParser) (ch : UInt8) : Case :=
  if ch = octet ' ' then .advance parser []
  else
    let parser :=
      if parser.method = .connect then parser.goto .reqServerStart else parser
    parser.onUrlChar ch [.mark .url]

/-- `s_req_schema`, the slashes behind it and `s_req_server_start`. -/
def onUrlFront (parser : RequestParser) (ch : UInt8) : Case :=
  if ch = octet ' ' ∨ ch = CR ∨ ch = LF then .error parser .invalidUrl
  else parser.onUrlChar ch []

/-- The states in which a URL can end. -/
def onUrl (parser : RequestParser) (ch : UInt8) : Case :=
  if ch = octet ' ' then
    .advance (parser.goto .reqHttpStart) [.data .url]
  else if ch = CR ∨ ch = LF then
    let parser := { parser with httpMajor := 0, httpMinor := 9 }
    .advance
      (parser.goto
        (if ch = CR then .reqLineAlmostDone else .headerFieldStart))
      [.data .url]
  else parser.onUrlChar ch []

def onReqHttpStart (parser : RequestParser) (ch : UInt8) : Case :=
  if ch = octet 'H' then .advance (parser.goto .reqHttpH) []
  else if ch = octet ' ' then .advance parser []
  else .error parser .invalidConstant

/-- `s_req_http_H` and its like: one letter, and the next state. -/
def onConstant (parser : RequestParser) (ch expected : UInt8)
    (next : ParserState) : Case :=
  .strictCheck parser (ch ≠ expected) (.advance (parser.goto next) [])

def onReqFirstHttpMajor (parser : RequestParser) (ch : UInt8) : Case :=
  if ch < octet '1' ∨ ch > octet '9' then .error parser .invalidVersion
  else
    .advance
      { parser with
        httpMajor := (ch - octet '0').toNat
        state := .reqHttpMajor } []

def onReqHttpMajor (parser : RequestParser) (ch : UInt8) : Case :=
  if ch = octet '.' then .advance (parser.goto .reqFirstHttpMinor) []
  else if !isNum ch then .error parser .invalidVersion
  else
    let parser :=
      { parser with
        httpMajor := parser.httpMajor * 10 + (ch - octet '0').toNat }
    if parser.httpMajor > 999 then .error parser .invalidVersion
    else .advance parser []

def onReqFirstHttpMinor (parser : RequestParser) (ch : UInt8) : Case :=
  if !isNum ch then .error parser .invalidVersion
  else
    .advance
      { parser with
        httpMinor := (ch - octet '0').toNat
        state := .reqHttpMinor } []

def onReqHttpMinor (parser : RequestParser) (ch : UInt8) : Case :=
  if ch = CR then .advance (parser.goto .reqLineAlmostDone) []
  else if ch = LF then .advance (parser.goto .headerFieldStart) []
  else if !isNum ch then .error parser .invalidVersion
  else
    let parser :=
      { parser with
        httpMinor := parser.httpMinor * 10 + (ch - octet '0').toNat }
    if parser.httpMinor > 999 then .error parser .invalidVersion
    else .advance parser []

def onReqLineAlmostDone (parser : RequestParser) (ch : UInt8) : Case :=
  if ch ≠ LF then .error parser .lfExpected
  else .advance (parser.goto .headerFieldStart) []

def onMessageDone (parser : RequestParser) : Case :=
  let parser := parser.goto parser.newMessage
  ⟨parser, [.notify .messageComplete],
    if parser.upgrade then .exit else .advance⟩

def onHeadersDone (parser : RequestParser) (ch : UInt8) : Case :=
  .strictCheck parser (ch ≠ LF)
    (let hasBody := parser.flags.chunked ||
      (parser.contentLength > 0 && parser.contentLength ≠ ullongMax)
    if parser.upgrade && (parser.method = HttpMethod.connect || !hasBody) then
      ⟨parser.goto parser.newMessage,
        [.resetRead, .notify .messageComplete], .exit⟩
    else if parser.flags.chunked then
      .advance (parser.goto .chunkSizeStart) [.resetRead]
    else if parser.contentLength = 0 then
      .advance (parser.goto parser.newMessage)
        [.resetRead, .notify .messageComplete]
    else if parser.contentLength ≠ ullongMax then
      .advance (parser.goto .bodyIdentity) [.resetRead]
    else
      -- A request without a length has no body.
      .advance (parser.goto parser.newMessage)
        [.resetRead, .notify .messageComplete])

def onHeadersAlmostDone (parser : RequestParser) (ch : UInt8) : Case :=
  .strictCheck parser (ch ≠ LF)
    (if parser.flags.trailing then
      (parser.goto .messageDone).onMessageDone
    else
      let parser :=
        { parser.goto .headersDone with
          upgrade := (parser.flags.upgrade && parser.flags.connectionUpgrade)
            || decide (parser.method = HttpMethod.connect) }
      .behind
        [.notify (.headersComplete parser.method.string parser.upgrade)]
        (parser.onHeadersDone ch))

def onHeaderFieldStart (parser : RequestParser) (ch : UInt8) : Case :=
  if ch = CR then .advance (parser.goto .headersAlmostDone) []
  else if ch = LF then (parser.goto .headersAlmostDone).onHeadersAlmostDone ch
  else
    let c := token ch
    if c = 0 then .error parser .invalidHeaderToken
    else
      .advance
        { parser with
          index := 0
          state := .headerField
          headerState :=
            if c = octet 'c' then .c
            else if c = octet 'p' then .matchingProxyConnection
            else if c = octet 't' then .matchingTransferEncoding
            else if c = octet 'u' then .matchingUpgrade
            else .general }
        [.mark .headerField]

def onHeaderValueStart (parser : RequestParser) (ch : UInt8) : Case :=
  let parser := { parser with state := .headerValue, index := 0 }
  let c := lower ch
  match parser.headerState with
  | .upgrade =>
      .advance
        { parser with
          flags := { parser.flags with upgrade := true }
          headerState := .general } [.mark .headerValue]
  | .transferEncoding =>
      .advance
        { parser with
          headerState :=
            if octet 'c' = c then .matchingTransferEncodingChunked
            else .general } [.mark .headerValue]
  | .contentLength =>
      if !isNum ch then .error parser .invalidContentLength
      else
        .advance
          { parser with contentLength := (ch - octet '0').toUInt64 }
          [.mark .headerValue]
  | .connection =>
      .advance
        { parser with
          headerState :=
            if c = octet 'k' then .matchingConnectionKeepAlive
            else if c = octet 'c' then .matchingConnectionClose
            else if c = octet 'u' then .matchingConnectionUpgrade
            else .matchingConnectionToken } [.mark .headerValue]
  | .matchingConnectionTokenStart => .advance parser [.mark .headerValue]
  | _ => .advance { parser with headerState := .general } [.mark .headerValue]

def onHeaderValueDiscardWs (parser : RequestParser) (ch : UInt8) : Case :=
  if ch = octet ' ' ∨ ch = octet '\t' then .advance parser []
  else if ch = CR then
    .advance (parser.goto .headerValueDiscardWsAlmostDone) []
  else if ch = LF then .advance (parser.goto .headerValueDiscardLws) []
  else parser.onHeaderValueStart ch

/-- The flag of a value that is complete. -/
def setFlag (parser : RequestParser) : RequestParser :=
  match parser.headerState with
  | .connectionKeepAlive =>
      { parser with flags := { parser.flags with connectionKeepAlive := true } }
  | .connectionClose =>
      { parser with flags := { parser.flags with connectionClose := true } }
  | .transferEncodingChunked =>
      { parser with flags := { parser.flags with chunked := true } }
  | .connectionUpgrade =>
      { parser with flags := { parser.flags with connectionUpgrade := true } }
  | _ => parser

def onHeaderValueLws (parser : RequestParser) (ch : UInt8) : Case :=
  if ch = octet ' ' ∨ ch = octet '\t' then
    (parser.goto .headerValueStart).onHeaderValueStart ch
  else (parser.setFlag.goto .headerFieldStart).onHeaderFieldStart ch

def onHeaderAlmostDone (parser : RequestParser) (ch : UInt8) : Case :=
  .strictCheck parser (ch ≠ LF) (.advance (parser.goto .headerValueLws) [])

def onHeaderValueDiscardLws (parser : RequestParser) (ch : UInt8) : Case :=
  if ch = octet ' ' ∨ ch = octet '\t' then
    .advance (parser.goto .headerValueDiscardWs) []
  else
    .behind [.mark .headerValue, .data .headerValue]
      ((parser.setFlag.goto .headerFieldStart).onHeaderFieldStart ch)

def onChunkSizeStart (parser : RequestParser) (ch : UInt8) : Case :=
  match unhex ch with
  | none => .error parser .invalidChunkSize
  | some digit =>
      .advance
        { parser with
          contentLength := digit.toUInt64
          state := .chunkSize } []

def onChunkSize (parser : RequestParser) (ch : UInt8) : Case :=
  if ch = CR then .advance (parser.goto .chunkSizeAlmostDone) []
  else
    match unhex ch with
    | none =>
        if ch = octet ';' ∨ ch = octet ' ' then
          .advance (parser.goto .chunkParameters) []
        else .error parser .invalidChunkSize
    | some digit =>
        if (ullongMax - 16) / 16 < parser.contentLength then
          .error parser .invalidContentLength
        else
          .advance
            { parser with
              contentLength := parser.contentLength * 16 + digit.toUInt64 } []

def onChunkParameters (parser : RequestParser) (ch : UInt8) : Case :=
  if ch = CR then .advance (parser.goto .chunkSizeAlmostDone) []
  else .advance parser []

def onChunkSizeAlmostDone (parser : RequestParser) (ch : UInt8) : Case :=
  .strictCheck parser (ch ≠ LF)
    (if parser.contentLength = 0 then
      .advance
        { parser with
          flags := { parser.flags with trailing := true }
          state := .headerFieldStart } [.resetRead]
    else .advance (parser.goto .chunkData) [.resetRead])

def onChunkDataAlmostDone (parser : RequestParser) (ch : UInt8) : Case :=
  .strictCheck parser (ch ≠ CR)
    (.advance (parser.goto .chunkDataDone) [.data .body])

def onChunkDataDone (parser : RequestParser) (ch : UInt8) : Case :=
  .strictCheck parser (ch ≠ LF)
    (.advance (parser.goto .chunkSizeStart) [.resetRead])

/-- The switch, for the states that look at one byte. -/
def onByte (parser : RequestParser) (ch : UInt8) : Case :=
  match parser.state with
  | .dead => parser.onDead ch
  | .startReq => parser.onStartReq ch
  | .reqMethod => parser.onReqMethod ch
  | .reqSpacesBeforeUrl => parser.onReqSpacesBeforeUrl ch
  | .reqSchema | .reqSchemaSlash | .reqSchemaSlashSlash | .reqServerStart =>
      parser.onUrlFront ch
  | .reqServer | .reqServerWithAt | .reqPath | .reqQueryStringStart
  | .reqQueryString | .reqFragmentStart | .reqFragment => parser.onUrl ch
  | .reqHttpStart => parser.onReqHttpStart ch
  | .reqHttpH => parser.onConstant ch (octet 'T') .reqHttpHT
  | .reqHttpHT => parser.onConstant ch (octet 'T') .reqHttpHTT
  | .reqHttpHTT => parser.onConstant ch (octet 'P') .reqHttpHTTP
  | .reqHttpHTTP => parser.onConstant ch (octet '/') .reqFirstHttpMajor
  | .reqFirstHttpMajor => parser.onReqFirstHttpMajor ch
  | .reqHttpMajor => parser.onReqHttpMajor ch
  | .reqFirstHttpMinor => parser.onReqFirstHttpMinor ch
  | .reqHttpMinor => parser.onReqHttpMinor ch
  | .reqLineAlmostDone => parser.onReqLineAlmostDone ch
  | .headerFieldStart => parser.onHeaderFieldStart ch
  | .headerValueDiscardWs => parser.onHeaderValueDiscardWs ch
  | .headerValueDiscardWsAlmostDone =>
      parser.onConstant ch LF .headerValueDiscardLws
  | .headerValueDiscardLws => parser.onHeaderValueDiscardLws ch
  | .headerValueStart => parser.onHeaderValueStart ch
  | .headerValueLws => parser.onHeaderValueLws ch
  | .headerAlmostDone => parser.onHeaderAlmostDone ch
  | .headersAlmostDone => parser.onHeadersAlmostDone ch
  | .headersDone => parser.onHeadersDone ch
  | .chunkSizeStart => parser.onChunkSizeStart ch
  | .chunkSize => parser.onChunkSize ch
  | .chunkParameters => parser.onChunkParameters ch
  | .chunkSizeAlmostDone => parser.onChunkSizeAlmostDone ch
  | .chunkDataAlmostDone => parser.onChunkDataAlmostDone ch
  | .chunkDataDone => parser.onChunkDataDone ch
  | .messageDone => parser.onMessageDone
  -- These look at all the bytes that are left.
  | .headerField | .headerValue | .chunkData | .bodyIdentity =>
      .advance parser []

end RequestParser

end Woody
