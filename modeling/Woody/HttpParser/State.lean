import Woody.Http.Codec
import Woody.HttpParser.Chars

/-!
# The state of `http_parser`

`http_parser_init` makes the parser of the codec one of requests, and nothing
changes its type, so the states in which a response is read are left out.
-/

namespace Woody

/-- `enum http_method`. -/
inductive HttpMethod where
  | delete | get | head | post | put
  | connect | options | trace
  | copy | lock | mkcol | move | propfind | proppatch | search | unlock
  | bind | rebind | unbind | acl
  | report | mkactivity | checkout | merge
  | msearch | notify | subscribe | unsubscribe
  | patch | purge
  | mkcalendar
  | link | unlink
  deriving DecidableEq

/-- `method_strings`. -/
def HttpMethod.string : HttpMethod → Bytes
  | .delete => ascii "DELETE"
  | .get => ascii "GET"
  | .head => ascii "HEAD"
  | .post => ascii "POST"
  | .put => ascii "PUT"
  | .connect => ascii "CONNECT"
  | .options => ascii "OPTIONS"
  | .trace => ascii "TRACE"
  | .copy => ascii "COPY"
  | .lock => ascii "LOCK"
  | .mkcol => ascii "MKCOL"
  | .move => ascii "MOVE"
  | .propfind => ascii "PROPFIND"
  | .proppatch => ascii "PROPPATCH"
  | .search => ascii "SEARCH"
  | .unlock => ascii "UNLOCK"
  | .bind => ascii "BIND"
  | .rebind => ascii "REBIND"
  | .unbind => ascii "UNBIND"
  | .acl => ascii "ACL"
  | .report => ascii "REPORT"
  | .mkactivity => ascii "MKACTIVITY"
  | .checkout => ascii "CHECKOUT"
  | .merge => ascii "MERGE"
  | .msearch => ascii "M-SEARCH"
  | .notify => ascii "NOTIFY"
  | .subscribe => ascii "SUBSCRIBE"
  | .unsubscribe => ascii "UNSUBSCRIBE"
  | .patch => ascii "PATCH"
  | .purge => ascii "PURGE"
  | .mkcalendar => ascii "MKCALENDAR"
  | .link => ascii "LINK"
  | .unlink => ascii "UNLINK"

/-- The values of `enum http_errno` that a parser of requests assigns. -/
inductive HttpErrno where
  | ok
  | invalidEofState
  | headerOverflow
  | closedConnection
  | invalidVersion
  | invalidMethod
  | invalidUrl
  | lfExpected
  | invalidHeaderToken
  | invalidContentLength
  | invalidChunkSize
  | invalidConstant
  | strict
  deriving DecidableEq

/-- `enum state`, without the states of responses. -/
inductive ParserState where
  | dead
  | startReq
  | reqMethod
  | reqSpacesBeforeUrl
  | reqSchema
  | reqSchemaSlash
  | reqSchemaSlashSlash
  | reqServerStart
  | reqServer
  | reqServerWithAt
  | reqPath
  | reqQueryStringStart
  | reqQueryString
  | reqFragmentStart
  | reqFragment
  | reqHttpStart
  | reqHttpH
  | reqHttpHT
  | reqHttpHTT
  | reqHttpHTTP
  | reqFirstHttpMajor
  | reqHttpMajor
  | reqFirstHttpMinor
  | reqHttpMinor
  | reqLineAlmostDone
  | headerFieldStart
  | headerField
  | headerValueDiscardWs
  | headerValueDiscardWsAlmostDone
  | headerValueDiscardLws
  | headerValueStart
  | headerValue
  | headerValueLws
  | headerAlmostDone
  | chunkSizeStart
  | chunkSize
  | chunkParameters
  | chunkSizeAlmostDone
  | headersAlmostDone
  | headersDone
  | chunkData
  | chunkDataAlmostDone
  | chunkDataDone
  | bodyIdentity
  | messageDone
  deriving DecidableEq

/-- `PARSING_HEADER`: the states up to `s_headers_done`. -/
def ParserState.parsingHeader : ParserState → Bool
  | .chunkData | .chunkDataAlmostDone | .chunkDataDone | .bodyIdentity
  | .messageDone => false
  | _ => true

/-- `enum header_states`. -/
inductive HeaderState where
  | general
  | c
  | co
  | con
  | matchingConnection
  | matchingProxyConnection
  | matchingContentLength
  | matchingTransferEncoding
  | matchingUpgrade
  | connection
  | contentLength
  | transferEncoding
  | upgrade
  | matchingTransferEncodingChunked
  | matchingConnectionTokenStart
  | matchingConnectionKeepAlive
  | matchingConnectionClose
  | matchingConnectionUpgrade
  | matchingConnectionToken
  | transferEncodingChunked
  | connectionKeepAlive
  | connectionClose
  | connectionUpgrade
  deriving DecidableEq

/-- `enum flags`; `F_SKIPBODY` is set for callbacks that return 1, which those
of the codec never do. -/
structure Flags where
  chunked : Bool
  connectionKeepAlive : Bool
  connectionClose : Bool
  connectionUpgrade : Bool
  trailing : Bool
  upgrade : Bool
  deriving DecidableEq

def Flags.none : Flags := ⟨false, false, false, false, false, false⟩

/-- `http_parser` of type `HTTP_REQUEST`, but for `nread`. -/
structure RequestParser where
  state : ParserState
  flags : Flags
  headerState : HeaderState
  index : Nat
  contentLength : UInt64
  httpMajor : Nat
  httpMinor : Nat
  method : HttpMethod
  httpErrno : HttpErrno
  upgrade : Bool
  deriving DecidableEq

/-- `http_parser`, with the count of header bytes. -/
structure CountingParser extends RequestParser where
  nread : UInt32
  deriving DecidableEq

def ullongMax : UInt64 := 0xffffffffffffffff

namespace RequestParser

/-- `http_parser_init(parser, HTTP_REQUEST)`. -/
def init : RequestParser where
  state := .startReq
  flags := .none
  headerState := .general
  index := 0
  contentLength := 0
  httpMajor := 0
  httpMinor := 0
  method := .delete
  httpErrno := .ok
  upgrade := false

/-- `UPDATE_STATE`. -/
def goto (parser : RequestParser) (state : ParserState) : RequestParser :=
  { parser with state := state }

@[simp] theorem goto_state (parser : RequestParser) (state : ParserState) :
    (parser.goto state).state = state := rfl

@[simp] theorem goto_flags (parser : RequestParser) (state : ParserState) :
    (parser.goto state).flags = parser.flags := rfl

@[simp] theorem goto_httpErrno (parser : RequestParser)
    (state : ParserState) :
    (parser.goto state).httpErrno = parser.httpErrno := rfl

/-- `http_should_keep_alive`; a request never needs an end of file. -/
def httpShouldKeepAlive (parser : RequestParser) : Bool :=
  if parser.httpMajor > 0 && parser.httpMinor > 0 then
    !parser.flags.connectionClose
  else
    parser.flags.connectionKeepAlive

/-- `NEW_MESSAGE`. -/
def newMessage (parser : RequestParser) : ParserState :=
  if parser.httpShouldKeepAlive then .startReq else .dead

theorem newMessage_cases (parser : RequestParser) :
    parser.newMessage = .startReq ∨ parser.newMessage = .dead := by
  unfold newMessage
  cases parser.httpShouldKeepAlive <;> simp

end RequestParser

def CountingParser.init : CountingParser :=
  { RequestParser.init with nread := 0 }

/-- `parse_url_char`. -/
def parseUrlChar (s : ParserState) (ch : UInt8) : ParserState :=
  if ch = octet ' ' ∨ ch = CR ∨ ch = LF then .dead
  else if ch = octet '\t' ∨ ch = 12 then .dead
  else
    match s with
    | .reqSpacesBeforeUrl =>
        if ch = octet '/' ∨ ch = octet '*' then .reqPath
        else if isAlpha ch then .reqSchema
        else .dead
    | .reqSchema =>
        if isAlpha ch then .reqSchema
        else if ch = octet ':' then .reqSchemaSlash
        else .dead
    | .reqSchemaSlash =>
        if ch = octet '/' then .reqSchemaSlashSlash else .dead
    | .reqSchemaSlashSlash =>
        if ch = octet '/' then .reqServerStart else .dead
    | .reqServerWithAt =>
        if ch = octet '@' then .dead else server ch
    | .reqServerStart | .reqServer => server ch
    | .reqPath =>
        if isUrlChar ch then .reqPath
        else if ch = octet '?' then .reqQueryStringStart
        else if ch = octet '#' then .reqFragmentStart
        else .dead
    | .reqQueryStringStart | .reqQueryString =>
        if isUrlChar ch then .reqQueryString
        else if ch = octet '?' then .reqQueryString
        else if ch = octet '#' then .reqFragmentStart
        else .dead
    | .reqFragmentStart =>
        if isUrlChar ch then .reqFragment
        else if ch = octet '?' then .reqFragment
        else if ch = octet '#' then .reqFragmentStart
        else .dead
    | .reqFragment =>
        if isUrlChar ch then .reqFragment
        else if ch = octet '?' ∨ ch = octet '#' then .reqFragment
        else .dead
    | _ => .dead
where
  server (ch : UInt8) : ParserState :=
    if ch = octet '/' then .reqPath
    else if ch = octet '?' then .reqQueryStringStart
    else if ch = octet '@' then .reqServerWithAt
    else if isUserinfoChar ch || ch = octet '[' || ch = octet ']' then
      .reqServer
    else .dead

end Woody
