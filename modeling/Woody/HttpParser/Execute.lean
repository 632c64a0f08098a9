import Woody.HttpParser.Cases

/-!
# `http_parser_execute`

The loop over the bytes of one call.  A pointer into the data is the rest of
the data from there on, so what lies between a mark and the current position
is the front of the one without the other.  The cases of a header name, of a
header value and of a body have loops of their own, which take as many bytes as
they can.
-/

namespace Woody

/-- `HTTP_MAX_HEADER_SIZE`. -/
def httpMaxHeaderSize : UInt32 := 80 * 1024

/-- The pointers of a call into its data. -/
abbrev Marks := Token → Option Bytes

def setMark (marks : Marks) (token : Token) (start : Option Bytes) : Marks :=
  fun other => if other = token then start else marks other

/-- The local variables of the call, and the callbacks it has run. -/
structure Progress where
  parser : CountingParser
  marks : Marks
  callbacks : List HttpCallback

/-- How the call returns: `rest` is what it has not parsed. -/
structure Executed where
  parser : CountingParser
  callbacks : List HttpCallback
  rest : Bytes

/-- What an iteration of the loop leads to. -/
inductive Turn where
  | next (progress : Progress) (p : Bytes)
  | stop (progress : Progress) (rest : Bytes)

namespace Progress

/-- Write to the fields that do not count. -/
def set (progress : Progress) (parser : RequestParser) : Progress :=
  { progress with parser := { progress.parser with toRequestParser := parser } }

/-- `MARK`: a mark that is set stays. -/
def mark (progress : Progress) (token : Token) (p : Bytes) : Progress :=
  match progress.marks token with
  | some _ => progress
  | none => { progress with marks := setMark progress.marks token (some p) }

/-- `CALLBACK_DATA_`, up to a position. -/
def data (progress : Progress) (token : Token) (p : Bytes) : Progress :=
  match progress.marks token with
  | none => progress
  | some start =>
      { progress with
        marks := setMark progress.marks token none
        callbacks := progress.callbacks ++
          [token.callback (start.take (start.length - p.length))] }

def notify (progress : Progress) (callback : HttpCallback) : Progress :=
  { progress with callbacks := progress.callbacks ++ [callback] }

def resetRead (progress : Progress) : Progress :=
  { progress with parser := { progress.parser with nread := 0 } }

def effect (p : Bytes) (progress : Progress) : Effect → Progress
  | .mark token => progress.mark token p
  | .data token => progress.data token p
  | .notify callback => progress.notify callback
  | .resetRead => progress.resetRead

/-- A case of one byte, with the current position at `p`. -/
def perform (progress : Progress) (case : Case) (p : Bytes) : Turn :=
  let progress := case.effects.foldl (effect p) (progress.set case.parser)
  match case.control with
  | .advance => .next progress p.tail
  | .error => .stop progress p
  | .exit => .stop progress p.tail

/-- `COUNT_HEADER_SIZE`: `error` is a jump to the label. -/
def count (progress : Progress) (v : Nat) : Except Progress Progress :=
  let nread := progress.parser.nread + UInt32.ofNat v
  let counted := { progress with parser := { progress.parser with nread := nread } }
  if nread > httpMaxHeaderSize then
    .error (counted.set (counted.parser.setErrno .headerOverflow))
  else
    .ok counted

end Progress

namespace RequestParser

/-- One more character of a word that a header name is compared with. -/
def matchName (parser : RequestParser) (word : Bytes) (c : UInt8)
    (found : HeaderState) : RequestParser :=
  let parser := { parser with index := parser.index + 1 }
  match matchAt word parser.index c with
  | .failed => { parser with headerState := .general }
  | .complete => { parser with headerState := found }
  | .more => parser

/-- One character of a header name, `c` being its token. -/
def onFieldChar (parser : RequestParser) (ch c : UInt8) : RequestParser :=
  match parser.headerState with
  | .general => parser
  | .c =>
      { parser with
        index := parser.index + 1
        headerState := if c = octet 'o' then .co else .general }
  | .co =>
      { parser with
        index := parser.index + 1
        headerState := if c = octet 'n' then .con else .general }
  | .con =>
      { parser with
        index := parser.index + 1
        headerState :=
          if c = octet 'n' then .matchingConnection
          else if c = octet 't' then .matchingContentLength
          else .general }
  | .matchingConnection => parser.matchName CONNECTION c .connection
  | .matchingProxyConnection =>
      parser.matchName PROXY_CONNECTION c .connection
  | .matchingContentLength =>
      parser.matchName CONTENT_LENGTH c .contentLength
  | .matchingTransferEncoding =>
      parser.matchName TRANSFER_ENCODING c .transferEncoding
  | .matchingUpgrade => parser.matchName UPGRADE c .upgrade
  | .connection | .contentLength | .transferEncoding | .upgrade =>
      if ch ≠ octet ' ' then { parser with headerState := .general }
      else parser
  -- `assert(0 && "Unknown header_state")`
  | _ => parser

/-- The loop of `s_header_field`, up to the first character that is no
token. -/
def fieldLoop : RequestParser → Bytes → RequestParser × Bytes
  | parser, [] => (parser, [])
  | parser, ch :: rest =>
      if token ch = 0 then (parser, ch :: rest)
      else fieldLoop (parser.onFieldChar ch (token ch)) rest

/-- One more character of a word that a header value is compared with. -/
def matchValue (parser : RequestParser) (hState : HeaderState) (word : Bytes)
    (c : UInt8) (other found : HeaderState) : RequestParser × HeaderState :=
  let parser := { parser with index := parser.index + 1 }
  match matchAt word parser.index c with
  | .failed => (parser, other)
  | .complete => (parser, found)
  | .more => (parser, hState)

/-- One character of a header value other than a line end, `none` when it is
no digit of a length, or one too many. -/
def onValueChar (parser : RequestParser) (hState : HeaderState) (ch : UInt8) :
    Option (RequestParser × HeaderState) :=
  let c := lower ch
  match hState with
  | .general => some (parser, .general)
  -- `assert(0 && "Shouldn't get here.")`
  | .connection | .transferEncoding => some (parser, hState)
  | .contentLength =>
      if ch = octet ' ' then some (parser, hState)
      else if !isNum ch then none
      else if (ullongMax - 10) / 10 < parser.contentLength then none
      else
        some
          ({ parser with
            contentLength :=
              parser.contentLength * 10 + (ch - octet '0').toUInt64 }, hState)
  | .matchingTransferEncodingChunked =>
      some (parser.matchValue hState CHUNKED c .general
        .transferEncodingChunked)
  | .matchingConnectionTokenStart =>
      some (parser,
        if c = octet 'k' then .matchingConnectionKeepAlive
        else if c = octet 'c' then .matchingConnectionClose
        else if c = octet 'u' then .matchingConnectionUpgrade
        else if token c ≠ 0 then .matchingConnectionToken
        else if c = octet ' ' ∨ c = octet '\t' then hState
        else .general)
  | .matchingConnectionKeepAlive =>
      some (parser.matchValue hState KEEP_ALIVE c .matchingConnectionToken
        .connectionKeepAlive)
  | .matchingConnectionClose =>
      some (parser.matchValue hState CLOSE c .matchingConnectionToken
        .connectionClose)
  | .matchingConnectionUpgrade =>
      some (parser.matchValue hState UPGRADE c .matchingConnectionToken
        .connectionUpgrade)
  | .matchingConnectionToken =>
      if ch = octet ',' then
        some ({ parser with index := 0 }, .matchingConnectionTokenStart)
      else some (parser, hState)
  | .transferEncodingChunked =>
      some (parser, if ch ≠ octet ' ' then .general else hState)
  | .connectionKeepAlive | .connectionClose | .connectionUpgrade =>
      if ch = octet ',' then
        let parser := setFlag { parser with headerState := hState }
        some ({ parser with index := 0 }, .matchingConnectionTokenStart)
      else if ch ≠ octet ' ' then some (parser, .matchingConnectionToken)
      else some (parser, hState)
  | _ => some (parser.goto .headerValue, .general)

/-- The search of `h_general` for the next line end. -/
def skipGeneral (p : Bytes) : Bytes :=
  let limit := p.take httpMaxHeaderSize.toNat
  match limit.findIdx? (· = CR), limit.findIdx? (· = LF) with
  | some cr, some lf => if cr ≥ lf then p.drop lf else p.drop cr
  | some cr, none => p.drop cr
  | none, some lf => p.drop lf
  | none, none => []

/-- `parser->header_state = h_state`, behind the loop over a value. -/
def store (found : RequestParser × HeaderState) : RequestParser :=
  { found.1 with headerState := found.2 }

/-- `parser->content_length -= to_read`. -/
def minus (parser : RequestParser) (toRead : Nat) : RequestParser :=
  { parser with
    contentLength := parser.contentLength - UInt64.ofNat toRead }

/-- How the loop of `s_header_value` ends: at a line end, at the end of the
data, or at a character that is refused. -/
structure ValueEnd where
  parser : RequestParser
  hState : HeaderState
  p : Bytes
  refused : Bool

def valueLoop : RequestParser → HeaderState → Bytes → ValueEnd
  | parser, hState, [] => ⟨parser, hState, [], false⟩
  | parser, hState, ch :: rest =>
      if ch = CR ∨ ch = LF then ⟨parser, hState, ch :: rest, false⟩
      else if hState = .general then
        ⟨parser, .general, skipGeneral (ch :: rest), false⟩
      else
        match parser.onValueChar hState ch with
        | none => ⟨parser, hState, ch :: rest, true⟩
        | some (parser, hState) => valueLoop parser hState rest

end RequestParser

namespace Progress

/-- `s_header_field`. -/
def headerField (progress : Progress) (start : Bytes) : Turn :=
  let ended := progress.parser.fieldLoop start
  let p := ended.2
  match (progress.set ended.1).count (start.length - p.length) with
  | .error overflowed => .stop overflowed p
  | .ok counted =>
      match p with
      | [] => .next counted []
      | ch :: rest =>
          if ch = octet ':' then
            .next ((counted.set
              (counted.parser.goto .headerValueDiscardWs)).data
                .headerField p) rest
          else
            .stop (counted.set
              (counted.parser.setErrno .invalidHeaderToken)) p

/-- The data ends within a value. -/
def valueAtEnd (progress : Progress) (taken : Nat) : Turn :=
  match progress.count taken with
  | .error overflowed => .stop overflowed []
  | .ok counted => .next counted []

/-- A value ends at a CR; the callback comes before the count. -/
def valueAtCr (progress : Progress) (p : Bytes) (taken : Nat) : Turn :=
  let reported := (progress.set
    (progress.parser.goto .headerAlmostDone)).data .headerValue p
  match reported.count taken with
  | .error overflowed => .stop overflowed p
  | .ok counted => .next counted p.tail

/-- A value ends at an LF; the count comes before the callback. -/
def valueAtLf (progress : Progress) (ch : UInt8) (p : Bytes) (taken : Nat) :
    Turn :=
  let almost := progress.set (progress.parser.goto .headerAlmostDone)
  match almost.count taken with
  | .error overflowed => .stop overflowed p
  | .ok counted =>
      (counted.data .headerValue p).perform
        (counted.parser.onHeaderAlmostDone ch) p

/-- `s_header_value`. -/
def headerValue (progress : Progress) (start : Bytes) : Turn :=
  let ended := progress.parser.valueLoop progress.parser.headerState start
  let taken := start.length - ended.p.length
  let parser := RequestParser.store (ended.parser, ended.hState)
  if ended.refused then
    .stop (progress.set (parser.setErrno .invalidContentLength)) ended.p
  else
    match ended.p with
    | [] => (progress.set parser).valueAtEnd taken
    | ch :: _ =>
        if ch = CR then (progress.set parser).valueAtCr ended.p taken
        else (progress.set parser).valueAtLf ch ended.p taken

/-- `s_body_identity`; the last byte of the body is read once more. -/
def bodyIdentity (progress : Progress) (p : Bytes) : Turn :=
  let toRead := min progress.parser.contentLength.toNat p.length
  let parser := progress.parser.minus toRead
  let last := p.drop (toRead - 1)
  let marked := (progress.mark .body p).set parser
  if parser.contentLength = 0 then
    let done := parser.goto .messageDone
    ((marked.set done).data .body last.tail).perform done.onMessageDone last
  else
    .next marked last.tail

/-- `s_chunk_data`. -/
def chunkData (progress : Progress) (p : Bytes) : Turn :=
  let toRead := min progress.parser.contentLength.toNat p.length
  let parser := progress.parser.minus toRead
  let last := p.drop (toRead - 1)
  let marked := (progress.mark .body p).set parser
  if parser.contentLength = 0 then
    .next (marked.set (parser.goto .chunkDataAlmostDone)) last.tail
  else
    .next marked last.tail

/-- The switch at the position of `ch`. -/
def switch (progress : Progress) (ch : UInt8) (rest : Bytes) : Turn :=
  match progress.parser.state with
  | .headerField => progress.headerField (ch :: rest)
  | .headerValue => progress.headerValue (ch :: rest)
  | .bodyIdentity => progress.bodyIdentity (ch :: rest)
  | .chunkData => progress.chunkData (ch :: rest)
  | _ => progress.perform (progress.parser.onByte ch) (ch :: rest)

/-- One iteration of the loop. -/
def turn (progress : Progress) (ch : UInt8) (rest : Bytes) : Turn :=
  if progress.parser.state.parsingHeader then
    match progress.count 1 with
    | .error overflowed => .stop overflowed (ch :: rest)
    | .ok counted => counted.switch ch rest
  else
    progress.switch ch rest

/-- The callbacks for the marks that are left at the end of the data. -/
def finish (progress : Progress) : Progress :=
  (((progress.data .headerField []).data .headerValue []).data .url []).data
    .body []

/-- The loop; every iteration moves the position. -/
def loop : Nat → Progress → Bytes → Executed
  | 0, progress, p => ⟨progress.parser, progress.callbacks, p⟩
  | _ + 1, progress, [] =>
      let progress := progress.finish
      ⟨progress.parser, progress.callbacks, []⟩
  | fuel + 1, progress, ch :: rest =>
      match progress.turn ch rest with
      | .next progress p => loop fuel progress p
      | .stop progress rest => ⟨progress.parser, progress.callbacks, rest⟩

end Progress

namespace CountingParser

/-- The token that a call finds begun, whose mark is set to its data. -/
def tokenAt : ParserState → Option Token
  | .headerField => some .headerField
  | .headerValue => some .headerValue
  | .reqPath | .reqSchema | .reqSchemaSlash | .reqSchemaSlashSlash
  | .reqServerStart | .reqServer | .reqServerWithAt | .reqQueryStringStart
  | .reqQueryString | .reqFragmentStart | .reqFragment => some .url
  | _ => none

def marksAt (state : ParserState) (data : Bytes) : Marks :=
  fun token => if tokenAt state = some token then some data else none

/-- The whole loop over the data of a call. -/
def executeAll (parser : CountingParser) (data : Bytes) : Executed :=
  Progress.loop (data.length + 1)
    ⟨parser, marksAt parser.state data, []⟩ data

/-- `http_parser_execute`: the callbacks it runs and what it returns. -/
def execute (parser : CountingParser) (data : Bytes) :
    CountingParser × List HttpCallback × Nat :=
  if parser.httpErrno ≠ .ok then
    (parser, [], 0)
  else
    match data with
    | [] =>
        match parser.state with
        | .dead | .startReq => (parser, [], 0)
        | _ => ({ parser with httpErrno := .invalidEofState }, [], 1)
    | _ :: _ =>
        let executed := parser.executeAll data
        (executed.parser, executed.callbacks,
          data.length - executed.rest.length)

end CountingParser

/-- The parser of the codec. -/
def httpParser : HttpParser where
  State := CountingParser
  init := .init
  execute := CountingParser.execute
  failed parser := parser.httpErrno ≠ .ok

end Woody
