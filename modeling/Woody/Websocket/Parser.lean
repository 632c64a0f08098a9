import Woody.Foundation.Resumable
import Woody.Websocket.Frame

/-!
# The incremental WebSocket parser

`WebsocketParser::Parse` as the source runs it.  The header part leaves the
function early whenever a byte is missing or a check fails; the fields it has
written by then stay written.  The body part runs in the same call as soon as
the header is complete.
-/

namespace Woody

inductive ParsingState where
  | headerBegin
  | bodyBegin
  | complete
  deriving DecidableEq, Inhabited

structure WebsocketParser where
  state : ParsingState
  fin : Nat
  rsv1 : Nat
  rsv2 : Nat
  rsv3 : Nat
  opcode : Nat
  mask : Nat
  payloadLength : UInt64
  maskingKey : UInt32
  body : Bytes
  deriving DecidableEq, Inhabited

/-- `a - b` on `size_t`: wraps around below zero. -/
def sizeSub (a b : Nat) : Nat := if b ≤ a then a - b else a + 2 ^ 64 - b

theorem sizeSub_of_le {a b : Nat} (le : b ≤ a) : sizeSub a b = a - b :=
  if_pos le

namespace WebsocketParser

/-- The constructor sets `state_` and leaves `body_` empty; every other field
keeps what the memory of the object held before. -/
def init (memory : WebsocketParser) : WebsocketParser :=
  { memory with state := .headerBegin, body := [] }

/-- What one call of `Parse` does: its result, the final `parsed_bytes`, the
frame passed to `parsing_complete_callback_` and the reason passed to
`OnParsingError`. -/
structure ParseResult where
  ok : Bool
  parsedBytes : Nat
  parser : WebsocketParser
  delivered : Option WebsocketFrame
  error : Option String
  deriving DecidableEq

/-- How the header part of `Parse` ends: with a `return`, or by falling
through to the body part with `header_bytes` bytes of header. -/
inductive HeaderExit where
  | leave (ok : Bool) (parser : WebsocketParser) (error : Option String)
  | enterBody (parser : WebsocketParser) (headerBytes : Nat)

def readFirstByte (parser : WebsocketParser) (firstByte : UInt8) :
    WebsocketParser :=
  { parser with
    fin := ((firstByte >>> 7) &&& 1).toNat
    rsv1 := ((firstByte >>> 6) &&& 1).toNat
    rsv2 := ((firstByte >>> 5) &&& 1).toNat
    rsv3 := ((firstByte >>> 4) &&& 1).toNat
    opcode := (firstByte &&& 0xf).toNat }

def firstByteError (parser : WebsocketParser) : Option String :=
  if parser.rsv1 ≠ 0 ∨ parser.rsv2 ≠ 0 ∨ parser.rsv3 ≠ 0 then
    some "rsv must be 0x0."
  else if (parser.opcode > 2 ∧ parser.opcode < 8) ∨ parser.opcode > 0xA then
    some "use reserved opcode"
  else if parser.opcode > 0x7 ∧ parser.fin = 0 then
    some "control frames cannot be fragmented."
  else
    none

def readSecondByte (parser : WebsocketParser) (secondByte : UInt8) :
    WebsocketParser :=
  { parser with
    mask := ((secondByte >>> 7) &&& 1).toNat
    payloadLength := (secondByte &&& 0x7f).toUInt64 }

/-- The 8-byte and 2-byte length forms; `none` when their bytes are missing. -/
def readExtendedLength (parser : WebsocketParser) (data : Bytes)
    (headerBytes : Nat) : Option (WebsocketParser × Nat) :=
  if parser.payloadLength = 127 then
    if data.length < headerBytes + 8 then
      none
    else
      some ({ parser with
        payloadLength := networkToHostInt64 (data.drop headerBytes) },
        headerBytes + 8)
  else if parser.payloadLength = 126 then
    if data.length < headerBytes + 2 then
      none
    else
      some ({ parser with
        payloadLength := (networkToHostInt16 (data.drop headerBytes)).toUInt64 },
        headerBytes + 2)
  else
    some (parser, headerBytes)

def readMaskingKey (parser : WebsocketParser) (data : Bytes)
    (headerBytes : Nat) : HeaderExit :=
  if parser.mask ≠ 0 then
    if data.length < headerBytes + 4 then
      .leave true parser none
    else
      .enterBody { parser with
        maskingKey := networkToHostInt32 (data.drop headerBytes) }
        (headerBytes + 4)
  else
    .enterBody parser headerBytes

/-- The header part of `Parse`.  `return parsed_bytes` is the conversion of
a byte count to `bool`. -/
def parseHeader (parser : WebsocketParser) (data : Bytes)
    (parsedBytes : Nat) : HeaderExit :=
  match data with
  | [] => .leave (parsedBytes != 0) parser none
  | firstByte :: afterFirst =>
      let parser := parser.readFirstByte firstByte
      match parser.firstByteError with
      | some reason => .leave false parser (some reason)
      | none =>
          match afterFirst with
          | [] => .leave (parsedBytes != 0) parser none
          | secondByte :: _ =>
              let parser := parser.readSecondByte secondByte
              -- an opcode has four bits, so this check never fires
              if parser.opcode > 127 ∧ parser.payloadLength > 125 then
                .leave false parser
                  (some "control frame payload_length too large.")
              else
                match parser.readExtendedLength data 2 with
                | none => .leave true parser none
                | some (parser, headerBytes) =>
                    parser.readMaskingKey data headerBytes

/-- The frame `OnParsingComplete` builds from the fields. -/
def frame (parser : WebsocketParser) : WebsocketFrame where
  fin := parser.fin
  rsv1 := parser.rsv1
  rsv2 := parser.rsv2
  rsv3 := parser.rsv3
  opcode := parser.opcode
  mask := parser.mask
  payloadLength := parser.payloadLength
  maskingKey := parser.maskingKey
  body := parser.body

def cleanUp (parser : WebsocketParser) : WebsocketParser :=
  { parser with body := [], state := .headerBegin }

/-- The body part of `Parse`, with `OnParsingComplete` at its end. -/
def parseBody (parser : WebsocketParser) (data : Bytes)
    (parsedBytes : Nat) : ParseResult :=
  let bodyNeedBytes := sizeSub parser.payloadLength.toNat parser.body.length
  let available := sizeSub data.length parsedBytes
  if bodyNeedBytes ≤ available then
    let parser :=
      { parser with
        body := parser.body ++ (data.drop parsedBytes).take bodyNeedBytes
        state := .complete }
    ⟨true, parsedBytes + bodyNeedBytes, parser.cleanUp, some parser.frame, none⟩
  else
    ⟨true, parsedBytes + available,
      { parser with
        body := parser.body ++ (data.drop parsedBytes).take available },
      none, none⟩

def parse (parser : WebsocketParser) (data : Bytes)
    (parsedBytes : Nat) : ParseResult :=
  if parser.state = .headerBegin then
    match parser.parseHeader data parsedBytes with
    | .leave ok parser error => ⟨ok, parsedBytes, parser, none, error⟩
    | .enterBody parser headerBytes =>
        { parser with state := .bodyBegin }.parseBody data
          (parsedBytes + headerBytes)
  else
    parser.parseBody data parsedBytes

/-- One call with `parsed_bytes = 0`, as every caller makes it. -/
def call (parser : WebsocketParser) (data : Bytes) :
    Call WebsocketFrame WebsocketParser :=
  let result := parser.parse data 0
  ⟨result.parser, result.parsedBytes, result.delivered⟩

end WebsocketParser

end Woody
