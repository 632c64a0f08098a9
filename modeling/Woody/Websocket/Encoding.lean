import Mathlib.Data.List.Forall2
import Woody.Websocket.CodecRefinement
import Woody.Websocket.Handler

/-!
# Encoding and decoding

What `ConvertFrameToString` writes for a frame is read back by the reference
decoder, whatever follows.  Encodings are therefore self-delimiting, and a
parser that is called again and again takes one encoded frame per call.
-/

namespace Woody

namespace WebsocketFrame

/-- Frames whose fields fit their places in the header. -/
structure Encodable (frame : WebsocketFrame) : Prop where
  fin : frame.fin ≤ 1
  rsv1 : frame.rsv1 = 0
  rsv2 : frame.rsv2 = 0
  rsv3 : frame.rsv3 = 0
  opcode : frame.opcode ∈ [0, 1, 2, 8, 9, 10]
  control : 8 ≤ frame.opcode → frame.fin = 1
  mask : frame.mask ≤ 1
  payloadLength : frame.payloadLength.toNat = frame.body.length
  small : frame.payloadLength.toNat ≤ 0xffffffff

/-- The decoded form of a frame. -/
def wire (frame : WebsocketFrame) : WireFrame where
  fin := frame.fin
  opcode := frame.opcode
  payloadLength := frame.payloadLength
  maskingKey := if frame.mask = 0 then none else some frame.maskingKey
  body := frame.body

def firstByte (frame : WebsocketFrame) : UInt8 :=
  UInt8.ofNat (frame.fin <<< 7) ||| UInt8.ofNat frame.opcode

/-- The low seven bits of the second byte. -/
def lengthCode (length : Nat) : Nat :=
  if length ≤ 125 then length else if length ≤ 0xff then 126 else 127

def secondByte (frame : WebsocketFrame) : UInt8 :=
  UInt8.ofNat (frame.mask <<< 7) |||
    UInt8.ofNat (lengthCode frame.payloadLength.toNat)

def lengthBytes (length : Nat) : Bytes :=
  if length ≤ 125 then []
  else if length ≤ 0xff then Bytes.ofNatBE 2 length
  else Bytes.ofNatBE 8 length

def keyBytes (frame : WebsocketFrame) : Bytes :=
  if frame.mask = 0 then []
  else Bytes.ofNatBE 4 frame.maskingKey.toNat

/-- The bytes of a frame on the wire. -/
def encode (frame : WebsocketFrame) : Bytes :=
  frame.firstByte :: frame.secondByte ::
    (lengthBytes frame.payloadLength.toNat ++ frame.keyBytes ++ frame.body)

private theorem topBit_or_toNat {bit low : Nat} (isBit : bit ≤ 1)
    (small : low < 128) :
    (UInt8.ofNat (bit <<< 7) ||| UInt8.ofNat low).toNat =
      bit * 128 + low := by
  have disjoint : 2 ^ 7 * bit + low = 2 ^ 7 * bit ||| low :=
    Nat.two_pow_add_eq_or_of_lt small bit
  have top : bit <<< 7 = 2 ^ 7 * bit := by
    rw [Nat.shiftLeft_eq, Nat.mul_comm]
  have size : UInt8.size = 256 := rfl
  have topSmall : 2 ^ 7 * bit < UInt8.size := by omega
  have lowSmall : low < UInt8.size := by omega
  rw [UInt8.toNat_or, top, UInt8.toNat_ofNat_of_lt' topSmall,
    UInt8.toNat_ofNat_of_lt' lowSmall, ← disjoint]
  omega

theorem lengthCode_lt (length : Nat) : lengthCode length < 128 := by
  unfold lengthCode
  split_ifs <;> omega

theorem Encodable.opcode_lt {frame : WebsocketFrame}
    (encodable : frame.Encodable) : frame.opcode < 16 := by
  have opcode := encodable.opcode
  simp only [List.mem_cons, List.not_mem_nil, or_false] at opcode
  omega

theorem firstByte_toNat {frame : WebsocketFrame}
    (encodable : frame.Encodable) :
    frame.firstByte.toNat = frame.fin * 128 + frame.opcode :=
  topBit_or_toNat encodable.fin (Nat.lt_trans encodable.opcode_lt (by decide))

theorem secondByte_toNat {frame : WebsocketFrame}
    (encodable : frame.Encodable) :
    frame.secondByte.toNat =
      frame.mask * 128 + lengthCode frame.payloadLength.toNat :=
  topBit_or_toNat encodable.mask (lengthCode_lt _)

theorem legal_firstByte {frame : WebsocketFrame}
    (encodable : frame.Encodable) : Wire.LegalFirstByte frame.firstByte := by
  have bound := encodable.opcode_lt
  have nibble : (frame.fin * 128 + frame.opcode) % 16 = frame.opcode := by
    omega
  unfold Wire.LegalFirstByte
  rw [firstByte_toNat encodable, nibble]
  refine ⟨by omega, encodable.opcode, ?_⟩
  intro control
  rw [encodable.control control]
  omega

theorem lengthWidth_secondByte {frame : WebsocketFrame}
    (encodable : frame.Encodable) :
    Wire.lengthWidth frame.secondByte =
      (lengthBytes frame.payloadLength.toNat).length := by
  have code : frame.secondByte.toNat % 128 =
      lengthCode frame.payloadLength.toNat := by
    have small := lengthCode_lt frame.payloadLength.toNat
    rw [secondByte_toNat encodable]
    omega
  unfold Wire.lengthWidth lengthBytes
  rw [code]
  unfold lengthCode
  split_ifs <;> first | rfl | omega

theorem keyWidth_secondByte {frame : WebsocketFrame}
    (encodable : frame.Encodable) :
    Wire.keyWidth frame.secondByte = frame.keyBytes.length := by
  have mask := encodable.mask
  have small := lengthCode_lt frame.payloadLength.toNat
  unfold Wire.keyWidth keyBytes
  rw [secondByte_toNat encodable]
  split_ifs <;> first | omega | simp

end WebsocketFrame

namespace WebsocketCodec

private theorem le_125_iff (length : UInt64) :
    length ≤ 125 ↔ length.toNat ≤ 125 := UInt64.le_iff_toNat_le

private theorem le_0xff_iff (length : UInt64) :
    length ≤ 0xff ↔ length.toNat ≤ 0xff := UInt64.le_iff_toNat_le

private theorem le_0xffffffff_iff (length : UInt64) :
    length ≤ 0xffffffff ↔ length.toNat ≤ 0xffffffff :=
  UInt64.le_iff_toNat_le

/-- The encoder appends the bytes of the frame. -/
theorem convertFrameToString_eq {frame : WebsocketFrame}
    (encodable : frame.Encodable) (parsedString : Bytes) :
    convertFrameToString frame parsedString =
      (true, parsedString ++ frame.encode, []) := by
  have small := encodable.small
  have lastByte : (Bytes.ofNatBE 8 frame.payloadLength.toNat).getD 7 0 =
      UInt8.ofNat frame.payloadLength.toNat := by
    simp [Bytes.ofNatBE]
  have lastTwo : (Bytes.ofNatBE 8 frame.payloadLength.toNat).drop 6 =
      Bytes.ofNatBE 2 frame.payloadLength.toNat := rfl
  have key : (if frame.mask ≠ 0 then Bytes.ofNatBE 4 frame.maskingKey.toNat
      else []) = frame.keyBytes := by
    simp only [WebsocketFrame.keyBytes, ne_eq, ite_not]
  unfold convertFrameToString
  simp only [encodable.rsv1, encodable.rsv2, encodable.rsv3,
    imageOf_hostToNetwork64, imageOf_hostToNetwork32, lastByte, lastTwo,
    key, le_125_iff, le_0xff_iff, le_0xffffffff_iff,
    WebsocketFrame.encode, WebsocketFrame.firstByte, WebsocketFrame.secondByte,
    WebsocketFrame.lengthCode, WebsocketFrame.lengthBytes, UInt8.zero_or]
  split_ifs with short medium
  · simp
  · simp
  · simp

theorem convertFrameToString_tooLarge {frame : WebsocketFrame}
    (large : 0xffffffff < frame.payloadLength.toNat) (parsedString : Bytes) :
    (convertFrameToString frame parsedString).1 = false := by
  have notShort : ¬ frame.payloadLength.toNat ≤ 125 := by omega
  have notMedium : ¬ frame.payloadLength.toNat ≤ 0xff := by omega
  have notLong : ¬ frame.payloadLength.toNat ≤ 0xffffffff := by omega
  unfold convertFrameToString
  simp only [le_125_iff, le_0xff_iff, le_0xffffffff_iff, notShort, notMedium,
    notLong, if_false]

theorem announcedLength_encode {frame : WebsocketFrame}
    (encodable : frame.Encodable) (later : Bytes) :
    Wire.announcedLength frame.secondByte
        (WebsocketFrame.lengthBytes frame.payloadLength.toNat ++ later) =
      frame.payloadLength.toNat := by
  have small := encodable.small
  have width := WebsocketFrame.lengthWidth_secondByte encodable
  have second := WebsocketFrame.secondByte_toNat encodable
  unfold Wire.announcedLength
  rw [width, List.take_left]
  by_cases short : frame.payloadLength.toNat ≤ 125
  · have empty : WebsocketFrame.lengthBytes frame.payloadLength.toNat = [] := by
      simp [WebsocketFrame.lengthBytes, short]
    have code : WebsocketFrame.lengthCode frame.payloadLength.toNat =
        frame.payloadLength.toNat := by
      simp [WebsocketFrame.lengthCode, short]
    rw [empty, second, code, if_pos List.length_nil]
    omega
  · by_cases medium : frame.payloadLength.toNat ≤ 0xff
    · have two : WebsocketFrame.lengthBytes frame.payloadLength.toNat =
          Bytes.ofNatBE 2 frame.payloadLength.toNat := by
        simp [WebsocketFrame.lengthBytes, short, medium]
      rw [two, if_neg (by simp), Bytes.toNatBE_ofNatBE_of_lt (by omega)]
    · have eight : WebsocketFrame.lengthBytes frame.payloadLength.toNat =
          Bytes.ofNatBE 8 frame.payloadLength.toNat := by
        simp [WebsocketFrame.lengthBytes, short, medium]
      rw [eight, if_neg (by simp), Bytes.toNatBE_ofNatBE_of_lt (by omega)]

theorem announcedKey_encode {frame : WebsocketFrame}
    (encodable : frame.Encodable) (later : Bytes) :
    Wire.announcedKey frame.secondByte
        (WebsocketFrame.lengthBytes frame.payloadLength.toNat ++
          (frame.keyBytes ++ later)) =
      frame.wire.maskingKey := by
  have width := WebsocketFrame.lengthWidth_secondByte encodable
  have key := WebsocketFrame.keyWidth_secondByte encodable
  unfold Wire.announcedKey
  rw [key, width, List.drop_left]
  by_cases unmasked : frame.mask = 0
  · simp [WebsocketFrame.keyBytes, WebsocketFrame.wire, unmasked]
  · have bytes : frame.keyBytes =
        Bytes.ofNatBE 4 frame.maskingKey.toNat := by
      simp [WebsocketFrame.keyBytes, unmasked]
    have four : (Bytes.ofNatBE 4 frame.maskingKey.toNat ++ later).take 4 =
        Bytes.ofNatBE 4 frame.maskingKey.toNat :=
      List.take_left' (Bytes.ofNatBE_length 4 _)
    have bound : frame.maskingKey.toNat < 256 ^ 4 := frame.maskingKey.toNat_lt
    rw [bytes, if_neg (by simp), four, Bytes.toNatBE_ofNatBE_of_lt bound,
      UInt32.ofNat_toNat]
    simp [WebsocketFrame.wire, unmasked]

theorem headerOf_encode {frame : WebsocketFrame}
    (encodable : frame.Encodable) (later : Bytes) :
    Wire.headerOf frame.firstByte frame.secondByte
        (WebsocketFrame.lengthBytes frame.payloadLength.toNat ++
          (frame.keyBytes ++ later)) =
      frame.wire.toFrameHeader := by
  have fin := encodable.fin
  have opcode := encodable.opcode_lt
  have first := WebsocketFrame.firstByte_toNat encodable
  have top : frame.firstByte.toNat / 128 = frame.fin := by omega
  have nibble : frame.firstByte.toNat % 16 = frame.opcode := by omega
  simp only [Wire.headerOf, top, nibble, announcedLength_encode encodable,
    announcedKey_encode encodable, UInt64.ofNat_toNat]
  rfl

/-- Encodings are self-delimiting. -/
theorem encode_selfDelimiting {frame : WebsocketFrame}
    (encodable : frame.Encodable) :
    WireFraming.SelfDelimiting WebsocketFrame.encode WebsocketFrame.wire
      frame := by
  intro later
  let rest := WebsocketFrame.lengthBytes frame.payloadLength.toNat ++
    (frame.keyBytes ++ (frame.body ++ later))
  have shape : frame.encode ++ later =
      frame.firstByte :: frame.secondByte :: rest := by
    simp [WebsocketFrame.encode, rest]
  have width := WebsocketFrame.lengthWidth_secondByte encodable
  have key := WebsocketFrame.keyWidth_secondByte encodable
  have payload := encodable.payloadLength
  have spelled : Wire.headerFront
      (frame.firstByte :: frame.secondByte :: rest) =
        .frame frame.wire.toFrameHeader
          (2 + (WebsocketFrame.lengthBytes frame.payloadLength.toNat).length +
            frame.keyBytes.length) := by
    apply Wire.headerFront_eq_frame_iff.mpr
    refine ⟨_, _, rest, rfl, WebsocketFrame.legal_firstByte encodable, ?_,
      (headerOf_encode encodable _).symm, by rw [width, key]⟩
    simp only [width, key, rest, List.length_append]
    omega
  have headed : HeaderFraming.front (frame.encode ++ later) = _ :=
    (congrArg Wire.headerFront shape).trans spelled
  let head := frame.firstByte :: frame.secondByte ::
    (WebsocketFrame.lengthBytes frame.payloadLength.toNat ++ frame.keyBytes)
  have headLength : 2 +
      (WebsocketFrame.lengthBytes frame.payloadLength.toNat).length +
        frame.keyBytes.length = head.length := by
    simp only [head, List.length_cons, List.length_append]
    omega
  have split : frame.encode = head ++ frame.body := by
    simp [WebsocketFrame.encode, head]
  rw [headLength] at headed
  have reached : head.length + frame.wire.payloadLength.toNat ≤
      (frame.encode ++ later).length := by
    change head.length + frame.payloadLength.toNat ≤ _
    rw [split, List.length_append, List.length_append, payload]
    omega
  have found := Wire.front_of_reached headed reached
  have body : ((frame.encode ++ later).drop head.length).take
      frame.wire.payloadLength.toNat = frame.body := by
    change List.take frame.payloadLength.toNat _ = _
    rw [split, List.append_assoc, List.drop_left, payload, List.take_left]
  have total : head.length + frame.wire.payloadLength.toNat =
      frame.encode.length := by
    change head.length + frame.payloadLength.toNat = _
    rw [split, List.length_append, payload]
  rw [body, total] at found
  exact found

/-- One string that all frames are appended to. -/
def encodeAll (frames : List WebsocketFrame) : Bytes :=
  frames.foldl
    (fun parsedString frame => (convertFrameToString frame parsedString).2.1) []

theorem encodeAll_eq {frames : List WebsocketFrame}
    (encodable : ∀ frame ∈ frames, frame.Encodable) :
    encodeAll frames = frames.flatMap WebsocketFrame.encode := by
  have appended (start : Bytes) : frames.foldl
      (fun parsedString frame =>
        (convertFrameToString frame parsedString).2.1) start =
          start ++ frames.flatMap WebsocketFrame.encode := by
    induction frames generalizing start with
    | nil => simp
    | cons frame frames ih =>
        obtain ⟨first, rest⟩ := List.forall_mem_cons.mp encodable
        rw [List.foldl_cons, ih rest, convertFrameToString_eq first,
          List.flatMap_cons, List.append_assoc]
  exact appended []

end WebsocketCodec

namespace WebsocketParser

/-- `Parse` on all that is left, again and again, dropping what was consumed. -/
def parseRepeatedly : Nat → WebsocketParser → Bytes → List ParseResult
  | 0, _, _ => []
  | count + 1, parser, stream =>
      let result := parser.parse stream 0
      result ::
        parseRepeatedly count result.parser (stream.drop result.parsedBytes)

/-- Equal in everything the wire carries. -/
structure SameFrame (delivered frame : WebsocketFrame) : Prop where
  fin : delivered.fin = frame.fin
  opcode : delivered.opcode = frame.opcode
  mask : delivered.mask = frame.mask
  payloadLength : delivered.payloadLength = frame.payloadLength
  body : delivered.body = frame.body
  maskingKey : frame.mask = 1 → delivered.maskingKey = frame.maskingKey

/-- A call that consumes exactly one encoded frame and delivers it. -/
structure Decodes (result : ParseResult) (frame : WebsocketFrame) : Prop where
  ok : result.ok = true
  consumed : result.parsedBytes = (WebsocketCodec.encodeAll [frame]).length
  delivered : ∃ delivered, result.delivered = some delivered ∧
    SameFrame delivered frame

theorem emit_wire_sameFrame {frame : WebsocketFrame}
    (encodable : frame.Encodable) (key : UInt32) :
    SameFrame (emit key frame.wire).2 frame := by
  have mask := encodable.mask
  refine ⟨rfl, rfl, ?_, rfl, rfl, ?_⟩
  · by_cases unmasked : frame.mask = 0
    · simp [emit, FrameHeader.mask, WebsocketFrame.wire, unmasked]
    · simp only [emit, FrameHeader.mask, WebsocketFrame.wire, unmasked,
        if_false, Option.isSome_some, if_true]
      omega
  · intro masked
    simp [emit, WebsocketFrame.wire, masked]

theorem parse_encode {key : UInt32} {parser : WebsocketParser}
    (holds : Holds key [] parser) {frame : WebsocketFrame}
    (encodable : frame.Encodable) (later : Bytes) :
    let result := parser.parse (frame.encode ++ later) 0
    Decodes result frame ∧ result.parsedBytes = frame.encode.length ∧
      Holds (emit key frame.wire).1 [] result.parser := by
  have found := WebsocketCodec.encode_selfDelimiting encodable later
  obtain ⟨parser', parsed, held⟩ := parse_frame holds
    (by rw [List.nil_append]; exact found)
  intro result
  have single : WebsocketCodec.encodeAll [frame] = frame.encode := by
    rw [WebsocketCodec.encodeAll_eq (by simpa using encodable)]
    simp
  simp only [result, parsed]
  exact ⟨⟨rfl, by rw [single]; rfl, _, rfl, emit_wire_sameFrame encodable key⟩,
    rfl, held⟩

/-- The run lemma, by induction on the frames. -/
theorem parseRepeatedly_encode {key : UInt32} {parser : WebsocketParser}
    (holds : Holds key [] parser) {frames : List WebsocketFrame}
    (encodable : ∀ frame ∈ frames, frame.Encodable) (later : Bytes) :
    List.Forall₂ Decodes
      (parseRepeatedly frames.length parser
        (frames.flatMap WebsocketFrame.encode ++ later)) frames := by
  induction frames generalizing key parser with
  | nil => exact .nil
  | cons frame frames ih =>
      obtain ⟨first, rest⟩ := List.forall_mem_cons.mp encodable
      obtain ⟨decodes, consumed, held⟩ := parse_encode holds first
        (frames.flatMap WebsocketFrame.encode ++ later)
      rw [List.flatMap_cons, List.append_assoc]
      simp only [List.length_cons, parseRepeatedly]
      refine .cons decodes ?_
      rw [consumed, List.drop_left]
      exact ih held rest

end WebsocketParser

/-- The opcode of a message type. -/
def MessageType.opcode? : MessageType → Option Nat
  | .none => Option.none
  | .text => some opcodeText
  | .binary => some opcodeBinary
  | .close => some opcodeClose
  | .ping => some opcodePing
  | .pong => some opcodePong

/-- The messages the server can send. -/
def Sendable (message : MessageType × Bytes) : Prop :=
  message.1 ≠ .none ∧ message.2.length ≤ 0xffffffff

instance (message : MessageType × Bytes) : Decidable (Sendable message) :=
  inferInstanceAs (Decidable (_ ∧ _))

namespace WebsocketFrame

/-- The frame of a message. -/
def ofMessage (message : MessageType × Bytes) : WebsocketFrame where
  fin := 1
  rsv1 := 0
  rsv2 := 0
  rsv3 := 0
  opcode := message.1.opcode?.getD 0
  mask := 0
  payloadLength := UInt64.ofNat message.2.length
  maskingKey := 0
  body := message.2

theorem ofMessage_encodable {message : MessageType × Bytes}
    (sendable : Sendable message) : (ofMessage message).Encodable := by
  obtain ⟨typed, small⟩ := sendable
  have length : (UInt64.ofNat message.2.length).toNat = message.2.length :=
    UInt64.toNat_ofNat_of_lt' (Nat.lt_of_le_of_lt small (by decide))
  refine ⟨Nat.le_refl 1, rfl, rfl, rfl, ?_, fun _ => rfl, Nat.zero_le 1,
    length, Nat.le_trans (Nat.le_of_eq length) small⟩
  obtain ⟨type, data⟩ := message
  cases type with
  | none => exact (typed rfl).elim
  | text | binary | close | ping | pong =>
      simp [ofMessage, MessageType.opcode?, opcodeText, opcodeBinary,
        opcodeClose, opcodePing, opcodePong]

end WebsocketFrame

namespace WebsocketHandler

theorem convertMessageToFrame_eq {message : MessageType × Bytes}
    (typed : message.1 ≠ .none) :
    WebsocketCodec.convertMessageToFrame message.1 message.2 =
      some (WebsocketFrame.ofMessage message) := by
  obtain ⟨type, data⟩ := message
  cases type with
  | none => exact (typed rfl).elim
  | text | binary | close | ping | pong => rfl

theorem sendWebsocketMessage_eq {message : MessageType × Bytes}
    (storable : message.2.length < 2 ^ 64) :
    sendWebsocketMessage message.1 message.2 =
      if Sendable message then
        some (WebsocketFrame.ofMessage message).encode
      else
        none := by
  unfold sendWebsocketMessage
  by_cases typed : message.1 = .none
  · rw [typed]
    simp [WebsocketCodec.convertMessageToFrame, Sendable, typed]
  · rw [convertMessageToFrame_eq typed]
    by_cases small : message.2.length ≤ 0xffffffff
    · have sendable : Sendable message := ⟨typed, small⟩
      simp only [WebsocketCodec.convertFrameToString_eq
        (WebsocketFrame.ofMessage_encodable sendable), sendable, if_true,
        List.nil_append]
    · have large : 0xffffffff <
          (WebsocketFrame.ofMessage message).payloadLength.toNat := by
        have length : (UInt64.ofNat message.2.length).toNat =
            message.2.length := UInt64.toNat_ofNat_of_lt' storable
        change _ < (UInt64.ofNat message.2.length).toNat
        omega
      have refused := WebsocketCodec.convertFrameToString_tooLarge large []
      have unsendable : ¬ Sendable message := fun sendable =>
        small sendable.2
      rw [if_neg unsendable]
      dsimp only
      generalize WebsocketCodec.convertFrameToString
        (WebsocketFrame.ofMessage message) [] = converted at refused
      obtain ⟨ok, string, events⟩ := converted
      simp only at refused
      rw [refused]

/-- A call that delivers one whole unmasked frame with the data of the
message. -/
structure Reads (result : WebsocketParser.ParseResult)
    (message : MessageType × Bytes) : Prop where
  ok : result.ok = true
  delivered : ∃ delivered, result.delivered = some delivered ∧
    delivered.fin = 1 ∧ delivered.mask = 0 ∧
    message.1.opcode? = some delivered.opcode ∧ delivered.body = message.2

theorem reads_of_decodes {result : WebsocketParser.ParseResult}
    {message : MessageType × Bytes} (sendable : Sendable message)
    (decodes : WebsocketParser.Decodes result (.ofMessage message)) :
    Reads result message := by
  obtain ⟨delivered, same, agrees⟩ := decodes.delivered
  refine ⟨decodes.ok, delivered, same, agrees.fin, agrees.mask, ?_,
    agrees.body⟩
  rw [agrees.opcode]
  obtain ⟨type, data⟩ := message
  cases type with
  | none => exact (sendable.1 rfl).elim
  | text | binary | close | ping | pong => rfl

/-- The strings of all messages, one after the other. -/
def sendAll (messages : List (MessageType × Bytes)) : Bytes :=
  (messages.filterMap fun message =>
    sendWebsocketMessage message.1 message.2).flatten

theorem sendAll_eq {messages : List (MessageType × Bytes)}
    (storable : ∀ message ∈ messages, message.2.length < 2 ^ 64) :
    sendAll messages =
      ((messages.filter (Sendable ·)).map WebsocketFrame.ofMessage).flatMap
        WebsocketFrame.encode := by
  induction messages with
  | nil => rfl
  | cons message messages ih =>
      obtain ⟨first, rest⟩ := List.forall_mem_cons.mp storable
      have later := ih rest
      unfold sendAll at later ⊢
      rw [List.filterMap_cons, sendWebsocketMessage_eq first]
      by_cases sendable : Sendable message
      · simp [sendable, later]
      · simp [sendable, later]

/-- Decoding undoes encoding.  Encoded frames and sent messages are
delivered one per call, whatever follows them; a frame that is too large is
refused. -/
theorem decoding_undoes_encoding (memory : WebsocketParser) (later : Bytes) :
    (∀ frames : List WebsocketFrame, (∀ frame ∈ frames, frame.Encodable) →
      List.Forall₂ WebsocketParser.Decodes
        (WebsocketParser.parseRepeatedly frames.length memory.init
          (WebsocketCodec.encodeAll frames ++ later)) frames) ∧
    (∀ messages : List (MessageType × Bytes),
      (∀ message ∈ messages, message.2.length < 2 ^ 64) →
      let sendable := messages.filter (Sendable ·)
      List.Forall₂ Reads
        (WebsocketParser.parseRepeatedly sendable.length memory.init
          (sendAll messages ++ later)) sendable) ∧
    (∀ (frame : WebsocketFrame) (parsedString : Bytes),
      0xffffffff < frame.payloadLength.toNat →
      (WebsocketCodec.convertFrameToString frame parsedString).1 = false) := by
  have holds := WebsocketParser.Holds.init memory
  refine ⟨?_, ?_, ?_⟩
  · intro frames encodable
    rw [WebsocketCodec.encodeAll_eq encodable]
    exact WebsocketParser.parseRepeatedly_encode holds encodable later
  · intro messages storable sendable
    have isSendable : ∀ message ∈ sendable, Sendable message := by
      intro message kept
      exact of_decide_eq_true (List.mem_filter.mp kept).2
    have encodable : ∀ frame ∈ sendable.map WebsocketFrame.ofMessage,
        frame.Encodable := by
      intro frame member
      obtain ⟨message, kept, rfl⟩ := List.mem_map.mp member
      exact WebsocketFrame.ofMessage_encodable (isSendable message kept)
    have decoded := WebsocketParser.parseRepeatedly_encode holds encodable later
    rw [← sendAll_eq storable, List.length_map,
      List.forall₂_map_right_iff] at decoded
    have paired : List.Forall₂
        (fun message result => Sendable message ∧
          WebsocketParser.Decodes result (.ofMessage message))
        sendable (WebsocketParser.parseRepeatedly sendable.length memory.init
          (sendAll messages ++ later)) :=
      List.forall₂_and_left _ _ |>.mpr ⟨isSendable, decoded.flip⟩
    exact (paired.imp fun message result both =>
      reads_of_decodes both.1 both.2).flip
  · intro frame parsedString large
    exact WebsocketCodec.convertFrameToString_tooLarge large parsedString

/-- A masked text frame and an unmasked ping, encoded and read back. -/
theorem text_and_ping_decoded :
    let text : WebsocketFrame := ⟨1, 0, 0, 0, opcodeText, 1, 2, 7, [104, 105]⟩
    let ping : WebsocketFrame := ⟨1, 0, 0, 0, opcodePing, 0, 0, 0, []⟩
    List.Forall₂ WebsocketParser.Decodes
      (WebsocketParser.parseRepeatedly 2 (WebsocketParser.init default)
        (WebsocketCodec.encodeAll [text, ping] ++ [])) [text, ping] := by
  intro text ping
  have textEncodable : text.Encodable := by
    constructor <;> decide
  have pingEncodable : ping.Encodable := by
    constructor <;> decide
  apply (decoding_undoes_encoding default []).1 [text, ping]
  simp only [List.forall_mem_cons]
  exact ⟨textEncodable, pingEncodable, fun _ member => nomatch member⟩

end WebsocketHandler

end Woody
