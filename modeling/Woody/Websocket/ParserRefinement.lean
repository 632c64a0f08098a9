import Woody.Websocket.Parser
import Woody.Websocket.Wire

/-!
# The incremental parser refines the one-shot decoder

`Holds` relates a parser to the bytes it has taken of an unfinished frame and
to the masking key the last masked frame has left behind.  One call of
`Parse` then does what the reference decoder says about the pending bytes
followed by the new ones, so the run lemmas of resumable decoders apply to
every schedule of calls.
-/

namespace Woody

namespace WebsocketParser

private theorem topBit_toNat (byte : UInt8) :
    ((byte >>> 7) &&& 1).toNat = byte.toNat / 128 := by
  have bound := byte.toNat_lt
  simp [Nat.shiftRight_eq_div_pow, Nat.and_one_is_mod]
  omega

private theorem lowNibble_toNat (byte : UInt8) :
    (byte &&& 0xf).toNat = byte.toNat % 16 :=
  Nat.and_two_pow_sub_one_eq_mod byte.toNat 4

private theorem lowSeven_toNat (byte : UInt8) :
    (byte &&& 0x7f).toUInt64.toNat = byte.toNat % 128 :=
  Nat.and_two_pow_sub_one_eq_mod byte.toNat 7

private theorem lowSeven_eq_iff (byte : UInt8) (code : UInt64) :
    (byte &&& 0x7f).toUInt64 = code ↔ byte.toNat % 128 = code.toNat := by
  rw [← UInt64.toNat_inj, lowSeven_toNat]

/-- The three checks on the first byte accept the legal first bytes. -/
theorem firstByteError_eq_none_iff (parser : WebsocketParser)
    (first : UInt8) :
    (parser.readFirstByte first).firstByteError = none ↔
      Wire.LegalFirstByte first := by
  have bound := first.toNat_lt
  have reserved : ((parser.readFirstByte first).rsv1 ≠ 0 ∨
      (parser.readFirstByte first).rsv2 ≠ 0 ∨
      (parser.readFirstByte first).rsv3 ≠ 0) ↔
        first.toNat / 16 % 8 ≠ 0 := by
    simp [readFirstByte, Nat.shiftRight_eq_div_pow, Nat.and_one_is_mod]
    omega
  have opcode : (parser.readFirstByte first).opcode = first.toNat % 16 :=
    lowNibble_toNat first
  have fin : (parser.readFirstByte first).fin = first.toNat / 128 :=
    topBit_toNat first
  unfold firstByteError Wire.LegalFirstByte
  simp only [reserved, opcode, fin, List.mem_cons, List.not_mem_nil, or_false]
  split_ifs
  · simp only [false_iff]
    omega
  · simp only [false_iff]
    omega
  · simp only [false_iff]
    omega
  · simp only [true_iff]
    omega

/-- The fields that survive a call which consumes nothing. -/
structure SameCore (before after : WebsocketParser) : Prop where
  state : after.state = before.state
  maskingKey : after.maskingKey = before.maskingKey
  body : after.body = before.body

/-- The parser after reading a complete header.  A frame without a key keeps
the key of an earlier frame. -/
def loadHeader (parser : WebsocketParser) (header : FrameHeader) :
    WebsocketParser :=
  { parser with
    fin := header.fin
    rsv1 := 0
    rsv2 := 0
    rsv3 := 0
    opcode := header.opcode
    mask := header.mask
    payloadLength := header.payloadLength
    maskingKey := header.maskingKey.getD parser.maskingKey }

theorem parseHeader_reject (parser : WebsocketParser) {data : Bytes}
    (found : HeaderFraming.front data = .reject) (parsedBytes : Nat) :
    ∃ later reason,
      parser.parseHeader data parsedBytes = .leave false later (some reason) ∧
        SameCore parser later := by
  obtain ⟨first, rest, rfl, illegal⟩ :=
    Wire.headerFront_eq_reject_iff.mp found
  have refused : (parser.readFirstByte first).firstByteError ≠ none := by
    intro accepted
    exact illegal ((firstByteError_eq_none_iff parser first).mp accepted)
  obtain ⟨reason, error⟩ := Option.ne_none_iff_exists'.mp refused
  refine ⟨parser.readFirstByte first, reason, ?_, rfl, rfl, rfl⟩
  simp only [parseHeader, error]

/-- The parser after its first two bytes. -/
private def readTwo (parser : WebsocketParser) (first second : UInt8) :
    WebsocketParser :=
  (parser.readFirstByte first).readSecondByte second

private theorem readTwo_eq {parser : WebsocketParser}
    {first second : UInt8} (legal : Wire.LegalFirstByte first) :
    parser.readTwo first second =
      { parser with
        fin := first.toNat / 128
        rsv1 := 0
        rsv2 := 0
        rsv3 := 0
        opcode := first.toNat % 16
        mask := second.toNat / 128
        payloadLength := (second &&& 0x7f).toUInt64 } := by
  have reserved := legal.1
  have fin := topBit_toNat first
  have mask := topBit_toNat second
  have opcode := lowNibble_toNat first
  have rsv1 : ((first >>> 6) &&& 1).toNat = 0 := by
    simp [Nat.shiftRight_eq_div_pow, Nat.and_one_is_mod]
    omega
  have rsv2 : ((first >>> 5) &&& 1).toNat = 0 := by
    simp [Nat.shiftRight_eq_div_pow, Nat.and_one_is_mod]
    omega
  have rsv3 : ((first >>> 4) &&& 1).toNat = 0 := by
    simp [Nat.shiftRight_eq_div_pow, Nat.and_one_is_mod]
    omega
  simp only [readTwo, readFirstByte, readSecondByte, fin, mask, opcode, rsv1,
    rsv2, rsv3]

private theorem parseHeader_two {parser : WebsocketParser}
    {first second : UInt8} {rest : Bytes}
    (legal : Wire.LegalFirstByte first) (parsedBytes : Nat) :
    parser.parseHeader (first :: second :: rest) parsedBytes =
      match (parser.readTwo first second).readExtendedLength
          (first :: second :: rest) 2 with
      | none => .leave true (parser.readTwo first second) none
      | some (parser, headerBytes) =>
          parser.readMaskingKey (first :: second :: rest) headerBytes := by
  have accepted := (firstByteError_eq_none_iff parser first).mpr legal
  have small : ¬ ((parser.readFirstByte first).readSecondByte second).opcode
      > 127 := by
    have nibble : ((parser.readFirstByte first).readSecondByte second).opcode
        = first.toNat % 16 := lowNibble_toNat first
    omega
  unfold parseHeader readTwo
  dsimp only
  rw [accepted]
  dsimp only
  exact if_neg fun tooLarge => small tooLarge.1

private theorem readExtendedLength_eq (parser : WebsocketParser)
    (first second : UInt8) (rest : Bytes) :
    (parser.readTwo first second).readExtendedLength
        (first :: second :: rest) 2 =
      if rest.length < Wire.lengthWidth second then
        none
      else
        some ({ parser.readTwo first second with
          payloadLength := UInt64.ofNat (Wire.announcedLength second rest) },
          2 + Wire.lengthWidth second) := by
  have code (value : UInt64) :
      (parser.readTwo first second).payloadLength = value ↔
        second.toNat % 128 = value.toNat := lowSeven_eq_iff second value
  have short (width : Nat) :
      ((first :: second :: rest).length < 2 + width) ↔
        rest.length < width := by
    simp only [List.length_cons]
    omega
  unfold readExtendedLength
  by_cases long : second.toNat % 128 = 127
  · have width : Wire.lengthWidth second = 8 := by
      simp [Wire.lengthWidth, long]
    rw [if_pos ((code 127).mpr long), width]
    simp only [short]
    split_ifs with missing
    · rfl
    · have loaded := networkToHostInt64_toNat (Nat.not_lt.mp missing)
      have announced : Wire.announcedLength second rest =
          (networkToHostInt64 rest).toNat := by
        simp [Wire.announcedLength, width, loaded]
      rw [announced, UInt64.ofNat_toNat]
      rfl
  · by_cases medium : second.toNat % 128 = 126
    · have width : Wire.lengthWidth second = 2 := by
        simp [Wire.lengthWidth, medium]
      rw [if_neg (mt (code 127).mp long), if_pos ((code 126).mpr medium),
        width]
      simp only [short]
      split_ifs with missing
      · rfl
      · have loaded := networkToHostInt16_toNat (Nat.not_lt.mp missing)
        have announced : Wire.announcedLength second rest =
            (networkToHostInt16 rest).toUInt64.toNat := by
          simp [Wire.announcedLength, width, loaded]
        rw [announced, UInt64.ofNat_toNat]
        rfl
    · have width : Wire.lengthWidth second = 0 := by
        simp [Wire.lengthWidth, long, medium]
      have announced : Wire.announcedLength second rest =
          (parser.readTwo first second).payloadLength.toNat := by
        simp only [Wire.announcedLength, width, if_true]
        exact (lowSeven_toNat second).symm
      rw [if_neg (mt (code 127).mp long), if_neg (mt (code 126).mp medium),
        width, if_neg (Nat.not_lt_zero _), announced, UInt64.ofNat_toNat]

private theorem mask_ne_zero_iff (parser : WebsocketParser)
    (first second : UInt8) :
    (parser.readTwo first second).mask ≠ 0 ↔ Wire.keyWidth second = 4 := by
  have bit : (parser.readTwo first second).mask = second.toNat / 128 :=
    topBit_toNat second
  rw [bit]
  by_cases top : 128 ≤ second.toNat
  · simp only [Wire.keyWidth, top, if_true, iff_true]
    omega
  · simp only [Wire.keyWidth, top, if_false]
    omega

theorem parseHeader_needMore (parser : WebsocketParser) {data : Bytes}
    (found : HeaderFraming.front data = .needMore) :
    ∃ later,
      parser.parseHeader data 0 = .leave (decide (2 ≤ data.length)) later none ∧
        SameCore parser later := by
  match data with
  | [] => exact ⟨parser, rfl, rfl, rfl, rfl⟩
  | [first] =>
      have legal : Wire.LegalFirstByte first := by
        by_contra illegal
        simp [HeaderFraming, Wire.headerFront, illegal] at found
      have accepted := (firstByteError_eq_none_iff parser first).mpr legal
      refine ⟨parser.readFirstByte first, ?_, rfl, rfl, rfl⟩
      simp [parseHeader, accepted]
  | first :: second :: rest =>
      simp only [HeaderFraming, Wire.headerFront] at found
      split_ifs at found with legal short
      rw [parseHeader_two legal, readExtendedLength_eq]
      have enough : decide (2 ≤ (first :: second :: rest).length) = true := by
        simp
      by_cases noLength : rest.length < Wire.lengthWidth second
      · simp only [noLength, if_true]
        exact ⟨parser.readTwo first second, by rw [enough], rfl, rfl, rfl⟩
      · have keyed : Wire.keyWidth second = 4 := by
          rcases Wire.keyWidth_eq_zero_or_four second with none_ | four
          · omega
          · exact four
        have masked := (mask_ne_zero_iff parser first second).mpr keyed
        have noKey : (first :: second :: rest).length <
            2 + Wire.lengthWidth second + 4 := by
          simp only [List.length_cons]
          omega
        simp only [noLength, if_false, readMaskingKey]
        rw [if_pos masked, if_pos noKey, enough]
        exact ⟨_, rfl, rfl, rfl, rfl⟩

theorem parseHeader_frame {parser : WebsocketParser} {data : Bytes}
    {header : FrameHeader} {size : Nat}
    (found : HeaderFraming.front data = .frame header size)
    (parsedBytes : Nat) :
    parser.parseHeader data parsedBytes =
      .enterBody (parser.loadHeader header) size := by
  obtain ⟨first, second, rest, rfl, legal, reached, rfl, rfl⟩ :=
    Wire.headerFront_eq_frame_iff.mp found
  have lengthPresent : ¬ rest.length < Wire.lengthWidth second := by omega
  have masked := mask_ne_zero_iff parser first second
  rw [parseHeader_two legal, readExtendedLength_eq]
  simp only [lengthPresent, if_false, readMaskingKey]
  rcases Wire.keyWidth_eq_zero_or_four second with unkeyed | keyed
  · have maskZero : ¬ (parser.readTwo first second).mask ≠ 0 := by
      rw [masked, unkeyed]
      decide
    have bit : second.toNat / 128 = 0 := by
      rw [readTwo_eq legal] at maskZero
      simpa using maskZero
    have noKey : Wire.announcedKey second rest = none := by
      simp [Wire.announcedKey, unkeyed]
    rw [if_neg maskZero, unkeyed, readTwo_eq legal]
    simp [loadHeader, Wire.headerOf, FrameHeader.mask, noKey, bit]
  · have maskOne : (parser.readTwo first second).mask ≠ 0 :=
      masked.mpr keyed
    have bit : second.toNat / 128 = 1 := by
      have bound := second.toNat_lt
      rw [readTwo_eq legal] at maskOne
      have nonzero : second.toNat / 128 ≠ 0 := maskOne
      omega
    have enough : 4 ≤ (rest.drop (Wire.lengthWidth second)).length := by
      rw [List.length_drop]
      omega
    have keyBytes : (first :: second :: rest).drop
        (2 + Wire.lengthWidth second) =
          rest.drop (Wire.lengthWidth second) := by
      rw [Nat.add_comm]
      rfl
    have key : Wire.announcedKey second rest =
        some (networkToHostInt32 (rest.drop (Wire.lengthWidth second))) := by
      rw [Wire.announcedKey, if_neg (by omega),
        ← networkToHostInt32_toNat enough, UInt32.ofNat_toNat]
    have keyPresent : ¬ (first :: second :: rest).length <
        2 + Wire.lengthWidth second + 4 := by
      simp only [List.length_cons]
      omega
    rw [if_pos maskOne, if_neg keyPresent, keyed, readTwo_eq legal, keyBytes]
    simp [loadHeader, Wire.headerOf, FrameHeader.mask, key, bit]

/-- The parser inside the body of a frame. -/
def awaiting (key : UInt32) (header : FrameHeader) (body : Bytes) :
    WebsocketParser where
  state := .bodyBegin
  fin := header.fin
  rsv1 := 0
  rsv2 := 0
  rsv3 := 0
  opcode := header.opcode
  mask := header.mask
  payloadLength := header.payloadLength
  maskingKey := header.maskingKey.getD key
  body := body

/-- The frame handed over for a decoded frame while the key register holds
`key`, and the register afterwards. -/
def emit (key : UInt32) (wire : WireFrame) : UInt32 × WebsocketFrame :=
  (wire.maskingKey.getD key,
    { fin := wire.fin
      rsv1 := 0
      rsv2 := 0
      rsv3 := 0
      opcode := wire.opcode
      mask := wire.mask
      payloadLength := wire.payloadLength
      maskingKey := wire.maskingKey.getD key
      body := wire.body })

/-- The parser behind a delivered frame: `CleanUp` resets two fields. -/
def settled (key : UInt32) (header : FrameHeader) : WebsocketParser :=
  { awaiting key header [] with state := .headerBegin }

theorem parseBody_complete (key : UInt32) (header : FrameHeader)
    (body data : Bytes) (parsedBytes : Nat)
    (inside : body.length ≤ header.payloadLength.toNat)
    (reached : header.payloadLength.toNat - body.length ≤
      data.length - parsedBytes)
    (parsed : parsedBytes ≤ data.length) :
    let need := header.payloadLength.toNat - body.length
    let wire : WireFrame :=
      { header with body := body ++ (data.drop parsedBytes).take need }
    (awaiting key header body).parseBody data parsedBytes =
      ⟨true, parsedBytes + need, settled key header,
        some (emit key wire).2, none⟩ := by
  simp only [parseBody, settled, awaiting, sizeSub_of_le inside, sizeSub_of_le parsed,
    reached, if_true, cleanUp, frame, emit, FrameHeader.mask]

theorem parseBody_partial (key : UInt32) (header : FrameHeader)
    (body data : Bytes) (parsedBytes : Nat)
    (inside : body.length ≤ header.payloadLength.toNat)
    (short : data.length - parsedBytes <
      header.payloadLength.toNat - body.length)
    (parsed : parsedBytes ≤ data.length) :
    (awaiting key header body).parseBody data parsedBytes =
      ⟨true, data.length,
        awaiting key header (body ++ data.drop parsedBytes), none, none⟩ := by
  have notReached : ¬ header.payloadLength.toNat - body.length ≤
      data.length - parsedBytes := by omega
  have all : (data.drop parsedBytes).take (data.length - parsedBytes) =
      data.drop parsedBytes :=
    List.take_of_length_le (by rw [List.length_drop])
  have total : parsedBytes + (data.length - parsedBytes) = data.length := by
    omega
  simp only [parseBody, awaiting, sizeSub_of_le inside, sizeSub_of_le parsed,
    notReached, if_false, all, total]

/-- The parser has taken exactly `pending` of an unfinished frame, and the
last masked frame before it had the key `key`. -/
inductive Holds (key : UInt32) : Bytes → WebsocketParser → Prop where
  | header {parser : WebsocketParser}
      (state : parser.state = .headerBegin)
      (body : parser.body = [])
      (register : parser.maskingKey = key) :
      Holds key [] parser
  | body {header : FrameHeader} {size : Nat} {pending : Bytes}
      (headed : HeaderFraming.front pending = .frame header size)
      (short : pending.length < size + header.payloadLength.toNat) :
      Holds key pending (awaiting key header (pending.drop size))

theorem Holds.init (memory : WebsocketParser) :
    Holds memory.maskingKey [] memory.init :=
  .header rfl rfl rfl

theorem Holds.sameCore {key : UInt32} {parser later : WebsocketParser}
    (holds : Holds key [] parser) (same : SameCore parser later) :
    Holds key [] later := by
  cases holds with
  | header state body register =>
      exact .header (same.state.trans state) (same.body.trans body)
        (same.maskingKey.trans register)
  | body headed short =>
      have bounded := HeaderFraming.size_le headed
      have positive := HeaderFraming.size_pos headed
      simp only [List.length_nil] at bounded
      omega

theorem Holds.boundary {key : UInt32} {pending : Bytes}
    {parser : WebsocketParser} (holds : Holds key pending parser)
    (state : parser.state = .headerBegin) :
    Holds parser.maskingKey [] parser := by
  cases holds with
  | header _ body => exact .header state body rfl
  | body => cases state

/-- At a frame boundary the next header decides what the call does. -/
theorem parse_of_header {parser : WebsocketParser} {data : Bytes}
    {header : FrameHeader} {size : Nat}
    (state : parser.state = .headerBegin) (body : parser.body = [])
    (headed : HeaderFraming.front data = .frame header size) :
    parser.parse data 0 =
      (awaiting parser.maskingKey header []).parseBody data size := by
  have loaded : { parser.loadHeader header with
      state := ParsingState.bodyBegin } =
        awaiting parser.maskingKey header parser.body := rfl
  simp only [parse, state, if_true, parseHeader_frame headed, loaded, body,
    Nat.zero_add]

theorem parse_of_body {key : UInt32} {header : FrameHeader}
    {body data : Bytes} :
    (awaiting key header body).parse data 0 =
      (awaiting key header body).parseBody data 0 := by
  simp [parse, awaiting]

theorem front_of_frame {stream : Bytes} {wire : WireFrame} {total : Nat}
    (found : WireFraming.front stream = .frame wire total) :
    ∃ header size, HeaderFraming.front stream = .frame header size ∧
      size + header.payloadLength.toNat ≤ stream.length ∧
      wire = { header with
        body := (stream.drop size).take header.payloadLength.toNat } ∧
      total = size + header.payloadLength.toNat :=
  Framing.prefixedFront_eq_frame_iff.mp found

theorem Holds.unfinished {key : UInt32} {pending : Bytes}
    {parser : WebsocketParser} (holds : Holds key pending parser) :
    WireFraming.Unfinished pending := by
  cases holds with
  | header => exact Framing.unfinished_nil
  | body headed short =>
      exact Framing.unfinished_of_needMore
        (Framing.lengthPrefixed_front_of_short headed short)

theorem parse_frame {key : UInt32} {pending data : Bytes}
    {parser : WebsocketParser} {wire : WireFrame} {total : Nat}
    (holds : Holds key pending parser)
    (found : WireFraming.front (pending ++ data) = .frame wire total) :
    ∃ later, parser.parse data 0 =
        ⟨true, total - pending.length, later, some (emit key wire).2, none⟩ ∧
      Holds (emit key wire).1 [] later := by
  obtain ⟨header, size, headed, reached, rfl, rfl⟩ := front_of_frame found
  cases holds with
  | header state body register =>
      rw [List.nil_append] at headed reached
      have complete := parseBody_complete key header [] data size
        (Nat.zero_le _) (by simp only [List.length_nil]; omega)
        (HeaderFraming.size_le headed)
      rw [parse_of_header state body headed, register, complete]
      exact ⟨settled key header, by simp, .header rfl rfl rfl⟩
  | @body oldHeader oldSize pending oldHeaded short =>
      have extended := HeaderFraming.frame_append data oldHeaded
      rw [headed] at extended
      cases extended
      have bounded := HeaderFraming.size_le oldHeaded
      rw [List.length_append] at reached
      have complete := parseBody_complete key header (pending.drop size) data 0
        (by rw [List.length_drop]; omega)
        (by rw [List.length_drop]; omega) (Nat.zero_le _)
      have need : header.payloadLength.toNat - (pending.drop size).length =
          size + header.payloadLength.toNat - pending.length := by
        rw [List.length_drop]
        omega
      have joined : ((pending ++ data).drop size).take
          header.payloadLength.toNat =
            pending.drop size ++
              data.take (size + header.payloadLength.toNat -
                pending.length) := by
        rw [List.drop_append_of_le_length bounded, List.take_append,
          List.take_of_length_le (by rw [List.length_drop]; omega), need]
      rw [parse_of_body, complete, need, joined]
      exact ⟨settled key header, by simp, .header rfl rfl rfl⟩

theorem parse_reject {key : UInt32} {pending data : Bytes}
    {parser : WebsocketParser} (holds : Holds key pending parser)
    (found : WireFraming.front (pending ++ data) = .reject) :
    pending = [] ∧ ∃ later reason,
      parser.parse data 0 = ⟨false, 0, later, none, some reason⟩ ∧
        SameCore parser later := by
  have headed : HeaderFraming.front (pending ++ data) = .reject :=
    Framing.prefixedFront_eq_reject_iff.mp found
  cases holds with
  | header state body register =>
      obtain ⟨later, reason, left, same⟩ :=
        parseHeader_reject parser headed 0
      refine ⟨rfl, later, reason, ?_, same⟩
      rw [List.nil_append] at left
      simp only [parse, state, if_true, left]
  | body oldHeaded short =>
      have extended := HeaderFraming.frame_append data oldHeaded
      rw [headed] at extended
      cases extended

/-- A call inside a header that is still incomplete consumes nothing; it
fails unless two bytes are there. -/
theorem parse_headerIncomplete {key : UInt32} {pending data : Bytes}
    {parser : WebsocketParser} (holds : Holds key pending parser)
    (found : HeaderFraming.front (pending ++ data) = .needMore) :
    pending = [] ∧ ∃ later,
      parser.parse data 0 =
          ⟨decide (2 ≤ data.length), 0, later, none, none⟩ ∧
        SameCore parser later := by
  cases holds with
  | header state body register =>
      rw [List.nil_append] at found
      obtain ⟨later, left, same⟩ := parseHeader_needMore parser found
      refine ⟨rfl, later, ?_, same⟩
      simp only [parse, state, if_true, left]
  | body oldHeaded short =>
      have extended := HeaderFraming.frame_append data oldHeaded
      rw [found] at extended
      cases extended

theorem parse_bodyIncomplete {key : UInt32} {pending data : Bytes}
    {parser : WebsocketParser} {header : FrameHeader} {size : Nat}
    (holds : Holds key pending parser)
    (headed : HeaderFraming.front (pending ++ data) = .frame header size)
    (short : (pending ++ data).length <
      size + header.payloadLength.toNat) :
    parser.parse data 0 =
      ⟨true, data.length, awaiting key header ((pending ++ data).drop size),
        none, none⟩ := by
  rw [List.length_append] at short
  cases holds with
  | header state body register =>
      rw [List.nil_append] at headed ⊢
      have bounded := HeaderFraming.size_le headed
      have remains := parseBody_partial key header [] data size
        (Nat.zero_le _)
        (by simp only [List.length_nil] at short ⊢; omega) bounded
      rw [parse_of_header state body headed, register, remains,
        List.nil_append]
  | @body oldHeader oldSize pending oldHeaded oldShort =>
      have extended := HeaderFraming.frame_append data oldHeaded
      rw [headed] at extended
      cases extended
      have bounded := HeaderFraming.size_le oldHeaded
      have remains := parseBody_partial key header (pending.drop size) data 0
        (by rw [List.length_drop]; omega)
        (by rw [List.length_drop]; omega) (Nat.zero_le _)
      rw [parse_of_body, remains, List.drop_append_of_le_length bounded,
        List.drop_zero]

/-- Everything one call of `Parse` can do, by what the reference decoder finds
in the pending bytes followed by the new ones. -/
inductive Turn (key : UInt32) (pending data : Bytes)
    (parser : WebsocketParser) : ParseResult → Prop where
  | frame {wire : WireFrame} {total : Nat} {later : WebsocketParser}
      (found : WireFraming.front (pending ++ data) = .frame wire total)
      (behind : pending.length < total)
      (held : Holds (emit key wire).1 [] later) :
      Turn key pending data parser
        ⟨true, total - pending.length, later, some (emit key wire).2, none⟩
  | reject {later : WebsocketParser} {reason : String}
      (boundary : pending = [])
      (found : WireFraming.front data = .reject)
      (same : SameCore parser later) :
      Turn key pending data parser ⟨false, 0, later, none, some reason⟩
  | headerIncomplete {later : WebsocketParser}
      (boundary : pending = [])
      (found : HeaderFraming.front data = .needMore)
      (same : SameCore parser later) :
      Turn key pending data parser
        ⟨decide (2 ≤ data.length), 0, later, none, none⟩
  | bodyIncomplete {header : FrameHeader} {size : Nat}
      (headed : HeaderFraming.front (pending ++ data) = .frame header size)
      (short : (pending ++ data).length <
        size + header.payloadLength.toNat) :
      Turn key pending data parser
        ⟨true, data.length, awaiting key header ((pending ++ data).drop size),
          none, none⟩

theorem Holds.turn {key : UInt32} {pending : Bytes} {parser : WebsocketParser}
    (holds : Holds key pending parser) (data : Bytes) :
    Turn key pending data parser (parser.parse data 0) := by
  cases headed : HeaderFraming.front (pending ++ data) with
  | needMore =>
      obtain ⟨rfl, later, result, same⟩ := parse_headerIncomplete holds headed
      rw [result]
      exact .headerIncomplete rfl headed same
  | reject =>
      have found : WireFraming.front (pending ++ data) = .reject :=
        Framing.prefixedFront_eq_reject_iff.mpr headed
      obtain ⟨rfl, later, reason, result, same⟩ := parse_reject holds found
      rw [result]
      exact .reject rfl found same
  | frame header size =>
      by_cases short : (pending ++ data).length <
          size + header.payloadLength.toNat
      · rw [parse_bodyIncomplete holds headed short]
        exact .bodyIncomplete headed short
      · have found := Wire.front_of_reached headed (Nat.not_lt.mp short)
        obtain ⟨later, result, held⟩ := parse_frame holds found
        rw [result]
        exact .frame found
          (Framing.length_lt_of_unfinished holds.unfinished found) held

theorem Holds.ok_of_delivered {key : UInt32} {pending data : Bytes}
    {parser : WebsocketParser} {frame : WebsocketFrame}
    (holds : Holds key pending parser)
    (delivered : (parser.parse data 0).delivered = some frame) :
    (parser.parse data 0).ok = true := by
  have turn := holds.turn data
  generalize parser.parse data 0 = result at turn delivered
  cases turn with
  | frame => rfl
  | reject | headerIncomplete | bodyIncomplete => cases delivered

/-- Every call of `Parse` is a call of a resumable decoder. -/
theorem resumes : Resumes WireFraming call emit Holds where
  unfinished holds := holds.unfinished
  on_frame := by
    intro key pending parser data wire total holds found
    have turn := holds.turn data
    simp only [call]
    generalize parser.parse data 0 = result at turn
    cases turn with
    | frame found' behind held =>
        rw [found] at found'
        cases found'
        exact ⟨by simp only; omega, rfl, held⟩
    | reject boundary rejected =>
        subst boundary
        rw [List.nil_append, rejected] at found
        cases found
    | headerIncomplete boundary incomplete =>
        subst boundary
        obtain ⟨header, size, headed, -⟩ := front_of_frame found
        rw [List.nil_append, incomplete] at headed
        cases headed
    | bodyIncomplete headed short =>
        obtain ⟨header, size, headed', reached, -⟩ := front_of_frame found
        rw [headed] at headed'
        cases headed'
        omega
  on_unfinished := by
    intro key pending parser data holds unfinished
    have turn := holds.turn data
    simp only [call]
    generalize parser.parse data 0 = result at turn
    cases turn with
    | frame found => exact (unfinished _ _ found).elim
    | reject boundary found same =>
        subst boundary
        exact ⟨Nat.zero_le _, rfl, holds.sameCore same⟩
    | headerIncomplete boundary found same =>
        subst boundary
        exact ⟨Nat.zero_le _, rfl, holds.sameCore same⟩
    | bodyIncomplete headed short =>
        refine ⟨Nat.le_refl _, rfl, ?_⟩
        simp only [List.take_length]
        exact .body headed short

/-- Two parsers that no later call can tell apart. -/
def Indistinguishable (left right : WebsocketParser) : Prop :=
  left = right ∨ (left.state = .headerBegin ∧ SameCore left right)

theorem SameCore.join {left right leftLater rightLater : WebsocketParser}
    (same : SameCore left right) (leftSame : SameCore left leftLater)
    (rightSame : SameCore right rightLater) :
    SameCore leftLater rightLater where
  state := by rw [rightSame.state, same.state, leftSame.state]
  maskingKey := by rw [rightSame.maskingKey, same.maskingKey, leftSame.maskingKey]
  body := by rw [rightSame.body, same.body, leftSame.body]

/-- What a caller sees of one call. -/
def answer (parser : WebsocketParser) (data : Bytes) :
    Bool × Nat × Option WebsocketFrame :=
  let result := parser.parse data 0
  (result.ok, result.parsedBytes, result.delivered)

/-- What a caller sees of a sequence of calls. -/
def answers (parser : WebsocketParser) :
    List Bytes → List (Bool × Nat × Option WebsocketFrame)
  | [] => []
  | data :: later =>
      parser.answer data :: answers (parser.parse data 0).parser later

theorem Indistinguishable.step {left right : WebsocketParser}
    (same : Indistinguishable left right) (data : Bytes) :
    left.answer data = right.answer data ∧
      Indistinguishable (left.parse data 0).parser
        (right.parse data 0).parser := by
  rcases same with rfl | ⟨state, core⟩
  · exact ⟨rfl, .inl rfl⟩
  · have rightState : right.state = .headerBegin := core.state.trans state
    cases headed : HeaderFraming.front data with
    | needMore =>
        obtain ⟨leftLater, leftExit, leftSame⟩ :=
          parseHeader_needMore left headed
        obtain ⟨rightLater, rightExit, rightSame⟩ :=
          parseHeader_needMore right headed
        simp only [answer, parse, state, rightState, if_true, leftExit,
          rightExit, true_and]
        exact .inr ⟨leftSame.state.trans state, core.join leftSame rightSame⟩
    | reject =>
        obtain ⟨leftLater, leftReason, leftExit, leftSame⟩ :=
          parseHeader_reject left headed 0
        obtain ⟨rightLater, rightReason, rightExit, rightSame⟩ :=
          parseHeader_reject right headed 0
        simp only [answer, parse, state, rightState, if_true, leftExit,
          rightExit, true_and]
        exact .inr ⟨leftSame.state.trans state, core.join leftSame rightSame⟩
    | frame header size =>
        have loaded : { left.loadHeader header with
            state := ParsingState.bodyBegin } =
              { right.loadHeader header with
                state := ParsingState.bodyBegin } := by
          simp only [loadHeader, core.maskingKey, core.body]
        simp only [answer, parse, state, rightState, if_true,
          parseHeader_frame headed, loaded, true_and]
        exact .inl rfl

theorem Indistinguishable.answers_eq {left right : WebsocketParser}
    (same : Indistinguishable left right) (later : List Bytes) :
    left.answers later = right.answers later := by
  induction later generalizing left right with
  | nil => rfl
  | cons data later ih =>
      obtain ⟨head, next⟩ := same.step data
      simp only [answers, head, ih next]

theorem Holds.indistinguishable_of_idle {key : UInt32} {pending data : Bytes}
    {parser : WebsocketParser} (holds : Holds key pending parser)
    (idle : (parser.parse data 0).parsedBytes = 0) :
    Indistinguishable parser (parser.parse data 0).parser := by
  have turn := holds.turn data
  have boundaryState (boundary : pending = []) :
      parser.state = .headerBegin := by
    subst boundary
    cases holds with
    | header state => exact state
    | body headed => cases headed
  generalize parser.parse data 0 = result at turn idle
  cases turn with
  | frame found behind held => simp only at idle; omega
  | reject boundary found same => exact .inr ⟨boundaryState boundary, same⟩
  | headerIncomplete boundary found same =>
      exact .inr ⟨boundaryState boundary, same⟩
  | bodyIncomplete headed short =>
      have empty : data = [] := List.eq_nil_of_length_eq_zero idle
      subst empty
      rw [List.append_nil] at headed
      cases holds with
      | header => cases headed
      | body oldHeaded oldShort =>
          rw [oldHeaded] at headed
          cases headed
          exact .inl (by rw [List.append_nil])

/-- Field by field agreement of a delivered frame with a decoded one. -/
structure Agrees (frame : WebsocketFrame) (wire : WireFrame) : Prop where
  fin : frame.fin = wire.fin
  opcode : frame.opcode = wire.opcode
  mask : frame.mask = wire.mask
  payloadLength : frame.payloadLength = wire.payloadLength
  body : frame.body = wire.body
  maskingKey : frame.mask = 1 → wire.maskingKey = some frame.maskingKey

theorem emit_agrees (key : UInt32) (wire : WireFrame) :
    Agrees (emit key wire).2 wire := by
  refine ⟨rfl, rfl, rfl, rfl, rfl, ?_⟩
  intro masked
  cases present : wire.maskingKey with
  | none => simp [emit, FrameHeader.mask, present] at masked
  | some own => simp [emit, present]

theorem emitAll_agrees (key : UInt32) (wires : List WireFrame) :
    List.Forall₂ Agrees (emitAll emit key wires) wires := by
  induction wires generalizing key with
  | nil => exact .nil
  | cons wire wires ih => exact .cons (emit_agrees key wire) (ih _)

/-- Incremental parsing refines one-shot decoding.  After any schedule of
calls on a fresh parser the delivered frames are the reference frames of the
consumed bytes, a first part of all reference frames.  The next call delivers
the next reference frame as soon as its bytes are given, and a call that
consumes nothing changes no answer of any later call. -/
theorem schedule_refines_ref (memory : WebsocketParser) (stream : Bytes)
    (schedule : List Nat) :
    let result := drive call memory.init stream schedule
    let received := Wire.ref (stream.take result.consumed)
    result.rest = stream.drop result.consumed ∧
    List.Forall₂ Agrees result.delivered received ∧
    received <+: Wire.ref stream ∧
    (∀ size wire wires,
      Wire.ref (stream.take (result.consumed + size)) =
        received ++ wire :: wires →
      ∃ frame, (call result.state (result.rest.take size)).delivered =
        some frame ∧ Agrees frame wire) ∧
    (∀ data, (result.state.parse data 0).parsedBytes = 0 →
      ∀ later, (result.state.parse data 0).parser.answers later =
        result.state.answers later) := by
  intro result received
  obtain ⟨-, delivered, held⟩ :=
    resumes.drive_absorbs (Holds.init memory) stream schedule
  have first := resumes.drive_delivers (Holds.init memory) stream schedule
  have rest : result.rest = stream.drop result.consumed :=
    drive_rest call memory.init stream schedule
  refine ⟨rest, ?_, first.2, ?_, ?_⟩
  · rw [show result.delivered = _ from first.1]
    exact emitAll_agrees _ _
  · intro size wire wires ahead
    have cut : stream.take (result.consumed + size) =
        stream.take result.consumed ++ result.rest.take size := by
      rw [rest, List.take_add]
    have next : WireFraming.frames
        (WireFraming.residue (stream.take result.consumed) ++
          result.rest.take size) = wire :: wires := by
      have grown := WireFraming.frames_append (stream.take result.consumed)
        (result.rest.take size)
      rw [← cut] at grown
      exact List.append_cancel_left (grown.symm.trans ahead)
    exact ⟨_, resumes.step_progress held next, emit_agrees _ _⟩
  · intro data idle later
    exact ((held.indistinguishable_of_idle idle).answers_eq later).symm

end WebsocketParser

end Woody
