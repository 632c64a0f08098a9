import Woody.Websocket.Encoding

/-!
# Decoding and encoding again

A frame that was decoded from its shortest form is spelled back byte for byte,
except when its payload has 256 to 65535 bytes: there the encoder takes the
64-bit form, since its second threshold is the largest 8-bit number and not the
largest 16-bit number.
-/

namespace Woody

namespace Wire

/-- The payload length that the header of a byte string announces. -/
def announced : Bytes → Nat
  | _ :: second :: rest => announcedLength second rest
  | _ => 0

/-- Bytes of extended length in the shortest form of a length. -/
def shortestWidth (length : Nat) : Nat :=
  if length ≤ 125 then 0 else if length ≤ 0xffff then 2 else 8

/-- The length is in its shortest form. -/
def Canonical : Bytes → Prop
  | _ :: second :: rest =>
      lengthWidth second = shortestWidth (announcedLength second rest)
  | _ => False

instance (stream : Bytes) : Decidable (Canonical stream) :=
  match stream with
  | [] | [_] => inferInstanceAs (Decidable False)
  | _ :: _ :: _ => inferInstanceAs (Decidable (_ = _))

theorem take_lengthWidth {second : UInt8} {rest : Bytes}
    (reached : lengthWidth second ≤ rest.length) :
    rest.take (lengthWidth second) =
      Bytes.ofNatBE (lengthWidth second) (announcedLength second rest) := by
  unfold announcedLength
  by_cases direct : lengthWidth second = 0
  · rw [direct]
    rfl
  · have spelled := Bytes.ofNatBE_toNatBE (rest.take (lengthWidth second))
    rw [List.length_take, Nat.min_eq_left reached] at spelled
    rw [if_neg direct, spelled]

theorem headerOf_mask (first second : UInt8) (rest : Bytes) :
    (headerOf first second rest).mask = second.toNat / 128 := by
  have bound := second.toNat_lt
  unfold FrameHeader.mask headerOf announcedKey keyWidth
  split_ifs with masked <;> simp at * <;> omega

end Wire

namespace WebsocketFrame

section Spelled

/-! The frame that is delivered for `first :: second :: rest`, with what is
left of `rest` as its body. -/

variable {first second : UInt8} {rest body : Bytes} (key : UInt32)

/-- The frame handed over for a decoded header. -/
def ofHeader (first second : UInt8) (rest body : Bytes) (key : UInt32) :
    WebsocketFrame :=
  (WebsocketParser.emit key
    { Wire.headerOf first second rest with body := body }).2

theorem ofHeader_firstByte (legal : Wire.LegalFirstByte first) :
    (ofHeader first second rest body key).fin * 128 +
      (ofHeader first second rest body key).opcode = first.toNat := by
  have reserved := legal.1
  simp only [ofHeader, WebsocketParser.emit, Wire.headerOf]
  omega

theorem ofHeader_mask :
    (ofHeader first second rest body key).mask = second.toNat / 128 :=
  Wire.headerOf_mask first second rest

theorem ofHeader_payloadLength
    (small : Wire.announcedLength second rest ≤ 0xffffffff) :
    (ofHeader first second rest body key).payloadLength.toNat =
      Wire.announcedLength second rest :=
  UInt64.toNat_ofNat_of_lt' (Nat.lt_of_le_of_lt small (by decide))

theorem ofHeader_encodable (legal : Wire.LegalFirstByte first)
    (small : Wire.announcedLength second rest ≤ 0xffffffff)
    (whole : body.length = Wire.announcedLength second rest) :
    (ofHeader first second rest body key).Encodable := by
  have firstBound := first.toNat_lt
  have secondBound := second.toNat_lt
  have payload := @ofHeader_payloadLength first second rest body key small
  obtain ⟨-, opcode, control⟩ := legal
  refine ⟨?_, rfl, rfl, rfl, opcode, ?_, ?_, payload.trans whole.symm,
    payload.trans_le small⟩
  · simp only [ofHeader, WebsocketParser.emit, Wire.headerOf]
    omega
  · intro isControl
    have top := control isControl
    simp only [ofHeader, WebsocketParser.emit, Wire.headerOf]
    omega
  · rw [ofHeader_mask]
    omega

theorem ofHeader_keyBytes
    (reached : Wire.lengthWidth second + Wire.keyWidth second ≤ rest.length) :
    (ofHeader first second rest body key).keyBytes =
      (rest.drop (Wire.lengthWidth second)).take (Wire.keyWidth second) := by
  have masked := @ofHeader_mask first second rest body key
  have bound := second.toNat_lt
  unfold keyBytes
  rw [masked]
  rcases Wire.keyWidth_eq_zero_or_four second with unkeyed | keyed
  · have clear : second.toNat / 128 = 0 := by
      unfold Wire.keyWidth at unkeyed
      split at unkeyed
      · cases unkeyed
      · omega
    rw [if_pos clear, unkeyed, List.take_zero]
  · have set : second.toNat / 128 ≠ 0 := by
      unfold Wire.keyWidth at keyed
      split at keyed
      · omega
      · cases keyed
    let bytes := (rest.drop (Wire.lengthWidth second)).take 4
    have four : bytes.length = 4 := by
      simp only [bytes, List.length_take, List.length_drop]
      omega
    have spelled := Bytes.ofNatBE_toNatBE bytes
    have bounded := Bytes.toNatBE_lt bytes
    rw [four] at spelled bounded
    have register : (ofHeader first second rest body key).maskingKey =
        UInt32.ofNat (Bytes.toNatBE bytes) := by
      simp [ofHeader, WebsocketParser.emit, Wire.headerOf, Wire.announcedKey,
        keyed, bytes]
    rw [if_neg set, keyed, register,
      UInt32.toNat_ofNat_of_lt' (Nat.lt_of_lt_of_le bounded (by decide)),
      spelled]

theorem lowSeven_of_canonical
    (canonical : Wire.lengthWidth second =
      Wire.shortestWidth (Wire.announcedLength second rest)) :
    second.toNat % 128 =
      if Wire.announcedLength second rest ≤ 125 then
        Wire.announcedLength second rest
      else if Wire.announcedLength second rest ≤ 0xffff then 126
      else 127 := by
  have direct (none_ : Wire.lengthWidth second = 0) :
      Wire.announcedLength second rest = second.toNat % 128 := by
    rw [Wire.announcedLength, if_pos none_]
  generalize Wire.announcedLength second rest = length at canonical direct ⊢
  unfold Wire.shortestWidth at canonical
  unfold Wire.lengthWidth at canonical direct
  split_ifs at canonical ⊢ <;> simp_all

/-- The encoder and the shortest form take the same number of length bytes
except in the upper part of the 16-bit range. -/
theorem spelled_of_agreement {length : Nat}
    (agrees : length ≤ 0xff ∨ 0xffff < length) :
    lengthBytes length = Bytes.ofNatBE (Wire.shortestWidth length) length ∧
      lengthCode length =
        if length ≤ 125 then length else if length ≤ 0xffff then 126
        else 127 := by
  unfold lengthBytes lengthCode Wire.shortestWidth
  split_ifs <;> first | exact ⟨rfl, rfl⟩ | omega

theorem firstByte_ofHeader (legal : Wire.LegalFirstByte first)
    (encodable : (ofHeader first second rest body key).Encodable) :
    (ofHeader first second rest body key).firstByte = first := by
  apply UInt8.toNat_inj.mp
  rw [firstByte_toNat encodable]
  exact ofHeader_firstByte key legal

theorem secondByte_ofHeader
    (small : Wire.announcedLength second rest ≤ 0xffffffff)
    (encodable : (ofHeader first second rest body key).Encodable) :
    (ofHeader first second rest body key).secondByte.toNat =
      second.toNat / 128 * 128 +
        lengthCode (Wire.announcedLength second rest) := by
  rw [secondByte_toNat encodable, ofHeader_payloadLength key small]
  exact congrArg (· * 128 + lengthCode _) (ofHeader_mask key)

/-- What the encoder writes behind the second byte, when it takes the length
bytes that were read. -/
theorem tail_ofHeader
    (reached : Wire.lengthWidth second + Wire.keyWidth second ≤ rest.length)
    (small : Wire.announcedLength second rest ≤ 0xffffffff)
    (lengthSpelled : lengthBytes (Wire.announcedLength second rest) =
      rest.take (Wire.lengthWidth second)) :
    let frame := ofHeader first second rest
      (rest.drop (Wire.lengthWidth second + Wire.keyWidth second)) key
    lengthBytes frame.payloadLength.toNat ++ frame.keyBytes ++ frame.body =
      rest := by
  intro frame
  have behind : (rest.drop (Wire.lengthWidth second)).take
      (Wire.keyWidth second) ++ frame.body =
        rest.drop (Wire.lengthWidth second) := by
    change _ ++ rest.drop (Wire.lengthWidth second + Wire.keyWidth second) = _
    rw [← List.drop_drop, List.take_append_drop]
  rw [ofHeader_payloadLength key small, lengthSpelled,
    ofHeader_keyBytes key reached, List.append_assoc, behind,
    List.take_append_drop]

theorem encode_ofHeader_iff (legal : Wire.LegalFirstByte first)
    (reached : Wire.lengthWidth second + Wire.keyWidth second ≤ rest.length)
    (small : Wire.announcedLength second rest ≤ 0xffffffff)
    (whole : rest.length = Wire.lengthWidth second + Wire.keyWidth second +
      Wire.announcedLength second rest)
    (canonical : Wire.lengthWidth second =
      Wire.shortestWidth (Wire.announcedLength second rest)) :
    (ofHeader first second rest
        (rest.drop (Wire.lengthWidth second + Wire.keyWidth second))
        key).encode = first :: second :: rest ↔
      Wire.announcedLength second rest ≤ 0xff ∨
        0xffff < Wire.announcedLength second rest := by
  let frame := ofHeader first second rest
    (rest.drop (Wire.lengthWidth second + Wire.keyWidth second)) key
  have encodable : frame.Encodable :=
    ofHeader_encodable key legal small (by
      rw [List.length_drop]
      omega)
  have low := lowSeven_of_canonical canonical
  have secondNat := secondByte_ofHeader key small encodable
  constructor
  · intro spelled
    have second_ : frame.secondByte = second := by
      injection spelled with _ tail
      injection tail
    rw [second_] at secondNat
    by_contra gap
    have code : lengthCode (Wire.announcedLength second rest) = 127 := by
      unfold lengthCode
      rw [if_neg (by omega), if_neg (by omega)]
    rw [if_neg (by omega), if_pos (by omega)] at low
    omega
  · intro agrees
    obtain ⟨bytes, code⟩ := spelled_of_agreement agrees
    have second_ : frame.secondByte = second := by
      apply UInt8.toNat_inj.mp
      rw [secondNat, code, ← low]
      omega
    have lengthSpelled : lengthBytes (Wire.announcedLength second rest) =
        rest.take (Wire.lengthWidth second) := by
      rw [Wire.take_lengthWidth (by omega), canonical]
      exact bytes
    change frame.firstByte :: frame.secondByte ::
      (lengthBytes frame.payloadLength.toNat ++ frame.keyBytes ++
        frame.body) = _
    rw [firstByte_ofHeader key legal encodable, second_,
      tail_ofHeader key reached small lengthSpelled]

end Spelled

end WebsocketFrame

namespace WebsocketCodec

/-- What a call that takes the whole string and hands a frame over has read. -/
theorem spelled_of_delivered {memory : WebsocketParser} {stream : Bytes}
    {frame : WebsocketFrame}
    (consumed : (memory.init.parse stream 0).parsedBytes = stream.length)
    (delivered : (memory.init.parse stream 0).delivered = some frame) :
    ∃ first second rest, stream = first :: second :: rest ∧
      Wire.LegalFirstByte first ∧
      Wire.lengthWidth second + Wire.keyWidth second ≤ rest.length ∧
      rest.length = Wire.lengthWidth second + Wire.keyWidth second +
        (Wire.headerOf first second rest).payloadLength.toNat ∧
      frame = .ofHeader first second rest
        (rest.drop (Wire.lengthWidth second + Wire.keyWidth second))
        memory.maskingKey := by
  have turn := (WebsocketParser.Holds.init memory).turn stream
  generalize memory.init.parse stream 0 = result at turn consumed delivered
  cases turn with
  | reject | headerIncomplete | bodyIncomplete => cases delivered
  | @frame wire total later found behind held =>
      cases delivered
      rw [List.nil_append] at found
      simp only [List.length_nil, Nat.sub_zero] at consumed
      subst consumed
      obtain ⟨header, size, headed, fits, rfl, total⟩ :=
        WebsocketParser.front_of_frame found
      obtain ⟨first, second, rest, rfl, legal, reached, rfl, rfl⟩ :=
        Wire.headerFront_eq_frame_iff.mp headed
      simp only [List.length_cons] at total
      have whole : rest.length =
          Wire.lengthWidth second + Wire.keyWidth second +
            (Wire.headerOf first second rest).payloadLength.toNat := by
        omega
      refine ⟨first, second, rest, rfl, legal, reached, whole, ?_⟩
      have body : ((first :: second :: rest).drop
          (2 + Wire.lengthWidth second + Wire.keyWidth second)).take
            (Wire.headerOf first second rest).payloadLength.toNat =
          rest.drop (Wire.lengthWidth second + Wire.keyWidth second) := by
        rw [Nat.add_assoc, Nat.add_comm 2, List.drop_succ_cons,
          List.drop_succ_cons]
        apply List.take_of_length_le
        rw [List.length_drop]
        omega
      rw [body]
      rfl

/-- Encoding undoes decoding on canonical frames exactly outside the lengths
from 256 to 65535. -/
theorem encoding_undoes_decoding_iff (memory : WebsocketParser)
    (stream : Bytes) (frame : WebsocketFrame)
    (consumed : (memory.init.parse stream 0).parsedBytes = stream.length)
    (delivered : (memory.init.parse stream 0).delivered = some frame)
    (canonical : Wire.Canonical stream)
    (small : Wire.announced stream ≤ 0xffffffff) :
    convertFrameToString frame [] = (true, stream, []) ↔
      Wire.announced stream ≤ 0xff ∨ 0xffff < Wire.announced stream := by
  obtain ⟨first, second, rest, rfl, legal, reached, whole, rfl⟩ :=
    spelled_of_delivered consumed delivered
  change Wire.announcedLength second rest ≤ 0xffffffff at small
  have payload : (Wire.headerOf first second rest).payloadLength.toNat =
      Wire.announcedLength second rest :=
    UInt64.toNat_ofNat_of_lt' (Nat.lt_of_le_of_lt small (by decide))
  rw [payload] at whole
  have encodable := @WebsocketFrame.ofHeader_encodable first second rest
    (rest.drop (Wire.lengthWidth second + Wire.keyWidth second))
    memory.maskingKey legal small (by rw [List.length_drop]; omega)
  rw [convertFrameToString_eq encodable, List.nil_append]
  simp only [Prod.mk.injEq, true_and, and_true]
  exact WebsocketFrame.encode_ofHeader_iff memory.maskingKey legal reached small
    whole canonical

/-- The masked text `hi`. -/
theorem hi_spelled_back :
    let stream : Bytes := [0x81, 0x82, 0, 0, 0, 7, 104, 110]
    let frame : WebsocketFrame := ⟨1, 0, 0, 0, 1, 1, 2, 7, [104, 110]⟩
    convertFrameToString frame [] = (true, stream, []) :=
  (encoding_undoes_decoding_iff default [0x81, 0x82, 0, 0, 0, 7, 104, 110] _
    (by decide +kernel) (by decide +kernel) (by decide +kernel)
    (by decide +kernel)).mpr (.inl (by decide +kernel))

/-- An unmasked binary frame of 256 bytes comes back with eight length
bytes. -/
theorem medium_frame_inflated :
    let data : Bytes := List.replicate 256 0
    let stream : Bytes := [0x82, 126, 1, 0] ++ data
    let frame : WebsocketFrame := ⟨1, 0, 0, 0, 2, 0, 256, 0, data⟩
    let result := (WebsocketParser.init default).parse stream 0
    result.parsedBytes = stream.length ∧ result.delivered = some frame ∧
      Wire.Canonical stream ∧ Wire.announced stream = 256 ∧
      convertFrameToString frame [] =
        (true, [0x82, 127, 0, 0, 0, 0, 0, 0, 1, 0] ++ data, []) := by
  decide +kernel

end WebsocketCodec

end Woody
