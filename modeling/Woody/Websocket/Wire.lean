import Woody.Foundation.Framing
import Woody.Websocket.Frame

/-!
# One-shot decoding of WebSocket frames

The reference decoder: a 2-byte header, a 16- or 64-bit big-endian extended
length, a 4-byte key when the MASK bit is set, and the payload.  It is
stateless and written from the wire format.  `WireFraming` packages it with
the laws that make its answers independent of the bytes behind a frame.
-/

namespace Woody

/-- What the header of a frame says.  A masking key is present exactly when
the MASK bit is set. -/
structure FrameHeader where
  fin : Nat
  opcode : Nat
  payloadLength : UInt64
  maskingKey : Option UInt32
  deriving DecidableEq

structure WireFrame extends FrameHeader where
  body : Bytes
  deriving DecidableEq

/-- The MASK bit. -/
def FrameHeader.mask (header : FrameHeader) : Nat :=
  if header.maskingKey.isSome then 1 else 0

namespace Wire

/-- The reserved bits are zero, the opcode is not reserved, and a control
frame is not fragmented. -/
def LegalFirstByte (first : UInt8) : Prop :=
  first.toNat / 16 % 8 = 0 ∧
    first.toNat % 16 ∈ [0, 1, 2, 8, 9, 10] ∧
    (8 ≤ first.toNat % 16 → 128 ≤ first.toNat)

instance (first : UInt8) : Decidable (LegalFirstByte first) :=
  inferInstanceAs (Decidable (_ ∧ _ ∧ _))

/-- Bytes of extended length behind the second byte. -/
def lengthWidth (second : UInt8) : Nat :=
  if second.toNat % 128 = 127 then 8
  else if second.toNat % 128 = 126 then 2
  else 0

/-- Bytes of masking key behind the extended length. -/
def keyWidth (second : UInt8) : Nat := if 128 ≤ second.toNat then 4 else 0

def announcedLength (second : UInt8) (rest : Bytes) : Nat :=
  if lengthWidth second = 0 then
    second.toNat % 128
  else
    Bytes.toNatBE (rest.take (lengthWidth second))

def announcedKey (second : UInt8) (rest : Bytes) : Option UInt32 :=
  if keyWidth second = 0 then
    none
  else
    some (UInt32.ofNat
      (Bytes.toNatBE ((rest.drop (lengthWidth second)).take 4)))

/-- The header spelled by two bytes and the bytes behind them. -/
def headerOf (first second : UInt8) (rest : Bytes) : FrameHeader where
  fin := first.toNat / 128
  opcode := first.toNat % 16
  payloadLength := UInt64.ofNat (announcedLength second rest)
  maskingKey := announcedKey second rest

def headerFront : Bytes → Front FrameHeader
  | [] => .needMore
  | [first] => if LegalFirstByte first then .needMore else .reject
  | first :: second :: rest =>
      if LegalFirstByte first then
        if rest.length < lengthWidth second + keyWidth second then
          .needMore
        else
          .frame (headerOf first second rest)
            (2 + lengthWidth second + keyWidth second)
      else
        .reject

theorem keyWidth_eq_zero_or_four (second : UInt8) :
    keyWidth second = 0 ∨ keyWidth second = 4 := by
  unfold keyWidth
  split
  · exact .inr rfl
  · exact .inl rfl

theorem headerFront_eq_frame_iff {stream : Bytes} {header : FrameHeader}
    {size : Nat} :
    headerFront stream = .frame header size ↔
      ∃ first second rest, stream = first :: second :: rest ∧
        LegalFirstByte first ∧
        lengthWidth second + keyWidth second ≤ rest.length ∧
        header = headerOf first second rest ∧
        size = 2 + lengthWidth second + keyWidth second := by
  constructor
  · intro found
    match stream with
    | [] => cases found
    | [first] =>
        simp only [headerFront] at found
        split at found <;> cases found
    | first :: second :: rest =>
        simp only [headerFront] at found
        split at found
        · rename_i legal
          split at found
          · cases found
          · rename_i reached
            cases found
            exact ⟨first, second, rest, rfl, legal, by omega, rfl, rfl⟩
        · cases found
  · rintro ⟨first, second, rest, rfl, legal, reached, rfl, rfl⟩
    have notShort : ¬ rest.length < lengthWidth second + keyWidth second := by
      omega
    simp only [headerFront, legal, notShort, if_true, if_false]

theorem headerFront_eq_reject_iff {stream : Bytes} :
    headerFront stream = .reject ↔
      ∃ first rest, stream = first :: rest ∧ ¬ LegalFirstByte first := by
  match stream with
  | [] => simp [headerFront]
  | [first] => by_cases legal : LegalFirstByte first <;> simp [headerFront, legal]
  | first :: second :: rest =>
      by_cases legal : LegalFirstByte first
      · simp only [headerFront, legal, if_true]
        constructor
        · intro found
          split at found <;> cases found
        · rintro ⟨_, _, equality, illegal⟩
          cases equality
          exact (illegal legal).elim
      · simp [headerFront, legal]

theorem headerOf_append {first second : UInt8} {rest : Bytes}
    (reached : lengthWidth second + keyWidth second ≤ rest.length)
    (later : Bytes) :
    headerOf first second (rest ++ later) = headerOf first second rest := by
  have lengthBytes : (rest ++ later).take (lengthWidth second) =
      rest.take (lengthWidth second) :=
    List.take_append_of_le_length (by omega)
  have keyBytes (keyed : keyWidth second ≠ 0) :
      ((rest ++ later).drop (lengthWidth second)).take 4 =
        (rest.drop (lengthWidth second)).take 4 := by
    have four := (keyWidth_eq_zero_or_four second).resolve_left keyed
    rw [List.drop_append_of_le_length (by omega),
      List.take_append_of_le_length (by rw [List.length_drop]; omega)]
  unfold headerOf announcedLength announcedKey
  rw [lengthBytes]
  split_ifs with _ keyed keyed
  · rfl
  · rw [keyBytes keyed]
  · rfl
  · rw [keyBytes keyed]

end Wire

/-- The framing of headers. -/
def HeaderFraming : Framing UInt8 FrameHeader where
  front := Wire.headerFront
  size_pos := by
    intro stream header size found
    obtain ⟨_, _, _, -, -, -, -, rfl⟩ := Wire.headerFront_eq_frame_iff.mp found
    omega
  size_le := by
    intro stream header size found
    obtain ⟨first, second, rest, rfl, -, reached, -, rfl⟩ :=
      Wire.headerFront_eq_frame_iff.mp found
    simp only [List.length_cons]
    omega
  frame_append := by
    intro stream header size later found
    obtain ⟨first, second, rest, rfl, legal, reached, rfl, rfl⟩ :=
      Wire.headerFront_eq_frame_iff.mp found
    apply Wire.headerFront_eq_frame_iff.mpr
    refine ⟨first, second, rest ++ later, rfl, legal, ?_,
      (Wire.headerOf_append reached later).symm, rfl⟩
    rw [List.length_append]
    omega
  frame_take := by
    intro stream header size found
    obtain ⟨first, second, rest, rfl, legal, reached, rfl, rfl⟩ :=
      Wire.headerFront_eq_frame_iff.mp found
    apply Wire.headerFront_eq_frame_iff.mpr
    let width := Wire.lengthWidth second + Wire.keyWidth second
    have kept : width ≤ (rest.take width).length := by
      rw [List.length_take, Nat.min_eq_left reached]
    refine ⟨first, second, rest.take width, ?_, legal, kept, ?_, rfl⟩
    · rw [Nat.add_assoc, Nat.add_comm 2]
      rfl
    · have extended := @Wire.headerOf_append first _ _ kept
        (rest.drop width)
      rwa [List.take_append_drop] at extended
  reject_append := by
    intro stream later found
    obtain ⟨first, rest, rfl, illegal⟩ :=
      Wire.headerFront_eq_reject_iff.mp found
    exact Wire.headerFront_eq_reject_iff.mpr
      ⟨first, rest ++ later, rfl, illegal⟩

/-- The framing of whole frames. -/
def WireFraming : Framing UInt8 WireFrame :=
  Framing.lengthPrefixed HeaderFraming
    (fun header => header.payloadLength.toNat)
    (fun header body => { header with body := body })

theorem Wire.front_of_short {stream : Bytes} {header : FrameHeader}
    {size : Nat} (headed : HeaderFraming.front stream = .frame header size)
    (short : stream.length < size + header.payloadLength.toNat) :
    WireFraming.front stream = .needMore :=
  Framing.lengthPrefixed_front_of_short headed short

theorem Wire.front_of_reached {stream : Bytes} {header : FrameHeader}
    {size : Nat} (headed : HeaderFraming.front stream = .frame header size)
    (reached : size + header.payloadLength.toNat ≤ stream.length) :
    WireFraming.front stream =
      .frame
        { header with
          body := (stream.drop size).take header.payloadLength.toNat }
        (size + header.payloadLength.toNat) :=
  Framing.lengthPrefixed_front_of_reached headed reached

/-- The frames of a byte stream, up to the first header that is refused. -/
def Wire.ref (stream : Bytes) : List WireFrame := WireFraming.frames stream

/-- Decoded frames have one of the six opcodes, and control frames are not
fragmented. -/
theorem Wire.ref_legal (stream : Bytes) :
    ∀ wire ∈ Wire.ref stream, wire.opcode ∈ [0, 1, 2, 8, 9, 10] ∧
      (8 ≤ wire.opcode → wire.fin = 1) := by
  apply Framing.forall_mem_frames
  intro stream wire total found
  obtain ⟨header, size, headed, -, rfl, -⟩ :=
    Framing.prefixedFront_eq_frame_iff.mp found
  obtain ⟨first, second, rest, -, legal, -, rfl, -⟩ :=
    Wire.headerFront_eq_frame_iff.mp headed
  obtain ⟨-, opcode, control⟩ := legal
  have bound := first.toNat_lt
  refine ⟨opcode, fun isControl => ?_⟩
  have top := control isControl
  simp only [Wire.headerOf]
  omega

end Woody
