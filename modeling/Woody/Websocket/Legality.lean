import Woody.Websocket.Codec
import Woody.Websocket.ParserRefinement

/-!
# Legal frames

A control frame may carry at most 125 bytes.  The parser compares the opcode
with 127 before it looks at the length, and an opcode has four bits; the
encoder has no check at all.  Every other rule is kept on both sides.
-/

namespace Woody

/-- The rules of the protocol for one frame. -/
structure WebsocketFrame.Legal (frame : WebsocketFrame) : Prop where
  rsv1 : frame.rsv1 = 0
  rsv2 : frame.rsv2 = 0
  rsv3 : frame.rsv3 = 0
  opcode : frame.opcode ∈ [0, 1, 2, 8, 9, 10]
  body : frame.body.length = frame.payloadLength.toNat
  final : 8 ≤ frame.opcode → frame.fin = 1
  short : 8 ≤ frame.opcode → frame.payloadLength.toNat ≤ 125

theorem Wire.ref_body (stream : Bytes) :
    ∀ wire ∈ Wire.ref stream, wire.body.length = wire.payloadLength.toNat := by
  apply Framing.forall_mem_frames
  intro stream wire total found
  obtain ⟨header, size, headed, reached, rfl, rfl⟩ :=
    WebsocketParser.front_of_frame found
  simp only [List.length_take, List.length_drop]
  omega

namespace WebsocketParser

theorem emit_legal_iff {stream : Bytes} {wire : WireFrame}
    (member : wire ∈ Wire.ref stream) (key : UInt32) :
    (emit key wire).2.Legal ↔
      (8 ≤ wire.opcode → wire.payloadLength.toNat ≤ 125) := by
  constructor
  · intro legal
    exact legal.short
  · intro short
    obtain ⟨opcode, final⟩ := Wire.ref_legal stream wire member
    exact ⟨rfl, rfl, rfl, opcode, Wire.ref_body stream wire member, final, short⟩

theorem forall_mem_emitAll {property : WebsocketFrame → Prop}
    {condition : WireFrame → Prop} {wires : List WireFrame}
    (each : ∀ wire ∈ wires, ∀ key,
      property (emit key wire).2 ↔ condition wire) (key : UInt32) :
    (∀ frame ∈ emitAll emit key wires, property frame) ↔
      ∀ wire ∈ wires, condition wire := by
  induction wires generalizing key with
  | nil => simp [emitAll]
  | cons wire wires ih =>
      obtain ⟨first, rest⟩ := List.forall_mem_cons.mp each
      simp only [emitAll, List.forall_mem_cons, first, ih rest]

/-- Some schedule hands over every frame, and every schedule hands over
frames of the stream only. -/
theorem delivered_legal_iff (memory : WebsocketParser) (stream : Bytes) :
    (∀ schedule, ∀ frame ∈ (drive call memory.init stream schedule).delivered,
        frame.Legal) ↔
      ∀ wire ∈ Wire.ref stream,
        8 ≤ wire.opcode → wire.payloadLength.toNat ≤ 125 := by
  have holds := Holds.init memory
  constructor
  · intro legal
    have complete := resumes.drive_complete holds
      (Nat.le_refl stream.length) (Nat.le_refl _)
    apply (forall_mem_emitAll (fun wire member => emit_legal_iff member)
      memory.maskingKey).mp
    intro frame member
    apply legal
    rw [complete]
    exact member
  · intro short schedule
    obtain ⟨delivered, received⟩ := resumes.drive_delivers holds stream schedule
    rw [delivered]
    apply (forall_mem_emitAll (fun wire member =>
      emit_legal_iff (received.subset member)) memory.maskingKey).mpr
    intro wire member
    exact short wire (received.subset member)

end WebsocketParser

namespace WebsocketCodec

theorem single_legal_iff (opcode : Nat) {data : Bytes}
    (storable : data.length < 2 ^ 64) :
    WebsocketFrame.Legal
        ⟨1, 0, 0, 0, opcode, 0, UInt64.ofNat data.length, 0, data⟩ ↔
      opcode ∈ [0, 1, 2, 8, 9, 10] ∧ (8 ≤ opcode → data.length ≤ 125) := by
  have length : (UInt64.ofNat data.length).toNat = data.length :=
    UInt64.toNat_ofNat_of_lt' storable
  constructor
  · rintro ⟨_, _, _, known, _, _, short⟩
    exact ⟨known, fun control => length ▸ short control⟩
  · rintro ⟨known, short⟩
    exact ⟨rfl, rfl, rfl, known, length.symm, fun _ => rfl,
      fun control => length.symm ▸ short control⟩

theorem converted_legal_iff (type : MessageType) {data : Bytes}
    (storable : data.length < 2 ^ 64) :
    (∀ frame, convertMessageToFrame type data = some frame → frame.Legal) ↔
      (type ∈ [.close, .ping, .pong] → data.length ≤ 125) := by
  cases type with
  | none => simp [convertMessageToFrame]
  | text =>
      simp [convertMessageToFrame, single_legal_iff _ storable, opcodeText]
  | binary =>
      simp [convertMessageToFrame, single_legal_iff _ storable, opcodeBinary]
  | close =>
      simp [convertMessageToFrame, single_legal_iff _ storable, opcodeClose]
  | ping =>
      simp [convertMessageToFrame, single_legal_iff _ storable, opcodePing]
  | pong =>
      simp [convertMessageToFrame, single_legal_iff _ storable, opcodePong]

end WebsocketCodec

/-- The frames of a stream are handed over legal, whatever the schedule,
exactly when no control frame in it announces more than 125 bytes, and a
message is turned into a legal frame exactly when it is a data message or has
at most 125 bytes. -/
theorem frames_legal_iff (memory : WebsocketParser) (stream : Bytes)
    (type : MessageType) (data : Bytes) (storable : data.length < 2 ^ 64) :
    ((∀ schedule, ∀ frame ∈
        (drive WebsocketParser.call memory.init stream schedule).delivered,
          frame.Legal) ↔
      ∀ wire ∈ Wire.ref stream,
        8 ≤ wire.opcode → wire.payloadLength.toNat ≤ 125) ∧
    ((∀ frame, WebsocketCodec.convertMessageToFrame type data = some frame →
        frame.Legal) ↔
      (type ∈ [.close, .ping, .pong] → data.length ≤ 125)) :=
  ⟨WebsocketParser.delivered_legal_iff memory stream,
    WebsocketCodec.converted_legal_iff type storable⟩

/-- A ping of one byte. -/
theorem short_ping_legal :
    let stream : Bytes := [0x89, 1, 7]
    (∀ schedule, ∀ frame ∈ (drive WebsocketParser.call
        (WebsocketParser.init default) stream schedule).delivered,
          frame.Legal) ∧
    ∀ frame, WebsocketCodec.convertMessageToFrame .ping [7] = some frame →
      frame.Legal := by
  intro stream
  have legal := frames_legal_iff default stream .ping [7] (by decide)
  have short : ∀ wire ∈ Wire.ref stream,
      8 ≤ wire.opcode → wire.payloadLength.toNat ≤ 125 := by
    decide +kernel
  exact ⟨legal.1.mpr short, legal.2.mpr fun _ => by decide⟩

/-- A ping of 126 bytes is handed over, and it is encoded. -/
theorem long_ping_illegal :
    let data : Bytes := List.replicate 126 0
    let stream : Bytes := [0x89, 126, 0, 126] ++ data
    (∃ frame ∈ (drive WebsocketParser.call (WebsocketParser.init default)
        stream [stream.length]).delivered, ¬ frame.Legal) ∧
    (∃ frame, WebsocketCodec.convertMessageToFrame .ping data = some frame ∧
      ¬ frame.Legal) := by
  intro data stream
  let ping : WebsocketFrame := ⟨1, 0, 0, 0, 9, 0, 126, 0, data⟩
  have illegal : ¬ ping.Legal := by
    intro legal
    exact absurd (legal.short (by decide)) (by decide)
  exact ⟨⟨ping, by decide +kernel, illegal⟩, ⟨ping, rfl, illegal⟩⟩

end Woody
