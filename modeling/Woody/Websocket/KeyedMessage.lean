import Woody.Websocket.Masking

/-!
# A message in one masked frame

The text and binary messages of a client that come in a single masked frame.
They are delivered as they were masked, unless the key is zero:
`HandleFrameBody` takes that key for a missing mask.
-/

namespace Woody

/-- The single frame of a message, masked with a key. -/
def WireFrame.ofMasked (kind : DataType) (length : UInt64) (key : UInt32)
    (data : Bytes) : WireFrame where
  fin := 1
  opcode := kind.opcode
  payloadLength := length
  maskingKey := some key
  body := Websocket.mask data key

theorem WireFrame.ownVerdict_ofMasked (kind : DataType) (length : UInt64)
    (key : UInt32) (data : Bytes) :
    (WireFrame.ofMasked kind length key data).ownVerdict =
      if key ≠ 0 ∨ data = [] then .ok data else .error "Missing mask." :=
  ownVerdict_of_masked rfl rfl

namespace WebsocketCodec

theorem onParsedFrame_single {codec : WebsocketCodec} {kind : DataType}
    {frame : WebsocketFrame} {body : Bytes}
    (opcode : frame.opcode = kind.opcode)
    (accepted : codec.handleFrameBody frame = .ok body)
    (idle : codec.curMessageType = .none) (final : frame.fin = 1) :
    (codec.onParsedFrame frame).2 =
      [kind.callback ((codec.message kind).append body)] := by
  rw [onParsedFrame_data opcode]
  simp only [onDataFrame, accepted, idle, ne_eq, not_true_eq_false, if_false,
    final, if_true, message_setType, setMessage_setType, message_setMessage]

theorem events_ofMasked (memory : WebsocketParser) (kind : DataType)
    (length : UInt64) (key : UInt32) (data : Bytes) :
    (deliver (.init memory) (.ofMasked kind length key data)).2.events =
      if key ≠ 0 ∨ data = [] then [kind.callback { data := data }]
      else [.error "Missing mask."] := by
  let codec := WebsocketCodec.init memory
  let wire := WireFrame.ofMasked kind length key data
  have masked : ¬ wire.LacksMask := fun lacking => nomatch lacking.1
  have verdict := @handleFrameBody_masked codec rfl memory.maskingKey _ masked
  rw [WireFrame.ownVerdict_ofMasked] at verdict
  have opcode :
      (WebsocketParser.emit memory.maskingKey wire).2.opcode = kind.opcode :=
    rfl
  by_cases delivered : key ≠ 0 ∨ data = []
  · rw [if_pos delivered] at verdict ⊢
    refine (onParsedFrame_single opcode verdict rfl rfl).trans ?_
    cases kind <;> rfl
  · rw [if_neg delivered] at verdict ⊢
    have handled := onParsedFrame_refused (.inr (.inl ⟨kind, opcode⟩)) verdict
    exact congrArg Prod.snd handled

/-- A masked message is delivered intact exactly when its key is not zero or
the message is empty, whatever form the length has on the wire. -/
theorem masked_message_delivered_iff (memory : WebsocketParser)
    (kind : DataType) (length : UInt64) (key : UInt32) (data stream : Bytes)
    (sent : WireFraming.front stream =
      .frame (.ofMasked kind length key data) stream.length) :
    let result := (WebsocketCodec.init memory).onData stream 0
    (result.ok = true ∧ result.parsedBytes = stream.length ∧
        result.events = [kind.callback { data := data }]) ↔
      key ≠ 0 ∨ data = [] := by
  intro result
  obtain ⟨ok, parsed, reported⟩ := (Holds.init memory).onData_of_frame
    (by rw [List.nil_append]; exact sent)
  have events := events_ofMasked memory kind length key data
  simp only [result, ok, parsed, reported, events, List.length_nil,
    Nat.sub_zero, true_and]
  by_cases delivered : key ≠ 0 ∨ data = []
  · simp only [delivered, if_true]
  · simp only [delivered, if_false, iff_false]
    cases kind <;> simp [DataType.callback]

/-- The text `hi` under the key 7. -/
theorem hi_delivered :
    let stream : Bytes := [0x81, 0x82, 0, 0, 0, 7, 104, 105]
    let result := (WebsocketCodec.init default).onData stream 0
    result.ok = true ∧ result.parsedBytes = stream.length ∧
      result.events = [.text { data := [104, 105] }] :=
  (masked_message_delivered_iff default .text 2 7 [104, 105]
    [0x81, 0x82, 0, 0, 0, 7, 104, 105] (by decide +kernel)).mpr
      (.inl (by decide))

/-- The text `hi` under the key 0. -/
theorem zero_key_refused :
    let stream : Bytes := [0x81, 0x82, 0, 0, 0, 0, 104, 105]
    WireFraming.front stream =
        .frame (.ofMasked .text 2 0 [104, 105]) stream.length ∧
      ((WebsocketCodec.init default).onData stream 0).events =
        [.error "Missing mask."] := by
  decide +kernel

end WebsocketCodec

end Woody
