import Woody.Websocket.CodecRefinement

/-!
# The verdict on a frame's masking

`HandleFrameBody` tells a masked frame from an unmasked one by the masking
key.  The parser writes the key only for masked frames, so an unmasked frame
is judged by the key of the last masked frame before it.
-/

namespace Woody

namespace WireFrame

/-- The verdict that the bytes of the frame alone call for. -/
def ownVerdict (wire : WireFrame) : Except String Bytes :=
  if wire.body = [] then
    .ok []
  else
    match wire.maskingKey with
    | none => .error "Missing mask."
    | some key =>
        if key = 0 then .error "Missing mask."
        else .ok (Websocket.unMask wire.body key)

theorem ownVerdict_of_masked {wire : WireFrame} {key : UInt32} {data : Bytes}
    (keyed : wire.maskingKey = some key)
    (body : wire.body = Websocket.mask data key) :
    wire.ownVerdict =
      if key ≠ 0 ∨ data = [] then .ok data else .error "Missing mask." := by
  unfold ownVerdict
  rw [keyed, body]
  by_cases empty : data = []
  · simp [empty]
  · by_cases zero : key = 0 <;> simp [empty, zero]

/-- The MASK bit is not set, and there is a payload. -/
def LacksMask (wire : WireFrame) : Prop :=
  wire.maskingKey = none ∧ wire.body ≠ []

/-- The key of the last masked frame, or the given one when no frame is
masked. -/
def lastKey (key : UInt32) (wires : List WireFrame) : UInt32 :=
  (wires.filterMap fun wire => wire.maskingKey).getLast?.getD key

/-- No frame that lacks a mask comes while a key is left over. -/
def Unstained (key : UInt32) (wires : List WireFrame) : Prop :=
  ∀ before wire after, wires = before ++ wire :: after →
    wire.LacksMask → lastKey key before = 0

theorem lastKey_cons (key : UInt32) (wire : WireFrame)
    (wires : List WireFrame) :
    lastKey key (wire :: wires) = lastKey (wire.maskingKey.getD key) wires := by
  unfold lastKey
  cases own : wire.maskingKey with
  | none => simp [own]
  | some own' =>
      simp only [List.filterMap_cons, own, List.getLast?_cons, Option.getD_some]

theorem unstained_nil (key : UInt32) : Unstained key [] := by
  intro before wire after shape
  simp at shape

theorem unstained_cons_iff {key : UInt32} {wire : WireFrame}
    {wires : List WireFrame} :
    Unstained key (wire :: wires) ↔
      (wire.LacksMask → key = 0) ∧
        Unstained (wire.maskingKey.getD key) wires := by
  constructor
  · intro unstained
    refine ⟨fun lacking => unstained [] wire wires rfl lacking, ?_⟩
    intro before later after shape lacking
    have whole := unstained (wire :: before) later after
      (congrArg (wire :: ·) shape) lacking
    rwa [lastKey_cons] at whole
  · rintro ⟨first, rest⟩ before later after shape lacking
    cases before with
    | nil =>
        cases shape
        exact first lacking
    | cons head before =>
        cases shape
        rw [lastKey_cons]
        exact rest before later after rfl lacking

end WireFrame

namespace WebsocketCodec

/-- Every frame is judged by its own bytes, and a frame that lacks a mask is
reported and nothing else. -/
structure JudgedByOwnBytes (wires : List WireFrame)
    (deliveries : List Delivery) : Prop where
  verdicts : deliveries.map Delivery.verdict = wires.map WireFrame.ownVerdict
  reported : List.Forall₂
    (fun wire delivery => wire.LacksMask →
      delivery.events = [.error "Missing mask."]) wires deliveries

section Verdict

variable {codec : WebsocketCodec} (expected : codec.isExpectedMasking = true)
  (key : UInt32) {wire : WireFrame}

include expected

theorem handleFrameBody_masked (hasMask : ¬ wire.LacksMask) :
    codec.handleFrameBody (WebsocketParser.emit key wire).2 =
      wire.ownVerdict := by
  unfold handleFrameBody WireFrame.ownVerdict WebsocketParser.emit
  by_cases empty : wire.body = []
  · simp only [empty, ne_eq, not_true_eq_false, if_false, if_true]
  · cases present : wire.maskingKey with
    | none => exact (hasMask ⟨present, empty⟩).elim
    | some own =>
        by_cases zero : own = 0
        · simp [empty, zero, expected]
        · simp [empty, zero, expected]

theorem handleFrameBody_lacking (lacking : wire.LacksMask) :
    codec.handleFrameBody (WebsocketParser.emit key wire).2 =
      if key = 0 then .error "Missing mask."
      else .ok (Websocket.unMask wire.body key) := by
  obtain ⟨unmasked, full⟩ := lacking
  unfold handleFrameBody WebsocketParser.emit
  simp only [unmasked, Option.getD_none]
  by_cases zero : key = 0
  · simp [full, zero, expected]
  · simp [full, zero, expected]

/-- The verdict is the frame's own unless a left over key stands in for the
missing one. -/
theorem handleFrameBody_own_iff :
    codec.handleFrameBody (WebsocketParser.emit key wire).2 =
        wire.ownVerdict ↔
      (wire.LacksMask → key = 0) := by
  by_cases lacking : wire.LacksMask
  · have own : wire.ownVerdict = .error "Missing mask." := by
      simp [WireFrame.ownVerdict, lacking.1, lacking.2]
    rw [handleFrameBody_lacking expected key lacking, own]
    by_cases zero : key = 0
    · simp [zero]
    · simp [zero, lacking]
  · have own := handleFrameBody_masked expected key lacking
    simp [own, lacking]

end Verdict

/-- The run lemma, by induction on the decoded frames. -/
theorem judgedByOwnBytes_emitAll_iff {register : Register}
    (expected : register.assembly.isExpectedMasking = true)
    {wires : List WireFrame}
    (handled : ∀ wire ∈ wires, ∀ key,
      (WebsocketParser.emit key wire).2.IsHandled) :
    JudgedByOwnBytes wires (emitAll deliver register wires) ↔
      WireFrame.Unstained register.key wires := by
  induction wires generalizing register with
  | nil =>
      constructor
      · intro _
        exact WireFrame.unstained_nil register.key
      · intro _
        exact ⟨rfl, .nil⟩
  | cons wire wires ih =>
      have later := @ih (deliver register wire).1
        ((onParsedFrame_isExpectedMasking _ _).trans expected)
        fun later member => handled later (List.mem_cons_of_mem _ member)
      have own := @handleFrameBody_own_iff _ expected register.key wire
      rw [WireFrame.unstained_cons_iff]
      constructor
      · rintro ⟨verdicts, reported⟩
        simp only [emitAll, List.map_cons, List.cons.injEq] at verdicts
        obtain ⟨-, reported⟩ := List.forall₂_cons.mp reported
        exact ⟨own.mp verdicts.1, later.mp ⟨verdicts.2, reported⟩⟩
      · rintro ⟨first, rest⟩
        obtain ⟨verdicts, reported⟩ := later.mpr rest
        refine ⟨?_, .cons ?_ reported⟩
        · exact congrArg₂ List.cons (own.mpr first) verdicts
        · intro lacking
          have refused := handleFrameBody_lacking expected register.key lacking
          rw [if_pos (first lacking)] at refused
          exact congrArg Prod.snd (onParsedFrame_refused
            (handled wire List.mem_cons_self register.key) refused)

/-- When every frame of a connection is judged by its own bytes.  No
frame with payload may lack its mask while the parser holds a key: that of the
last masked frame before it, or what the memory held at the start. -/
theorem judgedByOwnBytes_iff (memory : WebsocketParser) (stream : Bytes)
    (schedule : List Nat) :
    let run := drive call (WebsocketCodec.init memory) stream schedule
    let wires := Wire.ref (stream.take run.consumed)
    JudgedByOwnBytes wires run.delivered ↔
      WireFrame.Unstained memory.maskingKey wires := by
  intro run wires
  have delivered : run.delivered = emitAll deliver (.init memory) wires :=
    (resumes.drive_delivers (Holds.init memory) stream schedule).1
  rw [delivered]
  exact @judgedByOwnBytes_emitAll_iff (.init memory) rfl _
    fun wire member key => isHandled_emit member key

/-- A masked text frame, and an unmasked one behind it. -/
def maskedThenUnmasked : Bytes :=
  [0x81, 0x81, 1, 2, 3, 4, 96, 0x81, 0x01, 0x42]

/-- The unmasked frame is unmasked with the key of the frame before it and
delivered. -/
theorem unmasked_frame_delivered :
    (drive call (init default) maskedThenUnmasked [7, 3]).delivered.map
        Delivery.events =
      [[.text ⟨.none, [97]⟩], [.text ⟨.none, [67]⟩]] ∧
    ¬ JudgedByOwnBytes (Wire.ref maskedThenUnmasked)
      (drive call (init default) maskedThenUnmasked [7, 3]).delivered := by
  have events : (drive call (init default) maskedThenUnmasked
      [7, 3]).delivered.map Delivery.events =
        [[.text ⟨.none, [97]⟩], [.text ⟨.none, [67]⟩]] := by decide
  have verdicts : (drive call (init default) maskedThenUnmasked
      [7, 3]).delivered.map Delivery.verdict ≠
        (Wire.ref maskedThenUnmasked).map WireFrame.ownVerdict := by decide
  exact ⟨events, fun judged => verdicts judged.verdicts⟩

end WebsocketCodec

end Woody
