import Woody.Websocket.Assembly

/-!
# Reassembly of fragmented messages

A fragmented message is a data frame without FIN, any number of continuation
frames without FIN, and a continuation frame with FIN, with control frames in
between.  The codec reassembles it exactly when there is no fragment in the
middle and nothing is left over from an earlier message.
-/

namespace Woody

/-- One fragment of a message, with the non-zero key it is masked with. -/
structure Fragment where
  body : Bytes
  key : UInt32
  keyed : key ≠ 0

namespace Fragment

/-- The frame that carries the fragment. -/
def frame (fragment : Fragment) (opcode fin : Nat) : WebsocketFrame where
  fin := fin
  rsv1 := 0
  rsv2 := 0
  rsv3 := 0
  opcode := opcode
  mask := 1
  payloadLength := UInt64.ofNat fragment.body.length
  maskingKey := fragment.key
  body := Websocket.mask fragment.body fragment.key

/-- The data frames of a message that starts with `first` and ends with
`last`. -/
def frames (kind : DataType) (first : Fragment) (middle : List Fragment)
    (last : Fragment) : List WebsocketFrame :=
  first.frame kind.opcode 0 ::
    (middle.map fun fragment => fragment.frame opcodeContinuation 0) ++
      [last.frame opcodeContinuation 1]

/-- A fragment of one letter. -/
def letter (byte : UInt8) : Fragment where
  body := [byte]
  key := 0x01020304
  keyed := by decide

end Fragment

namespace WebsocketCodec

/-- A sequence of frames delivers one message and leaves a clean codec. -/
structure Reassembles (codec : WebsocketCodec) (kind : DataType)
    (payload : Bytes) (frames : List WebsocketFrame) : Prop where
  delivered : codec.messages frames = [(kind, payload)]
  noError : ∀ entry ∈ codec.trace frames, ¬ entry.1.IsControl →
    ∀ event ∈ entry.2, ¬ event.IsError
  idle : (codec.after frames).curMessageType = .none
  textClean : (codec.after frames).textMessage.data = []
  binaryClean : (codec.after frames).binaryMessage.data = []

theorem handleFrameBody_fragment {codec : WebsocketCodec}
    (expected : codec.isExpectedMasking = true) (fragment : Fragment)
    (opcode fin : Nat) :
    codec.handleFrameBody (fragment.frame opcode fin) =
      .ok fragment.body := by
  unfold handleFrameBody
  by_cases empty : fragment.body = []
  · simp [Fragment.frame, empty]
  · simp [Fragment.frame, empty, fragment.keyed, expected]

theorem onParsedFrame_first {codec : WebsocketCodec}
    (expected : codec.isExpectedMasking = true)
    (idle : codec.curMessageType = .none) (kind : DataType)
    (fragment : Fragment) :
    codec.onParsedFrame (fragment.frame kind.opcode 0) =
      (codec.advance kind ((codec.message kind).append fragment.body)
        kind.messageType, []) := by
  have accepted := handleFrameBody_fragment expected fragment kind.opcode 0
  have open_ : (fragment.frame kind.opcode 0).fin ≠ 1 := Nat.zero_ne_one
  rw [onParsedFrame_data rfl]
  simp only [onDataFrame, accepted, idle, ne_eq, not_true_eq_false, if_false,
    open_, message_setType, setMessage_setType, advance]

theorem onParsedFrame_middle {codec : WebsocketCodec}
    (expected : codec.isExpectedMasking = true) {kind : DataType}
    (busy : codec.curMessageType = kind.messageType) (fragment : Fragment) :
    codec.onParsedFrame (fragment.frame opcodeContinuation 0) =
      (codec.advance kind ((codec.message kind).append fragment.body) .none,
        []) := by
  have accepted :=
    handleFrameBody_fragment expected fragment opcodeContinuation 0
  have open_ : (fragment.frame opcodeContinuation 0).fin ≠ 1 :=
    Nat.zero_ne_one
  rw [onParsedFrame_continuation rfl, onContinuationFrame_busy accepted busy]
  simp only [continueMessage, open_, if_false, advance]

theorem onParsedFrame_last {codec : WebsocketCodec}
    (expected : codec.isExpectedMasking = true) {kind : DataType}
    (busy : codec.curMessageType = kind.messageType) (fragment : Fragment) :
    codec.onParsedFrame (fragment.frame opcodeContinuation 1) =
      (codec.advance kind (codec.message kind).cleanUp .none,
        [kind.callback ((codec.message kind).append fragment.body)]) := by
  have accepted :=
    handleFrameBody_fragment expected fragment opcodeContinuation 1
  have final : (fragment.frame opcodeContinuation 1).fin = 1 := rfl
  rw [onParsedFrame_continuation rfl, onContinuationFrame_busy accepted busy]
  simp only [continueMessage, final, if_true, message_setMessage,
    setMessage_setMessage]
  rfl

theorem onParsedFrame_orphan {codec : WebsocketCodec}
    (expected : codec.isExpectedMasking = true)
    (idle : codec.curMessageType = .none) (fragment : Fragment) (fin : Nat) :
    codec.onParsedFrame (fragment.frame opcodeContinuation fin) =
      (codec, [.error "Message not started yet."]) := by
  have accepted :=
    handleFrameBody_fragment expected fragment opcodeContinuation fin
  rw [onParsedFrame_continuation rfl]
  simp only [onContinuationFrame, accepted, idle]

/-- Interleaved control frames do not matter. -/
theorem reassembles_dataFrames {codec : WebsocketCodec} {kind : DataType}
    {payload : Bytes} {frames : List WebsocketFrame} :
    Reassembles codec kind payload (dataFrames frames) ↔
      Reassembles codec kind payload frames := by
  constructor
  · intro reassembles
    refine ⟨?_, ?_, ?_, ?_, ?_⟩
    · simpa only [messages_dataFrames] using reassembles.delivered
    · intro entry member data
      apply reassembles.noError entry _ data
      rw [trace_dataFrames]
      exact List.mem_filter.mpr ⟨member, by simpa using data⟩
    · simpa only [after_dataFrames] using reassembles.idle
    · simpa only [after_dataFrames] using reassembles.textClean
    · simpa only [after_dataFrames] using reassembles.binaryClean
  · intro reassembles
    refine ⟨?_, ?_, ?_, ?_, ?_⟩
    · simpa only [messages_dataFrames] using reassembles.delivered
    · intro entry member data
      rw [trace_dataFrames] at member
      exact reassembles.noError entry (List.mem_filter.mp member).1 data
    · simpa only [after_dataFrames] using reassembles.idle
    · simpa only [after_dataFrames] using reassembles.textClean
    · simpa only [after_dataFrames] using reassembles.binaryClean

private theorem fragment_not_control (fragment : Fragment) (fin : Nat) :
    ¬ (fragment.frame opcodeContinuation fin).IsControl := by
  simp [WebsocketFrame.IsControl, Fragment.frame, opcodeContinuation,
    opcodeClose, opcodePing, opcodePong]

theorem not_reassembles_of_middle {codec : WebsocketCodec}
    (expected : codec.isExpectedMasking = true)
    (idle : codec.curMessageType = .none) (kind : DataType)
    (first second : Fragment) (middle : List Fragment) (last : Fragment)
    (payload : Bytes) :
    ¬ Reassembles codec kind payload
      (Fragment.frames kind first (second :: middle) last) := by
  intro reassembles
  -- the second fragment resets the type, so the third one is an orphan
  let started := (codec.onParsedFrame (first.frame kind.opcode 0)).1
  let reset :=
    (started.onParsedFrame (second.frame opcodeContinuation 0)).1
  have startedEq : started = codec.advance kind
      ((codec.message kind).append first.body) kind.messageType :=
    congrArg Prod.fst (onParsedFrame_first expected idle kind first)
  have startedBusy : started.curMessageType = kind.messageType := by
    rw [startedEq]
    rfl
  have startedExpected : started.isExpectedMasking = true := by
    rw [startedEq]
    simpa [advance] using expected
  have resetEq : reset = started.advance kind
      ((started.message kind).append second.body) .none :=
    congrArg Prod.fst (onParsedFrame_middle startedExpected startedBusy second)
  have resetIdle : reset.curMessageType = .none := by
    rw [resetEq]
    rfl
  have resetExpected : reset.isExpectedMasking = true := by
    rw [resetEq]
    simpa [advance] using startedExpected
  obtain ⟨third, fin, rest, shape⟩ : ∃ third fin rest,
      (middle.map fun fragment => fragment.frame opcodeContinuation 0) ++
          [last.frame opcodeContinuation 1] =
        Fragment.frame third opcodeContinuation fin :: rest := by
    cases middle with
    | nil => exact ⟨last, 1, [], rfl⟩
    | cons third middle => exact ⟨third, 0, _, rfl⟩
  have orphan := onParsedFrame_orphan resetExpected resetIdle third fin
  have entry : (third.frame opcodeContinuation fin,
      [CodecEvent.error "Message not started yet."]) ∈
        codec.trace (Fragment.frames kind first (second :: middle) last) := by
    simp only [Fragment.frames, List.map_cons, List.cons_append, shape, trace,
      List.mem_cons]
    exact .inr (.inr (.inl
      (congrArg (Prod.mk _) (congrArg Prod.snd orphan).symm)))
  exact reassembles.noError _ entry (fragment_not_control third fin) _
    List.mem_cons_self trivial

section TwoFragments

variable {codec : WebsocketCodec} (expected : codec.isExpectedMasking = true)
  (idle : codec.curMessageType = .none) (kind : DataType)
  (first last : Fragment)

/-- The codec between the two fragments. -/
private def started (codec : WebsocketCodec) (kind : DataType)
    (first : Fragment) : WebsocketCodec :=
  codec.advance kind ((codec.message kind).append first.body) kind.messageType

include expected idle

private theorem trace_two :
    codec.trace (Fragment.frames kind first [] last) =
      [(first.frame kind.opcode 0, []),
        (last.frame opcodeContinuation 1,
          [kind.callback
            ((codec.message kind).append (first.body ++ last.body))])] := by
  have busy : (started codec kind first).curMessageType = kind.messageType :=
    rfl
  have stillExpected : (started codec kind first).isExpectedMasking = true := by
    simpa [started, advance] using expected
  have finished := onParsedFrame_last stillExpected busy last
  have accumulated : ((started codec kind first).message kind).append last.body =
      (codec.message kind).append (first.body ++ last.body) := by
    simp [started, advance, WebsocketMessage.append]
  simp only [Fragment.frames, List.map_nil, List.nil_append, List.cons_append,
    trace, onParsedFrame_first expected idle kind first]
  change [_, (_, ((started codec kind first).onParsedFrame _).2)] = _
  rw [finished, accumulated]

private theorem after_two :
    codec.after (Fragment.frames kind first [] last) =
      codec.advance kind (codec.message kind).cleanUp .none := by
  have busy : (started codec kind first).curMessageType = kind.messageType :=
    rfl
  have stillExpected : (started codec kind first).isExpectedMasking = true := by
    simpa [started, advance] using expected
  have finished := onParsedFrame_last stillExpected busy last
  simp only [Fragment.frames, List.map_nil, List.nil_append, List.cons_append,
    after, onParsedFrame_first expected idle kind first]
  change ((started codec kind first).onParsedFrame _).1 = _
  rw [finished]
  simp [started, advance, WebsocketMessage.cleanUp, WebsocketMessage.append]

theorem reassembles_two_iff :
    Reassembles codec kind (first.body ++ last.body)
        (Fragment.frames kind first [] last) ↔
      codec.textMessage.data = [] ∧ codec.binaryMessage.data = [] := by
  have traced := trace_two expected idle kind first last
  have reached := after_two expected idle kind first last
  have delivered :
      codec.messages (Fragment.frames kind first [] last) =
        [(kind, (codec.message kind).data ++ (first.body ++ last.body))] := by
    simp [messages, events, traced]
  constructor
  · intro reassembles
    have same : (codec.message kind).data = [] := by
      have equal := delivered.symm.trans reassembles.delivered
      simpa using equal
    have text := reassembles.textClean
    have binary := reassembles.binaryClean
    rw [reached] at text binary
    cases kind with
    | text => exact ⟨same, binary⟩
    | binary => exact ⟨text, same⟩
  · rintro ⟨text, binary⟩
    have same : (codec.message kind).data = [] := by
      cases kind with
      | text => exact text
      | binary => exact binary
    refine ⟨?_, ?_, ?_, ?_, ?_⟩
    · rw [delivered, same, List.nil_append]
    · intro entry member _ event reported
      rw [traced] at member
      rcases List.mem_cons.mp member with rfl | member
      · exact absurd reported List.not_mem_nil
      · rw [List.mem_singleton.mp member] at reported
        rw [List.mem_singleton.mp reported]
        exact kind.callback_not_error _
    · rw [reached]
      rfl
    · rw [reached]
      cases kind with
      | text => rfl
      | binary => exact text
    · rw [reached]
      cases kind with
      | text => exact binary
      | binary => rfl

end TwoFragments

/-- When the codec reassembles a fragmented message.  The message must
have two fragments, and the accumulators must be empty before it. -/
theorem reassembles_fragments_iff {codec : WebsocketCodec}
    (reachable : Reachable codec) (idle : codec.curMessageType = .none)
    (kind : DataType) (first : Fragment) (middle : List Fragment)
    (last : Fragment) (frames : List WebsocketFrame)
    (sent : dataFrames frames = Fragment.frames kind first middle last) :
    Reassembles codec kind
        ((first :: middle ++ [last]).flatMap Fragment.body) frames ↔
      middle = [] ∧ codec.textMessage.data = [] ∧
        codec.binaryMessage.data = [] := by
  have expected := reachable.isExpectedMasking
  rw [← reassembles_dataFrames, sent]
  cases middle with
  | nil =>
      have payload : ([first] ++ [last]).flatMap Fragment.body =
          first.body ++ last.body := by
        simp
      rw [payload, reassembles_two_iff expected idle kind first last]
      simp
  | cons second middle =>
      constructor
      · intro reassembles
        exact (not_reassembles_of_middle expected idle kind first second
          middle last _ reassembles).elim
      · rintro ⟨absent, _⟩
        exact (List.cons_ne_nil second middle absent).elim

/-- A fresh codec reassembles a message of two fragments. -/
theorem hello_reassembled :
    Reassembles (init default) .text [104, 105]
      (Fragment.frames .text (.letter 104) [] (.letter 105)) :=
  (reassembles_fragments_iff (.init default) rfl .text (.letter 104) []
    (.letter 105) (Fragment.frames .text (.letter 104) [] (.letter 105))
    (by decide)).mpr ⟨rfl, rfl, rfl⟩

/-- With a fragment in the middle a fresh codec reports an error and delivers
nothing. -/
theorem three_fragments_not_reassembled :
    (init default).events
        (Fragment.frames .text (.letter 104) [.letter 101] (.letter 121)) =
      [.error "Message not started yet."] ∧
    ¬ (∀ codec : WebsocketCodec, Reachable codec →
        codec.curMessageType = .none →
        ∀ (kind : DataType) (first : Fragment) (middle : List Fragment)
          (last : Fragment),
        Reassembles codec kind
          ((first :: middle ++ [last]).flatMap Fragment.body)
          (Fragment.frames kind first middle last)) := by
  have events : (init default).events
      (Fragment.frames .text (.letter 104) [.letter 101] (.letter 121)) =
        [.error "Message not started yet."] := by decide
  refine ⟨events, ?_⟩
  intro always
  have reassembles := always (init default) (.init default) rfl .text
    (.letter 104) [.letter 101] (.letter 121)
  have delivered := reassembles.delivered
  rw [messages, events] at delivered
  cases delivered

end WebsocketCodec

end Woody
