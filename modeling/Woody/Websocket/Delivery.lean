import Woody.Net.Delivery
import Woody.Websocket.Encoding

/-!
# Messages from one end to the other

The strings of `SendWebsocketMessage` go through the sending side of a
connection and are read by a parser at the other end, in pieces of any size.
-/

namespace Woody

namespace SendingConnection

/-- Behind `base`, the connection has only messages of one kind. -/
structure Carries (kind : Bytes → Prop) (base : List Bytes)
    (conn : SendingConnection) : Prop where
  accepted : ∃ messages, conn.accepted = base ++ messages ∧
    ∀ message ∈ messages, kind message
  pending : ∀ message ∈ conn.pendingMessages, kind message
  checked : ∀ message ∈ conn.checked, kind message

section Carries

variable {kind : Bytes → Prop} {base : List Bytes}
variable {conn later : SendingConnection} {event : SendingEvent}

theorem Carries.of_same (carries : conn.Carries kind base)
    (accepted : later.accepted = conn.accepted)
    (pending : ∀ message ∈ later.pendingMessages,
      message ∈ conn.pendingMessages)
    (checked : later.checked = conn.checked) : later.Carries kind base where
  accepted := accepted ▸ carries.accepted
  pending := fun message member =>
    carries.pending message (pending message member)
  checked := checked ▸ carries.checked

theorem Carries.sent {data : Bytes} {result : WriteResult}
    (carries : conn.Carries kind base) (given : kind data)
    (sent : SendInLoop conn data result later) : later.Carries kind base := by
  obtain ⟨-, -, functors, checked, -⟩ := sent.kept_fields
  obtain ⟨messages, accepted, each⟩ := carries.accepted
  constructor
  · rcases sent.accepted_or with same | more
    · exact ⟨messages, same.trans accepted, each⟩
    · refine ⟨messages ++ [data], ?_, ?_⟩
      · rw [more, accepted, List.append_assoc]
      · exact List.forall_mem_append.mpr
          ⟨each, List.forall_mem_singleton.mpr given⟩
  · rw [pendingMessages, functors]
    exact carries.pending
  · rw [checked]
    exact carries.checked

theorem pendingMessages_of_queue {functor : LoopFunctor}
    {functors : List LoopFunctor}
    (queue : conn.pendingFunctors = functor :: functors) :
    ∀ message ∈
      pendingMessages { conn with pendingFunctors := functors },
      message ∈ conn.pendingMessages := by
  intro message member
  obtain ⟨own, left, shown⟩ := List.mem_filterMap.mp member
  rw [pendingMessages, queue]
  exact List.mem_filterMap.mpr
    ⟨own, List.mem_cons_of_mem functor left, shown⟩

theorem Carries.step (carries : conn.Carries kind base)
    (given : ∀ message ∈ loopSends [event] ++ checkedSends [event],
      kind message)
    (stepped : Stepped conn event later) : later.Carries kind base := by
  cases stepped with
  | ignored event other => exact carries
  | established connecting =>
      exact carries.of_same rfl (fun _ member => member) rfl
  | @sent message result later connected sent =>
      exact carries.sent
        (given message (by simp [loopSends])) sent
  | @checked message connected =>
      refine ⟨carries.accepted, carries.pending, ?_⟩
      exact List.forall_mem_cons.mpr
        ⟨given message (by simp [checkedSends]), carries.checked⟩
  | @queued message known =>
      refine ⟨carries.accepted, ?_, fun other member =>
        carries.checked other (List.mem_of_mem_erase member)⟩
      have queue : pendingMessages
          ({ conn with checked := conn.checked.erase message }.queueInLoop
            (.sendInLoop message)) = conn.pendingMessages ++ [message] :=
        List.filterMap_append
      rw [queue]
      exact List.forall_mem_append.mpr ⟨carries.pending,
        List.forall_mem_singleton.mpr (carries.checked message known)⟩
  | shut connected =>
      obtain ⟨-, accepted, functors, checked⟩ :=
        shutdownInLoop_fields (conn.setState .disconnecting)
      refine carries.of_same accepted ?_ checked
      rw [pendingMessages, functors]
      exact fun _ member => member
  | forced active | timed _ active =>
      refine carries.of_same rfl ?_ rfl
      simp [pendingMessages, queueInLoop, setState]
  | delayed active | closes active | timedLate _ _ =>
      exact carries.of_same rfl (fun _ member => member) rfl
  | @handedOver closing known =>
      have pending := pendingMessages_handOver
        { conn with closing := conn.closing.erase closing } closing
      refine carries.of_same ?_ (fun _ member => pending ▸ member) ?_ <;>
        cases closing <;> rfl
  | @ranSend message functors result later queue sent =>
      have given : kind message := by
        apply carries.pending
        rw [pendingMessages, queue]
        exact List.mem_cons_self
      have dequeued : Carries kind base
          { conn with pendingFunctors := functors } :=
        carries.of_same rfl (pendingMessages_of_queue queue) rfl
      exact dequeued.sent given sent
  | @ranShut functors result queue =>
      obtain ⟨-, accepted, left, checked⟩ :=
        shutdownInLoop_fields { conn with pendingFunctors := functors }
      refine carries.of_same accepted ?_ checked
      rw [pendingMessages, left]
      exact pendingMessages_of_queue queue
  | ranClose queue active =>
      exact carries.of_same rfl (pendingMessages_of_queue queue) rfl
  | ranCloseLate queue inactive =>
      exact carries.of_same rfl (pendingMessages_of_queue queue) rfl
  | wrote wrote =>
      obtain ⟨-, accepted, functors, checked⟩ := wrote.kept_fields
      refine carries.of_same accepted ?_ checked
      rw [pendingMessages, functors]
      exact fun _ member => member
  | closed active => exact carries.of_same rfl (fun _ member => member) rfl
  | destroyed connected =>
      exact carries.of_same rfl (fun _ member => member) rfl

theorem run_carries {events : List SendingEvent} {final : SendingConnection}
    (carries : conn.Carries kind base)
    (given : ∀ message ∈ loopSends events ++ checkedSends events,
      kind message)
    (ran : Machine.run SendingConnection.step conn events = some final) :
    final.Carries kind base := by
  have invariant : (∀ message ∈ loopSends events ++ checkedSends events,
      kind message) → final.Carries kind base := by
    refine @Machine.run_invariant _ _ _ (fun history state =>
      (∀ message ∈ loopSends history ++ checkedSends history,
        kind message) → state.Carries kind base) _ _ _
      (fun _ => carries) ?_ ran
    intro history state event later before stepped given
    rw [loopSends_append, checkedSends_append] at given
    refine (before fun message member => given message ?_).step
      (fun message member => given message ?_) (step_cases stepped)
    · rcases List.mem_append.mp member with loop | other
      · exact List.mem_append_left _ (List.mem_append_left _ loop)
      · exact List.mem_append_right _ (List.mem_append_left _ other)
    · rcases List.mem_append.mp member with loop | other
      · exact List.mem_append_left _ (List.mem_append_right _ loop)
      · exact List.mem_append_right _ (List.mem_append_right _ other)
  exact invariant given

end Carries

end SendingConnection

namespace WebsocketHandler

/-- What `SendWebsocketMessage` gives to the connection, as far as the length
of a `StringPiece`, an `int`, can hold that of the string. -/
def IsSentMessage (string : Bytes) : Prop :=
  string.length < 2 ^ 31 ∧ ∃ message : MessageType × Bytes, message.2.length < 2 ^ 64 ∧
    sendWebsocketMessage message.1 message.2 = some string

/-- A delivered frame that is one whole unmasked message. -/
structure Shows (delivered : WebsocketFrame)
    (message : MessageType × Bytes) : Prop where
  fin : delivered.fin = 1
  mask : delivered.mask = 0
  opcode : message.1.opcode? = some delivered.opcode
  body : delivered.body = message.2

theorem exists_messages {strings : List Bytes}
    (each : ∀ string ∈ strings, IsSentMessage string) :
    ∃ messages : List (MessageType × Bytes),
      (∀ message ∈ messages, Sendable message) ∧
      strings = messages.map fun message =>
        (WebsocketFrame.ofMessage message).encode := by
  induction strings with
  | nil => exact ⟨[], by simp, rfl⟩
  | cons string strings ih =>
      obtain ⟨first, rest⟩ := List.forall_mem_cons.mp each
      obtain ⟨messages, sendable, shape⟩ := ih rest
      obtain ⟨-, message, storable, sent⟩ := first
      rw [sendWebsocketMessage_eq storable] at sent
      split at sent
      · rename_i own
        cases sent
        refine ⟨message :: messages,
          List.forall_mem_cons.mpr ⟨own, sendable⟩, ?_⟩
        rw [List.map_cons, shape]
      · cases sent

theorem shows_of_agrees {delivered : WebsocketFrame}
    {message : MessageType × Bytes} (sendable : Sendable message)
    (agrees : WebsocketParser.Agrees delivered
      (WebsocketFrame.ofMessage message).wire) :
    Shows delivered message where
  fin := agrees.fin
  mask := agrees.mask
  opcode := by
    rw [agrees.opcode]
    obtain ⟨type, data⟩ := message
    cases type with
    | none => exact (sendable.1 rfl).elim
    | text | binary | close | ping | pong => rfl
  body := agrees.body

/-- A parser that is given a part of the encodings of some messages shows the
first of them, and all of them when it has taken everything. -/
theorem drive_shows {messages : List (MessageType × Bytes)} {stream : Bytes}
    (sendable : ∀ message ∈ messages, Sendable message)
    (arrived : stream <+: messages.flatMap fun message =>
      (WebsocketFrame.ofMessage message).encode)
    (memory : WebsocketParser) (schedule : List Nat) :
    let read := drive WebsocketParser.call memory.init stream schedule
    (∃ count, List.Forall₂ Shows read.delivered (messages.take count)) ∧
    (read.consumed = stream.length →
      stream.length = (messages.flatMap fun message =>
        (WebsocketFrame.ofMessage message).encode).length →
      List.Forall₂ Shows read.delivered messages) := by
  intro read
  have delimited : ∀ message ∈ messages,
      WireFraming.SelfDelimiting
        (fun message => (WebsocketFrame.ofMessage message).encode)
        (fun message => (WebsocketFrame.ofMessage message).wire) message :=
    fun message member => WebsocketCodec.encode_selfDelimiting
      (WebsocketFrame.ofMessage_encodable (sendable message member))
  obtain ⟨delivered, front⟩ := WebsocketParser.resumes.drive_delivers
    (WebsocketParser.Holds.init memory) stream schedule
  -- The frames taken so far are those of the first messages.
  have shown (count : Nat)
      (received : WireFraming.frames (stream.take read.consumed) =
        (messages.take count).map fun message =>
          (WebsocketFrame.ofMessage message).wire) :
      List.Forall₂ Shows read.delivered (messages.take count) := by
    have agrees := WebsocketParser.emitAll_agrees memory.maskingKey
      (WireFraming.frames (stream.take read.consumed))
    rw [show emitAll _ _ _ = read.delivered from
      delivered.symm, received, List.forall₂_map_right_iff] at agrees
    have paired : List.Forall₂
        (fun message frame => Sendable message ∧
          WebsocketParser.Agrees frame
            (WebsocketFrame.ofMessage message).wire)
        (messages.take count) read.delivered :=
      List.forall₂_and_left _ _ |>.mpr
        ⟨fun message member => sendable message
          (List.mem_of_mem_take member), agrees.flip⟩
    exact (paired.imp fun message frame both =>
      shows_of_agrees both.1 both.2).flip
  constructor
  · have first := front.trans
      (Framing.frames_prefix_flatMap delimited arrived)
    refine ⟨(WireFraming.frames (stream.take read.consumed)).length,
      shown _ ?_⟩
    rw [List.map_take]
    exact List.prefix_iff_eq_take.mp first
  · intro all whole
    have everything := shown messages.length (by
      rw [all, List.take_length, List.take_length,
        arrived.eq_of_length whole]
      exact Framing.frames_flatMap delimited)
    rwa [List.take_length] at everything

section EndToEnd

variable {early late : List SendingEvent}
variable {middle final : SendingConnection}

/-- A connection has accepted some bytes, such as the answer to the handshake,
and from then on carries the strings of `SendWebsocketMessage`, from any thread
and written in any pieces. A parser that reads what follows those bytes on the
wire, in pieces of any size, shows the first of the accepted messages, each
once and in order; when the output buffer is empty and the parser has taken
everything, it has shown all of them. -/
theorem messages_reach_peer (memory : WebsocketParser) (schedule : List Nat)
    (ranEarly : Machine.run SendingConnection.step .init early = some middle)
    (idle : middle.pendingMessages = [] ∧ middle.checked = [])
    (messagesOnly : ∀ string ∈ SendingConnection.loopSends late ++
      SendingConnection.checkedSends late, IsSentMessage string)
    (ranLate : Machine.run SendingConnection.step middle late = some final) :
    let stream := final.wire.drop middle.accepted.flatten.length
    let read := drive WebsocketParser.call memory.init stream schedule
    ∃ messages : List (MessageType × Bytes),
      final.accepted = middle.accepted ++ messages.map (fun message =>
        (WebsocketFrame.ofMessage message).encode) ∧
      (∃ count, List.Forall₂ Shows read.delivered (messages.take count)) ∧
      (final.outputBuffer.readable = [] → read.consumed = stream.length →
        List.Forall₂ Shows read.delivered messages) := by
  intro stream read
  have carries : middle.Carries IsSentMessage middle.accepted :=
    ⟨⟨[], (List.append_nil _).symm, by simp⟩, by simp [idle.1],
      by simp [idle.2]⟩
  obtain ⟨strings, accepted, each⟩ :=
    (SendingConnection.run_carries carries messagesOnly ranLate).accepted
  obtain ⟨messages, sendable, rfl⟩ := exists_messages each
  have conserving := SendingConnection.run_conserving
    (SendingConnection.run_conserving SendingConnection.init_conserving
      ranEarly) ranLate
  have conserved := conserving.conserved
  rw [accepted, List.flatten_append, ← List.flatMap_def] at conserved
  have behind := congrArg
    (List.drop middle.accepted.flatten.length) conserved
  rw [List.drop_left, List.drop_append] at behind
  have arrived : stream <+: messages.flatMap fun message =>
      (WebsocketFrame.ofMessage message).encode := ⟨_, behind⟩
  obtain ⟨first, whole⟩ := drive_shows sendable arrived memory schedule
  refine ⟨messages, accepted, first, fun drained all => whole all ?_⟩
  rw [drained, List.drop_nil, List.append_nil] at behind
  rw [← behind]

/-- A text and a binary message behind an answer of two bytes, read in three
pieces. -/
theorem two_messages_reach_peer :
    ∃ middle final, Machine.run SendingConnection.step .init
        [.connectEstablished, .send [1, 2] (.written 2)] = some middle ∧
      Machine.run SendingConnection.step middle
        [.send [129, 2, 104, 105] (.written 3), .send [130, 1, 7] .wouldBlock,
          .handleWrite (.written 4)] = some final ∧
      let stream := final.wire.drop middle.accepted.flatten.length
      let read := drive WebsocketParser.call (WebsocketParser.init default)
        stream [3, 4, 3]
      read.delivered.length = 2 ∧
      ∃ messages : List (MessageType × Bytes),
        final.accepted = middle.accepted ++ messages.map (fun message =>
          (WebsocketFrame.ofMessage message).encode) ∧
        List.Forall₂ Shows read.delivered messages := by
  have possible : (((Machine.run SendingConnection.step .init
      [.connectEstablished, .send [1, 2] (.written 2)]).bind fun middle =>
        (Machine.run SendingConnection.step middle
          [.send [129, 2, 104, 105] (.written 3),
            .send [130, 1, 7] .wouldBlock,
            .handleWrite (.written 4)]).map fun final =>
              (middle.pendingFunctors, middle.checked, middle.accepted,
                final.outputBuffer.readable, final.wire))) =
      some ([], [], [[1, 2]], [], [1, 2, 129, 2, 104, 105, 130, 1, 7]) := by
    decide +kernel
  obtain ⟨middle, ranEarly, possible⟩ := Option.bind_eq_some_iff.mp possible
  obtain ⟨final, ranLate, facts⟩ := Option.map_eq_some_iff.mp possible
  simp only [Prod.mk.injEq] at facts
  obtain ⟨noFunctors, noChecked, accepted, drained, wire⟩ := facts
  have idle : middle.pendingMessages = [] ∧ middle.checked = [] := by
    rw [SendingConnection.pendingMessages, noFunctors]
    exact ⟨rfl, noChecked⟩
  have sent : ∀ string ∈ SendingConnection.loopSends
      [.send [129, 2, 104, 105] (.written 3), .send [130, 1, 7] .wouldBlock,
        .handleWrite (.written 4)] ++ SendingConnection.checkedSends
      [.send [129, 2, 104, 105] (.written 3), .send [130, 1, 7] .wouldBlock,
        .handleWrite (.written 4)], IsSentMessage string := by
    intro string member
    have either : string = [129, 2, 104, 105] ∨ string = [130, 1, 7] := by
      simpa [SendingConnection.loopSends,
        SendingConnection.checkedSends] using member
    rcases either with rfl | rfl
    · exact ⟨by decide, (.text, [104, 105]), by decide, by decide +kernel⟩
    · exact ⟨by decide, (.binary, [7]), by decide, by decide +kernel⟩
  obtain ⟨messages, shape, -, whole⟩ := messages_reach_peer default [3, 4, 3]
    ranEarly idle sent ranLate
  have stream : final.wire.drop middle.accepted.flatten.length =
      [129, 2, 104, 105, 130, 1, 7] := by
    rw [wire, accepted]
    rfl
  refine ⟨middle, final, ranEarly, ranLate, ?_, messages, shape,
    whole drained ?_⟩
  · rw [stream]
    decide +kernel
  · rw [stream]
    decide +kernel

end EndToEnd

end WebsocketHandler

end Woody
