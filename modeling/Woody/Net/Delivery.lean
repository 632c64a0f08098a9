import Woody.Net.Sending
import Mathlib.Data.List.Perm.Basic

/-!
# What reaches the socket

In every run the socket has got the front of what the connection accepted, in
order, and the rest is in the output buffer.  The write side is shut behind
everything that was accepted, and a closed connection writes nothing more.
-/

namespace Woody

namespace SendingConnection

/-- The bytes accepted are those on the wire and those in the buffer, and the
channel waits for the socket exactly while there are some in the buffer. -/
structure Conserving (conn : SendingConnection) : Prop where
  conserved : conn.wire ++ conn.outputBuffer.readable = conn.accepted.flatten
  writing : conn.state ≠ .disconnected →
    (conn.isWriting = true ↔ conn.outputBuffer.readable ≠ [])
  silent : conn.state = .disconnected → conn.isWriting = false
  shut : conn.writeShut = true → conn.state ≠ .disconnected →
    conn.outputBuffer.readable = []

theorem init_conserving : init.Conserving where
  conserved := by simp [init]
  writing := by simp [init]
  silent := by simp [init]
  shut := by simp [init]

theorem Conserving.of_same {conn later : SendingConnection}
    (conserving : conn.Conserving) (wire : later.wire = conn.wire)
    (outputBuffer : later.outputBuffer = conn.outputBuffer)
    (accepted : later.accepted = conn.accepted)
    (isWriting : later.isWriting = conn.isWriting)
    (writeShut : later.writeShut = conn.writeShut)
    (alive : later.state = .disconnected ↔ conn.state = .disconnected) :
    later.Conserving where
  conserved := by
    rw [wire, outputBuffer, accepted]
    exact conserving.conserved
  writing := by
    rw [isWriting, outputBuffer, Ne, alive]
    exact conserving.writing
  silent := by
    rw [isWriting, alive]
    exact conserving.silent
  shut := by
    rw [writeShut, outputBuffer, Ne, alive]
    exact conserving.shut

theorem Conserving.sent {conn later : SendingConnection} {data : Bytes}
    {result : WriteResult} (conserving : conn.Conserving)
    (sent : SendInLoop conn data result later) : later.Conserving := by
  cases sent with
  | dropped refused => exact conserving
  | direct alive idle empty unshut nwrote =>
      have conserved := conserving.conserved
      rw [empty, List.append_nil] at conserved
      exact
        { conserved := by
            simp [accept, write, empty, conserved]
          writing := fun _ => by
            rw [keep_isWriting]
            simp [accept, write, idle, empty]
          silent := fun gone => by
            simp only [keep_state, write, accept] at gone
            exact (alive gone).elim
          shut := fun closed => by
            simp only [keep_writeShut, write, accept, unshut] at closed
            cases closed }
  | kept alive busy =>
      have waiting : conn.outputBuffer.readable ≠ [] :=
        busy.elim (conserving.writing alive).mp id
      have writing := (conserving.writing alive).mpr waiting
      exact
        { conserved := by
            simp [accept, ← conserving.conserved]
          writing := fun _ => by
            rw [keep_isWriting]
            simp [accept, writing, waiting]
          silent := fun gone => by
            simp only [keep_state, accept] at gone
            exact (alive gone).elim
          shut := fun closed _ => by
            simp only [keep_writeShut, accept] at closed
            exact (waiting (conserving.shut closed alive)).elim }

theorem Conserving.wrote {conn later : SendingConnection}
    {result : WriteResult} (conserving : conn.Conserving)
    (wrote : HandleWrite conn result later) : later.Conserving := by
  cases wrote with
  | unchanged idle => exact conserving
  | partly writing unshut outputBuffer left remains =>
      exact
        { conserved := by
            simp [write, left, ← conserving.conserved]
          writing := fun _ => by simp [write, writing, remains]
          silent := conserving.silent
          shut := fun closed => by
            simp only [write, unshut] at closed
            cases closed }
  | drained writing unshut outputBuffer whole empty =>
      exact
        { conserved := by simp [write, empty, ← conserving.conserved]
          writing := fun _ => by simp [empty]
          silent := fun _ => rfl
          shut := fun _ _ => empty }

theorem Conserving.shutdownInLoop {conn : SendingConnection}
    (conserving : conn.Conserving) : conn.shutdownInLoop.Conserving := by
  unfold SendingConnection.shutdownInLoop
  split
  · rename_i idle
    exact
      { conserved := conserving.conserved
        writing := conserving.writing
        silent := conserving.silent
        shut := fun _ alive => by
          have empty := mt (conserving.writing alive).mpr
          simp only [idle, Bool.false_eq_true, not_false_eq_true, not_not,
            true_implies] at empty
          exact empty }
  · exact conserving

theorem Conserving.disconnect {conn : SendingConnection}
    (conserving : conn.Conserving) : conn.disconnect.Conserving where
  conserved := conserving.conserved
  writing := fun alive => (alive rfl).elim
  silent := fun _ => rfl
  shut := fun _ alive => (alive rfl).elim

theorem Conserving.disconnecting {conn : SendingConnection}
    (conserving : conn.Conserving) (alive : conn.state ≠ .disconnected) :
    (conn.setState .disconnecting).Conserving :=
  conserving.of_same rfl rfl rfl rfl rfl
    ⟨fun gone => (nomatch gone), fun gone => (alive gone).elim⟩

theorem alive_of_active {conn : SendingConnection}
    (active : conn.state = .connected ∨ conn.state = .disconnecting) :
    conn.state ≠ .disconnected := by
  rcases active with connected | disconnecting <;> simp [*]

theorem Conserving.setPending {conn : SendingConnection}
    (conserving : conn.Conserving) (functors : List LoopFunctor) :
    { conn with pendingFunctors := functors }.Conserving :=
  conserving.of_same rfl rfl rfl rfl rfl Iff.rfl

theorem Conserving.step {conn later : SendingConnection}
    {event : SendingEvent} (conserving : conn.Conserving)
    (stepped : Stepped conn event later) : later.Conserving := by
  cases stepped with
  | ignored event other => exact conserving
  | established connecting =>
      refine conserving.of_same rfl rfl rfl rfl rfl ?_
      simp [setState, connecting]
  | sent connected sent => exact conserving.sent sent
  | checked connected => exact conserving.of_same rfl rfl rfl rfl rfl Iff.rfl
  | queued known => exact conserving.of_same rfl rfl rfl rfl rfl Iff.rfl
  | shut connected =>
      exact (conserving.disconnecting (by simp [connected])).shutdownInLoop
  | forced active | delayed active | closes active | timed _ active =>
      refine (conserving.disconnecting (alive_of_active active)).of_same
        rfl rfl rfl rfl rfl Iff.rfl
  | @handedOver closing known =>
      refine conserving.of_same ?_ ?_ ?_ ?_ ?_ ?_ <;> cases closing <;> rfl
  | timedLate _ inactive =>
      exact conserving.of_same rfl rfl rfl rfl rfl Iff.rfl
  | ranSend queue sent => exact (conserving.setPending _).sent sent
  | ranShut queue => exact (conserving.setPending _).shutdownInLoop
  | ranClose queue active => exact (conserving.setPending _).disconnect
  | ranCloseLate queue inactive => exact conserving.setPending _
  | wrote wrote => exact conserving.wrote wrote
  | closed active => exact conserving.disconnect
  | destroyed connected => exact conserving.disconnect

theorem run_conserving {conn final : SendingConnection}
    {events : List SendingEvent} (conserving : conn.Conserving)
    (ran : Machine.run SendingConnection.step conn events = some final) :
    final.Conserving :=
  @Machine.run_invariant _ _ _ (fun _ state => state.Conserving) _ _ _
    conserving
    (fun _ _ _ _ conserving stepped => conserving.step (step_cases stepped))
    ran

/-- A write of the channel takes the bytes it reports off the buffer. -/
theorem Conserving.handleWrite_written {conn later : SendingConnection}
    {n : Nat} (conserving : conn.Conserving)
    (alive : conn.state ≠ .disconnected) (positive : 0 < n)
    (wrote : HandleWrite conn (.written n) later) :
    later.outputBuffer.readable = conn.outputBuffer.readable.drop n ∧
      later.accepted = conn.accepted ∧ later.state = conn.state := by
  cases wrote with
  | unchanged idle =>
      have quiet : conn.isWriting = false :=
        idle.resolve_right fun other => other n positive rfl
      have empty : conn.outputBuffer.readable = [] := by
        by_contra waiting
        rw [(conserving.writing alive).mpr waiting] at quiet
        cases quiet
      rw [empty, List.drop_nil]
      exact ⟨rfl, rfl, rfl⟩
  | partly writing unshut outputBuffer left remains => exact ⟨left, rfl, rfl⟩
  | drained writing unshut outputBuffer whole empty =>
      exact ⟨empty.trans whole.symm, rfl, rfl⟩

/-- A channel that waits for the socket can be given any part of the buffer:
the assertion of `retrieve` holds. -/
theorem Conserving.exists_handleWrite {conn : SendingConnection} {n : Nat}
    (conserving : conn.Conserving) (writing : conn.isWriting = true)
    (bounded : n ≤ conn.outputBuffer.readable.length) :
    ∃ later, conn.handleWrite (.written n) = some later := by
  have alive : conn.state ≠ .disconnected := by
    intro gone
    rw [conserving.silent gone] at writing
    cases writing
  have waiting := (conserving.writing alive).mp writing
  have unshut : conn.writeShut = false := by
    by_contra shut
    exact waiting (conserving.shut (Bool.not_eq_false _ ▸ shut) alive)
  have possible :
      conn.Possible conn.outputBuffer.readableBytes (.written n) :=
    ⟨Buffer.readable_length _ ▸ bounded, unshut⟩
  obtain ⟨outputBuffer, retrieved, -⟩ := Buffer.retrieve_eq_some bounded
  unfold SendingConnection.handleWrite
  rw [if_pos writing, if_pos possible]
  simp only [retrieved]
  split
  · split
    · split <;> exact ⟨_, rfl⟩
    · exact ⟨_, rfl⟩
  · exact ⟨_, rfl⟩

theorem Conserving.handleWrites {conn final : SendingConnection}
    {counts : List Nat} (conserving : conn.Conserving)
    (alive : conn.state ≠ .disconnected) (positive : ∀ n ∈ counts, 0 < n)
    (ran : Machine.run SendingConnection.step conn
      (counts.map fun n => .handleWrite (.written n)) = some final) :
    final.outputBuffer.readable =
        conn.outputBuffer.readable.drop counts.sum ∧
      final.accepted = conn.accepted := by
  induction counts generalizing conn with
  | nil =>
      cases ran
      exact ⟨rfl, rfl⟩
  | cons n counts ih =>
      obtain ⟨first, rest⟩ := List.forall_mem_cons.mp positive
      obtain ⟨middle, stepped, ranRest⟩ := Option.bind_eq_some_iff.mp ran
      obtain ⟨left, accepted, state⟩ := conserving.handleWrite_written alive
        first (handleWrite_cases stepped)
      obtain ⟨leftLater, acceptedLater⟩ :=
        ih (conserving.step (step_cases stepped)) (state ▸ alive) rest ranRest
      rw [leftLater, left, List.drop_drop, List.sum_cons, acceptedLater,
        accepted]
      exact ⟨rfl, rfl⟩

theorem SendInLoop.kept_fields {conn later : SendingConnection}
    {data : Bytes} {result : WriteResult}
    (sent : SendInLoop conn data result later) :
    later.state = conn.state ∧ later.writeShut = conn.writeShut ∧
      later.pendingFunctors = conn.pendingFunctors ∧
      later.checked = conn.checked ∧
      (conn.isWriting = true → later.isWriting = true) := by
  cases sent with
  | dropped refused => exact ⟨rfl, rfl, rfl, rfl, id⟩
  | direct alive idle empty unshut nwrote =>
      refine ⟨keep_state _ _, keep_writeShut _ _, keep_pendingFunctors _ _,
        keep_checked _ _, fun writing => ?_⟩
      rw [keep_isWriting]
      exact .inl writing
  | kept alive busy =>
      refine ⟨keep_state _ _, keep_writeShut _ _, keep_pendingFunctors _ _,
        keep_checked _ _, fun writing => ?_⟩
      rw [keep_isWriting]
      exact .inl writing

theorem SendInLoop.kept_closings {conn later : SendingConnection}
    {data : Bytes} {result : WriteResult}
    (sent : SendInLoop conn data result later) :
    later.closing = conn.closing ∧
      later.delayedCloses = conn.delayedCloses := by
  cases sent with
  | dropped refused => exact ⟨rfl, rfl⟩
  | direct _ _ _ _ _ => exact ⟨keep_closing _ _, keep_delayedCloses _ _⟩
  | kept _ _ => exact ⟨keep_closing _ _, keep_delayedCloses _ _⟩

/-- Something will still shut the write side or close the connection: a
functor in the queue, another thread that is about to queue one or to set a
timer, or a timer. -/
def Pending (conn : SendingConnection) : Prop :=
  .shutdownInLoop ∈ conn.pendingFunctors ∨
    .forceCloseInLoop ∈ conn.pendingFunctors ∨
    conn.closing ≠ [] ∨ 0 < conn.delayedCloses

theorem pending_of_same {conn later : SendingConnection}
    (functors : later.pendingFunctors = conn.pendingFunctors)
    (closing : later.closing = conn.closing)
    (delayedCloses : later.delayedCloses = conn.delayedCloses) :
    later.Pending ↔ conn.Pending := by
  rw [Pending, Pending, functors, closing, delayedCloses]

/-- Only a connection that is to be closed is shut, and such a connection has
something that will get it closed. -/
structure Finishing (conn : SendingConnection) : Prop where
  leaving : conn.writeShut = true ∨ conn.Pending →
    conn.state = .disconnecting ∨ conn.state = .disconnected
  finishing : conn.state = .disconnecting →
    conn.writeShut = true ∨ conn.isWriting = true ∨ conn.Pending

theorem init_finishing : init.Finishing where
  leaving := by simp [init, Pending]
  finishing := nofun

theorem Finishing.sent {conn later : SendingConnection} {data : Bytes}
    {result : WriteResult} (finishing : conn.Finishing)
    (sent : SendInLoop conn data result later) : later.Finishing := by
  obtain ⟨state, writeShut, functors, -, writing⟩ := sent.kept_fields
  obtain ⟨closing, delayedCloses⟩ := sent.kept_closings
  have pending := pending_of_same functors closing delayedCloses
  constructor
  · intro shut
    rw [state]
    apply finishing.leaving
    rwa [writeShut, pending] at shut
  · intro disconnecting
    rw [state] at disconnecting
    rw [writeShut, pending]
    exact (finishing.finishing disconnecting).imp id (Or.imp writing id)

/-- A shutdown of a connection that is to be closed is done or waits for the
output. -/
theorem shutdownInLoop_finishing {conn : SendingConnection}
    (leaving : conn.state = .disconnecting ∨ conn.state = .disconnected) :
    conn.shutdownInLoop.Finishing := by
  unfold SendingConnection.shutdownInLoop
  split
  · exact ⟨fun _ => leaving, fun _ => .inl rfl⟩
  · rename_i writing
    exact ⟨fun _ => leaving,
      fun _ => .inr (.inl (Bool.not_eq_false _ ▸ writing))⟩

theorem disconnect_finishing (conn : SendingConnection) :
    conn.disconnect.Finishing :=
  ⟨fun _ => .inr rfl, nofun⟩

theorem Finishing.dequeue {conn : SendingConnection} {message : Bytes}
    {functors : List LoopFunctor} (finishing : conn.Finishing)
    (queue : conn.pendingFunctors = .sendInLoop message :: functors) :
    { conn with pendingFunctors := functors }.Finishing := by
  have same : Pending { conn with pendingFunctors := functors } ↔
      conn.Pending := by
    simp [Pending, queue]
  constructor
  · rw [same]
    exact finishing.leaving
  · rw [same]
    exact finishing.finishing

theorem Finishing.leaving_of_pending {conn : SendingConnection}
    (finishing : conn.Finishing) (pending : conn.Pending) :
    conn.state = .disconnecting ∨ conn.state = .disconnected :=
  finishing.leaving (.inr pending)

/-- What another thread does behind its change of the state. -/
theorem Finishing.handOver {conn : SendingConnection} {closing : Closing}
    (finishing : conn.Finishing) (known : closing ∈ conn.closing) :
    ({ conn with closing := conn.closing.erase closing }.handOver
      closing).Finishing := by
  have leaving := finishing.leaving_of_pending
    (.inr (.inr (.inl (List.ne_nil_of_mem known))))
  cases closing with
  | shutdown | forceClose =>
      exact ⟨fun _ => leaving, fun _ => .inr (.inr (by
        simp [Pending, SendingConnection.handOver, queueInLoop]))⟩
  | forceCloseWithDelay =>
      exact ⟨fun _ => leaving, fun _ => .inr (.inr (by
        simp [Pending, SendingConnection.handOver, runAfter]))⟩

theorem Finishing.wrote {conn later : SendingConnection}
    {result : WriteResult} (finishing : conn.Finishing)
    (wrote : HandleWrite conn result later) : later.Finishing := by
  cases wrote with
  | unchanged idle => exact finishing
  | partly writing unshut outputBuffer left remains =>
      exact ⟨finishing.leaving, fun _ => .inr (.inl writing)⟩
  | drained writing unshut outputBuffer whole empty =>
      constructor
      · rintro (shut | pending)
        · exact .inl (of_decide_eq_true shut)
        · exact finishing.leaving_of_pending pending
      · exact fun disconnecting => .inl (decide_eq_true disconnecting)

theorem Finishing.step {conn later : SendingConnection}
    {event : SendingEvent} (finishing : conn.Finishing)
    (stepped : Stepped conn event later) : later.Finishing := by
  cases stepped with
  | ignored event other => exact finishing
  | established connecting =>
      constructor
      · intro shut
        have leaving := finishing.leaving shut
        simp [connecting] at leaving
      · exact nofun
  | sent connected sent => exact finishing.sent sent
  | checked connected => exact ⟨finishing.leaving, finishing.finishing⟩
  | @queued message known =>
      have same : Pending
          ({ conn with checked := conn.checked.erase message }.queueInLoop
            (.sendInLoop message)) ↔ conn.Pending := by
        simp [Pending, queueInLoop]
      constructor
      · rw [same]
        exact finishing.leaving
      · rw [same]
        exact finishing.finishing
  | shut connected => exact shutdownInLoop_finishing (.inl rfl)
  | forced active =>
      exact ⟨fun _ => .inl rfl,
        fun _ => .inr (.inr (by simp [Pending, queueInLoop]))⟩
  | delayed active =>
      exact ⟨fun _ => .inl rfl,
        fun _ => .inr (.inr (by simp [Pending, runAfter]))⟩
  | closes active =>
      exact ⟨fun _ => .inl rfl, fun _ => .inr (.inr (by simp [Pending]))⟩
  | handedOver known => exact finishing.handOver known
  | timed set active =>
      exact ⟨fun _ => .inl rfl,
        fun _ => .inr (.inr (by simp [Pending, queueInLoop]))⟩
  | timedLate set inactive =>
      have leaving := finishing.leaving_of_pending (by simp [Pending, set])
      exact ⟨fun _ => leaving, fun disconnecting =>
        (inactive.2 disconnecting).elim⟩
  | ranSend queue sent => exact (finishing.dequeue queue).sent sent
  | ranShut queue =>
      apply shutdownInLoop_finishing
      exact finishing.leaving_of_pending (by simp [Pending, queue])
  | ranClose queue active => exact disconnect_finishing _
  | ranCloseLate queue inactive =>
      have leaving :=
        finishing.leaving_of_pending (by simp [Pending, queue])
      exact ⟨fun _ => leaving, fun disconnecting =>
        (inactive.2 disconnecting).elim⟩
  | wrote wrote => exact finishing.wrote wrote
  | closed active => exact disconnect_finishing _
  | destroyed connected => exact disconnect_finishing _

/-- What a closed connection keeps. -/
structure Closed (wire : Bytes) (accepted : List Bytes)
    (conn : SendingConnection) : Prop where
  disconnected : conn.state = .disconnected
  silent : conn.isWriting = false
  wire : conn.wire = wire
  accepted : conn.accepted = accepted

theorem Closed.sent {wire data : Bytes} {accepted : List Bytes}
    {conn later : SendingConnection} {result : WriteResult}
    (closed : conn.Closed wire accepted)
    (sent : SendInLoop conn data result later) :
    later.Closed wire accepted := by
  cases sent with
  | dropped refused => exact closed
  | direct alive idle empty unshut nwrote =>
      exact (alive closed.disconnected).elim
  | kept alive busy => exact (alive closed.disconnected).elim

theorem Closed.step {wire : Bytes} {accepted : List Bytes}
    {conn later : SendingConnection} {event : SendingEvent}
    (closed : conn.Closed wire accepted)
    (stepped : Stepped conn event later) : later.Closed wire accepted := by
  obtain ⟨disconnected, silent, same, sameAccepted⟩ := closed
  cases stepped with
  | ignored event other => exact ⟨disconnected, silent, same, sameAccepted⟩
  | queued known => exact ⟨disconnected, silent, same, sameAccepted⟩
  | @ranSend message functors result later queue sent =>
      have dequeued : Closed wire accepted
          { conn with pendingFunctors := functors } :=
        ⟨disconnected, silent, same, sameAccepted⟩
      exact dequeued.sent sent
  | ranShut queue =>
      unfold SendingConnection.shutdownInLoop
      split <;> exact ⟨disconnected, silent, same, sameAccepted⟩
  | ranCloseLate queue inactive =>
      exact ⟨disconnected, silent, same, sameAccepted⟩
  | ranClose queue active => exact ⟨rfl, rfl, same, sameAccepted⟩
  | wrote wrote =>
      cases wrote with
      | unchanged idle => exact ⟨disconnected, silent, same, sameAccepted⟩
      | partly writing unshut outputBuffer left remains =>
          rw [silent] at writing
          cases writing
      | drained writing unshut outputBuffer whole empty =>
          rw [silent] at writing
          cases writing
  | @handedOver closing known =>
      cases closing <;> exact ⟨disconnected, silent, same, sameAccepted⟩
  | timedLate set inactive => exact ⟨disconnected, silent, same, sameAccepted⟩
  | established connecting => simp [disconnected] at connecting
  | closed active | forced active | delayed active | closes active
  | timed _ active => simp [disconnected] at active
  | sent connected sent => simp [disconnected] at connected
  | checked connected | shut connected
  | destroyed connected => simp [disconnected] at connected

/-- The messages the loop's own thread sends. -/
def loopSends (events : List SendingEvent) : List Bytes :=
  events.filterMap fun
    | .send message _ => some message
    | _ => none

/-- The messages of other threads, in the order of their state checks. -/
def checkedSends (events : List SendingEvent) : List Bytes :=
  events.filterMap fun
    | .checkSend message => some message
    | _ => none

/-- The messages of other threads, in the order in which they are queued. -/
def queuedSends (events : List SendingEvent) : List Bytes :=
  events.filterMap fun
    | .queueSend message => some message
    | _ => none

def pendingMessages (conn : SendingConnection) : List Bytes :=
  conn.pendingFunctors.filterMap fun
    | .sendInLoop message => some message
    | .shutdownInLoop | .forceCloseInLoop => none

theorem pendingMessages_handOver (conn : SendingConnection)
    (closing : Closing) :
    (conn.handOver closing).pendingMessages = conn.pendingMessages := by
  cases closing <;> simp [handOver, queueInLoop, runAfter, pendingMessages]

section Lists

variable (early late : List SendingEvent)

@[simp] theorem loopSends_append :
    loopSends (early ++ late) = loopSends early ++ loopSends late :=
  List.filterMap_append

@[simp] theorem checkedSends_append :
    checkedSends (early ++ late) = checkedSends early ++ checkedSends late :=
  List.filterMap_append

@[simp] theorem queuedSends_append :
    queuedSends (early ++ late) = queuedSends early ++ queuedSends late :=
  List.filterMap_append

end Lists

/-- A message meets a socket whose peer is gone. -/
def Lost (event : SendingEvent) : Prop :=
  (∃ message, event = .send message .broken) ∨ event = .runFunctor .broken

/-- The state in which the connection callback finds a connection. -/
def established : SendingConnection := init.setState .connected

/-- Every message sent is accepted, queued or on its way to the queue, and
those of one thread are accepted in their order. -/
structure Delivering (history : List SendingEvent)
    (conn : SendingConnection) : Prop where
  once : (conn.accepted ++ conn.pendingMessages ++ conn.checked).Perm
    (loopSends history ++ checkedSends history)
  loopOrder : (loopSends history).Sublist conn.accepted
  queueOrder : ∃ ran, queuedSends history = ran ++ conn.pendingMessages ∧
    ran.Sublist conn.accepted

theorem established_delivering : Delivering [] established where
  once := .refl _
  loopOrder := .refl _
  queueOrder := ⟨[], rfl, .refl _⟩

/-- A message that a live connection is given is accepted behind all others,
unless the peer is gone. -/
theorem SendInLoop.accepted_eq {conn later : SendingConnection}
    {data : Bytes} {result : WriteResult}
    (sent : SendInLoop conn data result later)
    (alive : conn.state ≠ .disconnected) (met : result ≠ .broken) :
    later.accepted = conn.accepted ++ [data] := by
  cases sent with
  | dropped refused =>
      rcases refused with gone | broken
      · exact (alive gone).elim
      · exact (met broken).elim
  | direct _ idle empty unshut nwrote => exact keep_accepted _ _
  | kept _ busy => exact keep_accepted _ _

theorem SendInLoop.accepted_or {conn later : SendingConnection}
    {data : Bytes} {result : WriteResult}
    (sent : SendInLoop conn data result later) :
    later.accepted = conn.accepted ∨
      later.accepted = conn.accepted ++ [data] := by
  cases sent with
  | dropped refused => exact .inl rfl
  | direct _ idle empty unshut nwrote => exact .inr (keep_accepted _ _)
  | kept _ busy => exact .inr (keep_accepted _ _)

theorem shutdownInLoop_fields (conn : SendingConnection) :
    conn.shutdownInLoop.state = conn.state ∧
      conn.shutdownInLoop.accepted = conn.accepted ∧
      conn.shutdownInLoop.pendingFunctors = conn.pendingFunctors ∧
      conn.shutdownInLoop.checked = conn.checked := by
  unfold shutdownInLoop
  split <;> exact ⟨rfl, rfl, rfl, rfl⟩

theorem HandleWrite.kept_fields {conn later : SendingConnection}
    {result : WriteResult} (wrote : HandleWrite conn result later) :
    later.state = conn.state ∧ later.accepted = conn.accepted ∧
      later.pendingFunctors = conn.pendingFunctors ∧
      later.checked = conn.checked := by
  cases wrote <;> exact ⟨rfl, rfl, rfl, rfl⟩

section Delivering

variable {history : List SendingEvent} {event : SendingEvent}
variable {conn later : SendingConnection}

theorem Delivering.of_same (delivering : Delivering history conn)
    (accepted : later.accepted = conn.accepted)
    (pending : later.pendingMessages = conn.pendingMessages)
    (checked : later.checked = conn.checked)
    (unsent : loopSends [event] = [] ∧ checkedSends [event] = [] ∧
      queuedSends [event] = []) :
    Delivering (history ++ [event]) later := by
  obtain ⟨noLoop, noCheck, noQueue⟩ := unsent
  constructor
  · rw [accepted, pending, checked, loopSends_append, checkedSends_append,
      noLoop, noCheck, List.append_nil, List.append_nil]
    exact delivering.once
  · rw [accepted, loopSends_append, noLoop, List.append_nil]
    exact delivering.loopOrder
  · rw [accepted, pending, queuedSends_append, noQueue, List.append_nil]
    exact delivering.queueOrder

theorem Delivering.send {message : Bytes} {result : WriteResult}
    (delivering : Delivering history conn)
    (accepted : later.accepted = conn.accepted ++ [message])
    (pending : later.pendingMessages = conn.pendingMessages)
    (checked : later.checked = conn.checked) :
    Delivering (history ++ [.send message result]) later := by
  obtain ⟨once, loopOrder, ran, queued, ordered⟩ := delivering
  have loop : loopSends (history ++ [.send message result]) =
      loopSends history ++ [message] := loopSends_append _ _
  have others : checkedSends (history ++ [.send message result]) =
      checkedSends history :=
    (checkedSends_append _ _).trans (List.append_nil _)
  have queue : queuedSends (history ++ [.send message result]) =
      queuedSends history :=
    (queuedSends_append _ _).trans (List.append_nil _)
  constructor
  · rw [accepted, pending, checked, loop, others]
    rw [List.perm_iff_count] at once ⊢
    intro item
    have counted := once item
    simp only [List.count_append] at counted ⊢
    omega
  · rw [loop, accepted]
    exact loopOrder.append (.refl _)
  · rw [queue, pending, accepted]
    exact ⟨ran, queued, ordered.trans (List.sublist_append_left _ _)⟩

theorem Delivering.check {message : Bytes}
    (delivering : Delivering history conn) :
    Delivering (history ++ [.checkSend message])
      { conn with checked := message :: conn.checked } := by
  obtain ⟨once, loopOrder, ran, queued, ordered⟩ := delivering
  have loop : loopSends (history ++ [.checkSend message]) =
      loopSends history := (loopSends_append _ _).trans (List.append_nil _)
  have others : checkedSends (history ++ [.checkSend message]) =
      checkedSends history ++ [message] := checkedSends_append _ _
  have queue : queuedSends (history ++ [.checkSend message]) =
      queuedSends history :=
    (queuedSends_append _ _).trans (List.append_nil _)
  constructor
  · rw [loop, others]
    change (conn.accepted ++ conn.pendingMessages ++
      ([message] ++ conn.checked)).Perm _
    rw [List.perm_iff_count] at once ⊢
    intro item
    have counted := once item
    simp only [List.count_append] at counted ⊢
    omega
  · rw [loop]
    exact loopOrder
  · rw [queue]
    exact ⟨ran, queued, ordered⟩

theorem Delivering.queue {message : Bytes}
    (delivering : Delivering history conn) (known : message ∈ conn.checked) :
    Delivering (history ++ [.queueSend message])
      ({ conn with checked := conn.checked.erase message }.queueInLoop
        (.sendInLoop message)) := by
  obtain ⟨once, loopOrder, ran, queued, ordered⟩ := delivering
  have loop : loopSends (history ++ [.queueSend message]) =
      loopSends history := (loopSends_append _ _).trans (List.append_nil _)
  have others : checkedSends (history ++ [.queueSend message]) =
      checkedSends history :=
    (checkedSends_append _ _).trans (List.append_nil _)
  have queue : queuedSends (history ++ [.queueSend message]) =
      queuedSends history ++ [message] := queuedSends_append _ _
  have pending : pendingMessages
      ({ conn with checked := conn.checked.erase message }.queueInLoop
        (.sendInLoop message)) = conn.pendingMessages ++ [message] :=
    List.filterMap_append
  constructor
  · rw [loop, others, pending]
    change (conn.accepted ++ (conn.pendingMessages ++ [message]) ++
      conn.checked.erase message).Perm _
    rw [List.perm_iff_count] at once ⊢
    intro item
    have counted := once item
    have erased := (List.perm_cons_erase known).count_eq item
    rw [← List.singleton_append] at erased
    simp only [List.count_append] at counted erased ⊢
    omega
  · rw [loop]
    exact loopOrder
  · rw [queue, pending]
    exact ⟨ran, by rw [queued, List.append_assoc], ordered⟩

theorem Delivering.run {message : Bytes} {result : WriteResult}
    (delivering : Delivering history conn)
    (accepted : later.accepted = conn.accepted ++ [message])
    (pending : conn.pendingMessages = message :: later.pendingMessages)
    (checked : later.checked = conn.checked) :
    Delivering (history ++ [.runFunctor result]) later := by
  obtain ⟨once, loopOrder, ran, queued, ordered⟩ := delivering
  have loop : loopSends (history ++ [.runFunctor result]) =
      loopSends history := (loopSends_append _ _).trans (List.append_nil _)
  have others : checkedSends (history ++ [.runFunctor result]) =
      checkedSends history :=
    (checkedSends_append _ _).trans (List.append_nil _)
  have queue : queuedSends (history ++ [.runFunctor result]) =
      queuedSends history :=
    (queuedSends_append _ _).trans (List.append_nil _)
  rw [pending, ← List.singleton_append] at once queued
  constructor
  · rw [accepted, checked, loop, others]
    rw [List.perm_iff_count] at once ⊢
    intro item
    have counted := once item
    simp only [List.count_append] at counted ⊢
    omega
  · rw [loop, accepted]
    exact loopOrder.trans (List.sublist_append_left _ _)
  · rw [queue, accepted]
    refine ⟨ran ++ [message], ?_, ordered.append (.refl _)⟩
    rw [queued, List.append_assoc]

theorem Delivering.step (delivering : Delivering history conn)
    (stepped : Stepped conn event later) (met : ¬ Lost event)
    (connected : conn.state = .connected)
    (still : later.state = .connected) :
    Delivering (history ++ [event]) later := by
  have alive : conn.state ≠ .disconnected := by simp [connected]
  cases stepped with
  | ignored event other => exact (other connected).elim
  | established connecting =>
      rw [connected] at connecting
      cases connecting
  | @sent message result later _ sent =>
      obtain ⟨-, -, functors, checked, -⟩ := sent.kept_fields
      have accepted := sent.accepted_eq alive fun broken =>
        met (.inl ⟨message, by rw [broken]⟩)
      refine delivering.send accepted ?_ checked
      rw [pendingMessages, functors, pendingMessages]
  | checked _ => exact delivering.check
  | queued known => exact delivering.queue known
  | @ranSend message functors result later queue sent =>
      obtain ⟨-, -, left, checked, -⟩ := sent.kept_fields
      have accepted := sent.accepted_eq alive fun broken =>
        met (.inr (by rw [broken]))
      refine delivering.run accepted ?_ checked
      rw [pendingMessages, queue, pendingMessages, left]
      rfl
  | @ranShut functors result queue =>
      obtain ⟨-, accepted, left, checked⟩ :=
        shutdownInLoop_fields { conn with pendingFunctors := functors }
      refine delivering.of_same accepted ?_ checked ⟨rfl, rfl, rfl⟩
      rw [pendingMessages, left, pendingMessages, queue]
      rfl
  | ranCloseLate queue inactive => exact (inactive.1 connected).elim
  | wrote wrote =>
      obtain ⟨-, accepted, functors, checked⟩ := wrote.kept_fields
      refine delivering.of_same accepted ?_ checked ⟨rfl, rfl, rfl⟩
      rw [pendingMessages, functors, pendingMessages]
  | shut _ =>
      rw [(shutdownInLoop_fields _).1] at still
      cases still
  | @handedOver closing known =>
      refine delivering.of_same ?_ (pendingMessages_handOver _ closing) ?_
        ⟨rfl, rfl, rfl⟩ <;> cases closing <;> rfl
  | timedLate set inactive => exact (inactive.1 connected).elim
  | forced _ | delayed _ | closes _ | timed _ _ | ranClose _ _ | closed _
  | destroyed _ => cases still

theorem Stepped.connected_before (stepped : Stepped conn event later)
    (begun : conn.state ≠ .connecting) (still : later.state = .connected) :
    conn.state = .connected := by
  cases stepped with
  | ignored event other => exact still
  | established connecting => exact (begun connecting).elim
  | sent connected sent => exact connected
  | checked connected => exact connected
  | queued known => exact still
  | ranSend queue sent => exact sent.kept_fields.1.symm.trans still
  | ranShut queue =>
      rw [(shutdownInLoop_fields _).1] at still
      exact still
  | ranCloseLate queue inactive => exact still
  | wrote wrote => exact wrote.kept_fields.1.symm.trans still
  | shut connected => exact connected
  | @handedOver closing known => cases closing <;> exact still
  | timedLate set inactive => exact still
  | forced _ | delayed _ | closes _ | timed _ _ | ranClose _ _ | closed _
  | destroyed _ => cases still

theorem Stepped.begun (stepped : Stepped conn event later)
    (begun : conn.state ≠ .connecting) : later.state ≠ .connecting := by
  cases stepped with
  | ignored event other => exact begun
  | established connecting => exact nofun
  | sent connected sent =>
      rw [sent.kept_fields.1]
      exact begun
  | checked connected => exact begun
  | queued known => exact begun
  | ranSend queue sent =>
      rw [sent.kept_fields.1]
      exact begun
  | ranShut queue =>
      rw [(shutdownInLoop_fields _).1]
      exact begun
  | ranCloseLate queue inactive => exact begun
  | wrote wrote =>
      rw [wrote.kept_fields.1]
      exact begun
  | shut connected =>
      rw [(shutdownInLoop_fields _).1]
      exact nofun
  | @handedOver closing known => cases closing <;> exact begun
  | timedLate set inactive => exact begun
  | forced _ | delayed _ | closes _ | timed _ _ | ranClose _ _ | closed _
  | destroyed _ => exact nofun

end Delivering

variable {events : List SendingEvent} {final : SendingConnection}

/-- Sent bytes are written in order, once each.  Whatever the order of
sends, partial writes, errors, shutdowns and closes, the socket has the front
of the accepted messages and the buffer has the rest; the channel waits for the
socket exactly while there is a rest, any part of which can follow; and writes
that take something let as many bytes of the rest follow. -/
theorem written_in_order
    (ran : Machine.run SendingConnection.step init events = some final) :
    final.wire ++ final.outputBuffer.readable = final.accepted.flatten ∧
    (final.isWriting = true →
      ∀ n ≤ final.outputBuffer.readable.length,
        ∃ later, final.handleWrite (.written n) = some later) ∧
    (final.state ≠ .disconnected →
      (final.isWriting = true ↔ final.outputBuffer.readable ≠ []) ∧
      ∀ (counts : List Nat) (later : SendingConnection),
        (∀ n ∈ counts, 0 < n) →
        Machine.run SendingConnection.step final
          (counts.map fun n => .handleWrite (.written n)) = some later →
        later.wire = final.wire ++
          final.outputBuffer.readable.take counts.sum) := by
  have conserving := run_conserving init_conserving ran
  refine ⟨conserving.conserved,
    fun writing n bounded => conserving.exists_handleWrite writing bounded,
    fun alive => ⟨conserving.writing alive,
      fun counts later positive ranLater => ?_⟩⟩
  obtain ⟨left, accepted⟩ :=
    conserving.handleWrites alive positive ranLater
  have conserved := (run_conserving conserving ranLater).conserved
  rw [left, accepted, ← conserving.conserved] at conserved
  have cut : final.outputBuffer.readable =
      final.outputBuffer.readable.take counts.sum ++
        final.outputBuffer.readable.drop counts.sum :=
    (List.take_append_drop _ _).symm
  apply List.append_cancel_right
  rw [conserved, List.append_assoc, ← cut]

/-- A message the socket takes in two parts. -/
theorem written_in_order_partly :
    ∃ final, Machine.run SendingConnection.step init
        [.connectEstablished, .send [1, 2, 3] (.written 1),
          .handleWrite (.written 1)] = some final ∧
      final.wire ++ final.outputBuffer.readable = final.accepted.flatten ∧
      (final.isWriting = true →
        ∀ n ≤ final.outputBuffer.readable.length,
          ∃ later, final.handleWrite (.written n) = some later) ∧
      (final.state ≠ .disconnected →
        (final.isWriting = true ↔ final.outputBuffer.readable ≠ []) ∧
        ∀ (counts : List Nat) (later : SendingConnection),
          (∀ n ∈ counts, 0 < n) →
          Machine.run SendingConnection.step final
            (counts.map fun n => .handleWrite (.written n)) = some later →
          later.wire = final.wire ++
            final.outputBuffer.readable.take counts.sum) := by
  have possible : (Machine.run SendingConnection.step init
      [.connectEstablished, .send [1, 2, 3] (.written 1),
        .handleWrite (.written 1)]).isSome := by decide +kernel
  obtain ⟨final, ran⟩ := Option.isSome_iff_exists.mp possible
  exact ⟨final, ran, written_in_order ran⟩

/-- The write side of a connection that is not closed is shut only behind
everything that was accepted; a connection that is to be closed is shut, or
still writes, or has something pending that will shut or close it; and once
closed, a connection accepts and writes nothing more. -/
theorem closed_behind_output
    (ran : Machine.run SendingConnection.step init events = some final) :
    (final.writeShut = true → final.state ≠ .disconnected →
      final.wire = final.accepted.flatten) ∧
    (final.state = .disconnecting → final.writeShut = true ∨
      final.isWriting = true ∨ final.Pending) ∧
    (final.state = .disconnected →
      ∀ (laterEvents : List SendingEvent) (later : SendingConnection),
        Machine.run SendingConnection.step final laterEvents = some later →
        later.Closed final.wire final.accepted) := by
  have conserving := run_conserving init_conserving ran
  have finishing : final.Finishing :=
    @Machine.run_invariant _ _ _ (fun _ state => state.Finishing) _ _ _
      init_finishing
      (fun _ _ _ _ finishing stepped => finishing.step (step_cases stepped))
      ran
  refine ⟨fun shut alive => ?_, finishing.finishing, ?_⟩
  · rw [← conserving.conserved, conserving.shut shut alive, List.append_nil]
  · intro gone laterEvents later ranLater
    have closed : final.Closed final.wire final.accepted :=
      ⟨gone, conserving.silent gone, rfl, rfl⟩
    exact @Machine.run_invariant _ _ _
      (fun _ state => state.Closed final.wire final.accepted) _ _ _ closed
      (fun _ _ _ _ closed stepped => closed.step (step_cases stepped))
      ranLater

/-- A shutdown that waits for the second part of a message. -/
theorem shut_behind_message :
    ∃ final, Machine.run SendingConnection.step init
        [.connectEstablished, .send [1, 2, 3] (.written 1), .close .shutdown,
          .handleWrite (.written 2)] = some final ∧
      (final.writeShut = true → final.state ≠ .disconnected →
        final.wire = final.accepted.flatten) ∧
      (final.state = .disconnecting → final.writeShut = true ∨
        final.isWriting = true ∨ final.Pending) ∧
      (final.state = .disconnected →
        ∀ (laterEvents : List SendingEvent) (later : SendingConnection),
          Machine.run SendingConnection.step final laterEvents = some later →
          later.Closed final.wire final.accepted) := by
  have possible : (Machine.run SendingConnection.step init
      [.connectEstablished, .send [1, 2, 3] (.written 1), .close .shutdown,
        .handleWrite (.written 2)]).isSome := by decide +kernel
  obtain ⟨final, ran⟩ := Option.isSome_iff_exists.mp possible
  exact ⟨final, ran, closed_behind_output ran⟩

/-- No message is lost, doubled or overtaken.  While a connection is up
and no message meets a broken socket, the messages sent are those accepted,
queued or about to be queued, each once; the loop's own messages are accepted
in their order, and those of other threads in the order of the queue. -/
theorem messages_delivered
    (ran : Machine.run SendingConnection.step established events =
      some final)
    (connected : final.state = .connected)
    (met : ∀ event ∈ events, ¬ Lost event) :
    Delivering events final := by
  have invariant : final.state ≠ .connecting ∧
      (final.state = .connected → (∀ event ∈ events, ¬ Lost event) →
        Delivering events final) := by
    refine @Machine.run_invariant _ _ _ (fun history state =>
      state.state ≠ .connecting ∧ (state.state = .connected →
        (∀ event ∈ history, ¬ Lost event) → Delivering history state)) _ _ _
      ⟨by decide, fun _ _ => established_delivering⟩ ?_ ran
    rintro history state event later ⟨begun, delivering⟩ stepped
    have way := step_cases stepped
    refine ⟨way.begun begun, fun still met => ?_⟩
    have before := way.connected_before begun still
    have met := List.forall_mem_append.mp met
    exact (delivering before met.1).step way
      (met.2 event (List.mem_singleton_self event)) before still
  exact invariant.2 connected met

/-- Two messages, the second from another thread. -/
theorem two_messages_delivered :
    ∃ final, Machine.run SendingConnection.step established
        [.checkSend [4], .send [1, 2, 3] (.written 1), .queueSend [4],
          .runFunctor .wouldBlock] = some final ∧
      Delivering [.checkSend [4], .send [1, 2, 3] (.written 1),
        .queueSend [4], .runFunctor .wouldBlock] final := by
  have possible : ((Machine.run SendingConnection.step established
      [.checkSend [4], .send [1, 2, 3] (.written 1), .queueSend [4],
        .runFunctor .wouldBlock]).map (·.state)) = some .connected := by
    decide +kernel
  obtain ⟨final, ran, connected⟩ := Option.map_eq_some_iff.mp possible
  exact ⟨final, ran, messages_delivered ran connected (by simp [Lost])⟩

end SendingConnection

end Woody
