import Woody.Foundation.Machine
import Woody.Net.TcpConnection

/-!
# Sending on a connection

`muduo::net::TcpConnection` writes a message to the socket when nothing waits
before it, keeps what the socket does not take in the output buffer, and shuts
the write side when a connection that is to be closed has nothing left to
write.  Other threads put their messages and closings into the queue of the
loop, some time after their state check.

A check of the state and the change of the state behind it are one step here.
The source has them one by one, with a `FIXME` that asks for a compare and
swap: a thread that checks the state before the connection is closed and
changes it afterwards is left out.
-/

namespace Woody

/-- What a `write` on the socket answers. -/
inductive WriteResult where
  | written (count : Nat)
  /-- `EWOULDBLOCK`. -/
  | wouldBlock
  /-- `EPIPE` or `ECONNRESET`. -/
  | broken
  /-- Another error. -/
  | failed
  deriving DecidableEq

/-- What a connection puts into the queue of its loop. -/
inductive LoopFunctor where
  | sendInLoop (message : Bytes)
  | shutdownInLoop
  | forceCloseInLoop
  deriving DecidableEq

/-- What asks for the end of a connection. -/
inductive Closing where
  | shutdown
  | forceClose
  | forceCloseWithDelay
  deriving DecidableEq

/-- The sending side of a connection. -/
structure SendingConnection where
  state : ConnectionState
  /-- `channel_->isWriting()`. -/
  isWriting : Bool
  outputBuffer : Buffer
  pendingFunctors : List LoopFunctor
  /-- Messages of other threads between their state check and the queue. -/
  checked : List Bytes
  /-- Closings of other threads between their change of the state and the
  queue. -/
  closing : List Closing
  /-- The timers that `forceCloseWithDelay` has set. -/
  delayedCloses : Nat
  /-- The bytes the socket has taken, in order. -/
  wire : Bytes
  /-- `shutdownWrite` has been called. -/
  writeShut : Bool
  /-- The messages the connection has undertaken to write.  The code keeps no
  such list. -/
  accepted : List Bytes

inductive SendingEvent where
  | connectEstablished
  /-- `send`, in the thread of the loop. -/
  | send (message : Bytes) (result : WriteResult)
  /-- The state check of `send` in another thread. -/
  | checkSend (message : Bytes)
  /-- The rest of `send` in another thread. -/
  | queueSend (message : Bytes)
  /-- A closing, in the thread of the loop. -/
  | close (closing : Closing)
  /-- The state check of a closing in another thread, and its change of the
  state. -/
  | checkClose (closing : Closing)
  /-- The rest of a closing in another thread. -/
  | queueClose (closing : Closing)
  /-- A timer of `forceCloseWithDelay` runs out. -/
  | runTimer
  /-- The loop runs the first functor of its queue. -/
  | runFunctor (result : WriteResult)
  | handleWrite (result : WriteResult)
  /-- The end of the stream was read, or the peer has hung up. -/
  | handleClose
  | connectDestroyed
  deriving DecidableEq

namespace SendingConnection

def init : SendingConnection where
  state := .connecting
  isWriting := false
  outputBuffer := Buffer.init
  pendingFunctors := []
  checked := []
  closing := []
  delayedCloses := 0
  wire := []
  writeShut := false
  accepted := []

/-- What the socket can answer when it is given `len` bytes: it takes no more
than these, and none once its write side is shut. -/
def Possible (conn : SendingConnection) (len : Nat) : WriteResult → Prop
  | .written count => count ≤ len ∧ conn.writeShut = false
  | .wouldBlock | .failed => conn.writeShut = false
  | .broken => True

instance (conn : SendingConnection) (len : Nat) :
    DecidablePred (conn.Possible len)
  | .written _ => inferInstanceAs (Decidable (_ ∧ _))
  | .wouldBlock | .failed => inferInstanceAs (Decidable (_ = _))
  | .broken => inferInstanceAs (Decidable True)

/-- The socket takes some bytes. -/
def write (conn : SendingConnection) (data : Bytes) : SendingConnection :=
  { conn with wire := conn.wire ++ data }

def accept (conn : SendingConnection) (message : Bytes) : SendingConnection :=
  { conn with accepted := conn.accepted ++ [message] }

/-- The end of `sendInLoop`: what remains goes to the output buffer. -/
def keep (conn : SendingConnection) (remaining : Bytes) : SendingConnection :=
  if remaining.length > 0 then
    { conn with
      outputBuffer := conn.outputBuffer.append remaining
      isWriting := true }
  else
    conn

/-- `sendInLoop`, with the answer of the socket if it writes directly; `none`
when the socket cannot answer that. -/
def sendInLoop (conn : SendingConnection) (data : Bytes)
    (result : WriteResult) : Option SendingConnection :=
  if conn.state = .disconnected then
    some conn
  else if conn.isWriting = false ∧ conn.outputBuffer.readableBytes = 0 then
    if conn.Possible data.length result then
      match result with
      | .written nwrote =>
          some (((conn.accept data).write (data.take nwrote)).keep
            (data.drop nwrote))
      | .broken => some conn
      | .wouldBlock | .failed => some ((conn.accept data).keep data)
    else
      none
  else
    some ((conn.accept data).keep data)

def send (conn : SendingConnection) (message : Bytes)
    (result : WriteResult) : Option SendingConnection :=
  if conn.state = .connected then conn.sendInLoop message result else some conn

def checkSend (conn : SendingConnection) (message : Bytes) :
    SendingConnection :=
  if conn.state = .connected then
    { conn with checked := message :: conn.checked }
  else
    conn

def queueInLoop (conn : SendingConnection) (functor : LoopFunctor) :
    SendingConnection :=
  { conn with pendingFunctors := conn.pendingFunctors ++ [functor] }

def queueSend (conn : SendingConnection) (message : Bytes) :
    Option SendingConnection :=
  if conn.checked.contains message then
    some ({ conn with checked := conn.checked.erase message }.queueInLoop
      (.sendInLoop message))
  else
    none

def setState (conn : SendingConnection) (state : ConnectionState) :
    SendingConnection :=
  { conn with state := state }

def shutdownInLoop (conn : SendingConnection) : SendingConnection :=
  if conn.isWriting = false then { conn with writeShut := true } else conn

def shutdown (conn : SendingConnection) : SendingConnection :=
  if conn.state = .connected then
    (conn.setState .disconnecting).shutdownInLoop
  else
    conn

def forceClose (conn : SendingConnection) : SendingConnection :=
  if conn.state = .connected ∨ conn.state = .disconnecting then
    (conn.setState .disconnecting).queueInLoop .forceCloseInLoop
  else
    conn

/-- `runAfter`, with `forceClose`. -/
def runAfter (conn : SendingConnection) : SendingConnection :=
  { conn with delayedCloses := conn.delayedCloses + 1 }

def forceCloseWithDelay (conn : SendingConnection) : SendingConnection :=
  if conn.state = .connected ∨ conn.state = .disconnecting then
    (conn.setState .disconnecting).runAfter
  else
    conn

def close (conn : SendingConnection) : Closing → SendingConnection
  | .shutdown => conn.shutdown
  | .forceClose => conn.forceClose
  | .forceCloseWithDelay => conn.forceCloseWithDelay

/-- The state check of a closing. -/
def Closes (conn : SendingConnection) : Closing → Prop
  | .shutdown => conn.state = .connected
  | .forceClose | .forceCloseWithDelay =>
      conn.state = .connected ∨ conn.state = .disconnecting

instance (conn : SendingConnection) : DecidablePred conn.Closes
  | .shutdown => inferInstanceAs (Decidable (_ = _))
  | .forceClose | .forceCloseWithDelay =>
      inferInstanceAs (Decidable (_ ∨ _))

def checkClose (conn : SendingConnection) (closing : Closing) :
    SendingConnection :=
  if conn.Closes closing then
    { conn.setState .disconnecting with closing := closing :: conn.closing }
  else
    conn

/-- What a closing of another thread does behind its change of the state. -/
def handOver (conn : SendingConnection) : Closing → SendingConnection
  | .shutdown => conn.queueInLoop .shutdownInLoop
  | .forceClose => conn.queueInLoop .forceCloseInLoop
  | .forceCloseWithDelay => conn.runAfter

def queueClose (conn : SendingConnection) (closing : Closing) :
    Option SendingConnection :=
  if conn.closing.contains closing then
    some ({ conn with closing := conn.closing.erase closing }.handOver closing)
  else
    none

def runTimer (conn : SendingConnection) : Option SendingConnection :=
  if conn.delayedCloses > 0 then
    some { conn with delayedCloses := conn.delayedCloses - 1 }.forceClose
  else
    none

/-- `setState(kDisconnected)` and `channel_->disableAll()`. -/
def disconnect (conn : SendingConnection) : SendingConnection :=
  { conn.setState .disconnected with isWriting := false }

/-- `handleClose`, `none` when its assertion on the state fails. -/
def handleClose (conn : SendingConnection) : Option SendingConnection :=
  if conn.state = .connected ∨ conn.state = .disconnecting then
    some conn.disconnect
  else
    none

def forceCloseInLoop (conn : SendingConnection) : Option SendingConnection :=
  if conn.state = .connected ∨ conn.state = .disconnecting then
    conn.handleClose
  else
    some conn

def connectEstablished (conn : SendingConnection) :
    Option SendingConnection :=
  if conn.state = .connecting then some (conn.setState .connected) else none

def connectDestroyed (conn : SendingConnection) : SendingConnection :=
  if conn.state = .connected then conn.disconnect else conn

/-- `handleWrite`, with the answer of the socket. -/
def handleWrite (conn : SendingConnection) (result : WriteResult) :
    Option SendingConnection :=
  if conn.isWriting = true then
    if conn.Possible conn.outputBuffer.readableBytes result then
      match result with
      | .written n =>
          if n > 0 then
            match conn.outputBuffer.retrieve n with
            | none => none
            | some outputBuffer =>
                let written :=
                  { conn.write (conn.outputBuffer.readable.take n) with
                    outputBuffer := outputBuffer }
                if outputBuffer.readableBytes = 0 then
                  let drained := { written with isWriting := false }
                  if conn.state = .disconnecting then
                    some drained.shutdownInLoop
                  else
                    some drained
                else
                  some written
          else
            some conn
      | .wouldBlock | .broken | .failed => some conn
    else
      none
  else
    some conn

def runFunctor (conn : SendingConnection) (result : WriteResult) :
    Option SendingConnection :=
  match conn.pendingFunctors with
  | [] => none
  | functor :: functors =>
      let conn := { conn with pendingFunctors := functors }
      match functor with
      | .sendInLoop message => conn.sendInLoop message result
      | .shutdownInLoop => some conn.shutdownInLoop
      | .forceCloseInLoop => conn.forceCloseInLoop

def step (conn : SendingConnection) :
    SendingEvent → Option SendingConnection
  | .connectEstablished => conn.connectEstablished
  | .send message result => conn.send message result
  | .checkSend message => some (conn.checkSend message)
  | .queueSend message => conn.queueSend message
  | .close closing => some (conn.close closing)
  | .checkClose closing => some (conn.checkClose closing)
  | .queueClose closing => conn.queueClose closing
  | .runTimer => conn.runTimer
  | .runFunctor result => conn.runFunctor result
  | .handleWrite result => conn.handleWrite result
  | .handleClose => conn.handleClose
  | .connectDestroyed => some conn.connectDestroyed

/-- What the handlers see of a connection. -/
def core (conn : SendingConnection) : TcpConnection where
  state := conn.state
  queuedCloses := conn.pendingFunctors.count .forceCloseInLoop

/-- Closing by force is what the handlers do to their view. -/
theorem core_forceClose (conn : SendingConnection) :
    conn.forceClose.core = conn.core.forceClose := by
  by_cases active : conn.state = .connected ∨ conn.state = .disconnecting
  · simp [forceClose, TcpConnection.forceClose, core, queueInLoop, setState,
      active]
  · simp [forceClose, TcpConnection.forceClose, core, active]

section Keep

variable (conn : SendingConnection) (remaining : Bytes)

@[simp] theorem keep_readable :
    (conn.keep remaining).outputBuffer.readable =
      conn.outputBuffer.readable ++ remaining := by
  unfold keep
  split
  · exact Buffer.append_readable _ _
  · rename_i nothing
    have empty : remaining = [] :=
      List.eq_nil_of_length_eq_zero (Nat.eq_zero_of_not_pos nothing)
    rw [empty, List.append_nil]

theorem keep_isWriting :
    (conn.keep remaining).isWriting = true ↔
      conn.isWriting = true ∨ remaining ≠ [] := by
  unfold keep
  split
  · rename_i something
    simp [List.ne_nil_of_length_pos something]
  · rename_i nothing
    have empty : remaining = [] :=
      List.eq_nil_of_length_eq_zero (Nat.eq_zero_of_not_pos nothing)
    simp [empty]

@[simp] theorem keep_state : (conn.keep remaining).state = conn.state := by
  unfold keep
  split <;> rfl

@[simp] theorem keep_pendingFunctors :
    (conn.keep remaining).pendingFunctors = conn.pendingFunctors := by
  unfold keep
  split <;> rfl

@[simp] theorem keep_checked :
    (conn.keep remaining).checked = conn.checked := by
  unfold keep
  split <;> rfl

@[simp] theorem keep_closing :
    (conn.keep remaining).closing = conn.closing := by
  unfold keep
  split <;> rfl

@[simp] theorem keep_delayedCloses :
    (conn.keep remaining).delayedCloses = conn.delayedCloses := by
  unfold keep
  split <;> rfl

@[simp] theorem keep_wire : (conn.keep remaining).wire = conn.wire := by
  unfold keep
  split <;> rfl

@[simp] theorem keep_writeShut :
    (conn.keep remaining).writeShut = conn.writeShut := by
  unfold keep
  split <;> rfl

@[simp] theorem keep_accepted :
    (conn.keep remaining).accepted = conn.accepted := by
  unfold keep
  split <;> rfl

end Keep

theorem readableBytes_eq_zero_iff {buffer : Buffer} :
    buffer.readableBytes = 0 ↔ buffer.readable = [] := by
  rw [← Buffer.readable_length, List.length_eq_zero_iff]

/-- The ways `sendInLoop` goes. -/
inductive SendInLoop (conn : SendingConnection) (data : Bytes)
    (result : WriteResult) : SendingConnection → Prop where
  | dropped (refused : conn.state = .disconnected ∨ result = .broken) :
      SendInLoop conn data result conn
  /-- The socket is asked first; it may take nothing. -/
  | direct (alive : conn.state ≠ .disconnected)
      (idle : conn.isWriting = false)
      (empty : conn.outputBuffer.readable = [])
      (unshut : conn.writeShut = false) (nwrote : Nat) :
      SendInLoop conn data result
        (((conn.accept data).write (data.take nwrote)).keep
          (data.drop nwrote))
  | kept (alive : conn.state ≠ .disconnected)
      (busy : conn.isWriting = true ∨ conn.outputBuffer.readable ≠ []) :
      SendInLoop conn data result ((conn.accept data).keep data)

theorem sendInLoop_cases {conn later : SendingConnection} {data : Bytes}
    {result : WriteResult}
    (sent : conn.sendInLoop data result = some later) :
    SendInLoop conn data result later := by
  unfold sendInLoop at sent
  split at sent
  · rename_i gone
    cases sent
    exact .dropped (.inl gone)
  rename_i alive
  split at sent
  · rename_i free
    have empty := readableBytes_eq_zero_iff.mp free.2
    split at sent
    · rename_i possible
      -- Nothing taken is a direct write of no bytes.
      have nothing (unshut : conn.writeShut = false) (answer : WriteResult) :
          SendInLoop conn data answer ((conn.accept data).keep data) := by
        have direct : SendInLoop conn data answer _ :=
          .direct alive free.1 empty unshut 0
        simpa [write] using direct
      cases result with
      | written nwrote =>
          cases sent
          exact .direct alive free.1 empty possible.2 nwrote
      | broken =>
          cases sent
          exact .dropped (.inr rfl)
      | wouldBlock | failed =>
          cases sent
          exact nothing possible _
    · cases sent
  · rename_i occupied
    cases sent
    apply SendInLoop.kept alive
    rw [readableBytes_eq_zero_iff] at occupied
    by_cases writing : conn.isWriting = true
    · exact .inl writing
    · exact .inr fun empty =>
        occupied ⟨Bool.not_eq_true _ ▸ writing, empty⟩

/-- The ways `handleWrite` goes. -/
inductive HandleWrite (conn : SendingConnection) :
    WriteResult → SendingConnection → Prop where
  | unchanged {result : WriteResult}
      (idle : conn.isWriting = false ∨ ∀ n, 0 < n → result ≠ .written n) :
      HandleWrite conn result conn
  | partly {n : Nat} (writing : conn.isWriting = true)
      (unshut : conn.writeShut = false) (outputBuffer : Buffer)
      (left : outputBuffer.readable = conn.outputBuffer.readable.drop n)
      (remains : outputBuffer.readable ≠ []) :
      HandleWrite conn (.written n)
        { conn.write (conn.outputBuffer.readable.take n) with
          outputBuffer := outputBuffer }
  | drained {n : Nat} (writing : conn.isWriting = true)
      (unshut : conn.writeShut = false) (outputBuffer : Buffer)
      (whole : conn.outputBuffer.readable.drop n = [])
      (empty : outputBuffer.readable = []) :
      HandleWrite conn (.written n)
        { conn.write conn.outputBuffer.readable with
          outputBuffer := outputBuffer
          isWriting := false
          writeShut := decide (conn.state = .disconnecting) }

theorem handleWrite_cases {conn later : SendingConnection}
    {result : WriteResult} (handled : conn.handleWrite result = some later) :
    HandleWrite conn result later := by
  unfold handleWrite at handled
  split at handled
  · rename_i writing
    split at handled
    · rename_i possible
      cases result with
      | wouldBlock | broken | failed =>
          cases handled
          exact .unchanged (.inr nofun)
      | written n =>
          obtain ⟨bounded, unshut⟩ := possible
          rw [← Buffer.readable_length] at bounded
          obtain ⟨outputBuffer, retrieved, left⟩ :=
            Buffer.retrieve_eq_some bounded
          simp only [retrieved, readableBytes_eq_zero_iff] at handled
          split at handled
          · split at handled
            · rename_i empty
              have gone := left.symm.trans empty
              have whole : conn.outputBuffer.readable.take n =
                  conn.outputBuffer.readable :=
                List.take_of_length_le (List.drop_eq_nil_iff.mp gone)
              have drained : HandleWrite conn (.written n) _ :=
                .drained writing unshut outputBuffer gone empty
              rw [whole] at handled
              split at handled
              · rename_i disconnecting
                cases handled
                simpa [shutdownInLoop, disconnecting] using drained
              · rename_i other
                cases handled
                simpa [write, other, unshut] using drained
            · rename_i remains
              cases handled
              exact .partly writing unshut outputBuffer left remains
          · rename_i nothing
            cases handled
            refine .unchanged (.inr fun count positive same => ?_)
            cases same
            exact nothing positive
    · cases handled
  · rename_i idle
    cases handled
    exact .unchanged (.inl (Bool.not_eq_true _ ▸ idle))

theorem handleClose_eq_some {conn later : SendingConnection}
    (closed : conn.handleClose = some later) :
    (conn.state = .connected ∨ conn.state = .disconnecting) ∧
      later = conn.disconnect := by
  unfold handleClose at closed
  split at closed
  · exact ⟨‹_›, (Option.some.inj closed).symm⟩
  · cases closed

/-- The ways a step goes. -/
inductive Stepped (conn : SendingConnection) :
    SendingEvent → SendingConnection → Prop where
  /-- What asks for a connected state has no effect in another one. -/
  | ignored (event : SendingEvent) (other : conn.state ≠ .connected) :
      Stepped conn event conn
  | established (connecting : conn.state = .connecting) :
      Stepped conn .connectEstablished (conn.setState .connected)
  | sent {message : Bytes} {result : WriteResult} {later : SendingConnection}
      (connected : conn.state = .connected)
      (sent : SendInLoop conn message result later) :
      Stepped conn (.send message result) later
  | checked {message : Bytes} (connected : conn.state = .connected) :
      Stepped conn (.checkSend message)
        { conn with checked := message :: conn.checked }
  | queued {message : Bytes} (known : message ∈ conn.checked) :
      Stepped conn (.queueSend message)
        ({ conn with checked := conn.checked.erase message }.queueInLoop
          (.sendInLoop message))
  | shut (connected : conn.state = .connected) :
      Stepped conn (.close .shutdown)
        (conn.setState .disconnecting).shutdownInLoop
  | forced (active : conn.state = .connected ∨ conn.state = .disconnecting) :
      Stepped conn (.close .forceClose)
        ((conn.setState .disconnecting).queueInLoop .forceCloseInLoop)
  | delayed (active : conn.state = .connected ∨ conn.state = .disconnecting) :
      Stepped conn (.close .forceCloseWithDelay)
        (conn.setState .disconnecting).runAfter
  | closes {closing : Closing}
      (active : conn.state = .connected ∨ conn.state = .disconnecting) :
      Stepped conn (.checkClose closing)
        { conn.setState .disconnecting with
          closing := closing :: conn.closing }
  | handedOver {closing : Closing} (known : closing ∈ conn.closing) :
      Stepped conn (.queueClose closing)
        ({ conn with closing := conn.closing.erase closing }.handOver closing)
  | timed (set : 0 < conn.delayedCloses)
      (active : conn.state = .connected ∨ conn.state = .disconnecting) :
      Stepped conn .runTimer
        (({ conn with delayedCloses := conn.delayedCloses - 1 }.setState
          .disconnecting).queueInLoop .forceCloseInLoop)
  | timedLate (set : 0 < conn.delayedCloses)
      (inactive : conn.state ≠ .connected ∧ conn.state ≠ .disconnecting) :
      Stepped conn .runTimer
        { conn with delayedCloses := conn.delayedCloses - 1 }
  | ranSend {message : Bytes} {functors : List LoopFunctor}
      {result : WriteResult} {later : SendingConnection}
      (queue : conn.pendingFunctors = .sendInLoop message :: functors)
      (sent : SendInLoop { conn with pendingFunctors := functors } message
        result later) :
      Stepped conn (.runFunctor result) later
  | ranShut {functors : List LoopFunctor} {result : WriteResult}
      (queue : conn.pendingFunctors = .shutdownInLoop :: functors) :
      Stepped conn (.runFunctor result)
        { conn with pendingFunctors := functors }.shutdownInLoop
  | ranClose {functors : List LoopFunctor} {result : WriteResult}
      (queue : conn.pendingFunctors = .forceCloseInLoop :: functors)
      (active : conn.state = .connected ∨ conn.state = .disconnecting) :
      Stepped conn (.runFunctor result)
        { conn with pendingFunctors := functors }.disconnect
  | ranCloseLate {functors : List LoopFunctor} {result : WriteResult}
      (queue : conn.pendingFunctors = .forceCloseInLoop :: functors)
      (inactive : conn.state ≠ .connected ∧ conn.state ≠ .disconnecting) :
      Stepped conn (.runFunctor result)
        { conn with pendingFunctors := functors }
  | wrote {result : WriteResult} {later : SendingConnection}
      (wrote : HandleWrite conn result later) :
      Stepped conn (.handleWrite result) later
  | closed (active : conn.state = .connected ∨ conn.state = .disconnecting) :
      Stepped conn .handleClose conn.disconnect
  | destroyed (connected : conn.state = .connected) :
      Stepped conn .connectDestroyed conn.disconnect

theorem runFunctor_cases {conn later : SendingConnection}
    {result : WriteResult} (ran : conn.runFunctor result = some later) :
    Stepped conn (.runFunctor result) later := by
  unfold runFunctor at ran
  split at ran
  · cases ran
  · rename_i functor functors queue
    cases functor with
    | sendInLoop message => exact .ranSend queue (sendInLoop_cases ran)
    | shutdownInLoop =>
        cases ran
        exact .ranShut queue
    | forceCloseInLoop =>
        simp only [forceCloseInLoop] at ran
        split at ran
        · rename_i active
          rw [(handleClose_eq_some ran).2]
          exact .ranClose queue active
        · rename_i inactive
          cases ran
          exact .ranCloseLate queue (not_or.mp inactive)

theorem active_of_closes {conn : SendingConnection} {closing : Closing}
    (closes : conn.Closes closing) :
    conn.state = .connected ∨ conn.state = .disconnecting := by
  cases closing with
  | shutdown => exact .inl closes
  | forceClose | forceCloseWithDelay => exact closes

theorem close_cases (conn : SendingConnection) (closing : Closing) :
    Stepped conn (.close closing) (conn.close closing) := by
  cases closing with
  | shutdown =>
      unfold close shutdown
      dsimp only
      split
      · exact .shut ‹_›
      · exact .ignored _ ‹_›
  | forceClose =>
      unfold close forceClose
      dsimp only
      split
      · exact .forced ‹_›
      · exact .ignored _ (not_or.mp ‹_›).1
  | forceCloseWithDelay =>
      unfold close forceCloseWithDelay
      dsimp only
      split
      · exact .delayed ‹_›
      · exact .ignored _ (not_or.mp ‹_›).1

theorem step_cases {conn later : SendingConnection} {event : SendingEvent}
    (stepped : conn.step event = some later) : Stepped conn event later := by
  cases event with
  | runFunctor result => exact runFunctor_cases stepped
  | handleWrite result => exact .wrote (handleWrite_cases stepped)
  | handleClose =>
      obtain ⟨active, rfl⟩ := handleClose_eq_some stepped
      exact .closed active
  | connectEstablished =>
      simp only [step, connectEstablished] at stepped
      split at stepped <;> cases stepped
      exact .established ‹_›
  | queueSend message =>
      simp only [step, queueSend] at stepped
      split at stepped <;> cases stepped
      exact .queued (List.contains_iff_mem.mp ‹_›)
  | send message result =>
      simp only [step, send] at stepped
      split at stepped
      · exact .sent ‹_› (sendInLoop_cases stepped)
      · cases stepped
        exact .ignored _ ‹_›
  | checkSend message =>
      cases stepped
      unfold checkSend
      split
      · exact .checked ‹_›
      · exact .ignored _ ‹_›
  | close closing =>
      cases stepped
      exact close_cases conn closing
  | checkClose closing =>
      cases stepped
      unfold checkClose
      split
      · exact .closes (active_of_closes ‹_›)
      · rename_i idle
        refine .ignored _ fun connected => idle ?_
        cases closing with
        | shutdown => exact connected
        | forceClose | forceCloseWithDelay => exact .inl connected
  | queueClose closing =>
      simp only [step, queueClose] at stepped
      split at stepped <;> cases stepped
      exact .handedOver (List.contains_iff_mem.mp ‹_›)
  | runTimer =>
      simp only [step, runTimer] at stepped
      split at stepped <;> cases stepped
      rename_i set
      unfold forceClose
      split
      · exact .timed set ‹_›
      · exact .timedLate set (not_or.mp ‹_›)
  | connectDestroyed =>
      cases stepped
      unfold connectDestroyed
      split
      · exact .destroyed ‹_›
      · exact .ignored _ ‹_›

end SendingConnection

end Woody
