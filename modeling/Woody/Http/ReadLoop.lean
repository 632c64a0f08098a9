import Woody.Http.Handler
import Woody.HttpParser.Execute

/-!
# The read loop of the HTTP handler

The loop puts back what `http_parser` did not take, and an emptied buffer has
room for eight bytes.  So the first iteration decides: what it puts back fits,
and then everything later fits, or the server aborts.
-/

namespace Woody

/-- The precondition that `prepend` asserts. -/
def PrependCall.Fits (call : PrependCall) : Prop :=
  call.unparsed.length ≤ call.buffer.prependableBytes

instance (call : PrependCall) : Decidable call.Fits :=
  inferInstanceAs (Decidable (_ ≤ _))

namespace HTTPHandler

variable {parser : HttpParser} {apps : Applications}

/-- What the code that runs inside a call of the codec leaves as it was. -/
structure Kept (before after : HTTPHandler parser) : Prop where
  name : after.name = before.name
  inputBuffer : after.inputBuffer = before.inputBuffer
  owner : after.owner = before.owner ∨ ∃ codec, after.owner = .websocket codec
  closeCallback : after.closeCallback = before.closeCallback ∨
    after.closeCallback = some .application
  closeCallbackWithThis :
    after.closeCallbackWithThis = before.closeCallbackWithThis ∨
      after.closeCallbackWithThis = some .application

theorem Kept.refl (handler : HTTPHandler parser) : Kept handler handler :=
  ⟨rfl, rfl, .inl rfl, .inl rfl, .inl rfl⟩

theorem Kept.trans {first second third : HTTPHandler parser}
    (early : Kept first second) (late : Kept second third) :
    Kept first third where
  name := late.name.trans early.name
  inputBuffer := late.inputBuffer.trans early.inputBuffer
  owner := late.owner.elim
    (fun same => early.owner.imp same.trans fun ⟨codec, owned⟩ =>
      ⟨codec, same.trans owned⟩) .inr
  closeCallback := late.closeCallback.elim
    (fun same => early.closeCallback.imp same.trans same.trans) .inr
  closeCallbackWithThis := late.closeCallbackWithThis.elim
    (fun same => early.closeCallbackWithThis.imp same.trans same.trans) .inr

theorem perform_kept (boost : Boost) (request : HTTPRequest)
    (handler : HTTPHandler parser) (action : AppAction) :
    Kept handler (handler.perform boost request action) := by
  cases action with
  | forceClose => exact ⟨rfl, rfl, .inl rfl, .inl rfl, .inl rfl⟩
  | setCloseCallback => exact ⟨rfl, rfl, .inl rfl, .inr rfl, .inl rfl⟩
  | setCloseCallbackWithThis => exact ⟨rfl, rfl, .inl rfl, .inl rfl, .inr rfl⟩
  | upgrade websocket response =>
      simp only [perform]
      cases (websocket.handleUpgrade boost handler.conn request
          response).rewired with
      | none => exact .refl handler
      | some upgraded => exact ⟨rfl, rfl, .inr ⟨_, rfl⟩, .inl rfl, .inl rfl⟩

theorem onMessageComplete_kept (served : HTTPHandler parser × apps.State)
    (request : HTTPRequest) :
    Kept served.1 (onMessageComplete apps served request).1 := by
  simp only [onMessageComplete]
  refine List.foldlRecOn (motive := Kept served.1) _ _ (.refl served.1) ?_
  intro handler kept action _
  exact kept.trans (perform_kept _ request handler action)

theorem feed_kept (handler : HTTPHandler parser) (state : apps.State)
    (data : Bytes) : Kept handler (handler.feed apps state data).1.1 := by
  let result := HTTPCodec.onData parser handler.parserState handler.codec data
  let fed : HTTPHandler parser :=
    { handler with parserState := result.parserState, codec := result.codec }
  have started : Kept handler fed :=
    ⟨rfl, rfl, .inl rfl, .inl rfl, .inl rfl⟩
  have served : Kept handler
      (result.requests.foldl (onMessageComplete apps) (fed, state)).1 := by
    refine List.foldlRecOn
      (motive := fun served : HTTPHandler parser × apps.State =>
        Kept handler served.1) _ _ started ?_
    intro served kept request _
    exact kept.trans (onMessageComplete_kept served request)
  simp only [feed]
  split
  · exact served.trans ⟨rfl, rfl, .inl rfl, .inl rfl, .inl rfl⟩
  · exact served

/-- The bytes `http_parser` takes of what is readable. -/
def stop (handler : HTTPHandler parser) : Nat :=
  (parser.execute handler.parserState handler.inputBuffer.readable).2.2

/-- The call of the codec in one iteration. -/
def iterate (apps : Applications) (handler : HTTPHandler parser)
    (state : apps.State) : (HTTPHandler parser × apps.State) × CodecCall :=
  (handler.setInputBuffer handler.inputBuffer.retrieveAll).feed apps state
    handler.inputBuffer.readable

/-- The `prepend` behind that call. -/
def putBack (handler : HTTPHandler parser) : PrependCall :=
  ⟨handler.inputBuffer.retrieveAll, handler.inputBuffer.readable, handler.stop⟩

theorem iterate_inputBuffer (handler : HTTPHandler parser)
    (state : apps.State) :
    (handler.iterate apps state).1.1.inputBuffer =
      handler.inputBuffer.retrieveAll :=
  (feed_kept _ state _).inputBuffer

theorem iterate_bytesParsed (handler : HTTPHandler parser)
    (state : apps.State) :
    (handler.iterate apps state).2.bytesParsed = handler.stop := rfl

/-- A call of `prepend` that fits leaves exactly its bytes. -/
theorem putBack_cases (handler : HTTPHandler parser) :
    (handler.putBack.Fits ∧ ∃ refilled,
      handler.inputBuffer.retrieveAll.prepend handler.putBack.unparsed =
          some refilled ∧
        refilled.readable = handler.putBack.unparsed) ∨
    (¬ handler.putBack.Fits ∧
      handler.inputBuffer.retrieveAll.prepend handler.putBack.unparsed =
        none) := by
  by_cases fits : handler.putBack.Fits
  · exact .inl ⟨fits, handler.inputBuffer.retrieveAll_prepend fits⟩
  · exact .inr ⟨fits,
      handler.inputBuffer.retrieveAll_prepend_none (Nat.not_le.mp fits)⟩

/-- Everything the loop can do with its next iteration. -/
inductive Iteration (apps : Applications) (fuel : Nat)
    (handler : HTTPHandler parser) (state : apps.State)
    (result : HTTPLoopResult parser apps) : Prop where
  | drained (empty : handler.inputBuffer.readable = [])
      (left : result = ⟨handler, state, [], [], .drained⟩)
  | stopped (given : handler.inputBuffer.readable ≠ [])
      (front : handler.stop = 0)
      (left : result =
        ⟨(handler.iterate apps state).1.1, (handler.iterate apps state).1.2,
          [(handler.iterate apps state).2], [], .stopped⟩)
  | aborted (given : handler.inputBuffer.readable ≠ [])
      (progress : handler.stop ≠ 0) (crowded : ¬ handler.putBack.Fits)
      (left : result =
        ⟨(handler.iterate apps state).1.1, (handler.iterate apps state).1.2,
          [(handler.iterate apps state).2], [handler.putBack], .aborted⟩)
  | continued (given : handler.inputBuffer.readable ≠ [])
      (progress : handler.stop ≠ 0) (fits : handler.putBack.Fits)
      (refilled : Buffer)
      (readable : refilled.readable = handler.putBack.unparsed)
      (left : result =
        let iterated := handler.iterate apps state
        let later := (iterated.1.1.setInputBuffer refilled).onDataLoop apps
          fuel iterated.1.2
        { later with
          calls := iterated.2 :: later.calls
          prepends := handler.putBack :: later.prepends })

theorem iteration (fuel : Nat) (handler : HTTPHandler parser)
    (state : apps.State) :
    Iteration apps fuel handler state
      (handler.onDataLoop apps (fuel + 1) state) := by
  by_cases given : handler.inputBuffer.readable = []
  · refine .drained given ?_
    have none_ : ¬ handler.inputBuffer.readableBytes > 0 := by
      rw [← handler.inputBuffer.readable_length, given]
      exact Nat.lt_irrefl 0
    rw [onDataLoop, if_neg none_]
  · have some_ : handler.inputBuffer.readableBytes > 0 := by
      rw [← handler.inputBuffer.readable_length]
      exact List.length_pos_iff.mpr given
    have called : (handler.setInputBuffer
        handler.inputBuffer.retrieveAll).feed apps state
          handler.inputBuffer.readable = handler.iterate apps state := rfl
    have put : (⟨handler.inputBuffer.retrieveAll, handler.inputBuffer.readable,
        handler.stop⟩ : PrependCall) = handler.putBack := rfl
    by_cases front : handler.stop = 0
    · refine .stopped given front ?_
      simp only [onDataLoop, some_, if_true, Buffer.retrieveAllAsString, called,
        iterate_bytesParsed, front]
    · rcases putBack_cases handler with
        ⟨fits, refilled, prepended, readable⟩ | ⟨crowded, overfull⟩
      · refine .continued given front fits refilled readable ?_
        simp only [onDataLoop, some_, if_true, Buffer.retrieveAllAsString,
          called, iterate_bytesParsed, iterate_inputBuffer, front, if_false,
          put, prepended]
      · refine .aborted given front crowded ?_
        simp only [onDataLoop, some_, if_true, Buffer.retrieveAllAsString,
          called, iterate_bytesParsed, iterate_inputBuffer, front, if_false,
          put, overfull]

/-- `http_parser` stops at the front of the data, or at most eight bytes
before its end. -/
def StopsNear (handler : HTTPHandler parser) : Prop :=
  handler.stop = 0 ∨
    handler.inputBuffer.readable.length ≤ handler.stop + kCheapPrepend

theorem putBack_fits_iff (handler : HTTPHandler parser) :
    handler.putBack.Fits ↔
      handler.inputBuffer.readable.length ≤ handler.stop + kCheapPrepend := by
  unfold PrependCall.Fits PrependCall.unparsed putBack
  rw [List.length_drop, Buffer.retrieveAll_prependableBytes]
  exact Nat.sub_le_iff_le_add'

/-- Once at most eight bytes are left, everything that is put back fits. -/
theorem onDataLoop_fits {fuel : Nat} {handler : HTTPHandler parser}
    {state : apps.State}
    (few : handler.inputBuffer.readable.length ≤ kCheapPrepend) :
    ∀ call ∈ (handler.onDataLoop apps fuel state).prepends, call.Fits := by
  induction fuel generalizing handler state with
  | zero => exact fun call member => nomatch member
  | succ fuel ih =>
      cases iteration fuel handler state with
      | drained empty left =>
          rw [left]
          exact fun call member => nomatch member
      | stopped given front left =>
          rw [left]
          exact fun call member => nomatch member
      | aborted given progress crowded left =>
          have room : handler.putBack.Fits :=
            (putBack_fits_iff handler).mpr
              (Nat.le_trans few (Nat.le_add_left _ _))
          exact (crowded room).elim
      | continued given progress fits refilled readable left =>
          rw [left]
          refine List.forall_mem_cons.mpr ⟨fits, ih ?_⟩
          change refilled.readable.length ≤ kCheapPrepend
          rw [readable]
          exact fits

/-- The first iteration decides. -/
theorem onData_fits_iff (handler : HTTPHandler parser) (state : apps.State) :
    (∀ call ∈ (handler.onData apps state).prepends, call.Fits) ↔
      handler.StopsNear := by
  unfold onData StopsNear
  cases iteration handler.inputBuffer.readableBytes handler state with
  | drained empty left => simp [left, empty]
  | stopped given front left => simp [left, front]
  | aborted given progress crowded left =>
      rw [or_iff_right progress, ← putBack_fits_iff, left]
      simp
  | continued given progress fits refilled readable left =>
      rw [or_iff_right progress, ← putBack_fits_iff, left]
      refine iff_of_true (List.forall_mem_cons.mpr ⟨fits, ?_⟩) fits
      apply onDataLoop_fits
      change refilled.readable.length ≤ kCheapPrepend
      rw [readable]
      exact fits

theorem onDataLoop_ends {fuel : Nat} {handler : HTTPHandler parser}
    {state : apps.State}
    (enough : handler.inputBuffer.readable.length < fuel) :
    (handler.onDataLoop apps fuel state).exit ≠ .outOfFuel := by
  induction fuel generalizing handler state with
  | zero => exact (Nat.not_lt_zero _ enough).elim
  | succ fuel ih =>
      cases iteration fuel handler state with
      | drained empty left =>
          rw [left]
          exact fun exit => nomatch exit
      | stopped given front left =>
          rw [left]
          exact fun exit => nomatch exit
      | aborted given progress crowded left =>
          rw [left]
          exact fun exit => nomatch exit
      | continued given progress fits refilled readable left =>
          rw [left]
          apply ih
          change refilled.readable.length < fuel
          have some_ := List.length_pos_iff.mpr given
          rw [readable, PrependCall.unparsed, List.length_drop]
          change handler.inputBuffer.readable.length - handler.stop < fuel
          omega

theorem onData_ends (handler : HTTPHandler parser) (state : apps.State) :
    (handler.onData apps state).exit ≠ .outOfFuel := by
  apply onDataLoop_ends
  rw [Buffer.readable_length]
  exact Nat.lt_succ_self _

/-- The handler when `OnData` runs for the bytes that were read. -/
def received (handler : HTTPHandler parser) (data : Bytes) :
    HTTPHandler parser :=
  handler.setInputBuffer (handler.inputBuffer.readFd data)

/-- The `prepend` calls of `HTTPHandler::OnData` over a sequence of reads; an
abort ends it. -/
def prependsOf (apps : Applications) :
    HTTPHandler parser → apps.State → List Bytes → List PrependCall
  | _, _, [] => []
  | handler, state, data :: later =>
      let result := handler.handleRead apps state data
      result.prepends ++
        if result.exit = .aborted then []
        else prependsOf apps result.handler result.state later

/-- In every read that the HTTP handler gets, `http_parser` stops at the front
of the data or near its end. -/
def AlwaysStopsNear (apps : Applications) :
    HTTPHandler parser → apps.State → List Bytes → Prop
  | _, _, [] => True
  | handler, state, data :: later =>
      let result := handler.handleRead apps state data
      (handler.owner = .http → (handler.received data).StopsNear) ∧
        (result.exit ≠ .aborted →
          AlwaysStopsNear apps result.handler result.state later)

theorem handleRead_http {handler : HTTPHandler parser}
    (owner : handler.owner = .http) (state : apps.State) (data : Bytes) :
    handler.handleRead apps state data =
      (handler.received data).onData apps state := by
  have same : (handler.setInputBuffer (handler.inputBuffer.readFd data)).owner
      = .http := owner
  simp only [handleRead, same]
  rfl

theorem handleRead_websocket {handler : HTTPHandler parser}
    {codec : WebsocketCodec} (owner : handler.owner = .websocket codec)
    (state : apps.State) (data : Bytes) :
    handler.handleRead apps state data =
      (handler.received data).onWebsocketData apps state codec := by
  have same : (handler.setInputBuffer (handler.inputBuffer.readFd data)).owner
      = .websocket codec := owner
  simp only [handleRead, same]
  rfl

theorem handleRead_fits_iff (handler : HTTPHandler parser)
    (state : apps.State) (data : Bytes) :
    (∀ call ∈ (handler.handleRead apps state data).prepends, call.Fits) ↔
      (handler.owner = .http → (handler.received data).StopsNear) := by
  cases owner : handler.owner with
  | http =>
      rw [handleRead_http owner, onData_fits_iff]
      exact ⟨fun near _ => near, fun near => near rfl⟩
  | websocket codec =>
      rw [handleRead_websocket owner]
      simp [onWebsocketData]

/-- The HTTP read loop never breaks the buffer exactly when `http_parser`
stops at the front of what it is given or at most eight bytes before its end,
in every read of every run. -/
theorem reads_fit_iff (apps : Applications) (handler : HTTPHandler parser)
    (state : apps.State) (reads : List Bytes) :
    (∀ call ∈ prependsOf apps handler state reads, call.Fits) ↔
      AlwaysStopsNear apps handler state reads := by
  induction reads generalizing handler state with
  | nil => simp [prependsOf, AlwaysStopsNear]
  | cons data later ih =>
      simp only [prependsOf, AlwaysStopsNear, List.forall_mem_append,
        handleRead_fits_iff]
      by_cases aborted : (handler.handleRead apps state data).exit = .aborted
      · simp [aborted]
      · simp [aborted, ih]

/-- `GE? /`, refused at its third byte, with more than eight bytes behind. -/
theorem malformed_method_aborts :
    let apps : Applications := ⟨DetachedHandler.guidBoost, Unit, (), []⟩
    let data := ascii "GE? / HTTP/1.1\r\n\r\n"
    (httpParser.execute httpParser.init data).2.2 = 2 ∧
      ((create httpParser []).handleRead apps () data).exit = .aborted ∧
      ¬ ∀ call ∈ prependsOf apps (create httpParser []) () [data],
        call.Fits := by
  decide +kernel

end HTTPHandler

end Woody
