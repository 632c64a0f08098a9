import Woody.Http.ReadLoop

/-!
# Bytes behind an upgrade request

The read loop of the HTTP handler does not look at the owner of the
connection.  When an application hands the connection over, the loop gives
what is behind the request to the HTTP codec again.
-/

namespace Woody

namespace HTTPHandler

variable {parser : HttpParser} {apps : Applications}

theorem onDataLoop_calls_ne_nil {fuel : Nat} {handler : HTTPHandler parser}
    {state : apps.State} (given : handler.inputBuffer.readable ≠ []) :
    (handler.onDataLoop apps (fuel + 1) state).calls ≠ [] := by
  cases iteration fuel handler state with
  | drained empty left => exact (given empty).elim
  | stopped _ front left =>
      rw [left]
      exact List.cons_ne_nil _ _
  | aborted _ progress crowded left =>
      rw [left]
      exact List.cons_ne_nil _ _
  | continued _ progress fits refilled readable left =>
      rw [left]
      exact List.cons_ne_nil _ _

/-- Nothing gives a connection back to the HTTP handler. -/
theorem Kept.websocket {before after : HTTPHandler parser}
    (kept : Kept before after)
    (owned : ∃ codec, before.owner = .websocket codec) :
    ∃ codec, after.owner = .websocket codec := by
  rcases kept.owner with same | owned'
  · rwa [same]
  · exact owned'

/-- An application that calls `HandleUpgrade` on a request that is not
refused. -/
theorem foldl_perform_websocket {boost : Boost} {request : HTTPRequest}
    (accepted : ¬ DetachedHandler.Refused boost request)
    {actions : List AppAction} {websocket : DetachedHandler}
    {response : HTTPResponse}
    (called : AppAction.upgrade websocket response ∈ actions)
    (handler : HTTPHandler parser) :
    ∃ codec,
      (actions.foldl (perform boost request) handler).owner =
        .websocket codec := by
  obtain ⟨early, late, rfl⟩ := List.append_of_mem called
  rw [List.foldl_append, List.foldl_cons]
  let before := early.foldl (perform boost request) handler
  have upgraded : ∃ codec, (before.perform boost request
      (.upgrade websocket response)).owner = .websocket codec := by
    have returned := (DetachedHandler.handleUpgrade_returned_iff boost websocket
      before.conn request response).mpr accepted
    obtain ⟨-, -, rewired⟩ := DetachedHandler.handleUpgrade_accepted returned
    simp only [perform, rewired]
    exact ⟨_, rfl⟩
  refine List.foldlRecOn
    (motive := fun handler : HTTPHandler parser =>
      ∃ codec, handler.owner = .websocket codec) _ _ upgraded ?_
  intro handler owned action _
  exact (perform_kept boost request handler action).websocket owned

/-- The state of the applications behind these requests. -/
def served (apps : Applications) (state : apps.State)
    (requests : List HTTPRequest) : apps.State :=
  requests.foldl (fun state request => (apps.onRequest state request).1) state

theorem foldl_onMessageComplete_state (handler : HTTPHandler parser)
    (state : apps.State) (requests : List HTTPRequest) :
    (requests.foldl (onMessageComplete apps) (handler, state)).2 =
      served apps state requests := by
  induction requests generalizing handler state with
  | nil => rfl
  | cons request requests ih => exact ih _ _

/-- What is readable ends an upgrade request, perhaps behind others, with some
bytes behind it: `http_parser` stops behind the request, and the application
it goes to calls `HandleUpgrade` and gets true. -/
structure Upgrades (apps : Applications) (handler : HTTPHandler parser)
    (state : apps.State) (bytes behind : Bytes) (earlier : List HTTPRequest)
    (request : HTTPRequest) : Prop where
  arrived : handler.inputBuffer.readable = bytes ++ behind
  some_ : bytes ≠ []
  stops : handler.stop = bytes.length
  sound : (handler.iterate apps state).2.failed = false
  completed : (HTTPCodec.onData parser handler.parserState handler.codec
    handler.inputBuffer.readable).requests = earlier ++ [request]
  called : ∃ websocket response,
    AppAction.upgrade websocket response ∈
        (apps.onRequest (served apps state earlier) request).2 ∧
      (websocket.handleUpgrade apps.boost handler.conn request
        response).returned = some true

section Upgrades

variable {handler : HTTPHandler parser} {state : apps.State}
  {bytes behind : Bytes} {earlier : List HTTPRequest} {request : HTTPRequest}

theorem Upgrades.given
    (upgrades : Upgrades apps handler state bytes behind earlier request) :
    handler.inputBuffer.readable ≠ [] := by
  rw [upgrades.arrived]
  exact List.append_ne_nil_of_left_ne_nil upgrades.some_ _

theorem Upgrades.progress
    (upgrades : Upgrades apps handler state bytes behind earlier request) :
    handler.stop ≠ 0 := by
  rw [upgrades.stops]
  exact Nat.ne_of_gt (List.length_pos_iff.mpr upgrades.some_)

theorem Upgrades.unparsed
    (upgrades : Upgrades apps handler state bytes behind earlier request) :
    handler.putBack.unparsed = behind := by
  simp only [PrependCall.unparsed, putBack, upgrades.arrived, upgrades.stops,
    List.drop_left]

theorem Upgrades.websocket
    (upgrades : Upgrades apps handler state bytes behind earlier request) :
    ∃ codec, (handler.iterate apps state).1.1.owner = .websocket codec := by
  obtain ⟨websocket, response, called, returned⟩ := upgrades.called
  have accepted := (DetachedHandler.handleUpgrade_returned_iff _ _ _ _ _).mp
    returned
  let result := HTTPCodec.onData parser handler.parserState handler.codec
    handler.inputBuffer.readable
  let fed : HTTPHandler parser :=
    { handler.setInputBuffer handler.inputBuffer.retrieveAll with
      parserState := result.parserState
      codec := result.codec }
  let before := earlier.foldl (onMessageComplete apps) (fed, state)
  have stands : before.2 = served apps state earlier :=
    foldl_onMessageComplete_state fed state earlier
  rw [← stands] at called
  have sound : result.failed = false := upgrades.sound
  have completed : result.requests = earlier ++ [request] := upgrades.completed
  have owned := foldl_perform_websocket accepted called before.1
  change ∃ codec, (if result.failed then _ else
    (result.requests.foldl (onMessageComplete apps) (fed, state)).1).owner = _
  rw [sound, completed, List.foldl_append]
  exact owned

end Upgrades

/-- The bytes behind the request are left to the WebSocket codec: the HTTP
codec is not called again, nothing fails or closes the connection, and the
next read gives them to the WebSocket handler, ahead of its own. -/
structure HandsOver (apps : Applications) (handler : HTTPHandler parser)
    (state : apps.State) (behind : Bytes)
    (result : HTTPLoopResult parser apps) : Prop where
  calls : result.calls = [(handler.iterate apps state).2]
  conn : result.handler.conn = (handler.iterate apps state).1.1.conn
  survived : result.exit ≠ .aborted
  owner : ∃ codec, result.handler.owner = .websocket codec
  next : ∀ later, (result.handler.received later).inputBuffer.readable =
    behind ++ later

/-- Bytes behind an upgrade request reach the WebSocket codec exactly when
there are none. -/
theorem upgrade_handed_over_iff {handler : HTTPHandler parser}
    {state : apps.State} {bytes behind : Bytes} {earlier : List HTTPRequest}
    {request : HTTPRequest}
    (upgrades : Upgrades apps handler state bytes behind earlier request) :
    HandsOver apps handler state behind (handler.onData apps state) ↔
      behind = [] := by
  have given := upgrades.given
  obtain ⟨fuel, fuel_⟩ : ∃ fuel,
      handler.inputBuffer.readableBytes = fuel + 1 := by
    apply Nat.exists_eq_add_one.mpr
    rw [← Buffer.readable_length]
    exact List.length_pos_iff.mpr given
  unfold onData
  rw [fuel_]
  cases iteration (fuel + 1) handler state with
  | drained empty left => exact (given empty).elim
  | stopped _ front left => exact (upgrades.progress front).elim
  | aborted _ _ crowded left =>
      rw [left]
      refine iff_of_false (fun handed => handed.survived rfl) ?_
      rintro rfl
      apply crowded
      unfold PrependCall.Fits
      rw [upgrades.unparsed]
      exact Nat.zero_le _
  | continued _ _ fits refilled readable left =>
      rw [left]
      rw [upgrades.unparsed] at readable
      let next := (handler.iterate apps state).1.1.setInputBuffer refilled
      by_cases none_ : behind = []
      · refine iff_of_true ?_ none_
        change HandsOver apps handler state behind
          { next.onDataLoop apps (fuel + 1) (handler.iterate apps state).1.2
            with calls := _, prepends := _ }
        cases iteration fuel next (handler.iterate apps state).1.2 with
        | drained empty left =>
            rw [left]
            refine ⟨rfl, rfl, ?_, upgrades.websocket, ?_⟩
            · intro exit
              cases exit
            · intro later
              change (refilled.readFd later).readable = _
              rw [Buffer.readFd_readable, readable]
        | stopped some_ | aborted some_ | continued some_ =>
            exact (some_ (readable.trans none_)).elim
      · refine iff_of_false ?_ none_
        intro handed
        have more := @onDataLoop_calls_ne_nil parser apps fuel next
          (handler.iterate apps state).1.2 (readable ▸ none_)
        exact more (List.cons.inj handed.calls).2

/-- `GET /chat` with the headers of an opening handshake, behind a request
that is not upgraded. -/
def chatBytes : Bytes :=
  ascii "GET / HTTP/1.1\r\nHost: a\r\n\r\n" ++
    ascii "GET /chat HTTP/1.1\r\nUpgrade: websocket\r\n" ++
    ascii "Connection: Upgrade\r\nSec-WebSocket-Version: 13\r\n\r\n"

/-- An application under `/chat` that upgrades every request. -/
def chatApps : Applications where
  boost := { DetachedHandler.guidBoost with lexicalCastInt := decimalInt }
  State := Unit
  init := ()
  apps := [(ascii "/chat", fun state _ =>
    (state, [.upgrade ⟨[], WebsocketCodec.init default⟩ ⟨200, [], ∅, []⟩]))]

def chatCallbacks : List HttpCallback :=
  [.messageBegin, .url (ascii "/"), .headerField (ascii "Host"),
    .headerValue (ascii "a"), .headersComplete (ascii "GET") false,
    .messageComplete, .messageBegin, .url (ascii "/chat"),
    .headerField (ascii "Upgrade"), .headerValue (ascii "websocket"),
    .headerField (ascii "Connection"), .headerValue (ascii "Upgrade"),
    .headerField (ascii "Sec-WebSocket-Version"), .headerValue (ascii "13"),
    .headersComplete (ascii "GET") true, .messageComplete]

def chatRequests : List HTTPRequest :=
  (HTTPCodec.init.onCallbacks chatCallbacks).2

/-- An empty masked text frame. -/
def maskedFrame : Bytes := [0x81, 0x80, 1, 2, 3, 4]

theorem requests_create (parser : HttpParser) (received data : Bytes) :
    let handler := (create parser []).received received
    (HTTPCodec.onData parser handler.parserState handler.codec data).requests =
      (HTTPCodec.init.onCallbacks (parser.execute parser.init data).2.1).2 :=
  rfl

theorem chat_upgrades {behind : Bytes} (listed : behind ∈ [[], maskedFrame]) :
    Upgrades chatApps ((create httpParser []).received (chatBytes ++ behind)) ()
      chatBytes behind (chatRequests.take 1)
      (chatRequests.getLastD DetachedHandler.plainGet) := by
  have called : AppAction.upgrade ⟨[], WebsocketCodec.init default⟩
      ⟨200, [], ∅, []⟩ ∈ (chatApps.onRequest ()
        (chatRequests.getLastD DetachedHandler.plainGet)).2 :=
    List.mem_singleton.mpr rfl
  have returned : (DetachedHandler.handleUpgrade chatApps.boost
      ⟨[], WebsocketCodec.init default⟩ ⟨.connected, 0⟩
      (chatRequests.getLastD DetachedHandler.plainGet)
      ⟨200, [], ∅, []⟩).returned = some true := by
    decide +kernel
  have reported : (httpParser.execute httpParser.init
      (chatBytes ++ behind)).2.1 = chatCallbacks := by
    rcases List.mem_pair.mp listed with rfl | rfl <;> decide +kernel
  have readable : ((create httpParser []).received
      (chatBytes ++ behind)).inputBuffer.readable = chatBytes ++ behind := by
    rcases List.mem_pair.mp listed with rfl | rfl <;> decide +kernel
  refine ⟨readable, by decide +kernel, ?_, ?_, ?_, _, _, called, returned⟩
  · rcases List.mem_pair.mp listed with rfl | rfl <;> decide +kernel
  · rcases List.mem_pair.mp listed with rfl | rfl <;> decide +kernel
  · rw [requests_create, readable, reported]
    rfl

/-- Without bytes behind it the connection is handed over, and with a frame
behind it it is not. -/
theorem chat_handed_over :
    HandsOver chatApps ((create httpParser []).received chatBytes) () []
        (((create httpParser []).received chatBytes).onData chatApps ()) ∧
      ¬ HandsOver chatApps
        ((create httpParser []).received (chatBytes ++ maskedFrame)) ()
        maskedFrame
        (((create httpParser []).received (chatBytes ++ maskedFrame)).onData
          chatApps ()) := by
  constructor
  · have upgrades := chat_upgrades (List.mem_cons_self)
    rw [List.append_nil] at upgrades
    exact (upgrade_handed_over_iff upgrades).mpr rfl
  · have upgrades := chat_upgrades
      (List.mem_cons_of_mem _ (List.mem_singleton.mpr rfl))
    exact (upgrade_handed_over_iff upgrades).not.mpr (by decide)

/-- The frame behind the request goes to the HTTP codec, which fails at its
first byte; the connection is closed and the frame is lost. -/
theorem frame_behind_upgrade_lost :
    let handler := (create httpParser []).received (chatBytes ++ maskedFrame)
    let result := handler.onData chatApps ()
    handler.stop = chatBytes.length ∧
      (result.calls.map CodecCall.data).drop 1 = [maskedFrame] ∧
      (result.calls.map CodecCall.failed).drop 1 = [true] ∧
      result.handler.inputBuffer.readable = [] ∧
      result.handler.conn.state = .disconnecting := by
  decide +kernel

end HTTPHandler

end Woody
