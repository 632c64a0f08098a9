import Woody.Foundation.Machine
import Woody.Http.ReadLoop

/-!
# The HTTP server

`HTTPServer` keeps a handler for every connection it accepts.  A handler is
removed by `OnHandlerClose`, which nothing registers: neither the close
callback of the handler nor `OnDisconnection` gets there.
-/

namespace Woody

/-- The handlers the server keeps, and the names of the connections the TCP
server below it has not removed yet. -/
structure HTTPServer (parser : HttpParser) (apps : Applications) where
  connections : List Bytes
  handlerMap : Std.ExtTreeMap Bytes (HTTPHandler parser) compare
  state : apps.State

inductive ServerEvent where
  | accept (name : Bytes)
  /-- A connection reads some bytes. -/
  | read (name : Bytes) (data : Bytes)
  /-- A connection reads the end of the stream, or is forced to close. -/
  | close (name : Bytes)
  deriving DecidableEq

/-- `TcpConnection::setState`. -/
def HTTPHandler.setState {parser : HttpParser} (handler : HTTPHandler parser)
    (state : ConnectionState) : HTTPHandler parser :=
  { handler with conn := { handler.conn with state := state } }

namespace HTTPServer

variable {parser : HttpParser} {apps : Applications}

def init (parser : HttpParser) (apps : Applications) :
    HTTPServer parser apps where
  connections := []
  handlerMap := ∅
  state := apps.init

/-- A write to the handler that the map points to. -/
def update (server : HTTPServer parser apps) (handler : HTTPHandler parser) :
    HTTPServer parser apps :=
  { server with handlerMap := server.handlerMap.insert handler.name handler }

def onConnection (server : HTTPServer parser apps) (name : Bytes) :
    HTTPServer parser apps :=
  { server with
    handlerMap := server.handlerMap.insertIfNew name
      (HTTPHandler.create parser name) }

/-- `OnDisconnection` leaves everything to the close callbacks. -/
def onDisconnection (server : HTTPServer parser apps) :
    HTTPServer parser apps :=
  server

def onCreateOrDestroyConnection (server : HTTPServer parser apps)
    (name : Bytes) (conn : TcpConnection) : HTTPServer parser apps :=
  if conn.state = .connected then
    server.onConnection name
  else
    server.onDisconnection

def onHandlerClose (server : HTTPServer parser apps)
    (handler : HTTPHandler parser) : HTTPServer parser apps :=
  { server with handlerMap := server.handlerMap.erase handler.name }

def runCloseCallback (server : HTTPServer parser apps)
    (handler : HTTPHandler parser) :
    Option CloseCallback → HTTPServer parser apps
  | some .onHandlerClose => server.onHandlerClose handler
  | some .application | none => server

/-- `closeCallbackWithoutThis_`: `HTTPHandler::OnClose`, or
`WebsocketHandler::OnClose`, whose callbacks are those of the application. -/
def onClose (server : HTTPServer parser apps)
    (handler : HTTPHandler parser) : HTTPServer parser apps :=
  match handler.owner with
  | .http =>
      (server.runCloseCallback handler
        handler.closeCallbackWithThis).runCloseCallback handler
          handler.closeCallback
  | .websocket _ => server

/-- `TcpServer::newConnection` and `TcpConnection::connectEstablished`. -/
def newConnection (server : HTTPServer parser apps) (name : Bytes) :
    HTTPServer parser apps :=
  let server := { server with connections := server.connections.insert name }
  server.onCreateOrDestroyConnection name ⟨.connected, 0⟩

/-- `TcpServer::removeConnection`. -/
def removeConnection (server : HTTPServer parser apps) (name : Bytes) :
    HTTPServer parser apps :=
  { server with connections := server.connections.erase name }

/-- `TcpConnection::handleClose`. -/
def handleClose (server : HTTPServer parser apps)
    (handler : HTTPHandler parser) : HTTPServer parser apps :=
  let handler := handler.setState .disconnected
  let server := server.update handler
  let server := server.onCreateOrDestroyConnection handler.name handler.conn
  let server := server.onClose handler
  server.removeConnection handler.name

/-- `none` when the connection is not open or the server aborts. -/
def step (server : HTTPServer parser apps) :
    ServerEvent → Option (HTTPServer parser apps)
  | .accept name => some (server.newConnection name)
  | .read name data =>
      if name ∈ server.connections ∧ data ≠ [] then
        match server.handlerMap[name]? with
        | some handler =>
            let result := handler.handleRead apps server.state data
            if result.exit = .aborted then
              none
            else
              some { server.update result.handler with state := result.state }
        | none => none
      else
        none
  | .close name =>
      if name ∈ server.connections then
        match server.handlerMap[name]? with
        | some handler =>
            if handler.conn.state = .connected ∨
                handler.conn.state = .disconnecting then
              some (server.handleClose handler)
            else
              none
        | none => none
      else
        none

section Step

variable {server later : HTTPServer parser apps} {name : Bytes}

theorem step_read {data : Bytes}
    (stepped : server.step (.read name data) = some later) :
    ∃ handler, server.handlerMap[name]? = some handler ∧
      later =
        { server.update
            (handler.handleRead apps server.state data).handler with
          state := (handler.handleRead apps server.state data).state } := by
  simp only [step] at stepped
  split at stepped
  · split at stepped
    · next handler stored =>
        split at stepped
        · cases stepped
        · exact ⟨handler, stored, (Option.some.inj stepped).symm⟩
    · cases stepped
  · cases stepped

theorem step_close (stepped : server.step (.close name) = some later) :
    ∃ handler, server.handlerMap[name]? = some handler ∧
      later = server.handleClose handler := by
  simp only [step] at stepped
  split at stepped
  · split at stepped
    · next handler stored =>
        split at stepped
        · exact ⟨handler, stored, (Option.some.inj stepped).symm⟩
        · cases stepped
    · cases stepped
  · cases stepped

theorem mem_of_stored {handler : HTTPHandler parser}
    (stored : server.handlerMap[name]? = some handler) :
    name ∈ server.handlerMap := by
  rw [Std.ExtTreeMap.mem_iff_isSome_getElem?, stored]
  rfl

end Step

end HTTPServer

namespace HTTPHandler

variable {parser : HttpParser} {apps : Applications}

/-- A handler that does not tell the server when its connection closes. -/
structure Unregistered (name : Bytes) (handler : HTTPHandler parser) :
    Prop where
  named : handler.name = name
  closeCallback : handler.closeCallback ≠ some .onHandlerClose
  closeCallbackWithThis :
    handler.closeCallbackWithThis ≠ some .onHandlerClose

theorem create_unregistered (parser : HttpParser) (name : Bytes) :
    (create parser name).Unregistered name :=
  ⟨rfl, nofun, nofun⟩

theorem Kept.unregistered {before after : HTTPHandler parser} {name : Bytes}
    (kept : Kept before after) (unregistered : before.Unregistered name) :
    after.Unregistered name where
  named := kept.name.trans unregistered.named
  closeCallback := by
    rcases kept.closeCallback with same | application
    · rw [same]
      exact unregistered.closeCallback
    · rw [application]
      exact nofun
  closeCallbackWithThis := by
    rcases kept.closeCallbackWithThis with same | application
    · rw [same]
      exact unregistered.closeCallbackWithThis
    · rw [application]
      exact nofun

theorem Unregistered.setInputBuffer {handler : HTTPHandler parser}
    {name : Bytes} (unregistered : handler.Unregistered name)
    (buffer : Buffer) :
    (handler.setInputBuffer buffer).Unregistered name :=
  ⟨unregistered.named, unregistered.closeCallback,
    unregistered.closeCallbackWithThis⟩

theorem Unregistered.iterate {handler : HTTPHandler parser} {name : Bytes}
    (unregistered : handler.Unregistered name) (state : apps.State) :
    (handler.iterate apps state).1.1.Unregistered name :=
  (feed_kept _ state _).unregistered (unregistered.setInputBuffer _)

theorem Unregistered.onDataLoop {fuel : Nat} {handler : HTTPHandler parser}
    {state : apps.State} {name : Bytes}
    (unregistered : handler.Unregistered name) :
    (handler.onDataLoop apps fuel state).handler.Unregistered name := by
  induction fuel generalizing handler state with
  | zero => exact unregistered
  | succ fuel ih =>
      cases iteration fuel handler state with
      | drained empty left =>
          rw [left]
          exact unregistered
      | stopped given front left =>
          rw [left]
          exact unregistered.iterate state
      | aborted given progress crowded left =>
          rw [left]
          exact unregistered.iterate state
      | continued given progress fits refilled readable left =>
          rw [left]
          exact ih ((unregistered.iterate state).setInputBuffer refilled)

theorem Unregistered.setState {handler : HTTPHandler parser} {name : Bytes}
    (unregistered : handler.Unregistered name) (state : ConnectionState) :
    (handler.setState state).Unregistered name :=
  ⟨unregistered.named, unregistered.closeCallback,
    unregistered.closeCallbackWithThis⟩

/-- No read registers a handler, whatever the applications do. -/
theorem Unregistered.handleRead {handler : HTTPHandler parser} {name : Bytes}
    (unregistered : handler.Unregistered name) (state : apps.State)
    (data : Bytes) :
    (handler.handleRead apps state data).handler.Unregistered name := by
  have received : (handler.received data).Unregistered name :=
    unregistered.setInputBuffer _
  cases owner : handler.owner with
  | http =>
      rw [handleRead_http owner]
      exact received.onDataLoop
  | websocket codec =>
      rw [handleRead_websocket owner]
      exact ⟨received.named, received.closeCallback,
        received.closeCallbackWithThis⟩

end HTTPHandler

namespace HTTPServer

variable {parser : HttpParser} {apps : Applications}

theorem runCloseCallback_eq (server : HTTPServer parser apps)
    (handler : HTTPHandler parser) {callback : Option CloseCallback}
    (other : callback ≠ some .onHandlerClose) :
    server.runCloseCallback handler callback = server := by
  cases callback with
  | none => rfl
  | some callback =>
      cases callback with
      | onHandlerClose => exact (other rfl).elim
      | application => rfl

theorem onClose_eq (server : HTTPServer parser apps)
    {handler : HTTPHandler parser} {name : Bytes}
    (unregistered : handler.Unregistered name) :
    server.onClose handler = server := by
  unfold onClose
  cases handler.owner with
  | http =>
      simp only [runCloseCallback_eq _ _ unregistered.closeCallbackWithThis,
        runCloseCallback_eq _ _ unregistered.closeCallback]
  | websocket codec => rfl

theorem handleClose_eq (server : HTTPServer parser apps)
    {handler : HTTPHandler parser} {name : Bytes}
    (unregistered : handler.Unregistered name) :
    server.handleClose handler =
      (server.update (handler.setState .disconnected)).removeConnection
        handler.name := by
  have silent := onClose_eq
    (server.update (handler.setState .disconnected))
    (unregistered.setState .disconnected)
  exact congrArg (removeConnection · handler.name) silent

/-- Behind the events of `history`, every accepted connection still has its
handler. -/
structure Retains (history : List ServerEvent)
    (server : HTTPServer parser apps) : Prop where
  keys : ∀ name, name ∈ server.handlerMap ↔ .accept name ∈ history
  unregistered : ∀ name (handler : HTTPHandler parser),
    server.handlerMap[name]? = some handler → handler.Unregistered name

theorem init_retains : Retains [] (init parser apps) where
  keys name := by simp [init]
  unregistered name handler stored := by simp [init] at stored

namespace Retains

variable {history : List ServerEvent} {server : HTTPServer parser apps}
  {name : Bytes} {handler : HTTPHandler parser}

theorem accept (retains : Retains history server) (name : Bytes) :
    Retains (history ++ [.accept name]) (server.newConnection name) where
  keys other := by
    simp only [newConnection, onCreateOrDestroyConnection, onConnection,
      if_true, Std.ExtTreeMap.mem_insertIfNew, Std.compare_eq_iff_eq,
      retains.keys, List.mem_append, List.mem_singleton,
      ServerEvent.accept.injEq]
    rw [or_comm, eq_comm]
  unregistered other handler stored := by
    simp only [newConnection, onCreateOrDestroyConnection, onConnection,
      if_true, Std.ExtTreeMap.getElem?_insertIfNew] at stored
    split at stored
    · next fresh =>
        obtain rfl := Std.compare_eq_iff_eq.mp fresh.1
        cases stored
        exact HTTPHandler.create_unregistered parser name
    · exact retains.unregistered other handler stored

/-- A write to a handler the map has, in an event that accepts nothing. -/
theorem update (retains : Retains history server)
    (present : name ∈ server.handlerMap)
    (unregistered : handler.Unregistered name) {event : ServerEvent}
    (other : ∀ name, event ≠ .accept name) :
    Retains (history ++ [event]) (server.update handler) where
  keys key := by
    have absent : ServerEvent.accept key ∉ [event] := fun member =>
      other key (List.mem_singleton.mp member).symm
    rw [List.mem_append, or_iff_left absent, ← retains.keys key]
    simp only [HTTPServer.update, Std.ExtTreeMap.mem_insert,
      Std.compare_eq_iff_eq, unregistered.named]
    exact or_iff_right_of_imp fun same => same ▸ present
  unregistered key updated stored := by
    simp only [HTTPServer.update, Std.ExtTreeMap.getElem?_insert] at stored
    split at stored
    · next same =>
        cases stored
        rw [← Std.compare_eq_iff_eq.mp same, unregistered.named]
        exact unregistered
    · exact retains.unregistered key updated stored

theorem step (retains : Retains history server) {event : ServerEvent}
    {later : HTTPServer parser apps}
    (stepped : server.step event = some later) :
    Retains (history ++ [event]) later := by
  cases event with
  | accept name =>
      cases stepped
      exact retains.accept name
  | read name data =>
      obtain ⟨handler, stored, rfl⟩ := step_read stepped
      have unregistered :=
        (retains.unregistered name handler stored).handleRead server.state data
      have updated : Retains (history ++ [.read name data]) _ :=
        retains.update (mem_of_stored stored) unregistered nofun
      exact ⟨updated.keys, updated.unregistered⟩
  | close name =>
      obtain ⟨handler, stored, rfl⟩ := step_close stepped
      have unregistered := retains.unregistered name handler stored
      have updated : Retains (history ++ [.close name]) _ :=
        retains.update (mem_of_stored stored)
          (unregistered.setState .disconnected) nofun
      rw [handleClose_eq server unregistered]
      exact ⟨updated.keys, updated.unregistered⟩

end Retains

/-- Nothing leaves the map in any run. -/
theorem run_retains {events : List ServerEvent}
    {server : HTTPServer parser apps}
    (ran : Machine.run step (init parser apps) events = some server) :
    Retains events server :=
  Machine.run_invariant init_retains
    (fun _ _ _ _ retains stepped => retains.step stepped) ran

/-- The names of the connections that were accepted. -/
def accepted (events : List ServerEvent) : List Bytes :=
  events.filterMap fun
    | .accept name => some name
    | .read _ _ | .close _ => none

def affects (name : Bytes) (wasOpen : Bool) : ServerEvent → Bool
  | .accept other => other == name || wasOpen
  | .read _ _ => wasOpen
  | .close other => other != name && wasOpen

/-- Accepted and not yet closed. -/
def isOpen (name : Bytes) (events : List ServerEvent) : Bool :=
  events.foldl (affects name) false

theorem mem_accepted {name : Bytes} {events : List ServerEvent} :
    name ∈ accepted events ↔ .accept name ∈ events := by
  unfold accepted
  rw [List.mem_filterMap]
  constructor
  · rintro ⟨event, member, same⟩
    cases event with
    | accept other =>
        cases same
        exact member
    | read other data => cases same
    | close other => cases same
  · exact fun member => ⟨.accept name, member, rfl⟩

theorem isOpen_of_not_closed {name : Bytes} {events : List ServerEvent}
    (never : .close name ∉ events) :
    isOpen name events = true ↔ .accept name ∈ events := by
  induction events using List.reverseRecOn with
  | nil => simp [isOpen]
  | append_singleton history event ih =>
      obtain ⟨earlier, last⟩ := not_or.mp (List.mem_append.not.mp never)
      have opened : isOpen name (history ++ [event]) =
          affects name (isOpen name history) event := by
        simp [isOpen]
      rw [opened, List.mem_append, ← ih earlier, List.mem_singleton]
      cases event with
      | accept other =>
          simp only [affects, Bool.or_eq_true, beq_iff_eq,
            ServerEvent.accept.injEq, @eq_comm _ other]
          exact or_comm
      | read other data => simp [affects]
      | close other =>
          have different : other ≠ name := fun same => last (by simp [same])
          simp [affects, different]

theorem isOpen_closed {name : Bytes} {early late : List ServerEvent}
    (never : .accept name ∉ late) :
    isOpen name (early ++ .close name :: late) = false := by
  have shut : affects name (early.foldl (affects name) false)
      (.close name) = false := by simp [affects]
  rw [isOpen, List.foldl_append, List.foldl_cons, shut]
  refine List.foldlRecOn (motive := (· = false)) late _ rfl ?_
  rintro _ rfl event member
  cases event with
  | accept other =>
      have different : other ≠ name := fun same =>
        never (same ▸ member)
      simp [affects, different]
  | read other data => rfl
  | close other => simp [affects]

/-- In a run, a closed connection has been accepted and is not open. -/
theorem closed_of_run {name : Bytes} {events : List ServerEvent}
    {server : HTTPServer parser apps}
    (ran : Machine.run step (init parser apps) events = some server)
    (distinct : (accepted events).Nodup) (closed : .close name ∈ events) :
    .accept name ∈ events ∧ isOpen name events = false := by
  obtain ⟨early, late, rfl⟩ := List.append_of_mem closed
  rw [Machine.run_append] at ran
  obtain ⟨middle, ranEarly, ranLate⟩ := Option.bind_eq_some_iff.mp ran
  obtain ⟨shut, stepped, -⟩ := Option.bind_eq_some_iff.mp ranLate
  obtain ⟨handler, stored, -⟩ := step_close stepped
  have opened : .accept name ∈ early :=
    ((run_retains ranEarly).keys name).mp (mem_of_stored stored)
  have never : .accept name ∉ late := by
    intro again
    rw [accepted, List.filterMap_append] at distinct
    exact (List.nodup_append.mp distinct).2.2 name (mem_accepted.mpr opened)
      name (mem_accepted.mpr (.tail _ again)) rfl
  exact ⟨List.mem_append_left _ opened, isOpen_closed never⟩

/-- The handlers of the server are those of its open connections, after
every step of a run, exactly when the run closes no connection. -/
theorem handlers_of_open_iff {events : List ServerEvent}
    {server : HTTPServer parser apps}
    (ran : Machine.run step (init parser apps) events = some server)
    (distinct : (accepted events).Nodup) :
    (∀ early, early <+: events → ∀ middle,
      Machine.run step (init parser apps) early = some middle →
        ∀ name, name ∈ middle.handlerMap ↔ isOpen name early = true) ↔
      ∀ name, .close name ∉ events := by
  constructor
  · intro exact_ name closed
    obtain ⟨opened, shut⟩ := closed_of_run ran distinct closed
    have kept := ((run_retains ran).keys name).mpr opened
    rw [exact_ events (List.prefix_refl events) server ran name, shut] at kept
    cases kept
  · intro never early first middle ranEarly name
    have earlier : .close name ∉ early :=
      fun closed => never name (first.subset closed)
    rw [(run_retains ranEarly).keys name, isOpen_of_not_closed earlier]

/-- One connection is accepted and sends half a request line. -/
theorem open_connection_handled :
    let apps : Applications := ⟨DetachedHandler.guidBoost, Unit, (), []⟩
    let name := ascii "woody#1"
    let events := [.accept name, .read name (ascii "GET /")]
    (Machine.run step (init httpParser apps) events).isSome = true ∧
      ∀ early, early <+: events → ∀ middle : HTTPServer httpParser apps,
        Machine.run step (init httpParser apps) early = some middle →
          ∀ name, name ∈ middle.handlerMap ↔ isOpen name early = true := by
  intro apps name events
  have runs : (Machine.run step (init httpParser apps) events).isSome = true := by
    decide +kernel
  obtain ⟨server, ran⟩ := Option.isSome_iff_exists.mp runs
  refine ⟨runs, (handlers_of_open_iff ran (by decide +kernel)).mpr ?_⟩
  intro other
  simp [events]

/-- The connection closes and its handler stays. -/
theorem closed_connection_handled :
    let apps : Applications := ⟨DetachedHandler.guidBoost, Unit, (), []⟩
    let name := ascii "woody#1"
    let events := [.accept name, .close name]
    (accepted events).Nodup ∧
      ∃ server : HTTPServer httpParser apps,
        Machine.run step (init httpParser apps) events = some server ∧
          name ∈ server.handlerMap ∧ isOpen name events = false := by
  intro apps name events
  have kept : (Machine.run step (init httpParser apps) events).any
      (fun server => server.handlerMap.contains name) = true := by
    decide +kernel
  obtain ⟨server, ran, contained⟩ := (Option.any_eq_true _ _).mp kept
  exact ⟨by decide +kernel, server, ran,
    Std.ExtTreeMap.contains_iff_mem.mp contained, by decide +kernel⟩

end HTTPServer

end Woody
