import Woody.Http.Request
import Woody.Http.Response
import Woody.Websocket.Handler

/-!
# The opening handshake

`WebsocketHandler::HandleUpgrade` answers a request with 101 and takes the
connection over from HTTP.  Its check of the `Upgrade` and `Connection`
headers never refuses anything: it asks for a header that is missing and at
the same time for its value.  The checks of the other two headers run only
when the header is there.
-/

namespace Woody

def kVersion : Int := 13

def kWebsocketGUID : Bytes := ascii "258EAFA5-E914-47DA-95CA-C5AB0DC85B11"

/-- A WebSocket handler that has no connection yet. -/
structure DetachedHandler where
  subProtocols : List Bytes
  codec : WebsocketCodec

namespace DetachedHandler

def addSubProtocol (handler : DetachedHandler) (protocol : Bytes) :
    DetachedHandler :=
  { handler with subProtocols := handler.subProtocols ++ [protocol] }

/-- `SetCallback`: from now on the connection runs the callbacks of this
handler. -/
def setCallback (handler : DetachedHandler) (conn : TcpConnection) :
    WebsocketHandler where
  conn := conn
  codec := handler.codec

/-- What one `HandleUpgrade` leaves behind and sends. -/
structure UpgradeResult where
  /-- `none` when `lexical_cast` throws. -/
  returned : Option Bool
  handler : DetachedHandler
  response : HTTPResponse
  /-- The handler whose callbacks the connection got. -/
  rewired : Option WebsocketHandler
  sent : List Bytes

/-- The sub-protocols that the request offers. -/
def offered (boost : Boost) (request : HTTPRequest) : List Bytes :=
  let protocols := request.getHeader (ascii "Sec-WebSocket-Protocol") []
  if protocols.1 ∧ protocols.2 ≠ [] then
    (boost.split protocols.2 (ascii ",")).map trim
  else
    []

/-- `HandleUpgrade` behind its checks. -/
def acceptUpgrade (boost : Boost) (handler : DetachedHandler)
    (conn : TcpConnection) (request : HTTPRequest) (response : HTTPResponse)
    (key version : Bytes) : UpgradeResult :=
  let handler := (offered boost request).foldl addSubProtocol handler
  let acceptKey := base64Encode (boost.sha1 (key ++ kWebsocketGUID))
  let response :=
    ((((response.addHeader (ascii "Upgrade") (ascii "websocket")).addHeader
      (ascii "Connection") (ascii "Upgrade")).addHeader
      (ascii "Sec-WebSocket-Version") version).addHeader
      (ascii "Sec-WebSocket-Accept") acceptKey).setStatus 101
      (ascii "Switching Protocols")
  let finished := response.finish boost
  { returned := some true
    handler := handler
    response := finished.1
    rewired := some (handler.setCallback conn)
    sent := [finished.2] }

/-- The check of the version that was found, `none` when `lexical_cast`
throws. -/
def checkVersion (boost : Boost) (version : Bool × Bytes) : Option Bool :=
  if version.1 then
    (boost.stringToInt version.2).map fun number => number == kVersion
  else
    some true

def handleUpgrade (boost : Boost) (handler : DetachedHandler)
    (conn : TcpConnection) (request : HTTPRequest) (response : HTTPResponse) :
    UpgradeResult :=
  let stopped (returned : Option Bool) : UpgradeResult :=
    ⟨returned, handler, response, none, []⟩
  if request.method ≠ ascii "GET" then
    stopped (some false)
  else
    -- both calls of `GetHeader` write to the same `v`
    let upgrade := request.getHeader (ascii "Upgrade") []
    let connection := request.getHeader (ascii "Connection") upgrade.2
    if ¬ upgrade.1 ∧ upgrade.2 = ascii "websocket" ∧
        connection.1 ∧ connection.2 = ascii "upgrade" then
      stopped (some false)
    else
      let key := request.getHeader (ascii "Sec-WebSocket-Key") []
      if key.1 ∧ (base64Decode key.2).length ≠ 16 then
        stopped (some false)
      else
        let version := request.getHeader (ascii "Sec-WebSocket-Version") []
        match checkVersion boost version with
        | none => stopped none
        | some false => stopped (some false)
        | some true =>
            acceptUpgrade boost handler conn request response key.2 version.2

end DetachedHandler

/-- The request has a header of this name, and its value satisfies the
property. -/
def HTTPRequest.Carries (request : HTTPRequest) (name : Bytes)
    (property : Bytes → Prop) : Prop :=
  ∃ value, request.headersMap.find name = some value ∧ property value

/-- The elements of a comma-separated header value. -/
def tokens (value : Bytes) : List Bytes := (value.splitOn 44).map trim

/-- The requests that open a WebSocket. -/
structure Genuine (request : HTTPRequest) : Prop where
  method : request.method = ascii "GET"
  upgrade : request.Carries (ascii "Upgrade") fun value =>
    lowerCase value = ascii "websocket"
  connection : request.Carries (ascii "Connection") fun value =>
    ascii "upgrade" ∈ (tokens value).map lowerCase
  key : request.Carries (ascii "Sec-WebSocket-Key") fun value =>
    ∃ nonce : Bytes, nonce.length = 16 ∧ base64Encode nonce = value
  version : request.Carries (ascii "Sec-WebSocket-Version") fun value =>
    value = ascii "13"

namespace DetachedHandler

/-- What the checks that can fail refuse. -/
def Refused (boost : Boost) (request : HTTPRequest) : Prop :=
  request.method ≠ ascii "GET" ∨
    (request.Carries (ascii "Sec-WebSocket-Key") fun value =>
      (scanned value).length ≠ 22) ∨
    request.Carries (ascii "Sec-WebSocket-Version") fun value =>
      boost.lexicalCastInt value ≠ some 13

/-- The four headers are there and well-formed. -/
def Complete (request : HTTPRequest) : Prop :=
  (request.Carries (ascii "Upgrade") fun value =>
    lowerCase value = ascii "websocket") ∧
  (request.Carries (ascii "Connection") fun value =>
    ascii "upgrade" ∈ (tokens value).map lowerCase) ∧
  request.Carries (ascii "Sec-WebSocket-Key") IsNonce ∧
  request.Carries (ascii "Sec-WebSocket-Version") fun value =>
    value = ascii "13"

/-- What a call that does not return true leaves behind. -/
structure Untouched (handler : DetachedHandler) (response : HTTPResponse)
    (result : UpgradeResult) : Prop where
  returned : result.returned ≠ some true
  handler : result.handler = handler
  response : result.response = response
  rewired : result.rewired = none
  sent : result.sent = []

/-- A missing header leaves `v` empty, so that it is not `websocket`. -/
theorem firstCheck_passes (request : HTTPRequest) (other : Prop) :
    ¬ (¬ (request.getHeader (ascii "Upgrade") []).1 ∧
      (request.getHeader (ascii "Upgrade") []).2 = ascii "websocket" ∧
        other) := by
  rintro ⟨missing, value, _⟩
  unfold HTTPRequest.getHeader at missing value
  cases found : request.headersMap.find (ascii "Upgrade") with
  | none =>
      rw [found] at value
      exact absurd value (by decide)
  | some text => simp [found] at missing

theorem check_iff (request : HTTPRequest) (name : Bytes)
    (property : Bytes → Prop) :
    ((request.getHeader name []).1 ∧ property (request.getHeader name []).2) ↔
      request.Carries name property := by
  unfold HTTPRequest.getHeader HTTPRequest.Carries
  cases found : request.headersMap.find name with
  | none => simp
  | some value => simp

theorem checkVersion_iff (boost : Boost) (request : HTTPRequest) :
    checkVersion boost
        (request.getHeader (ascii "Sec-WebSocket-Version") []) ≠ some true ↔
      request.Carries (ascii "Sec-WebSocket-Version") fun value =>
        boost.lexicalCastInt value ≠ some 13 := by
  rw [← check_iff]
  unfold checkVersion Boost.stringToInt
  cases (request.getHeader (ascii "Sec-WebSocket-Version") []).1 with
  | false => simp
  | true =>
      cases boost.lexicalCastInt
          (request.getHeader (ascii "Sec-WebSocket-Version") []).2 with
      | none => simp
      | some number => simp [kVersion]

/-- The request is refused and nothing happens, or it is accepted. -/
theorem handleUpgrade_cases (boost : Boost) (handler : DetachedHandler)
    (conn : TcpConnection) (request : HTTPRequest) (response : HTTPResponse) :
    let result := handleUpgrade boost handler conn request response
    (Refused boost request ∧ Untouched handler response result) ∨
      (¬ Refused boost request ∧
        result = acceptUpgrade boost handler conn request response
          (request.getHeader (ascii "Sec-WebSocket-Key") []).2
          (request.getHeader (ascii "Sec-WebSocket-Version") []).2) := by
  have stops (returned : Option Bool) (other : returned ≠ some true) :
      Untouched handler response ⟨returned, handler, response, none, []⟩ :=
    ⟨other, rfl, rfl, rfl, rfl⟩
  unfold handleUpgrade
  dsimp only
  by_cases method : request.method = ascii "GET"
  · rw [if_neg (not_not_intro method), if_neg (firstCheck_passes request _)]
    have isMalformed := check_iff request (ascii "Sec-WebSocket-Key")
      fun value => (base64Decode value).length ≠ 16
    have isUnsupported := checkVersion_iff boost request
    simp only [ne_eq, length_base64Decode_iff] at isMalformed ⊢
    by_cases malformed :
        request.Carries (ascii "Sec-WebSocket-Key") fun value =>
          ¬ (scanned value).length = 22
    · rw [if_pos (isMalformed.mpr malformed)]
      exact .inl ⟨.inr (.inl malformed), stops _ (by simp)⟩
    · rw [if_neg (mt isMalformed.mp malformed)]
      cases version : checkVersion boost
          (request.getHeader (ascii "Sec-WebSocket-Version") []) with
      | none =>
          rw [version] at isUnsupported
          exact .inl ⟨.inr (.inr (isUnsupported.mp (by simp))),
            stops _ (by simp)⟩
      | some supported =>
          rw [version] at isUnsupported
          cases supported with
          | false =>
              exact .inl ⟨.inr (.inr (isUnsupported.mp (by simp))),
                stops _ (by simp)⟩
          | true =>
              refine .inr ⟨?_, rfl⟩
              rintro (other | other | other)
              · exact other method
              · exact malformed other
              · exact isUnsupported.mpr other rfl
  · rw [if_pos method]
    exact .inl ⟨.inl method, stops _ (by simp)⟩

theorem handleUpgrade_returned_iff (boost : Boost) (handler : DetachedHandler)
    (conn : TcpConnection) (request : HTTPRequest) (response : HTTPResponse) :
    (handleUpgrade boost handler conn request response).returned = some true ↔
      ¬ Refused boost request := by
  rcases handleUpgrade_cases boost handler conn request response with
    ⟨refused, untouched⟩ | ⟨accepted, isResult⟩
  · exact ⟨fun returned => (untouched.returned returned).elim,
      fun accepted => (accepted refused).elim⟩
  · rw [isResult]
    exact ⟨fun _ => accepted, fun _ => rfl⟩

theorem foldl_addSubProtocol_codec (handler : DetachedHandler)
    (protocols : List Bytes) :
    (protocols.foldl addSubProtocol handler).codec = handler.codec := by
  induction protocols generalizing handler with
  | nil => rfl
  | cons protocol protocols ih => exact ih (handler.addSubProtocol protocol)

/-- Returning true means that 101 is sent and that the connection runs the
callbacks of this handler. -/
theorem handleUpgrade_accepted {boost : Boost} {handler : DetachedHandler}
    {conn : TcpConnection} {request : HTTPRequest} {response : HTTPResponse}
    (returned : (handleUpgrade boost handler conn request response).returned =
      some true) :
    let result := handleUpgrade boost handler conn request response
    result.response.statusCode = 101 ∧
      result.sent = [result.response.toText boost] ∧
      result.rewired = some ⟨conn, handler.codec⟩ := by
  intro result
  rcases handleUpgrade_cases boost handler conn request response with
    ⟨_, untouched⟩ | ⟨_, isResult⟩
  · exact (untouched.returned returned).elim
  · unfold result
    rw [isResult]
    refine ⟨rfl, rfl, ?_⟩
    have codec := foldl_addSubProtocol_codec handler (offered boost request)
    simp [acceptUpgrade, setCallback, codec]

/-- The upgrade of a new handler starts the runs of the read loop. -/
theorem upgraded_reachable {boost : Boost} {handler : DetachedHandler}
    {conn : TcpConnection} {request : HTTPRequest} {response : HTTPResponse}
    {memory : WebsocketParser}
    (fresh : handler.codec = WebsocketCodec.init memory)
    (returned : (handleUpgrade boost handler conn request response).returned =
      some true) :
    ∃ upgraded : WebsocketHandler,
      (handleUpgrade boost handler conn request response).rewired =
          some upgraded ∧
        WebsocketHandler.Reachable upgraded := by
  obtain ⟨_, _, rewired⟩ := handleUpgrade_accepted returned
  refine ⟨_, rewired, ?_⟩
  rw [fresh]
  exact .upgraded conn memory

theorem genuine_iff {request : HTTPRequest}
    (method : request.method = ascii "GET") :
    Genuine request ↔ Complete request := by
  constructor
  · rintro ⟨_, upgrade, connection, ⟨value, found, nonce⟩, version⟩
    exact ⟨upgrade, connection, ⟨value, found, (isNonce_iff value).mp nonce⟩,
      version⟩
  · rintro ⟨upgrade, connection, ⟨value, found, nonce⟩, version⟩
    exact ⟨method, upgrade, connection,
      ⟨value, found, (isNonce_iff value).mpr nonce⟩, version⟩

/-- The requests that are upgraded only if they open a WebSocket are those
that one of the three effective checks refuses and those whose four headers
are there and well-formed. -/
theorem handshake_sound_iff (boost : Boost) (handler : DetachedHandler)
    (conn : TcpConnection) (request : HTTPRequest) (response : HTTPResponse) :
    ((handleUpgrade boost handler conn request response).returned = some true →
        Genuine request) ↔
      Refused boost request ∨ Complete request := by
  rw [handleUpgrade_returned_iff]
  by_cases refused : Refused boost request
  · simp [refused]
  · have method : request.method = ascii "GET" :=
      not_not.mp fun other => refused (.inl other)
    simp only [refused, not_false_eq_true, forall_const, false_or]
    exact genuine_iff method

/-- Boost with the digest of the GUID alone. -/
def guidBoost : Boost where
  lexicalCastInt text :=
    (String.ofList (text.map fun c => Char.ofNat c.toNat)).toInt?
  lexicalCastString a := ascii (toString a)
  splitAnyOf s pattern := s.splitOnP fun c => pattern.contains c
  digest _ i :=
    [0x29f87d40, 0x8b0c5597, 0x25eb110f, 0x6313c7cd, 0x6f1267cc].getD i 0

/-- `GET / HTTP/1.1` with the header `Host: a`. -/
def plainGet : HTTPRequest where
  isUpgrade := false
  method := ascii "GET"
  url := ascii "/"
  headersMap := StringMap.insertPair ∅ (ascii "Host") (ascii "a")
  methodGetParams := ∅
  body := []

theorem plain_get_upgraded :
    (handleUpgrade guidBoost ⟨[], WebsocketCodec.init default⟩
        ⟨.connected, 0⟩ plainGet ⟨0, [], ∅, []⟩).returned = some true ∧
      ¬ Genuine plainGet := by
  constructor
  · decide +kernel
  · rintro ⟨_, ⟨value, found, _⟩, _, _, _⟩
    have missing : plainGet.headersMap.find (ascii "Upgrade") = none := by
      decide +kernel
    rw [missing] at found
    cases found

end DetachedHandler

end Woody
