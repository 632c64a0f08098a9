import Mathlib.Data.List.Forall2
import Woody.Websocket.Upgrade

/-!
# How the opening handshake ends

A refused handshake leaves everything as it was.  The only way out of
`HandleUpgrade` that is neither an answer nor a refusal is the conversion of
the version header: the exception of `lexical_cast` is caught nowhere.
-/

namespace Woody

namespace DetachedHandler

/-- The check of the key header refuses the request. -/
def MalformedKey (request : HTTPRequest) : Prop :=
  request.Carries (ascii "Sec-WebSocket-Key") fun value =>
    (base64Decode value).length ≠ 16

theorem checkVersion_eq_none_iff (boost : Boost) (request : HTTPRequest) :
    checkVersion boost
        (request.getHeader (ascii "Sec-WebSocket-Version") []) = none ↔
      request.Carries (ascii "Sec-WebSocket-Version") fun value =>
        boost.lexicalCastInt value = none := by
  rw [← check_iff]
  unfold checkVersion Boost.stringToInt
  cases (request.getHeader (ascii "Sec-WebSocket-Version") []).1 with
  | false => simp
  | true => simp

/-- The requests that get as far as the check of the version. -/
theorem handleUpgrade_throws_iff (boost : Boost) (handler : DetachedHandler)
    (conn : TcpConnection) (request : HTTPRequest) (response : HTTPResponse) :
    (handleUpgrade boost handler conn request response).returned = none ↔
      request.method = ascii "GET" ∧ ¬ MalformedKey request ∧
        request.Carries (ascii "Sec-WebSocket-Version") fun value =>
          boost.lexicalCastInt value = none := by
  have isMalformed := check_iff request (ascii "Sec-WebSocket-Key")
    fun value => (base64Decode value).length ≠ 16
  unfold handleUpgrade
  dsimp only
  by_cases method : request.method = ascii "GET"
  · rw [if_neg (not_not_intro method), if_neg (firstCheck_passes request _)]
    by_cases malformed : MalformedKey request
    · rw [if_pos (isMalformed.mpr malformed)]
      simp [malformed]
    · rw [if_neg (mt isMalformed.mp malformed)]
      rw [← checkVersion_eq_none_iff]
      cases version : checkVersion boost
          (request.getHeader (ascii "Sec-WebSocket-Version") []) with
      | none => simp [method, malformed]
      | some supported =>
          cases supported <;> simp [acceptUpgrade]
  · rw [if_pos method]
    simp [method]

/-- The handshake returns, and a refused one has no effect, exactly when no
GET request with a sound key asks for a version that is not a number. -/
theorem handshake_total_iff (boost : Boost)
    (casts : ∀ text, boost.lexicalCastInt text = decimalInt text)
    (handler : DetachedHandler) (conn : TcpConnection) (request : HTTPRequest)
    (response : HTTPResponse) :
    let result := handleUpgrade boost handler conn request response
    ((result.returned = some true ∨ result.returned = some false) ∧
        (result.returned = some false →
          Untouched handler response result)) ↔
      ¬ (request.method = ascii "GET" ∧ ¬ MalformedKey request ∧
        request.Carries (ascii "Sec-WebSocket-Version") fun value =>
          decimalInt value = none) := by
  intro result
  have throws := handleUpgrade_throws_iff boost handler conn request response
  simp only [casts] at throws
  rw [← throws]
  have atomic : result.returned = some false →
      Untouched handler response result := by
    intro refused
    rcases handleUpgrade_cases boost handler conn request response with
      ⟨_, untouched⟩ | ⟨_, isResult⟩
    · exact untouched
    · have accepted : result.returned = some true :=
        congrArg UpgradeResult.returned isResult
      rw [accepted] at refused
      cases refused
  rw [and_iff_left atomic]
  change _ ↔ result.returned ≠ none
  cases result.returned with
  | none => simp
  | some answer => cases answer <;> simp

/-- Boost with the digest of the GUID alone, and decimal numbers. -/
def decimalBoost : Boost := { guidBoost with lexicalCastInt := decimalInt }

/-- A request with a version of 13 is upgraded. -/
theorem numbered_request_answered :
    let request := plainGet.addHeader (ascii "Sec-WebSocket-Version")
      (ascii "13")
    let handler : DetachedHandler := ⟨[], WebsocketCodec.init default⟩
    let response : HTTPResponse := ⟨0, [], ∅, []⟩
    let result :=
      handleUpgrade decimalBoost handler ⟨.connected, 0⟩ request response
    (result.returned = some true ∨ result.returned = some false) ∧
      (result.returned = some false → Untouched handler response result) := by
  intro request handler response result
  refine (handshake_total_iff decimalBoost (fun _ => rfl) handler
    ⟨.connected, 0⟩ request response).mpr ?_
  rintro ⟨-, -, value, found, unreadable⟩
  have version : request.headersMap.find (ascii "Sec-WebSocket-Version") =
      some (ascii "13") := by
    decide +kernel
  rw [version] at found
  cases found
  exact absurd unreadable (by decide)

/-- The version `abc`. -/
theorem wordy_version_throws :
    let request := plainGet.addHeader (ascii "Sec-WebSocket-Version")
      (ascii "abc")
    let result := handleUpgrade decimalBoost
      ⟨[], WebsocketCodec.init default⟩ ⟨.connected, 0⟩ request ⟨0, [], ∅, []⟩
    decimalInt (ascii "abc") = none ∧ result.returned = none := by
  decide +kernel

/-- Lines with CR LF behind each, and an empty line at the end. -/
def headText (lines : List Bytes) : Bytes :=
  lines.flatMap (fun line => line ++ ascii "\r\n") ++ ascii "\r\n"

/-- The part of a header line before the colon. -/
def fieldName (line : Bytes) : Bytes := line.takeWhile (· ≠ 58)

/-- The answer that switches to the WebSocket protocol: each of the three
headers comes once. -/
structure Switches (text accept : Bytes) (headers : List Bytes) : Prop where
  text : text = headText (ascii "HTTP/1.1 101 Switching Protocols" :: headers)
  lines : ∀ line ∈ headers, 13 ∉ line
  upgrade : (headers.filter fun line => fieldName line = ascii "Upgrade") =
    [ascii "Upgrade: websocket"]
  connection : (headers.filter fun line =>
    fieldName line = ascii "Connection") = [ascii "Connection: Upgrade"]
  accept : (headers.filter fun line =>
    fieldName line = ascii "Sec-WebSocket-Accept") =
      [ascii "Sec-WebSocket-Accept: " ++ accept]

/-- The header lines of the answer, in the order of the map. -/
def answerLines (accept : Bytes) : List Bytes :=
  [ascii "Connection: Upgrade", ascii "Content-Length: 0",
    ascii "Sec-WebSocket-Accept: " ++ accept,
    ascii "Sec-WebSocket-Version: 13", ascii "Upgrade: websocket"]

theorem acceptUpgrade_sent {boost : Boost} {hash : Bytes → Bytes}
    (correct : boost.Correct hash) (handler : DetachedHandler)
    (conn : TcpConnection) (request : HTTPRequest) {response : HTTPResponse}
    (key : Bytes) (headers : response.headersMap = ∅)
    (body : response.body = []) :
    (acceptUpgrade boost handler conn request response key
        (ascii "13")).sent =
      [headText (ascii "HTTP/1.1 101 Switching Protocols" ::
        answerLines (base64Encode (hash (key ++ kWebsocketGUID))))] := by
  have status : boost.intToString 101 = ascii "101" := by
    rw [Boost.intToString, correct.castString]
    rfl
  have empty : boost.intToString (([] : Bytes).length) = ascii "0" := by
    rw [Boost.intToString, correct.castString]
    rfl
  obtain ⟨code, message, headersMap, content⟩ := response
  cases headers
  cases body
  simp only [acceptUpgrade, HTTPResponse.finish, HTTPResponse.format,
    HTTPResponse.toText, HTTPResponse.setStatus, HTTPResponse.addHeader,
    correct.sha1, status, empty]
  generalize base64Encode (hash (key ++ kWebsocketGUID)) = accept
  let entries : StringMap :=
    (StringMap.insertPair ∅ (ascii "Upgrade") (ascii "websocket")
      |>.insertPair (ascii "Connection") (ascii "Upgrade")
      |>.insertPair (ascii "Sec-WebSocket-Version") (ascii "13")
      |>.insertPair (ascii "Sec-WebSocket-Accept") accept
      |>.insertPair (ascii "Content-Length") (ascii "0"))
  have firstLine : ascii "HTTP/1.1 " ++ ascii "101" ++ ascii " " ++
      ascii "Switching Protocols" =
        ascii "HTTP/1.1 101 Switching Protocols" := rfl
  have rendered : (entries.toList.flatMap fun entry =>
      entry.1 ++ ascii ": " ++ entry.2 ++ ascii "\r\n") =
        (answerLines accept).flatMap fun line => line ++ ascii "\r\n" := rfl
  rw [firstLine, headText, List.flatMap_cons, List.append_nil]
  exact congrArg (fun headers => [ascii "HTTP/1.1 101 Switching Protocols" ++
    ascii "\r\n" ++ headers ++ ascii "\r\n"]) rendered

theorem switches_answerLines (accept : Bytes) (printable : 13 ∉ accept) :
    Switches (headText (ascii "HTTP/1.1 101 Switching Protocols" ::
      answerLines accept)) accept (answerLines accept) := by
  have name : fieldName (ascii "Sec-WebSocket-Accept: " ++ accept) =
      ascii "Sec-WebSocket-Accept" := rfl
  refine ⟨rfl, ?_, ?_, ?_, ?_⟩
  · intro line member
    simp only [answerLines, List.mem_cons, List.not_mem_nil, or_false]
      at member
    rcases member with rfl | rfl | rfl | rfl | rfl
    · decide
    · decide
    · rw [List.mem_append]
      exact fun inLine => inLine.elim (by decide) printable
    · decide
    · decide
  · rfl
  · rfl
  · rfl

theorem foldl_addSubProtocol_subProtocols (handler : DetachedHandler)
    (protocols : List Bytes) :
    (protocols.foldl addSubProtocol handler).subProtocols =
      handler.subProtocols ++ protocols := by
  induction protocols generalizing handler with
  | nil => simp
  | cons protocol protocols ih =>
      rw [List.foldl_cons, ih]
      simp [addSubProtocol]

/-- The sub-protocols of the request: the elements of the header's value,
stripped. -/
theorem offered_eq {boost : Boost} {hash : Bytes → Bytes}
    (correct : boost.Correct hash) {request : HTTPRequest} {value : Bytes}
    (found : request.headersMap.find (ascii "Sec-WebSocket-Protocol") =
      some value)
    (given : value ≠ []) :
    offered boost request = (value.splitOn 44).map trim := by
  have separator : ascii "," = [44] := rfl
  simp [offered, HTTPRequest.getHeader, found, given, Boost.split, separator,
    correct.split]

theorem not_refused_of_nonce {boost : Boost} {hash : Bytes → Bytes}
    (correct : boost.Correct hash) {request : HTTPRequest} {nonce : Bytes}
    (length : nonce.length = 16) (method : request.method = ascii "GET")
    (key : request.headersMap.find (ascii "Sec-WebSocket-Key") =
      some (base64Encode nonce))
    (version : request.headersMap.find (ascii "Sec-WebSocket-Version") =
      some (ascii "13")) :
    ¬ Refused boost request := by
  have decoded : (base64Decode (base64Encode nonce)).length = 16 := by
    rw [base64Decode_base64Encode (by omega), length]
  rintro (other | ⟨value, found, malformed⟩ | ⟨value, found, unsupported⟩)
  · exact other method
  · rw [key] at found
    cases found
    exact malformed ((length_base64Decode_iff _).mp decoded)
  · rw [version] at found
    cases found
    rw [correct.castInt] at unsupported
    exact unsupported (by decide)

theorem not_mem_base64Encode (bytes : Bytes) : 13 ∉ base64Encode bytes := by
  intro member
  rcases mem_base64Encode member with inAlphabet | padding
  · exact absurd inAlphabet (by decide)
  · exact absurd padding (by decide)

/-- A complete handshake succeeds: the nonce is accepted, the answer has
the three headers, the connection runs the callbacks of this handler, and the
offered sub-protocols are added in order. -/
theorem complete_handshake_upgraded {boost : Boost} {hash : Bytes → Bytes}
    (correct : boost.Correct hash) (handler : DetachedHandler)
    (conn : TcpConnection) (request : HTTPRequest) (response : HTTPResponse)
    (nonce : Bytes) (length : nonce.length = 16)
    (method : request.method = ascii "GET")
    (key : request.headersMap.find (ascii "Sec-WebSocket-Key") =
      some (base64Encode nonce))
    (version : request.headersMap.find (ascii "Sec-WebSocket-Version") =
      some (ascii "13"))
    (headers : response.headersMap = ∅) (body : response.body = []) :
    let result := handleUpgrade boost handler conn request response
    let accept := base64Encode (hash (base64Encode nonce ++ kWebsocketGUID))
    result.returned = some true ∧
    (∃ text headers, result.sent = [text] ∧ Switches text accept headers) ∧
    result.rewired = some ⟨conn, handler.codec⟩ ∧
    (∀ value, request.headersMap.find (ascii "Sec-WebSocket-Protocol") =
        some value → value ≠ [] →
      ∃ added, result.handler.subProtocols = handler.subProtocols ++ added ∧
        List.Forall₂ Strips (value.splitOn 44) added) := by
  have accepted := not_refused_of_nonce correct length method key version
  have isResult := (handleUpgrade_cases boost handler conn request
    response).resolve_left fun refused => accepted refused.1
  have keyValue : (request.getHeader (ascii "Sec-WebSocket-Key") []).2 =
      base64Encode nonce := by
    simp [HTTPRequest.getHeader, key]
  have versionValue :
      (request.getHeader (ascii "Sec-WebSocket-Version") []).2 =
        ascii "13" := by
    simp [HTTPRequest.getHeader, version]
  intro result accept
  have shape : result = acceptUpgrade boost handler conn request response
      (base64Encode nonce) (ascii "13") := by
    rw [← keyValue, ← versionValue]
    exact isResult.2
  rw [shape]
  refine ⟨rfl, ⟨_, answerLines accept, ?_,
    switches_answerLines _ (not_mem_base64Encode _)⟩, ?_, ?_⟩
  · exact acceptUpgrade_sent correct handler conn request _ headers body
  · have codec := foldl_addSubProtocol_codec handler (offered boost request)
    simp [acceptUpgrade, setCallback, codec]
  · intro value found given
    refine ⟨(value.splitOn 44).map trim, ?_, ?_⟩
    · simp only [acceptUpgrade, foldl_addSubProtocol_subProtocols,
        offered_eq correct found given]
    · rw [List.forall₂_map_right_iff, List.forall₂_same]
      intro component _
      exact strips_trim component

/-- The nonce `the sample nonce`, with the digest of its key and the GUID, and
two sub-protocols. -/
theorem sample_nonce_upgraded :
    let hash : Bytes → Bytes := fun _ =>
      [0xb3, 0x7a, 0x4f, 0x2c, 0xc0, 0x62, 0x4f, 0x16, 0x90, 0xf6,
        0x46, 0x06, 0xcf, 0x38, 0x59, 0x45, 0xb2, 0xbe, 0xc4, 0xea]
    let handler : DetachedHandler := ⟨[], WebsocketCodec.init default⟩
    let request :=
      plainGet.addHeader (ascii "Sec-WebSocket-Key")
          (ascii "dGhlIHNhbXBsZSBub25jZQ==")
        |>.addHeader (ascii "Sec-WebSocket-Version") (ascii "13")
        |>.addHeader (ascii "Sec-WebSocket-Protocol") (ascii "chat, log")
    let result := handleUpgrade (.ofHash hash) handler ⟨.connected, 0⟩ request
      ⟨0, [], ∅, []⟩
    result.returned = some true ∧
    (∃ text headers, result.sent = [text] ∧
      Switches text (ascii "s3pPLMBiTxaQ9kYGzzhZRbK+xOo=") headers) ∧
    result.rewired = some ⟨⟨.connected, 0⟩, handler.codec⟩ ∧
    ∃ added, result.handler.subProtocols = added ∧
      List.Forall₂ Strips ((ascii "chat, log").splitOn 44) added := by
  intro hash handler request result
  obtain ⟨returned, sent, rewired, added⟩ := complete_handshake_upgraded
    (@Boost.ofHash_correct hash fun _ => rfl) handler ⟨.connected, 0⟩ request
    ⟨0, [], ∅, []⟩ (ascii "the sample nonce") (by decide) (by decide +kernel)
    (by decide +kernel) (by decide +kernel) rfl rfl
  have accept : base64Encode (hash (base64Encode (ascii "the sample nonce") ++
      kWebsocketGUID)) = ascii "s3pPLMBiTxaQ9kYGzzhZRbK+xOo=" := by
    decide +kernel
  rw [accept] at sent
  exact ⟨returned, sent, rewired,
    added (ascii "chat, log") (by decide +kernel) (by decide)⟩

end DetachedHandler

end Woody
