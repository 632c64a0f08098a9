import Woody.Http.Codec

/-!
# What one message does to the codec

`http_parser` reports a message as pieces of the URL, pieces of the name and
of the value of each header, and pieces of the body.  The codec handles the
pieces of a name or of a value as one; of the URL and of the body it keeps the
last piece.
-/

namespace Woody

/-- A header as it is reported: at least one piece of each part. -/
structure HeaderPieces where
  name : List Bytes
  value : List Bytes
  named : name ≠ []
  valued : value ≠ []

namespace HeaderPieces

/-- The name and the value of the header. -/
def entry (header : HeaderPieces) : Bytes × Bytes :=
  (header.name.flatten, header.value.flatten)

def callbacks (header : HeaderPieces) : List HttpCallback :=
  header.name.map .headerField ++ header.value.map .headerValue

/-- A header with one piece for each part. -/
def whole (entry : Bytes × Bytes) : HeaderPieces where
  name := [entry.1]
  value := [entry.2]
  named := List.cons_ne_nil _ _
  valued := List.cons_ne_nil _ _

@[simp] theorem entry_whole (entry : Bytes × Bytes) :
    (whole entry).entry = entry := by
  simp [HeaderPieces.entry, whole]

end HeaderPieces

/-- A request as it is reported. -/
structure Message where
  method : Bytes
  upgrade : Bool
  url : List Bytes
  headers : List HeaderPieces
  body : List Bytes

/-- The order of the callbacks is that of the message. -/
def Message.callbacks (message : Message) : List HttpCallback :=
  .messageBegin :: message.url.map .url ++
    message.headers.flatMap HeaderPieces.callbacks ++
    .headersComplete message.method message.upgrade ::
    message.body.map .body ++ [.messageComplete]

/-- The last piece, or what was there before. -/
def lastPiece (old : Bytes) (pieces : List Bytes) : Bytes :=
  pieces.getLast?.getD old

/-- The name and the value of every header. -/
def Message.entries (message : Message) : List (Bytes × Bytes) :=
  message.headers.map HeaderPieces.entry

namespace HTTPRequest

/-- The parameters that `ParseUrl` finds. -/
def params (url : Bytes) : StringMap :=
  (init.setUrl url).parseUrl.methodGetParams

theorem parseUrl_eq {request : HTTPRequest}
    (clean : request.methodGetParams = ∅) :
    request.parseUrl =
      { request with methodGetParams := params request.url } := by
  unfold params parseUrl init setUrl
  cases behind : request.url.dropWhile (· ≠ 63) with
  | nil =>
      cases request
      simp_all
  | cons mark query => simp [clean]

end HTTPRequest

namespace HTTPCodec

theorem onCallbacks_append (codec : HTTPCodec)
    (early late : List HttpCallback) :
    codec.onCallbacks (early ++ late) =
      let first := codec.onCallbacks early
      let later := first.1.onCallbacks late
      (later.1, first.2 ++ later.2) := by
  induction early generalizing codec with
  | nil => rfl
  | cons callback early ih =>
      simp only [List.cons_append, onCallbacks, ih, List.append_assoc]

theorem requestsOf_eq (parser : HttpParser) (parserState : parser.State)
    (codec : HTTPCodec) (reads : List Bytes) :
    requestsOf parser parserState codec reads =
      (codec.onCallbacks (parser.callbacks parserState reads)).2 := by
  induction reads generalizing parserState codec with
  | nil => rfl
  | cons data reads ih =>
      rw [requestsOf, HttpParser.callbacks, onCallbacks_append, ih]
      rfl

section Pieces

variable {callback : Bytes → HttpCallback}
  {handle : HTTPCodec → Bytes → HTTPCodec}

/-- A callback that replaces what is there keeps the last piece. -/
theorem onCallbacks_replacing
    (handles : ∀ codec data,
      codec.onCallback (callback data) = (handle codec data, none))
    (replaced : ∀ codec first second,
      handle (handle codec first) second = handle codec second)
    {codec : HTTPCodec} {old : Bytes} (kept : handle codec old = codec)
    (pieces : List Bytes) :
    codec.onCallbacks (pieces.map callback) =
      (handle codec (lastPiece old pieces), []) := by
  induction pieces generalizing codec old with
  | nil => exact congrArg (·, []) kept.symm
  | cons piece pieces ih =>
      have last : lastPiece old (piece :: pieces) = lastPiece piece pieces := by
        simp [lastPiece, List.getLast?_cons]
      rw [List.map_cons, onCallbacks, handles, ih (replaced codec piece piece),
        replaced, last]
      rfl

/-- A callback that appends to what is there handles the pieces as one. -/
theorem onCallbacks_joining
    (handles : ∀ codec data,
      codec.onCallback (callback data) = (handle codec data, none))
    {codec : HTTPCodec}
    (joined : ∀ first second,
      handle (handle codec first) second = handle codec (first ++ second))
    {pieces : List Bytes} (some : pieces ≠ []) :
    codec.onCallbacks (pieces.map callback) =
      (handle codec pieces.flatten, []) := by
  obtain ⟨first, later, rfl⟩ := List.exists_cons_of_ne_nil some
  clear some
  induction later generalizing first with
  | nil => simp [onCallbacks, handles]
  | cons second later ih =>
      have step := ih (first ++ second)
      simp only [List.map_cons, onCallbacks, handles, Option.toList_none,
        List.nil_append, List.flatten_cons, List.append_assoc] at step ⊢
      rw [joined]
      exact step

end Pieces

theorem onCallbacks_url (codec : HTTPCodec) (pieces : List Bytes) :
    codec.onCallbacks (pieces.map .url) =
      (codec.onUrl (lastPiece codec.request.url pieces), []) := by
  apply onCallbacks_replacing
  · exact fun _ _ => rfl
  · exact fun _ _ _ => rfl
  · rfl

theorem onCallbacks_body (codec : HTTPCodec) (pieces : List Bytes) :
    codec.onCallbacks (pieces.map .body) =
      (codec.onBody (lastPiece codec.request.body pieces), []) := by
  apply onCallbacks_replacing
  · exact fun _ _ => rfl
  · exact fun _ _ _ => rfl
  · rfl

theorem onHeaderField_state (codec : HTTPCodec) (data : Bytes) :
    (codec.onHeaderField data).parseState = .name :=
  rfl

theorem onHeaderField_joined {codec : HTTPCodec}
    (begun : codec.parseState ≠ .nothing) (first second : Bytes) :
    (codec.onHeaderField first).onHeaderField second =
      codec.onHeaderField (first ++ second) := by
  unfold onHeaderField
  cases state : codec.parseState with
  | nothing => exact (begun state).elim
  | begin | name | value => simp

theorem onHeaderValue_joined {codec : HTTPCodec}
    (named : codec.parseState = .name) (first second : Bytes) :
    (codec.onHeaderValue first).onHeaderValue second =
      codec.onHeaderValue (first ++ second) := by
  unfold onHeaderValue
  simp [named]

theorem onCallbacks_headerField {codec : HTTPCodec}
    (begun : codec.parseState ≠ .nothing) {pieces : List Bytes}
    (named : pieces ≠ []) :
    codec.onCallbacks (pieces.map .headerField) =
      (codec.onHeaderField pieces.flatten, []) :=
  onCallbacks_joining (fun _ _ => rfl) (onHeaderField_joined begun) named

theorem onCallbacks_headerValue {codec : HTTPCodec}
    (named : codec.parseState = .name) {pieces : List Bytes}
    (valued : pieces ≠ []) :
    codec.onCallbacks (pieces.map .headerValue) =
      (codec.onHeaderValue pieces.flatten, []) :=
  onCallbacks_joining (fun _ _ => rfl) (onHeaderValue_joined named) valued

theorem onCallbacks_header {codec : HTTPCodec}
    (begun : codec.parseState ≠ .nothing) (header : HeaderPieces) :
    codec.onCallbacks header.callbacks =
      ((codec.onHeaderField header.entry.1).onHeaderValue header.entry.2,
        []) := by
  unfold HeaderPieces.callbacks
  rw [onCallbacks_append, onCallbacks_headerField begun header.named]
  dsimp only
  rw [onCallbacks_headerValue (onHeaderField_state _ _) header.valued]
  rfl

theorem onHeader_value {codec : HTTPCodec}
    (valued : codec.parseState = .value) (entry : Bytes × Bytes) :
    (codec.onHeaderField entry.1).onHeaderValue entry.2 =
      { codec with
        curHeaderName := entry.1
        curHeaderValue := entry.2
        request :=
          codec.request.addHeader codec.curHeaderName
            codec.curHeaderValue } := by
  simp [onHeaderField, onHeaderValue, valued]

theorem onHeader_begin {codec : HTTPCodec}
    (begun : codec.parseState = .begin) (entry : Bytes × Bytes) :
    (codec.onHeaderField entry.1).onHeaderValue entry.2 =
      { codec with
        parseState := .value
        curHeaderName := codec.curHeaderName ++ entry.1
        curHeaderValue := entry.2 } := by
  simp [onHeaderField, onHeaderValue, begun]

/-- Behind its first header the codec holds the entry that was read last; the
entries before it are in the request. -/
theorem onCallbacks_headers {codec : HTTPCodec}
    (valued : codec.parseState = .value) (headers : List HeaderPieces) :
    let current := (codec.curHeaderName, codec.curHeaderValue)
    let entries := headers.map HeaderPieces.entry
    codec.onCallbacks (headers.flatMap HeaderPieces.callbacks) =
      ({ codec with
          curHeaderName := (entries.getLastD current).1
          curHeaderValue := (entries.getLastD current).2
          request :=
            { codec.request with
              headersMap :=
                codec.request.headersMap.insertAll
                  (current :: entries).dropLast } }, []) := by
  induction headers generalizing codec with
  | nil => rfl
  | cons header headers ih =>
      have begun : codec.parseState ≠ .nothing := by simp [valued]
      rw [List.flatMap_cons, onCallbacks_append, onCallbacks_header begun,
        onHeader_value valued]
      dsimp only
      rw [ih (by exact valued)]
      simp only [List.nil_append, List.map_cons, List.getLastD_cons,
        List.dropLast_cons_cons, Prod.mk.eta]
      rfl

/-- A codec between two messages: it keeps the current header and the body. -/
structure Between (codec : HTTPCodec) (name value body : Bytes) : Prop where
  name : codec.curHeaderName = name
  value : codec.curHeaderValue = value
  request : codec.request = HTTPRequest.init.setBody body

theorem between_init : Between init [] [] [] :=
  ⟨rfl, rfl, rfl⟩

/-- The entries that a message adds: the name of its first header continues
the name that the codec kept, and without headers the kept header is added. -/
def added (name value : Bytes) :
    List (Bytes × Bytes) → List (Bytes × Bytes)
  | [] => [(name, value)]
  | entry :: entries => (name ++ entry.1, entry.2) :: entries

/-- The request that the callbacks of a message complete. -/
def completed (name value body : Bytes) (message : Message) : HTTPRequest where
  isUpgrade := message.upgrade
  method := message.method
  url := lastPiece [] message.url
  headersMap := StringMap.insertAll ∅ (added name value message.entries)
  methodGetParams := HTTPRequest.params (lastPiece [] message.url)
  body := lastPiece body message.body

theorem added_ne_nil (name value : Bytes) (entries : List (Bytes × Bytes)) :
    added name value entries ≠ [] := by
  cases entries with
  | nil => exact List.cons_ne_nil _ _
  | cons entry entries => exact List.cons_ne_nil _ _

/-- All entries but the last are in the request, the last one is current. -/
theorem onCallbacks_allHeaders {codec : HTTPCodec}
    (begun : codec.parseState = .begin) (headers : List HeaderPieces) :
    let entries :=
      added codec.curHeaderName codec.curHeaderValue
        (headers.map HeaderPieces.entry)
    ∃ state,
      codec.onCallbacks (headers.flatMap HeaderPieces.callbacks) =
        ({ parseState := state
           curHeaderName := (entries.getLastD ([], [])).1
           curHeaderValue := (entries.getLastD ([], [])).2
           request :=
             { codec.request with
               headersMap :=
                 codec.request.headersMap.insertAll entries.dropLast } },
          []) := by
  cases headers with
  | nil => exact ⟨codec.parseState, rfl⟩
  | cons header headers =>
      have started : codec.parseState ≠ .nothing := by simp [begun]
      refine ⟨.value, ?_⟩
      rw [List.flatMap_cons, onCallbacks_append, onCallbacks_header started,
        onHeader_begin begun]
      dsimp only
      rw [onCallbacks_headers rfl]
      simp only [List.nil_append, List.map_cons, added, List.getLastD_cons]

theorem insertAll_last (map : StringMap) {entries : List (Bytes × Bytes)}
    (some : entries ≠ []) :
    (map.insertAll entries.dropLast).insertPair
        (entries.getLastD ([], [])).1 (entries.getLastD ([], [])).2 =
      map.insertAll entries := by
  rw [← StringMap.insertAll_concat, List.getLastD_eq_getLast?,
    List.getLast?_eq_some_getLast some, Option.getD_some,
    List.dropLast_concat_getLast]

theorem onCallbacks_start {codec : HTTPCodec} {name value body : Bytes}
    (between : Between codec name value body) (url : List Bytes) :
    codec.onCallbacks (.messageBegin :: url.map .url) =
      ({ parseState := .begin
         curHeaderName := name
         curHeaderValue := value
         request :=
           (HTTPRequest.init.setBody body).setUrl (lastPiece [] url) },
        []) := by
  rcases between with ⟨rfl, rfl, request⟩
  rw [onCallbacks, onCallback, onCallbacks_url]
  simp only [onMessageBegin, request]
  rfl

theorem onHeadersComplete_eq {codec : HTTPCodec}
    (clean : codec.request.methodGetParams = ∅)
    (plain : codec.request.isUpgrade = false) (method : Bytes)
    (upgrade : Bool) :
    codec.onHeadersComplete method upgrade =
      { codec with
        request :=
          { codec.request with
            isUpgrade := upgrade
            method := method
            headersMap :=
              codec.request.headersMap.insertPair codec.curHeaderName
                codec.curHeaderValue
            methodGetParams := HTTPRequest.params codec.request.url } } := by
  unfold onHeadersComplete
  dsimp only
  rw [HTTPRequest.parseUrl_eq (by exact clean)]
  cases upgrade with
  | true => rfl
  | false => simp [HTTPRequest.setMethod, HTTPRequest.addHeader, plain]

theorem onCallbacks_rest {codec : HTTPCodec}
    (clean : codec.request.methodGetParams = ∅)
    (plain : codec.request.isUpgrade = false) (method : Bytes)
    (upgrade : Bool) (body : List Bytes) :
    let complete := codec.onHeadersComplete method upgrade
    let request :=
      complete.request.setBody (lastPiece codec.request.body body)
    codec.onCallbacks
        (.headersComplete method upgrade :: body.map .body ++
          [.messageComplete]) =
      ({ complete with request := request.cleanUp }, [request]) := by
  rw [List.cons_append, onCallbacks, onCallback, onCallbacks_append,
    onCallbacks_body]
  simp only [onHeadersComplete_eq clean plain]
  rfl

/-- What a message completes, and what the codec keeps behind it. -/
theorem onCallbacks_message {codec : HTTPCodec} {name value body : Bytes}
    (between : Between codec name value body) (message : Message) :
    ∃ next,
      codec.onCallbacks message.callbacks =
        (next, [completed name value body message]) ∧
      let last := (added name value message.entries).getLastD ([], [])
      Between next last.1 last.2 (lastPiece body message.body) := by
  have phases : message.callbacks =
      (.messageBegin :: message.url.map .url) ++
        (message.headers.flatMap HeaderPieces.callbacks ++
          (.headersComplete message.method message.upgrade ::
            message.body.map .body ++ [.messageComplete])) := by
    simp [Message.callbacks]
  obtain ⟨state, headers⟩ :=
    @onCallbacks_allHeaders
      { parseState := .begin
        curHeaderName := name
        curHeaderValue := value
        request :=
          (HTTPRequest.init.setBody body).setUrl (lastPiece [] message.url) }
      rfl message.headers
  rw [phases, onCallbacks_append, onCallbacks_start between]
  dsimp only
  rw [onCallbacks_append, headers]
  dsimp only
  rw [onCallbacks_rest rfl rfl, onHeadersComplete_eq rfl rfl]
  dsimp only
  rw [insertAll_last _ (added_ne_nil _ _ _)]
  exact ⟨_, rfl, rfl, rfl, rfl⟩

theorem alone (message : Message) :
    (init.onCallbacks message.callbacks).2 = [completed [] [] [] message] := by
  obtain ⟨next, runs, _⟩ := onCallbacks_message between_init message
  rw [runs]

end HTTPCodec

end Woody
