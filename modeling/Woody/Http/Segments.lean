import Woody.Http.Message
import Woody.HttpParser.Execute

/-!
# Segmentation of a message

`http_parser` may report every part of a message in any number of pieces.
The pieces of a header are put together.  Of the URL and of the body the codec
keeps the last piece, so the pieces in front of it are lost unless they are
empty.
-/

namespace Woody

/-- The pieces as one piece, if there are any. -/
def joined (pieces : List Bytes) : List Bytes :=
  if pieces = [] then [] else [pieces.flatten]

def HeaderPieces.joined (header : HeaderPieces) : HeaderPieces where
  name := [header.name.flatten]
  value := [header.value.flatten]
  named := List.cons_ne_nil _ _
  valued := List.cons_ne_nil _ _

/-- The message as it is reported when nothing of it is cut. -/
def Message.joined (message : Message) : Message where
  method := message.method
  upgrade := message.upgrade
  url := Woody.joined message.url
  headers := message.headers.map HeaderPieces.joined
  body := Woody.joined message.body

namespace HTTPCodec

/-- The callbacks of the first message up to the end of its headers. -/
def headCallbacks (url : List Bytes) (headers : List HeaderPieces)
    (method : Bytes) (upgrade : Bool) : List HttpCallback :=
  .messageBegin :: url.map .url ++
    headers.flatMap HeaderPieces.callbacks ++
    [.headersComplete method upgrade]

theorem headersMap_of_head (url : List Bytes) (headers : List HeaderPieces)
    (method : Bytes) (upgrade : Bool) :
    (init.onCallbacks
        (headCallbacks url headers method upgrade)).1.request.headersMap =
      StringMap.insertAll ∅ (added [] [] (headers.map HeaderPieces.entry)) := by
  have phases : headCallbacks url headers method upgrade =
      (.messageBegin :: url.map .url) ++
        (headers.flatMap HeaderPieces.callbacks ++
          [.headersComplete method upgrade]) := by
    simp [headCallbacks]
  obtain ⟨state, handled⟩ :=
    @onCallbacks_allHeaders
      { parseState := .begin
        curHeaderName := []
        curHeaderValue := []
        request := (HTTPRequest.init.setBody []).setUrl (lastPiece [] url) }
      rfl headers
  rw [phases, onCallbacks_append, onCallbacks_start between_init]
  dsimp only
  rw [onCallbacks_append, handled]
  dsimp only
  rw [onCallbacks, onCallback, onHeadersComplete_eq rfl rfl]
  exact insertAll_last _ (added_ne_nil _ _ _)

/-- Header assembly does not depend on how names and values are cut: the
first value of every name is found, whole, and nothing else. -/
theorem cut_headers_assembled (entries : List (Bytes × Bytes))
    (some : entries ≠ []) (url : List Bytes) (headers : List HeaderPieces)
    (cut : headers.map HeaderPieces.entry = entries) (method : Bytes)
    (upgrade : Bool) (name : Bytes) :
    (init.onCallbacks (headCallbacks url headers method
        upgrade)).1.request.headersMap.find name = entries.lookup name := by
  have first : added [] [] entries = entries := by
    cases entries with
    | nil => exact (some rfl).elim
    | cons entry entries => rfl
  rw [headersMap_of_head, cut, first, StringMap.find_insertAll,
    StringMap.find_empty, Option.none_or]

/-- A name in three pieces, one of them empty, an empty value, and a second
header of the same name. -/
theorem host_assembled :
    let headers : List HeaderPieces :=
      [⟨[ascii "Ho", [], ascii "st"], [ascii "a", ascii "b"], by simp, by simp⟩,
        ⟨[ascii "Empty"], [[]], by simp, by simp⟩,
        ⟨[ascii "Host"], [ascii "c"], by simp, by simp⟩]
    (init.onCallbacks (headCallbacks [ascii "/"] headers (ascii "GET")
      false)).1.request.headersMap.find (ascii "Host") = some (ascii "ab") := by
  intro headers
  exact cut_headers_assembled
    [(ascii "Host", ascii "ab"), (ascii "Empty", []), (ascii "Host", ascii "c")]
    (by simp) [ascii "/"] headers (by decide +kernel) (ascii "GET") false
    (ascii "Host")

/-- One request each, with the same URL, parameters and body. -/
def SameContent (left right : List HTTPRequest) : Prop :=
  ∃ request other, left = [request] ∧ right = [other] ∧
    request.url = other.url ∧
    request.methodGetParams = other.methodGetParams ∧
    request.body = other.body

/-- All pieces in front of the last one are empty. -/
def LastOnly (pieces : List Bytes) : Prop :=
  ∀ piece ∈ pieces.dropLast, piece = []

theorem lastPiece_joined (pieces : List Bytes) :
    lastPiece [] (joined pieces) = pieces.flatten := by
  unfold joined
  split
  next none => simp [none, lastPiece]
  next => simp [lastPiece]

theorem lastPiece_eq_flatten_iff (pieces : List Bytes) :
    lastPiece [] pieces = pieces.flatten ↔ LastOnly pieces := by
  rcases List.eq_nil_or_concat pieces with rfl | ⟨front, last, rfl⟩
  · simp [lastPiece, LastOnly]
  · simp [lastPiece, LastOnly]

/-- The content of the request does not depend on the segmentation if and only
if all pieces of the URL and of the body but the last ones are empty. -/
theorem content_segmented_iff (parser : HttpParser) (reads : List Bytes)
    (whole : Bytes) (message : Message)
    (cut : parser.callbacks parser.init reads = message.callbacks)
    (atOnce :
      parser.callbacks parser.init [whole] = message.joined.callbacks) :
    SameContent (requestsOf parser parser.init init reads)
        (requestsOf parser parser.init init [whole]) ↔
      LastOnly message.url ∧ LastOnly message.body := by
  rw [requestsOf_eq, requestsOf_eq, cut, atOnce, alone, alone,
    ← lastPiece_eq_flatten_iff, ← lastPiece_eq_flatten_iff,
    ← lastPiece_joined, ← lastPiece_joined]
  constructor
  · rintro ⟨request, other, isRequest, isOther, url, _, body⟩
    rw [List.cons.injEq] at isRequest isOther
    rw [← isRequest.1, ← isOther.1] at url body
    exact ⟨url, body⟩
  · rintro ⟨url, body⟩
    exact ⟨_, _, rfl, rfl, url, congrArg HTTPRequest.params url, body⟩

/-- A `POST` of `hi` whose body comes in pieces. -/
def post (body : List Bytes) : Message where
  method := ascii "POST"
  upgrade := false
  url := [ascii "/"]
  headers := [⟨[ascii "Content-Length"], [ascii "2"], by simp, by simp⟩]
  body := body

def postHead : Bytes := ascii "POST / HTTP/1.1\r\nContent-Length: 2\r\n\r\n"

/-- A cut between the header and the body does no harm. -/
theorem body_apart_agrees :
    SameContent
      (requestsOf httpParser httpParser.init init [postHead, ascii "hi"])
      (requestsOf httpParser httpParser.init init [postHead ++ ascii "hi"]) :=
  (content_segmented_iff httpParser [postHead, ascii "hi"]
    (postHead ++ ascii "hi") (post [ascii "hi"]) (by decide +kernel)
    (by decide +kernel)).mpr
      ⟨by simp [LastOnly, post], by simp [LastOnly, post]⟩

/-- Of a body that is cut in the middle only the end is delivered. -/
theorem cut_body_truncated :
    let message := post [ascii "h", ascii "i"]
    let reads := [postHead ++ ascii "h", ascii "i"]
    let whole := postHead ++ ascii "hi"
    httpParser.callbacks httpParser.init reads = message.callbacks ∧
      httpParser.callbacks httpParser.init [whole] =
        message.joined.callbacks ∧
      ¬ SameContent (requestsOf httpParser httpParser.init init reads)
        (requestsOf httpParser httpParser.init init [whole]) := by
  intro message reads whole
  refine ⟨by decide +kernel, by decide +kernel, ?_⟩
  rintro ⟨request, other, isRequest, isOther, _, _, same⟩
  have bodies : (requestsOf httpParser httpParser.init init reads).map
        HTTPRequest.body =
      (requestsOf httpParser httpParser.init init [whole]).map
        HTTPRequest.body := by
    rw [isRequest, isOther, List.map_singleton, List.map_singleton, same]
  exact absurd bodies (by decide +kernel)

end HTTPCodec

end Woody
