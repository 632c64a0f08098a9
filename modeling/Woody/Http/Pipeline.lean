import Woody.Http.Isolation
import Woody.HttpParser.Requests

/-!
# Pipelines at the codec

`http_parser` reports a pipeline of requests in the order that the codec
expects, each part in some pieces.  What the codec completes can then be said
of the text that a connection receives, however it is cut into reads.
-/

namespace Woody

namespace HttpCallback

theorem exists_of_glue {first second glued : HttpCallback}
    (glues : gluing.glue first second = some glued) :
    ∃ (token : Token) (front behind : Bytes), first = token.callback front ∧
      second = token.callback behind ∧
      glued = token.callback (front ++ behind) := by
  cases first <;> cases second <;> cases glues
  · exact ⟨.url, _, _, rfl, rfl, rfl⟩
  · exact ⟨.headerField, _, _, rfl, rfl, rfl⟩
  · exact ⟨.headerValue, _, _, rfl, rfl, rfl⟩
  · exact ⟨.body, _, _, rfl, rfl, rfl⟩

theorem callback_inj {token other : Token} {data more : Bytes}
    (same : token.callback data = other.callback more) :
    token = other ∧ data = more := by
  cases token <;> cases other <;> cases same <;> exact ⟨rfl, rfl⟩

/-- The parts that are glued to a token are pieces of it. -/
theorem exists_pieces {token : Token} {data : Bytes}
    {part : List HttpCallback}
    (same : gluing.join part = [token.callback data]) :
    ∃ pieces, pieces ≠ [] ∧ part = pieces.map token.callback ∧
      pieces.flatten = data := by
  induction part generalizing data with
  | nil => cases same
  | cons first later ih =>
      rcases Gluing.parts_of_join_eq_singleton same with
        alone | ⟨_, second, _, split, behind, glued⟩
      · cases alone
        exact ⟨[data], List.cons_ne_nil _ _, rfl, by simp⟩
      · cases split
        obtain ⟨other, front, more, rfl, rfl, parts⟩ := exists_of_glue glued
        obtain ⟨rfl, rfl⟩ := callback_inj parts
        obtain ⟨pieces, -, rfl, rfl⟩ := ih behind
        exact ⟨front :: pieces, List.cons_ne_nil _ _, rfl, rfl⟩

/-- A callback that has no pieces. -/
def Whole (callback : HttpCallback) : Prop :=
  ∀ (token : Token) (data : Bytes), callback ≠ token.callback data

theorem whole_messageBegin : Whole .messageBegin := by
  intro token data same
  cases token <;> cases same

theorem whole_headersComplete (method : Bytes) (upgrade : Bool) :
    Whole (.headersComplete method upgrade) := by
  intro token data same
  cases token <;> cases same

theorem whole_messageComplete : Whole .messageComplete := by
  intro token data same
  cases token <;> cases same

theorem Whole.join_append_cons {callback : HttpCallback}
    (whole : Whole callback) (early late : List HttpCallback) :
    gluing.join (early ++ callback :: late) =
      gluing.join early ++ callback :: gluing.join late := by
  apply Gluing.join_append_cons
  intro other
  constructor
  · rw [Option.eq_none_iff_forall_ne_some]
    intro glued glues
    obtain ⟨token, -, data, -, same, -⟩ := exists_of_glue glues
    exact whole token data same
  · rw [Option.eq_none_iff_forall_ne_some]
    intro glued glues
    obtain ⟨token, data, -, same, -, -⟩ := exists_of_glue glues
    exact whole token data same

theorem Whole.part_eq {callback : HttpCallback} (whole : Whole callback)
    {part : List HttpCallback} (same : gluing.join part = [callback]) :
    part = [callback] := by
  rcases Gluing.parts_of_join_eq_singleton same with
    alone | ⟨_, _, _, -, -, glued⟩
  · exact alone
  · obtain ⟨token, front, more, -, -, parts⟩ := exists_of_glue glued
    exact (whole token _ parts).elim

end HttpCallback

/-- The bytes of a content, without what frames them. -/
def Content.bytes : Content → Bytes
  | .whole bytes => bytes
  | .chunked chunks _ => chunks.flatMap Chunk.data

/-- The report of a body in one piece. -/
def bodyOf (bytes : Bytes) : List HttpCallback :=
  if bytes = [] then [] else [.body bytes]

open HttpCallback (gluing)

theorem Content.join_callbacks (content : Content) :
    gluing.join content.callbacks = bodyOf content.bytes := by
  unfold bodyOf
  cases content with
  | whole body =>
      unfold callbacks bytes
      dsimp only
      split_ifs <;> rfl
  | chunked chunks line =>
      unfold callbacks bytes
      dsimp only
      cases chunks with
      | nil => rfl
      | cons chunk chunks =>
          have some : (chunk :: chunks).flatMap Chunk.data ≠ [] := by
            rw [List.flatMap_cons]
            exact List.append_ne_nil_of_left_ne_nil chunk.some _
          have parts := HttpCallback.alike_parts .body chunk.data
            (chunks.map Chunk.data)
          rw [if_neg some, List.flatMap_cons, List.flatMap_def]
          rw [List.map_map] at parts
          exact parts

namespace PlainRequest

/-- The name and the value of every header line. -/
def entries (request : PlainRequest) : List (Bytes × Bytes) :=
  request.lines.map fun line => (line.name, line.value)

/-- A request as it is reported, every part in one piece. -/
def told (request : PlainRequest) : List HttpCallback :=
  .messageBegin :: (.url request.url ::
    request.lines.flatMap HeaderLine.callbacks ++
      .headersComplete request.method.string false ::
        (bodyOf request.content.bytes ++ [.messageComplete]))

/-- A message that reports the request, in whatever pieces. -/
structure Conveyed (request : PlainRequest) (message : Message) : Prop where
  method : message.method = request.method.string
  upgrade : message.upgrade = false
  url : message.url.flatten = request.url
  entries : message.entries = request.entries
  body : message.body.flatten = request.content.bytes

/-- The request behind takes nothing over from the request in front of it. -/
def Unmixed (front behind : PlainRequest) : Prop :=
  HTTPCodec.Harmless (front.entries.getLastD ([], [])).1 behind.entries ∧
    (behind.content.bytes ≠ [] ∨ front.content.bytes = [])

theorem join_lines (lines : List HeaderLine) :
    gluing.join (lines.flatMap HeaderLine.callbacks) =
      lines.flatMap HeaderLine.callbacks := by
  induction lines with
  | nil => rfl
  | cons line lines ih =>
      change gluing.cons _ (gluing.cons _
        (gluing.join (lines.flatMap HeaderLine.callbacks))) = _
      rw [ih]
      cases lines with
      | nil => rfl
      | cons next lines => rfl

theorem join_callbacks (requests : List PlainRequest) :
    gluing.join (requests.flatMap callbacks) = requests.flatMap told := by
  induction requests with
  | nil => rfl
  | cons request requests ih =>
      have located : gluing.join (.url request.url ::
          request.lines.flatMap HeaderLine.callbacks) =
            .url request.url :: request.lines.flatMap HeaderLine.callbacks := by
        rw [Gluing.join, join_lines]
        cases request.lines <;> rfl
      have split : (request :: requests).flatMap callbacks =
          [] ++ .messageBegin :: (.url request.url ::
            request.lines.flatMap HeaderLine.callbacks ++
              .headersComplete request.method.string false ::
                (request.content.callbacks ++ .messageComplete ::
                  requests.flatMap callbacks)) := by
        simp [callbacks]
      rw [split, HttpCallback.whole_messageBegin.join_append_cons,
        (HttpCallback.whole_headersComplete _ _).join_append_cons,
        HttpCallback.whole_messageComplete.join_append_cons, located,
        Content.join_callbacks, ih]
      simp [told, Gluing.join]

theorem exists_headers {lines : List HeaderLine} {part : List HttpCallback}
    (same : gluing.join part = lines.flatMap HeaderLine.callbacks) :
    ∃ headers : List HeaderPieces,
      part = headers.flatMap HeaderPieces.callbacks ∧
        headers.map HeaderPieces.entry =
          lines.map fun line => (line.name, line.value) := by
  induction lines generalizing part with
  | nil => exact ⟨[], Gluing.join_eq_nil_iff.mp same, rfl⟩
  | cons line lines ih =>
      obtain ⟨_, _, rfl, field, behind⟩ := Gluing.exists_of_join_eq_cons same
      obtain ⟨_, _, rfl, value, later⟩ := Gluing.exists_of_join_eq_cons behind
      obtain ⟨name, named, rfl, isName⟩ :=
        @HttpCallback.exists_pieces .headerField _ _ field
      obtain ⟨text, valued, rfl, isText⟩ :=
        @HttpCallback.exists_pieces .headerValue _ _ value
      obtain ⟨headers, rfl, entries⟩ := ih later
      refine ⟨⟨name, text, named, valued⟩ :: headers, ?_, ?_⟩
      · rw [List.flatMap_cons, ← List.append_assoc]
        rfl
      · rw [List.map_cons, List.map_cons, entries, HeaderPieces.entry, isName,
          isText]

theorem exists_body {bytes : Bytes} {part : List HttpCallback}
    (same : gluing.join part = bodyOf bytes) :
    ∃ pieces : List Bytes, part = pieces.map .body ∧ pieces.flatten = bytes := by
  unfold bodyOf at same
  split_ifs at same with empty
  · exact ⟨[], Gluing.join_eq_nil_iff.mp same, empty.symm⟩
  · obtain ⟨pieces, -, isPart, isBytes⟩ :=
      @HttpCallback.exists_pieces .body _ _ same
    exact ⟨pieces, isPart, isBytes⟩

theorem exists_message {request : PlainRequest} {part : List HttpCallback}
    (same : gluing.join part = request.told) :
    ∃ message, request.Conveyed message ∧ part = message.callbacks := by
  obtain ⟨_, _, rfl, begins, same⟩ := Gluing.exists_of_join_eq_cons same
  obtain ⟨_, _, rfl, front, same⟩ := Gluing.exists_of_join_eq_append same
  obtain ⟨_, _, rfl, complete, same⟩ := Gluing.exists_of_join_eq_cons same
  obtain ⟨_, _, rfl, body, ends⟩ := Gluing.exists_of_join_eq_append same
  obtain ⟨_, _, rfl, located, lines⟩ := Gluing.exists_of_join_eq_cons front
  obtain ⟨url, -, rfl, isUrl⟩ := @HttpCallback.exists_pieces .url _ _ located
  obtain ⟨headers, rfl, entries⟩ := exists_headers lines
  obtain ⟨pieces, rfl, isBody⟩ := exists_body body
  rw [HttpCallback.whole_messageBegin.part_eq begins,
    (HttpCallback.whole_headersComplete _ _).part_eq complete,
    HttpCallback.whole_messageComplete.part_eq ends]
  refine ⟨⟨request.method.string, false, url, headers, pieces⟩,
    ⟨rfl, rfl, isUrl, entries, isBody⟩, ?_⟩
  simp [Message.callbacks, Token.callback]

theorem exists_messages {requests : List PlainRequest}
    {reported : List HttpCallback}
    (same : gluing.join reported = requests.flatMap told) :
    ∃ messages, List.Forall₂ Conveyed requests messages ∧
      reported = messages.flatMap Message.callbacks := by
  induction requests generalizing reported with
  | nil => exact ⟨[], .nil, Gluing.join_eq_nil_iff.mp same⟩
  | cons request requests ih =>
      obtain ⟨part, later, rfl, first, behind⟩ :=
        Gluing.exists_of_join_eq_append same
      obtain ⟨message, conveyed, rfl⟩ := exists_message first
      obtain ⟨messages, rest, rfl⟩ := ih behind
      exact ⟨message :: messages, .cons conveyed rest, rfl⟩

end PlainRequest

/-- A connection that receives the text of a pipeline, whose headers are not
too long for the reads. -/
structure Receives (reads : List Bytes) (requests : List PlainRequest) :
    Prop where
  areReads : CountingParser.AreReads reads
  alive : ∀ request ∈ requests.dropLast, request.keepsAlive
  text : reads.flatten = requests.flatMap PlainRequest.text
  fits : (CountingParser.init.feed reads).HeaderFits

namespace HTTPCodec

variable {reads : List Bytes} {requests : List PlainRequest}

/-- The parser reports a pipeline as messages that convey it. -/
theorem pipeline_reported (receives : Receives reads requests) :
    ∃ messages, List.Forall₂ PlainRequest.Conveyed requests messages ∧
      httpParser.callbacks httpParser.init reads =
        messages.flatMap Message.callbacks := by
  obtain ⟨running, -, alike⟩ := CountingParser.pipeline_fed receives.areReads
    receives.alive receives.text receives.fits
  have reported := CountingParser.callbacks_feed running
  apply PlainRequest.exists_messages
  calc gluing.join (httpParser.callbacks httpParser.init reads)
      = gluing.join (CountingParser.init.feed reads).callbacks :=
        congrArg gluing.join reported
    _ = gluing.join (requests.flatMap PlainRequest.callbacks) := alike
    _ = requests.flatMap PlainRequest.told := PlainRequest.join_callbacks _

theorem pipeline_completed (receives : Receives reads requests) :
    ∃ messages, List.Forall₂ PlainRequest.Conveyed requests messages ∧
      requestsOf httpParser httpParser.init init reads =
        delivered [] [] [] messages := by
  obtain ⟨messages, conveyed, reported⟩ := pipeline_reported receives
  refine ⟨messages, conveyed, ?_⟩
  rw [requestsOf_eq, reported, onCallbacks_messages between_init]

theorem forall₂_delivered {name value body : Bytes} {messages : List Message}
    (conveyed : List.Forall₂ PlainRequest.Conveyed requests messages) :
    List.Forall₂
      (fun plain request => request.method = plain.method.string ∧
        request.isUpgrade = false)
      requests (delivered name value body messages) := by
  induction conveyed generalizing name value body with
  | nil => exact .nil
  | cons first _ ih => exact .cons ⟨first.method, first.upgrade⟩ ih

/-- Every request of a pipeline is completed once and in order. -/
theorem pipeline_in_order (receives : Receives reads requests) :
    List.Forall₂
      (fun plain request => request.method = plain.method.string ∧
        request.isUpgrade = false)
      requests (requestsOf httpParser httpParser.init init reads) := by
  obtain ⟨messages, conveyed, completed⟩ := pipeline_completed receives
  rw [completed]
  exact forall₂_delivered conveyed

/-- The first request of a connection has the headers of its text. -/
theorem first_headers_assembled {first : PlainRequest}
    {later : List PlainRequest} (receives : Receives reads (first :: later))
    (some : first.lines ≠ []) :
    ∃ request rest,
      requestsOf httpParser httpParser.init init reads = request :: rest ∧
        ∀ name, request.headersMap.find name = first.entries.lookup name := by
  obtain ⟨messages, conveyed, isDelivered⟩ := pipeline_completed receives
  cases conveyed with
  | @cons _ message _ messages conveyed _ =>
      refine ⟨_, _, isDelivered, fun name => ?_⟩
      have headed : message.entries ≠ [] := by
        rw [conveyed.entries]
        exact mt List.map_eq_nil_iff.mp some
      rw [← conveyed.entries]
      simp only [completed, added_empty headed, find_insertAll_empty]

theorem Unmixed.of_conveyed {front behind : PlainRequest}
    {message other : Message} (unmixed : front.Unmixed behind)
    (conveyed : front.Conveyed message) (otherConveyed : behind.Conveyed other) :
    Unmixed message other := by
  obtain ⟨harmless, bodied⟩ := unmixed
  refine ⟨?_, ?_⟩
  · rw [conveyed.entries, otherConveyed.entries]
    exact harmless
  · refine bodied.imp (fun some empty => ?_) fun none => ?_
    · rw [← otherConveyed.body, empty] at some
      exact some rfl
    · rw [← conveyed.body, List.flatten_eq_nil_iff] at none
      rcases List.eq_nil_or_concat message.body with empty | ⟨_, last, split⟩
      · simp [lastPiece, empty]
      · have isLast : last = [] := none last (by simp [split])
        simp [lastPiece, split, isLast]

theorem unmixed_of_conveyed {messages : List Message}
    (conveyed : List.Forall₂ PlainRequest.Conveyed requests messages)
    (unmixed : requests.IsChain PlainRequest.Unmixed) :
    messages.IsChain Unmixed := by
  induction conveyed with
  | nil => exact .nil
  | cons first later ih =>
      cases later with
      | nil => exact .singleton _
      | cons second _ =>
          obtain ⟨apart, unmixed⟩ := List.isChain_cons_cons.mp unmixed
          exact List.isChain_cons_cons.mpr
            ⟨.of_conveyed apart first second, ih unmixed⟩

/-- The requests of a pipeline are isolated from each other if they have
headers and take nothing over. -/
theorem pipeline_isolated (receives : Receives reads requests)
    (headed : ∀ request ∈ requests, request.lines ≠ [])
    (unmixed : requests.IsChain PlainRequest.Unmixed) :
    ∃ messages, List.Forall₂ PlainRequest.Conveyed requests messages ∧
      List.Forall₂ Isolated messages
        (requestsOf httpParser httpParser.init init reads) := by
  obtain ⟨messages, conveyed, isDelivered⟩ := pipeline_completed receives
  refine ⟨messages, conveyed, ?_⟩
  rw [isDelivered, isolated_messages_iff]
  refine ⟨?_, unmixed_of_conveyed conveyed unmixed⟩
  clear unmixed isDelivered receives
  induction conveyed with
  | nil => exact List.forall_mem_nil _
  | cons first _ ih =>
      obtain ⟨some, headed⟩ := List.forall_mem_cons.mp headed
      refine List.forall_mem_cons.mpr ⟨?_, ih headed⟩
      intro empty
      have entries := first.entries
      rw [Message.entries, empty] at entries
      exact some (List.map_eq_nil_iff.mp entries.symm)

end HTTPCodec

end Woody
