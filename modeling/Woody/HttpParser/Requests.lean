import Woody.HttpParser.Contents
import Woody.HttpParser.HeaderLines
import Woody.HttpParser.RequestLine
import Woody.HttpParser.Segmentation

/-!
# Whole requests

A request that is not upgraded is reported as what it says, and so is a
pipeline of them, however the connection cuts it into reads.
-/

namespace Woody

open Scanner

namespace Announced

/-- What the lines of a header tell, one behind the other. -/
def learnAll (announced : Announced) (lines : List HeaderLine) :
    Option Announced :=
  lines.foldlM (fun announced line => announced.learn line.name line.value)
    announced

/-- The message asks for another protocol. -/
def upgrades (announced : Announced) (method : HttpMethod) : Bool :=
  (announced.flags.upgrade && announced.flags.connectionUpgrade) ||
    decide (method = .connect)

/-- What headers can tell: no trailer, and no length that is refused. -/
structure Fair (announced : Announced) : Prop where
  trailing : announced.flags.trailing = false
  within : ∀ n ∈ announced.length, n ≤ RequestParser.maxContentLength

theorem fair_unknown : unknown.Fair := ⟨rfl, by intro n member; cases member⟩

theorem hear_trailing (flags : Flags) (options : List Bytes) :
    (options.foldl Flags.hear flags).trailing = flags.trailing := by
  induction options generalizing flags with
  | nil => rfl
  | cons option options ih => exact ih (flags.hear option)

variable {announced known : Announced}

theorem Fair.learn (fair : announced.Fair) {name value : Bytes}
    (learns : announced.learn name value = some known) : known.Fair := by
  unfold Announced.learn at learns
  cases value with
  | nil =>
      cases learns
      exact fair
  | cons first rest =>
      dsimp only at learns
      cases found : HeaderState.ofName name <;> rw [found] at learns
      case connection =>
        cases learns
        exact ⟨(hear_trailing _ _).trans fair.trailing, fair.within⟩
      case transferEncoding | upgrade =>
        cases learns
        exact ⟨fair.trailing, fair.within⟩
      case contentLength =>
        dsimp only at learns
        split_ifs at learns with fits
        cases learns
        refine ⟨fair.trailing, ?_⟩
        intro n member
        cases member
        exact fits.2
      all_goals
        cases learns
        exact fair

theorem Fair.learnAll (fair : announced.Fair) {lines : List HeaderLine}
    (learns : announced.learnAll lines = some known) : known.Fair := by
  induction lines generalizing announced with
  | nil =>
      cases learns
      exact fair
  | cons line lines ih =>
      obtain ⟨middle, learnt, later⟩ := Option.bind_eq_some_iff.mp learns
      exact ih (fair.learn learnt) later

end Announced

namespace HeaderLine

/-- A line as it is usually written, with one space behind the colon. -/
def spaced (name value : Bytes) (named : name ≠ [])
    (tokens : name.all fun ch => decide (token ch ≠ 0))
    (inside : value.all fun ch => decide (¬ IsLineEnd ch))
    (begins : (value.head?.all fun ch => decide (¬ IsBlank ch)) = true) :
    HeaderLine where
  name := name
  blanks := [octet ' ']
  value := value
  named := named
  tokens := forall_of_all tokens
  areBlanks := forall_of_all (by decide)
  inside := forall_of_all inside
  begins ch member := by
    rw [Option.mem_def.mp member] at begins
    exact of_decide_eq_true begins

theorem text_cons (line : HeaderLine) :
    ∃ ch rest, line.text = ch :: rest ∧ ¬ IsBlank ch := by
  obtain ⟨ch, name, split⟩ := List.exists_cons_of_ne_nil line.named
  have isToken := line.tokens ch (by rw [split]; exact List.mem_cons_self)
  refine ⟨ch, _, by rw [text, split]; rfl, ?_⟩
  rintro (rfl | rfl)
  · exact isToken (by decide)
  · exact isToken (by decide)

end HeaderLine

namespace RequestParser

variable {parser : RequestParser} {announced known : Announced}

theorem lines_lead {base : RequestParser} (start : base.state = .headerFieldStart)
    {lines : List HeaderLine} (learns : announced.learnAll lines = some known) :
    ∃ index hState,
      (base.knowing announced).Leads (lines.flatMap HeaderLine.text)
        (lines.flatMap HeaderLine.callbacks)
        ((base.knowing known).matching index hState) := by
  induction lines generalizing base announced with
  | nil =>
      cases learns
      exact ⟨base.index, base.headerState, Leads.refl _⟩
  | cons line lines ih =>
      obtain ⟨middle, learnt, later⟩ := Option.bind_eq_some_iff.mp learns
      obtain ⟨index, hState, front⟩ := line_leads start line learnt
      cases lines with
      | nil =>
          cases later
          refine ⟨index, hState, ?_⟩
          rw [List.flatMap_singleton, List.flatMap_singleton]
          exact front
      | cons next lines =>
          obtain ⟨lastIndex, lastState, back⟩ :=
            @ih middle (base.matching index hState) start later
          obtain ⟨ch, rest, text, notBlank⟩ := next.text_cons
          have fromNext : (next :: lines).flatMap HeaderLine.text =
              ch :: (rest ++ lines.flatMap HeaderLine.text) := by
            rw [List.flatMap_cons, text, List.cons_append]
          refine ⟨lastIndex, lastState, ?_⟩
          rw [fromNext] at back
          rw [List.flatMap_cons, fromNext]
          exact front.trans notBlank back

/-- What is read behind the lines settles the last one of them. -/
theorem Leads.reads {middle later : RequestParser} {early late : Bytes}
    {first second : List HttpCallback} {ch : UInt8}
    (front : parser.Leads early first middle) (notBlank : ¬ IsBlank ch)
    (back : middle.Reads (ch :: late) second later) :
    parser.Reads (early ++ ch :: late) (first ++ second) later := by
  obtain ⟨outputs, read, alikeBack⟩ := back
  obtain ⟨whole, alike, readAll⟩ := front.scan_cons notBlank late
  rw [read] at alike readAll
  exact ⟨whole, readAll, alike.trans (alikeBack.append_left first)⟩

/-- The parser in front of a body, of a request that is not upgraded. -/
def plain (parser : RequestParser) : RequestParser :=
  { parser with upgrade := false, state := .headersDone }

theorem onHeadersDone_bare (stays : parser.upgrade = false)
    (unchunked : parser.flags.chunked = false)
    (none : parser.contentLength = 0 ∨ parser.contentLength = ullongMax) :
    parser.onHeadersDone LF =
      .advance parser.finished [.resetRead, .notify .messageComplete] := by
  unfold onHeadersDone
  rcases none with length | length <;>
    simp [Case.strictCheck, stays, unchunked, length, finished]

theorem onHeadersDone_body (stays : parser.upgrade = false)
    (unchunked : parser.flags.chunked = false)
    (some : parser.contentLength ≠ 0)
    (known : parser.contentLength ≠ ullongMax) :
    parser.onHeadersDone LF =
      .advance (parser.goto .bodyIdentity) [.resetRead] := by
  unfold onHeadersDone
  simp [Case.strictCheck, stays, unchunked, some, known]

theorem onHeadersDone_chunked (stays : parser.upgrade = false)
    (chunked : parser.flags.chunked = true) :
    parser.onHeadersDone LF =
      .advance (parser.goto .chunkSizeStart) [.resetRead] := by
  unfold onHeadersDone
  simp [Case.strictCheck, stays, chunked]

theorem last_line_reads (start : parser.state = .headerFieldStart)
    (first : parser.flags.trailing = false)
    (stays : ((parser.flags.upgrade && parser.flags.connectionUpgrade) ||
      decide (parser.method = .connect)) = false)
    {later : RequestParser} {effects : List Effect}
    (done : parser.plain.onHeadersDone LF = .advance later effects)
    (quiet : later.piece LF = []) :
    parser.Reads [CR, LF]
      (.headersComplete parser.method.string false ::
        effects.flatMap Effect.outputs) later := by
  have cr : parser.react CR =
      ⟨parser.goto .headersAlmostDone, [], .advance⟩ := by
    unfold react
    simp only [start, onByte]
    rfl
  have almost : (parser.goto .headersAlmostDone).onHeadersAlmostDone LF =
      .behind [.notify (.headersComplete parser.method.string false)]
        (parser.plain.onHeadersDone LF) := by
    have method : (parser.goto .headersAlmostDone).method = parser.method :=
      rfl
    unfold onHeadersAlmostDone
    simp only [goto_flags, first, method, stays]
    rfl
  have lf : (parser.goto .headersAlmostDone).react LF =
      ⟨later, .headersComplete parser.method.string false ::
        effects.flatMap Effect.outputs, .advance⟩ := by
    unfold react
    simp only [goto_state, onByte, almost, done]
    simp [Case.reaction, Case.behind, Case.advance, quiet, Effect.outputs]
  exact Reads.cons cr (.byte lf)

/-- What headers that are fair announce as the length of a body. -/
theorem knowing_length (fair : known.Fair) (parser : RequestParser) :
    (known.length.getD 0 = 0 →
      (parser.knowing known).contentLength = 0 ∨
        (parser.knowing known).contentLength = ullongMax) ∧
    (known.length.getD 0 ≠ 0 →
      (parser.knowing known).contentLength.toNat = known.length.getD 0 ∧
        (parser.knowing known).contentLength ≠ 0 ∧
          (parser.knowing known).contentLength ≠ ullongMax) := by
  unfold knowing
  cases length : known.length with
  | none => exact ⟨fun _ => .inr rfl, fun wrong => (wrong rfl).elim⟩
  | some n =>
      have within := fair.within n length
      dsimp only [Option.getD_some]
      have value : (UInt64.ofNat n).toNat = n :=
        UInt64.toNat_ofNat_of_lt' (within.trans_lt (by decide))
      refine ⟨?_, ?_⟩
      · rintro rfl
        exact .inl rfl
      · intro some
        refine ⟨value, ?_, ?_⟩
        · intro zero
          rw [zero] at value
          exact some value.symm
        · intro max
          rw [max] at value
          rw [← value] at within
          exact absurd within (by decide)

end RequestParser

/-- The content is framed in the way that is announced. -/
def Content.Fits (known : Announced) : Content → Prop
  | .whole bytes =>
      known.flags.chunked = false ∧ known.length.getD 0 = bytes.length
  | .chunked _ _ => known.flags.chunked = true

/-- A request that is not upgraded. -/
structure PlainRequest where
  method : HttpMethod
  url : Bytes
  version : Version
  lines : List HeaderLine
  content : Content
  known : Announced
  target : IsTarget method url
  learns : Announced.unknown.learnAll lines = some known
  stays : known.upgrades method = false
  framed : content.Fits known

namespace PlainRequest

def text (request : PlainRequest) : Bytes :=
  RequestParser.requestLine request.method request.url request.version ++
    request.lines.flatMap HeaderLine.text ++ [CR, LF] ++ request.content.text

/-- What a request is reported as. -/
def callbacks (request : PlainRequest) : List HttpCallback :=
  [.messageBegin, .url request.url] ++
    request.lines.flatMap HeaderLine.callbacks ++
    .headersComplete request.method.string false ::
      (request.content.callbacks ++ [.messageComplete])

/-- `http_should_keep_alive` behind the request. -/
def keepsAlive (request : PlainRequest) : Bool :=
  if request.version.major > 0 && request.version.minor > 0 then
    !request.known.flags.connectionClose
  else
    request.known.flags.connectionKeepAlive

end PlainRequest

namespace RequestParser

variable {parser : RequestParser}

/-- The parser behind the lines of a header. -/
def behindLines (parser : RequestParser) (request : PlainRequest)
    (index : Nat) (hState : HeaderState) : RequestParser :=
  ((parser.withLine request.method request.version).knowing
    request.known).matching index hState

theorem rest_reads (request : PlainRequest) (fair : request.known.Fair)
    (parser : RequestParser) (index : Nat) (hState : HeaderState) :
    ∃ later,
      (parser.behindLines request index hState).Reads
        ([CR, LF] ++ request.content.text)
        (.headersComplete request.method.string false ::
          (request.content.callbacks ++ [.messageComplete])) later ∧
      later.state = if request.keepsAlive then .startReq else .dead := by
  have framed := request.framed
  have last := @last_line_reads (parser.behindLines request index hState) rfl
    fair.trailing request.stays
  cases content : request.content with
  | whole bytes =>
      rw [content] at framed
      obtain ⟨unchunked, sized⟩ := framed
      obtain ⟨absent, present⟩ := knowing_length fair
        (parser.withLine request.method request.version)
      rw [sized] at absent present
      unfold Content.text Content.callbacks
      dsimp only
      by_cases bare : bytes = []
      · have ends := last (onHeadersDone_bare rfl unchunked
          (absent (congrArg List.length bare))) (piece_finished _ _)
        rw [bare, List.append_nil, if_pos rfl]
        exact ⟨_, ends, rfl⟩
      · obtain ⟨value, some, known⟩ := present
          (mt List.length_eq_zero_iff.mp bare)
        have ends := last (onHeadersDone_body rfl unchunked some known) rfl
        have body := @body_reads ((parser.behindLines request index
          hState).plain.goto .bodyIdentity) rfl rfl bytes bare value
        rw [if_neg bare]
        exact ⟨_, ends.append body, rfl⟩
  | chunked chunks line =>
      rw [content] at framed
      have ends := last (onHeadersDone_chunked rfl framed) rfl
      obtain ⟨length, body⟩ := @chunks_read ((parser.behindLines request index
        hState).plain.goto .chunkSizeStart) rfl chunks
      obtain ⟨later, done, state⟩ := @last_chunk_reads
        { (parser.behindLines request index hState).plain with
          state := .chunkSizeStart
          contentLength := length } rfl rfl line
      exact ⟨later, ends.append (body.append done), state⟩

/-- A request is reported as what it says. -/
theorem request_reads (start : parser.state = .startReq)
    (request : PlainRequest) :
    ∃ later, parser.Reads request.text request.callbacks later ∧
      later.state = if request.keepsAlive then .startReq else .dead := by
  have first := requestLine_reads start request.target request.version
  obtain ⟨index, hState, lines⟩ := @lines_lead Announced.unknown request.known
    (parser.withLine request.method request.version) rfl
    request.lines request.learns
  have fair := Announced.fair_unknown.learnAll request.learns
  obtain ⟨later, last, state⟩ := rest_reads request fair parser index hState
  have whole := (first.leads lines).reads (by decide) last
  refine ⟨later, ?_, state⟩
  unfold PlainRequest.text PlainRequest.callbacks
  rw [List.append_assoc]
  exact whole

theorem pipeline_reads (start : parser.state = .startReq)
    {requests : List PlainRequest}
    (alive : ∀ request ∈ requests.dropLast, request.keepsAlive) :
    ∃ later, parser.Reads (requests.flatMap PlainRequest.text)
      (requests.flatMap PlainRequest.callbacks) later := by
  induction requests generalizing parser with
  | nil => exact ⟨parser, Reads.nil parser⟩
  | cons request requests ih =>
      obtain ⟨middle, front, state⟩ := request_reads start request
      cases requests with
      | nil =>
          rw [List.flatMap_singleton, List.flatMap_singleton]
          exact ⟨middle, front⟩
      | cons next requests =>
          rw [List.dropLast_cons_cons] at alive
          obtain ⟨stays, alive⟩ := List.forall_mem_cons.mp alive
          rw [if_pos stays] at state
          obtain ⟨later, back⟩ := ih state alive
          exact ⟨later, front.append back⟩

end RequestParser

namespace CountingParser

/-- No call of a pipeline is the last one. -/
theorem pipeline_fed {reads : List Bytes} (areReads : AreReads reads)
    {requests : List PlainRequest}
    (alive : ∀ request ∈ requests.dropLast, request.keepsAlive)
    (text : reads.flatten = requests.flatMap PlainRequest.text)
    (fits : (init.feed reads).HeaderFits) :
    (init.feed reads).parser.halted = false ∧ (init.feed reads).rest = [] ∧
      HttpCallback.gluing.Alike (init.feed reads).callbacks
        (requests.flatMap PlainRequest.callbacks) := by
  obtain ⟨later, outputs, read, alike⟩ :=
    @RequestParser.pipeline_reads RequestParser.init rfl requests alive
  have reports := feed_reports_init areReads
  rw [text] at reports
  cases reports with
  | overflow _ _ _ errno => exact (fits errno).elim
  | exact pending state rest closed reported =>
      have running := (@RequestParser.halted_scan RequestParser.init rfl
        (requests.flatMap PlainRequest.text)).mpr (by rw [read])
      have none := closed (by rw [read]; intro wrong; cases wrong)
      subst none
      rw [read] at state rest reported running
      refine ⟨?_, rest, ?_⟩
      · rw [state]
        exact running
      · simp only [Pending.callbacks, Option.toList_none, List.map_nil,
          List.append_nil, List.nil_append] at reported
        exact reported.trans alike

/-- A pipeline of requests is received as what it says, however the
connection cuts it, if no header is too long. -/
theorem pipeline_received {reads : List Bytes} (areReads : AreReads reads)
    {requests : List PlainRequest}
    (alive : ∀ request ∈ requests.dropLast, request.keepsAlive)
    (text : reads.flatten = requests.flatMap PlainRequest.text)
    (fits : (init.feed reads).HeaderFits) :
    (init.feed reads).parser.httpErrno = .ok ∧ (init.feed reads).rest = [] ∧
      HttpCallback.gluing.Alike (init.feed reads).callbacks
        (requests.flatMap PlainRequest.callbacks) := by
  obtain ⟨running, rest, alike⟩ := pipeline_fed areReads alive text fits
  exact ⟨(RequestParser.halted_eq_false.mp running).1, rest, alike⟩

/-- A body of a known length, and one in chunks, of which the first has an
extension; the second request has another version. -/
def twoBodies : List PlainRequest :=
  [{ method := .post
     url := ascii "/a"
     version := ⟨ascii "1", ascii "1", 1, 1, by decide, by decide, by decide,
       by decide, by decide, by decide, by decide⟩
     lines := [.spaced (ascii "Content-Length") (ascii "2") (by decide)
       (by decide) (by decide) (by decide)]
     content := .whole (ascii "hi")
     known := ⟨.none, some 2⟩
     target := .path (by decide) (.inl rfl) (forall_of_all (by decide))
     learns := by decide
     stays := rfl
     framed := ⟨rfl, rfl⟩ },
   { method := .put
     url := ascii "/b"
     version := ⟨ascii "12", ascii "010", 12, 10, by decide, by decide,
       by decide, by decide, by decide, by decide, by decide⟩
     lines := [.spaced (ascii "Transfer-Encoding") (ascii "chunked")
       (by decide) (by decide) (by decide) (by decide)]
     content := .chunked
       [⟨ascii "abc", ⟨ascii "3", ascii ";a=b", by decide, by decide,
         by decide, by decide⟩, by decide, by decide⟩]
       ⟨ascii "0", [], by decide, by decide, by decide, by decide⟩
     known := ⟨{ Flags.none with chunked := true }, none⟩
     target := .path (by decide) (.inl rfl) (forall_of_all (by decide))
     learns := by decide
     stays := rfl
     framed := rfl }]

theorem two_bodies_received :
    let reads := [ascii "POST /a HTTP/1.1\r\nContent-Le",
      ascii "ngth: 2\r\n\r\nhiPUT /b HTTP/12.010\r\nTransfer-Encoding: chu",
      ascii "nked\r\n\r\n3;a=b\r\na", ascii "bc\r\n0\r", ascii "\n\r\n"]
    (init.feed reads).parser.httpErrno = .ok ∧ (init.feed reads).rest = [] ∧
      HttpCallback.gluing.Alike (init.feed reads).callbacks
        [.messageBegin, .url (ascii "/a"),
          .headerField (ascii "Content-Length"), .headerValue (ascii "2"),
          .headersComplete (ascii "POST") false, .body (ascii "hi"),
          .messageComplete, .messageBegin, .url (ascii "/b"),
          .headerField (ascii "Transfer-Encoding"),
          .headerValue (ascii "chunked"), .headersComplete (ascii "PUT") false,
          .body (ascii "abc"), .messageComplete] :=
  @pipeline_received _ (by decide +kernel) twoBodies (by decide +kernel)
    (by decide +kernel) (by decide +kernel)

end CountingParser

end Woody
