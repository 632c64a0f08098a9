import Mathlib.Tactic.SplitIfs
import Woody.HttpParser.ByteMachine

/-!
# The control flow of `http_parser`

Which state can follow which one at a byte, with the marks and the
notifications on the way.  The graph leaves out the byte and the fields of the
parser, so what holds along its edges is decided by looking at all of them.
The flag for trailing headers belongs to the nodes: behind the last chunk the
header states are passed a second time.
-/

namespace Woody

inductive CallbackKind where
  | messageBegin
  | token (token : Token)
  | headersComplete
  | messageComplete
  deriving DecidableEq

def HttpCallback.kind : HttpCallback → CallbackKind
  | .messageBegin => .messageBegin
  | .url _ => .token .url
  | .headerField _ => .token .headerField
  | .headerValue _ => .token .headerValue
  | .headersComplete _ _ => .headersComplete
  | .body _ => .token .body
  | .messageComplete => .messageComplete

theorem Token.kind_callback (token : Token) (data : Bytes) :
    (token.callback data).kind = .token token := by
  cases token <;> rfl

inductive Mark where
  | opens (token : Token)
  | closes (token : Token)
  | tells (kind : CallbackKind)
  deriving DecidableEq

def Effect.marks : Effect → List Mark
  | .mark token => [.opens token]
  | .data token => [.closes token]
  | .notify callback => [.tells callback.kind]
  | .resetRead => []

structure Node where
  state : ParserState
  trailing : Bool
  deriving DecidableEq

def RequestParser.node (parser : RequestParser) : Node :=
  ⟨parser.state, parser.flags.trailing⟩

structure Edge where
  marks : List Mark
  next : Node
  verdict : Verdict
  deriving DecidableEq

/-- The states in which a URL goes on. -/
def urlStates : List ParserState :=
  [.reqSchema, .reqSchemaSlash, .reqSchemaSlashSlash, .reqServerStart,
    .reqServer, .reqServerWithAt, .reqPath, .reqQueryStringStart,
    .reqQueryString, .reqFragmentStart, .reqFragment]

namespace Edge

/-- An error; where it leads to does not matter. -/
def refuse : Edge := ⟨[], ⟨.dead, false⟩, .error⟩

section Edges

variable (trailing : Bool)

def step (state : ParserState) : Edge := ⟨[], ⟨state, trailing⟩, .advance⟩

/-- The states of `NEW_MESSAGE`. -/
def ends (verdict : Verdict) : List Edge :=
  [.startReq, .dead].map fun state =>
    ⟨[.tells .messageComplete], ⟨state, trailing⟩, verdict⟩

def url (marks : List Mark) : List Edge :=
  refuse :: urlStates.map fun state => ⟨marks, ⟨state, trailing⟩, .advance⟩

def urlEnds : List Edge :=
  [.reqHttpStart, .reqLineAlmostDone, .headerFieldStart].map fun state =>
    ⟨[.closes .url], ⟨state, trailing⟩, .advance⟩

def messageDone : List Edge := ends trailing .exit ++ ends trailing .advance

def headersDone : List Edge :=
  [refuse, step trailing .chunkSizeStart, step trailing .bodyIdentity] ++
    messageDone trailing

def headersAlmostDone : List Edge :=
  refuse ::
    if trailing then messageDone trailing
    else
      (headersDone trailing).map fun edge =>
        { edge with marks := [.tells .headersComplete] ++ edge.marks }

def headerFieldStart : List Edge :=
  [refuse, step trailing .headersAlmostDone,
    ⟨[.opens .headerField], ⟨.headerField, trailing⟩, .advance⟩] ++
    headersAlmostDone trailing

def headerValueStart : List Edge :=
  [refuse, ⟨[.opens .headerValue], ⟨.headerValue, trailing⟩, .advance⟩]

end Edges

end Edge

/-- Where a case of one byte can lead. -/
def Node.edges (node : Node) : List Edge :=
  let step := Edge.step node.trailing
  .refuse ::
    match node.state with
    | .dead => [step .dead]
    | .startReq =>
        [step .startReq,
          ⟨[.tells .messageBegin], ⟨.reqMethod, false⟩, .advance⟩]
    | .reqMethod => [step .reqMethod, step .reqSpacesBeforeUrl]
    | .reqSpacesBeforeUrl =>
        step .reqSpacesBeforeUrl :: Edge.url node.trailing [.opens .url]
    | .reqSchema | .reqSchemaSlash | .reqSchemaSlashSlash | .reqServerStart =>
        Edge.url node.trailing []
    | .reqServer | .reqServerWithAt | .reqPath | .reqQueryStringStart
    | .reqQueryString | .reqFragmentStart | .reqFragment =>
        Edge.url node.trailing [] ++ Edge.urlEnds node.trailing
    | .reqHttpStart => [step .reqHttpStart, step .reqHttpH]
    | .reqHttpH => [step .reqHttpHT]
    | .reqHttpHT => [step .reqHttpHTT]
    | .reqHttpHTT => [step .reqHttpHTTP]
    | .reqHttpHTTP => [step .reqFirstHttpMajor]
    | .reqFirstHttpMajor => [step .reqHttpMajor]
    | .reqHttpMajor => [step .reqHttpMajor, step .reqFirstHttpMinor]
    | .reqFirstHttpMinor => [step .reqHttpMinor]
    | .reqHttpMinor =>
        [step .reqHttpMinor, step .reqLineAlmostDone, step .headerFieldStart]
    | .reqLineAlmostDone => [step .headerFieldStart]
    | .headerFieldStart => Edge.headerFieldStart node.trailing
    | .headerValueDiscardWs =>
        Edge.headerValueStart node.trailing ++
          [.headerValueDiscardWs, .headerValueDiscardWsAlmostDone,
            .headerValueDiscardLws].map step
    | .headerValueDiscardWsAlmostDone => [step .headerValueDiscardLws]
    | .headerValueDiscardLws =>
        step .headerValueDiscardWs ::
          (Edge.headerFieldStart node.trailing).map fun edge =>
            { edge with
              marks := [.opens .headerValue, .closes .headerValue] ++
                edge.marks }
    | .headerValueStart => Edge.headerValueStart node.trailing
    | .headerValueLws =>
        Edge.headerValueStart node.trailing ++
          Edge.headerFieldStart node.trailing
    | .headerAlmostDone => [step .headerValueLws]
    | .headersAlmostDone => Edge.headersAlmostDone node.trailing
    | .headersDone => Edge.headersDone node.trailing
    | .chunkSizeStart => [step .chunkSize]
    | .chunkSize =>
        [step .chunkSize, step .chunkParameters, step .chunkSizeAlmostDone]
    | .chunkParameters => [step .chunkParameters, step .chunkSizeAlmostDone]
    | .chunkSizeAlmostDone =>
        [⟨[], ⟨.headerFieldStart, true⟩, .advance⟩, step .chunkData]
    | .chunkDataAlmostDone =>
        [⟨[.closes .body], ⟨.chunkDataDone, node.trailing⟩, .advance⟩]
    | .chunkDataDone => [step .chunkSizeStart]
    | .messageDone => Edge.messageDone node.trailing
    | .headerField | .headerValue | .chunkData | .bodyIdentity =>
        [step node.state]

def Case.marks (case : Case) : List Mark := case.effects.flatMap Effect.marks

/-- An error, but not the one of a header that is too long. -/
def HttpErrno.Refuses (errno : HttpErrno) : Prop :=
  errno ≠ .ok ∧ errno ≠ .headerOverflow

instance (errno : HttpErrno) : Decidable errno.Refuses :=
  inferInstanceAs (Decidable (_ ∧ _))

/-- The case follows an edge, where an error leads to does not matter, and an
error, but nothing else, writes to the error number. -/
structure Case.Follows (case : Case) (errno : HttpErrno)
    (edges : List Edge) : Prop where
  edge : ∃ edge ∈ edges, edge.marks = case.marks ∧
    edge.verdict = case.control ∧
    (case.control ≠ .error → edge.next = case.parser.node)
  refused : case.control = .error → case.parser.httpErrno.Refuses
  kept : case.control ≠ .error → case.parser.httpErrno = errno

namespace Case.Follows

variable {edges : List Edge} {errno : HttpErrno}

theorem mono {case : Case} (follows : case.Follows errno edges)
    {more : List Edge} (among : edges ⊆ more) : case.Follows errno more := by
  obtain ⟨edge, member, found⟩ := follows.edge
  exact ⟨⟨edge, among member, found⟩, follows.refused, follows.kept⟩

theorem advance {parser : RequestParser} {effects : List Effect}
    (edge : ⟨effects.flatMap Effect.marks, parser.node, .advance⟩ ∈ edges)
    (kept : parser.httpErrno = errno) :
    (Case.advance parser effects).Follows errno edges :=
  ⟨⟨_, edge, rfl, rfl, fun _ => rfl⟩, (nomatch ·), fun _ => kept⟩

theorem error {parser : RequestParser} {code : HttpErrno}
    (edge : .refuse ∈ edges) (fails : code.Refuses) :
    (Case.error parser code).Follows errno edges :=
  ⟨⟨_, edge, rfl, rfl, fun wrong => (wrong rfl).elim⟩, fun _ => fails,
    fun wrong => (wrong rfl).elim⟩

theorem strictCheck {parser : RequestParser} {failed : Bool} {later : Case}
    (edge : .refuse ∈ edges) (follows : later.Follows errno edges) :
    (Case.strictCheck parser failed later).Follows errno edges := by
  cases failed with
  | true => exact error edge (by decide)
  | false => exact follows

theorem behind {effects : List Effect} {later : Case} {marks : List Mark}
    (before : marks = effects.flatMap Effect.marks)
    (follows : later.Follows errno edges) :
    (Case.behind effects later).Follows errno
      (edges.map fun edge => { edge with marks := marks ++ edge.marks }) := by
  obtain ⟨edge, member, sameMarks, sameVerdict, next⟩ := follows.edge
  refine ⟨⟨_, List.mem_map_of_mem member, ?_, sameVerdict, next⟩,
    follows.refused, follows.kept⟩
  simp only [Case.marks, Case.behind, List.flatMap_append, before, sameMarks]

end Case.Follows

theorem parseUrlChar_mem (state : ParserState) (ch : UInt8) :
    parseUrlChar state ch = .dead ∨ parseUrlChar state ch ∈ urlStates := by
  unfold parseUrlChar parseUrlChar.server
  cases state <;> dsimp only <;> split_ifs <;> simp [urlStates]

namespace RequestParser

variable {parser : RequestParser}

theorem onDead_follows (ch : UInt8) (dead : parser.state = .dead) :
    (parser.onDead ch).Follows parser.httpErrno parser.node.edges := by
  unfold onDead
  split_ifs
  · exact .advance (by simp [Node.edges, node, dead, Edge.step]) rfl
  · exact .error List.mem_cons_self (by decide)

theorem onStartReq_follows (ch : UInt8) (start : parser.state = .startReq) :
    (parser.onStartReq ch).Follows parser.httpErrno parser.node.edges := by
  unfold onStartReq
  dsimp only
  split_ifs
  · exact .advance (by simp [Node.edges, node, start, Edge.step]) rfl
  · exact .error List.mem_cons_self (by decide)
  · split
    · exact .error List.mem_cons_self (by decide)
    · exact .advance (by
        simp [Node.edges, node, start, Effect.marks, HttpCallback.kind,
          Flags.none]) rfl

theorem onReqMethod_follows (ch : UInt8)
    (method : parser.state = .reqMethod) :
    (parser.onReqMethod ch).Follows parser.httpErrno parser.node.edges := by
  unfold onReqMethod
  dsimp only
  split_ifs
  · exact .error List.mem_cons_self (by decide)
  · exact .advance (by simp [Node.edges, node, method, Edge.step]) rfl
  · exact .advance (by simp [Node.edges, node, method, Edge.step]) rfl
  · split
    · exact .error List.mem_cons_self (by decide)
    · exact .advance (by simp [Node.edges, node, method, Edge.step]) rfl

theorem onUrlChar_follows (ch : UInt8) (effects : List Effect) :
    (parser.onUrlChar ch effects).Follows parser.httpErrno
      (Edge.url parser.flags.trailing (effects.flatMap Effect.marks)) := by
  rcases parseUrlChar_mem parser.state ch with dead | member
  · have refused : (parser.goto (parseUrlChar parser.state ch)).state = .dead :=
      dead
    unfold onUrlChar
    rw [if_pos refused]
    exact .error List.mem_cons_self (by decide)
  · have goesOn : (parser.goto (parseUrlChar parser.state ch)).state ≠ .dead := by
      rintro dead
      rw [goto_state] at dead
      rw [dead] at member
      exact absurd member (by decide)
    unfold onUrlChar
    rw [if_neg goesOn]
    exact .advance (List.mem_cons_of_mem _ (List.mem_map_of_mem member)) rfl

theorem onReqSpacesBeforeUrl_follows (ch : UInt8)
    (spaces : parser.state = .reqSpacesBeforeUrl) :
    (parser.onReqSpacesBeforeUrl ch).Follows parser.httpErrno
      parser.node.edges := by
  have among :
      Edge.url parser.flags.trailing [.opens .url] ⊆ parser.node.edges := by
    intro edge member
    simp only [Node.edges, node, spaces]
    exact List.mem_cons_of_mem _ (List.mem_cons_of_mem _ member)
  unfold onReqSpacesBeforeUrl
  dsimp only
  split_ifs
  · exact .advance (by simp [Node.edges, node, spaces, Edge.step]) rfl
  · exact (onUrlChar_follows ch [.mark .url]).mono among
  · exact (onUrlChar_follows ch [.mark .url]).mono among

theorem onUrlFront_follows (ch : UInt8) :
    (parser.onUrlFront ch).Follows parser.httpErrno
      (Edge.url parser.flags.trailing []) := by
  unfold onUrlFront
  split_ifs
  · exact .error List.mem_cons_self (by decide)
  · exact onUrlChar_follows ch []

theorem onUrl_follows (ch : UInt8) :
    (parser.onUrl ch).Follows parser.httpErrno
      (Edge.url parser.flags.trailing [] ++
        Edge.urlEnds parser.flags.trailing) := by
  unfold onUrl
  dsimp only
  split_ifs
  · exact .advance (List.mem_append_right _ (by
      simp [Edge.urlEnds, node, Effect.marks])) rfl
  · exact .advance (List.mem_append_right _ (by
      simp [Edge.urlEnds, node, Effect.marks])) rfl
  · exact .advance (List.mem_append_right _ (by
      simp [Edge.urlEnds, node, Effect.marks])) rfl
  · exact (onUrlChar_follows ch []).mono (List.subset_append_left _ _)

theorem onReqHttpStart_follows (ch : UInt8)
    (start : parser.state = .reqHttpStart) :
    (parser.onReqHttpStart ch).Follows parser.httpErrno parser.node.edges := by
  unfold onReqHttpStart
  split_ifs
  · exact .advance (by simp [Node.edges, node, start, Edge.step]) rfl
  · exact .advance (by simp [Node.edges, node, start, Edge.step]) rfl
  · exact .error List.mem_cons_self (by decide)

theorem onConstant_follows (ch expected : UInt8) (next : ParserState) :
    (parser.onConstant ch expected next).Follows parser.httpErrno
      [.refuse, Edge.step parser.flags.trailing next] :=
  .strictCheck List.mem_cons_self (.advance (by simp [node, Edge.step]) rfl)

theorem onReqFirstHttpMajor_follows (ch : UInt8)
    (major : parser.state = .reqFirstHttpMajor) :
    (parser.onReqFirstHttpMajor ch).Follows parser.httpErrno
      parser.node.edges := by
  unfold onReqFirstHttpMajor
  split_ifs
  · exact .error List.mem_cons_self (by decide)
  · exact .advance (by simp [Node.edges, node, major, Edge.step]) rfl

theorem onReqHttpMajor_follows (ch : UInt8)
    (major : parser.state = .reqHttpMajor) :
    (parser.onReqHttpMajor ch).Follows parser.httpErrno parser.node.edges := by
  unfold onReqHttpMajor
  dsimp only
  split_ifs
  · exact .advance (by simp [Node.edges, node, major, Edge.step]) rfl
  · exact .error List.mem_cons_self (by decide)
  · exact .error List.mem_cons_self (by decide)
  · exact .advance (by simp [Node.edges, node, major, Edge.step]) rfl

theorem onReqFirstHttpMinor_follows (ch : UInt8)
    (minor : parser.state = .reqFirstHttpMinor) :
    (parser.onReqFirstHttpMinor ch).Follows parser.httpErrno
      parser.node.edges := by
  unfold onReqFirstHttpMinor
  split_ifs
  · exact .error List.mem_cons_self (by decide)
  · exact .advance (by simp [Node.edges, node, minor, Edge.step]) rfl

theorem onReqHttpMinor_follows (ch : UInt8)
    (minor : parser.state = .reqHttpMinor) :
    (parser.onReqHttpMinor ch).Follows parser.httpErrno parser.node.edges := by
  unfold onReqHttpMinor
  dsimp only
  split_ifs
  · exact .advance (by simp [Node.edges, node, minor, Edge.step]) rfl
  · exact .advance (by simp [Node.edges, node, minor, Edge.step]) rfl
  · exact .error List.mem_cons_self (by decide)
  · exact .error List.mem_cons_self (by decide)
  · exact .advance (by simp [Node.edges, node, minor, Edge.step]) rfl

theorem onReqLineAlmostDone_follows (ch : UInt8)
    (almost : parser.state = .reqLineAlmostDone) :
    (parser.onReqLineAlmostDone ch).Follows parser.httpErrno
      parser.node.edges := by
  unfold onReqLineAlmostDone
  split_ifs
  · exact .error List.mem_cons_self (by decide)
  · exact .advance (by simp [Node.edges, node, almost, Edge.step]) rfl

theorem newMessage_mem (parser : RequestParser) (trailing : Bool)
    (verdict : Verdict) :
    ⟨[.tells .messageComplete], ⟨parser.newMessage, trailing⟩, verdict⟩ ∈
      Edge.ends trailing verdict := by
  rcases parser.newMessage_cases with next | next <;>
    simp [Edge.ends, next]

theorem onMessageDone_follows :
    parser.onMessageDone.Follows parser.httpErrno
      (Edge.messageDone parser.flags.trailing) := by
  unfold onMessageDone
  dsimp only
  split_ifs
  · exact ⟨⟨_, List.mem_append_left _ (newMessage_mem parser _ .exit), rfl,
      rfl, fun _ => rfl⟩, (nomatch ·), fun _ => rfl⟩
  · exact ⟨⟨_, List.mem_append_right _ (newMessage_mem parser _ .advance),
      rfl, rfl, fun _ => rfl⟩, (nomatch ·), fun _ => rfl⟩

theorem onHeadersDone_follows (ch : UInt8) :
    (parser.onHeadersDone ch).Follows parser.httpErrno
      (Edge.headersDone parser.flags.trailing) := by
  have exits := newMessage_mem parser parser.flags.trailing .exit
  have completes := newMessage_mem parser parser.flags.trailing .advance
  have done : Edge.messageDone parser.flags.trailing ⊆
      Edge.headersDone parser.flags.trailing :=
    List.subset_append_right _ _
  apply Case.Follows.strictCheck List.mem_cons_self
  dsimp only
  split_ifs
  · exact ⟨⟨_, done (List.mem_append_left _ exits), rfl, rfl, fun _ => rfl⟩,
      (nomatch ·), fun _ => rfl⟩
  · exact .advance (by simp [Edge.step, node, Effect.marks]) rfl
  · exact .advance (done (List.mem_append_right _ completes)) rfl
  · exact .advance (by simp [Edge.step, node, Effect.marks]) rfl
  · exact .advance (done (List.mem_append_right _ completes)) rfl

theorem onHeadersAlmostDone_follows (ch : UInt8) :
    (parser.onHeadersAlmostDone ch).Follows parser.httpErrno
      (Edge.headersAlmostDone parser.flags.trailing) := by
  apply Case.Follows.strictCheck List.mem_cons_self
  apply Case.Follows.mono _ (List.subset_cons_self _ _)
  split_ifs
  · exact onMessageDone_follows
  · exact .behind rfl (onHeadersDone_follows ch)

theorem onHeaderFieldStart_follows (ch : UInt8) :
    (parser.onHeaderFieldStart ch).Follows parser.httpErrno
      (Edge.headerFieldStart parser.flags.trailing) := by
  unfold onHeaderFieldStart
  dsimp only
  split_ifs with cr lf none
  · exact .advance (by simp [Edge.headerFieldStart, Edge.step, node]) rfl
  · exact (onHeadersAlmostDone_follows ch).mono
      (List.subset_append_right _ _)
  · exact .error List.mem_cons_self (by decide)
  all_goals
    exact .advance (by simp [Edge.headerFieldStart, node, Effect.marks]) rfl

theorem onHeaderValueStart_follows (ch : UInt8) :
    (parser.onHeaderValueStart ch).Follows parser.httpErrno
      (Edge.headerValueStart parser.flags.trailing) := by
  have value :
      ⟨[.opens .headerValue], ⟨.headerValue, parser.flags.trailing⟩,
        .advance⟩ ∈ Edge.headerValueStart parser.flags.trailing := by
    simp [Edge.headerValueStart]
  unfold onHeaderValueStart
  dsimp only
  split
  · exact .advance value rfl
  · exact .advance value rfl
  · split_ifs
    · exact .error List.mem_cons_self (by decide)
    · exact .advance value rfl
  · exact .advance value rfl
  · exact .advance value rfl
  · exact .advance value rfl

theorem onHeaderValueDiscardWs_follows (ch : UInt8)
    (discard : parser.state = .headerValueDiscardWs) :
    (parser.onHeaderValueDiscardWs ch).Follows parser.httpErrno
      parser.node.edges := by
  unfold onHeaderValueDiscardWs
  split_ifs
  · exact .advance (by simp [Node.edges, node, discard, Edge.step]) rfl
  · exact .advance (by simp [Node.edges, node, discard, Edge.step]) rfl
  · exact .advance (by simp [Node.edges, node, discard, Edge.step]) rfl
  · refine (onHeaderValueStart_follows ch).mono ?_
    simp only [Node.edges, node, discard]
    exact List.subset_cons_of_subset _ (List.subset_append_left _ _)

@[simp] theorem setFlag_trailing (parser : RequestParser) :
    parser.setFlag.flags.trailing = parser.flags.trailing := by
  unfold setFlag
  split <;> rfl

@[simp] theorem setFlag_httpErrno (parser : RequestParser) :
    parser.setFlag.httpErrno = parser.httpErrno := by
  unfold setFlag
  split <;> rfl

theorem headerEnd_follows (ch : UInt8) :
    ((parser.setFlag.goto .headerFieldStart).onHeaderFieldStart ch).Follows
      parser.httpErrno (Edge.headerFieldStart parser.flags.trailing) := by
  have follows :=
    @onHeaderFieldStart_follows (parser.setFlag.goto .headerFieldStart) ch
  rwa [goto_flags, setFlag_trailing, goto_httpErrno, setFlag_httpErrno]
    at follows

theorem onHeaderValueLws_follows (ch : UInt8) :
    (parser.onHeaderValueLws ch).Follows parser.httpErrno
      (Edge.headerValueStart parser.flags.trailing ++
        Edge.headerFieldStart parser.flags.trailing) := by
  unfold onHeaderValueLws
  split_ifs
  · exact (onHeaderValueStart_follows ch).mono (List.subset_append_left _ _)
  · exact (headerEnd_follows ch).mono (List.subset_append_right _ _)

theorem onHeaderAlmostDone_follows (ch : UInt8) :
    (parser.onHeaderAlmostDone ch).Follows parser.httpErrno
      [.refuse, Edge.step parser.flags.trailing .headerValueLws] :=
  .strictCheck List.mem_cons_self (.advance (by simp [node, Edge.step]) rfl)

theorem onHeaderValueDiscardLws_follows (ch : UInt8)
    (discard : parser.state = .headerValueDiscardLws) :
    (parser.onHeaderValueDiscardLws ch).Follows parser.httpErrno
      parser.node.edges := by
  unfold onHeaderValueDiscardLws
  split_ifs
  · exact .advance (by simp [Node.edges, node, discard, Edge.step]) rfl
  · refine (Case.Follows.behind rfl (headerEnd_follows ch)).mono ?_
    simp only [Node.edges, node, discard]
    exact List.subset_cons_of_subset _ (List.subset_cons_self _ _)

theorem onChunkSizeStart_follows (ch : UInt8)
    (start : parser.state = .chunkSizeStart) :
    (parser.onChunkSizeStart ch).Follows parser.httpErrno
      parser.node.edges := by
  unfold onChunkSizeStart
  split
  · exact .error List.mem_cons_self (by decide)
  · exact .advance (by simp [Node.edges, node, start, Edge.step]) rfl

theorem onChunkSize_follows (ch : UInt8) (size : parser.state = .chunkSize) :
    (parser.onChunkSize ch).Follows parser.httpErrno parser.node.edges := by
  unfold onChunkSize
  cases unhex ch with
  | none =>
      dsimp only
      split_ifs
      · exact .advance (by simp [Node.edges, node, size, Edge.step]) rfl
      · exact .advance (by simp [Node.edges, node, size, Edge.step]) rfl
      · exact .error List.mem_cons_self (by decide)
  | some digit =>
      dsimp only
      split_ifs
      · exact .advance (by simp [Node.edges, node, size, Edge.step]) rfl
      · exact .error List.mem_cons_self (by decide)
      · exact .advance (by simp [Node.edges, node, size, Edge.step]) rfl

theorem onChunkParameters_follows (ch : UInt8)
    (parameters : parser.state = .chunkParameters) :
    (parser.onChunkParameters ch).Follows parser.httpErrno
      parser.node.edges := by
  unfold onChunkParameters
  split_ifs
  · exact .advance (by simp [Node.edges, node, Edge.step, parameters]) rfl
  · exact .advance (by simp [Node.edges, node, Edge.step, parameters]) rfl

theorem onChunkSizeAlmostDone_follows (ch : UInt8)
    (almost : parser.state = .chunkSizeAlmostDone) :
    (parser.onChunkSizeAlmostDone ch).Follows parser.httpErrno
      parser.node.edges := by
  apply Case.Follows.strictCheck List.mem_cons_self
  split_ifs
  · exact .advance (by simp [node, almost, Effect.marks]) rfl
  · exact .advance (by simp [node, almost, Effect.marks, Edge.step]) rfl

theorem onChunkDataAlmostDone_follows (ch : UInt8)
    (almost : parser.state = .chunkDataAlmostDone) :
    (parser.onChunkDataAlmostDone ch).Follows parser.httpErrno
      parser.node.edges :=
  .strictCheck List.mem_cons_self
    (.advance (by simp [Node.edges, node, almost, Effect.marks]) rfl)

theorem onChunkDataDone_follows (ch : UInt8)
    (done : parser.state = .chunkDataDone) :
    (parser.onChunkDataDone ch).Follows parser.httpErrno parser.node.edges :=
  .strictCheck List.mem_cons_self
    (.advance (by simp [Node.edges, node, done, Effect.marks, Edge.step]) rfl)

/-- The case of a byte follows an edge of the graph. -/
theorem onByte_follows (parser : RequestParser) (ch : UInt8) :
    (parser.onByte ch).Follows parser.httpErrno parser.node.edges := by
  have edges : parser.node.edges =
      Node.edges ⟨parser.state, parser.flags.trailing⟩ := rfl
  unfold onByte
  cases state : parser.state <;> dsimp only
  case dead => exact onDead_follows ch state
  case startReq => exact onStartReq_follows ch state
  case reqMethod => exact onReqMethod_follows ch state
  case reqSpacesBeforeUrl => exact onReqSpacesBeforeUrl_follows ch state
  case reqHttpStart => exact onReqHttpStart_follows ch state
  case reqFirstHttpMajor => exact onReqFirstHttpMajor_follows ch state
  case reqHttpMajor => exact onReqHttpMajor_follows ch state
  case reqFirstHttpMinor => exact onReqFirstHttpMinor_follows ch state
  case reqHttpMinor => exact onReqHttpMinor_follows ch state
  case reqLineAlmostDone => exact onReqLineAlmostDone_follows ch state
  case headerValueDiscardWs => exact onHeaderValueDiscardWs_follows ch state
  case headerValueDiscardLws => exact onHeaderValueDiscardLws_follows ch state
  case chunkSizeStart => exact onChunkSizeStart_follows ch state
  case chunkSize => exact onChunkSize_follows ch state
  case chunkParameters => exact onChunkParameters_follows ch state
  case chunkSizeAlmostDone => exact onChunkSizeAlmostDone_follows ch state
  case chunkDataAlmostDone => exact onChunkDataAlmostDone_follows ch state
  case chunkDataDone => exact onChunkDataDone_follows ch state
  all_goals rw [edges, state]
  case reqSchema | reqSchemaSlash | reqSchemaSlashSlash | reqServerStart =>
    exact (onUrlFront_follows ch).mono (List.subset_cons_self _ _)
  case reqServer | reqServerWithAt | reqPath | reqQueryStringStart |
      reqQueryString | reqFragmentStart | reqFragment =>
    exact (onUrl_follows ch).mono (List.subset_cons_self _ _)
  case reqHttpH | reqHttpHT | reqHttpHTT | reqHttpHTTP |
      headerValueDiscardWsAlmostDone =>
    exact onConstant_follows ch _ _
  case headerFieldStart =>
    exact (onHeaderFieldStart_follows ch).mono (List.subset_cons_self _ _)
  case headerValueStart =>
    exact (onHeaderValueStart_follows ch).mono (List.subset_cons_self _ _)
  case headerValueLws =>
    exact (onHeaderValueLws_follows ch).mono (List.subset_cons_self _ _)
  case headerAlmostDone => exact onHeaderAlmostDone_follows ch
  case headersAlmostDone =>
    exact (onHeadersAlmostDone_follows ch).mono (List.subset_cons_self _ _)
  case headersDone =>
    exact (onHeadersDone_follows ch).mono (List.subset_cons_self _ _)
  case messageDone =>
    exact onMessageDone_follows.mono (List.subset_cons_self _ _)
  case headerField | headerValue | chunkData | bodyIdentity =>
    exact .advance (by simp [Node.edges, Edge.step, node, state]) rfl

end RequestParser

/-- What a mark makes of the token that is open.  At most one token is open,
and none at a notification. -/
def Mark.move (open_ : Option Token) : Mark → Option (Option Token)
  | .opens token =>
      if open_ = none ∨ open_ = some token then some (some token) else none
  | .closes token =>
      if open_ = none ∨ open_ = some token then some none else none
  | .tells _ => if open_ = none then some none else none

/-- The tokens that can be open in a state.  A call that begins behind the
data of a chunk has no mark for it. -/
def ParserState.opens (state : ParserState) : List (Option Token) :=
  match state with
  | .chunkDataAlmostDone => [none, some .body]
  | _ => [CountingParser.tokenAt state]

theorem ParserState.tokenAt_mem_opens (state : ParserState) :
    CountingParser.tokenAt state ∈ state.opens := by
  cases state <;> decide

/-- An edge keeps the marks in order: it ends with the token of the next
state, or with none where the call returns. -/
def Edge.InOrder (edge : Edge) (open_ : Option Token) : Prop :=
  ∃ last ∈ edge.marks.foldlM Mark.move open_,
    (edge.verdict = .advance →
      last = CountingParser.tokenAt edge.next.state) ∧
    (edge.verdict = .exit → last = none)

instance (edge : Edge) (open_ : Option Token) :
    Decidable (edge.InOrder open_) :=
  inferInstanceAs (Decidable (∃ last ∈ edge.marks.foldlM Mark.move open_,
    (edge.verdict = .advance →
      last = CountingParser.tokenAt edge.next.state) ∧
    (edge.verdict = .exit → last = none)))

theorem Node.edges_inOrder (node : Node) :
    ∀ edge ∈ node.edges, ∀ open_ ∈ node.state.opens, edge.InOrder open_ := by
  rcases node with ⟨state, trailing⟩
  cases state <;> cases trailing <;> decide

end Woody
