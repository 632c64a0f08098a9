import Woody.Http.Segments
import Woody.HttpParser.Calls

/-!
# The order of the callbacks

Whatever the bytes are and however they are cut, what the parser reports is a
sequence of messages, the last one perhaps not complete.  Headers can come a
second time, behind the last chunk of a body.
-/

namespace Woody

open Scanner

/-- How far the report of a message has come. -/
inductive Phase where
  | between
  | begun
  | url
  | field
  | value
  | headed
  | content
  | trailerField
  | trailerValue
  deriving DecidableEq

namespace Phase

/-- Which callbacks may come next. -/
def next : Phase → CallbackKind → Option Phase
  | between, .messageBegin => some begun
  | begun, .token .url | url, .token .url => some url
  | url, .token .headerField | field, .token .headerField
  | value, .token .headerField => some field
  | field, .token .headerValue | value, .token .headerValue => some value
  | url, .headersComplete | value, .headersComplete => some headed
  | headed, .token .body | content, .token .body => some content
  | headed, .token .headerField | content, .token .headerField
  | trailerField, .token .headerField | trailerValue, .token .headerField =>
      some trailerField
  | trailerField, .token .headerValue | trailerValue, .token .headerValue =>
      some trailerValue
  | headed, .messageComplete | content, .messageComplete
  | trailerValue, .messageComplete => some between
  | _, _ => none

def run (phase : Phase) (kinds : List CallbackKind) : Option Phase :=
  kinds.foldlM next phase

/-- The order of callbacks, from a phase on. -/
def runOn (phase : Phase) (callbacks : List HttpCallback) : Option Phase :=
  phase.run (callbacks.map HttpCallback.kind)

theorem runOn_append (phase : Phase) (early late : List HttpCallback) :
    phase.runOn (early ++ late) =
      (phase.runOn early).bind fun later => later.runOn late := by
  unfold runOn run
  rw [List.map_append, List.foldlM_append]
  rfl

/-- A token that is cut is in order if and only if it is in order whole. -/
theorem next_next (phase : Phase) (token : Token) :
    (phase.next (.token token)).bind (fun later => later.next (.token token)) =
      phase.next (.token token) := by
  cases phase <;> cases token <;> rfl

theorem runOn_glue {first second whole : HttpCallback}
    (glued : HttpCallback.gluing.glue first second = some whole)
    (phase : Phase) (later : List HttpCallback) :
    phase.runOn (first :: second :: later) = phase.runOn (whole :: later) := by
  have token : ∃ token, first.kind = .token token ∧
      second.kind = .token token ∧ whole.kind = .token token := by
    cases first <;> cases second <;> cases glued <;> exact ⟨_, rfl, rfl, rfl⟩
  obtain ⟨token, firstKind, secondKind, wholeKind⟩ := token
  have twice := phase.next_next token
  unfold runOn run
  simp only [List.map_cons, List.foldlM_cons, firstKind, secondKind,
    wholeKind]
  cases stepped : phase.next (.token token) with
  | none => rfl
  | some middle =>
      rw [stepped, Option.bind_some] at twice
      simp only [Option.bind_eq_bind, Option.bind_some, twice]

theorem runOn_cons (first : HttpCallback) (phase : Phase)
    (later : List HttpCallback) :
    phase.runOn (HttpCallback.gluing.cons first later) =
      phase.runOn (first :: later) := by
  cases later with
  | nil => rfl
  | cons second later =>
      cases glued : HttpCallback.gluing.glue first second with
      | none => rw [Gluing.cons_of_none glued]
      | some whole => rw [Gluing.cons_of_glue glued, runOn_glue glued]

/-- The order does not depend on how tokens are cut. -/
theorem runOn_join (phase : Phase) (callbacks : List HttpCallback) :
    phase.runOn (HttpCallback.gluing.join callbacks) =
      phase.runOn callbacks := by
  induction callbacks generalizing phase with
  | nil => rfl
  | cons first callbacks ih =>
      rw [Gluing.join, runOn_cons]
      unfold runOn run at ih ⊢
      simp only [List.map_cons, List.foldlM_cons]
      cases phase.next first.kind with
      | none => rfl
      | some later => exact ih later

theorem runOn_alike {left right : List HttpCallback}
    (alike : HttpCallback.gluing.Alike left right) (phase : Phase) :
    phase.runOn left = phase.runOn right := by
  rw [← runOn_join, alike, runOn_join]

end Phase

def Mark.kinds : Mark → List CallbackKind
  | .opens token => [.token token]
  | .closes _ => []
  | .tells kind => [kind]

/-- The phases that a state can be in. -/
def Node.phases (node : Node) : List Phase :=
  if node.trailing then
    match node.state with
    | .dead | .startReq => [.between]
    | .headerFieldStart => [.headed, .content, .trailerValue]
    | .headersAlmostDone => [.headed, .content, .trailerValue]
    | .headerField | .headerValueDiscardWs
    | .headerValueDiscardWsAlmostDone | .headerValueDiscardLws =>
        [.trailerField]
    | .headerValueStart => [.trailerField, .trailerValue]
    | .headerValue | .headerValueLws | .headerAlmostDone => [.trailerValue]
    | .messageDone => [.headed, .content, .trailerValue]
    | _ => []
  else
    match node.state with
    | .dead | .startReq => [.between]
    | .reqMethod | .reqSpacesBeforeUrl => [.begun]
    | .headerFieldStart | .headersAlmostDone => [.url, .value]
    | .headerField | .headerValueDiscardWs
    | .headerValueDiscardWsAlmostDone | .headerValueDiscardLws => [.field]
    | .headerValueStart => [.field, .value]
    | .headerValue | .headerValueLws | .headerAlmostDone => [.value]
    | .headersDone => [.headed]
    | .chunkSizeStart | .chunkSize | .chunkParameters | .chunkSizeAlmostDone
    | .chunkData | .bodyIdentity | .messageDone => [.headed, .content]
    | .chunkDataAlmostDone | .chunkDataDone => [.content]
    | _ => [.url]

/-- An edge keeps to the order. -/
def Edge.Ordered (edge : Edge) (phase : Phase) : Prop :=
  ∃ later ∈ phase.run (edge.marks.flatMap Mark.kinds),
    edge.verdict ≠ .error → later ∈ edge.next.phases ∧
      (edge.verdict = .advance →
        ∀ token ∈ CountingParser.tokenAt edge.next.state,
          later.next (.token token) = some later)

instance (edge : Edge) (phase : Phase) : Decidable (edge.Ordered phase) :=
  inferInstanceAs (Decidable (∃ later ∈ phase.run _, _ → _))

theorem Node.edges_ordered (node : Node) :
    ∀ phase ∈ node.phases, ∀ edge ∈ node.edges, edge.Ordered phase := by
  rcases node with ⟨state, trailing⟩
  cases state <;> cases trailing <;> decide

theorem Effect.kinds_outputs (effect : Effect) :
    effect.outputs.map HttpCallback.kind = effect.marks.flatMap Mark.kinds := by
  cases effect with
  | mark token => simp [outputs, marks, Mark.kinds, Token.kind_callback]
  | data token => rfl
  | notify callback => rfl
  | resetRead => rfl

theorem Case.kinds_outputs (case : Case) :
    (case.effects.flatMap Effect.outputs).map HttpCallback.kind =
      case.marks.flatMap Mark.kinds := by
  unfold marks
  induction case.effects with
  | nil => rfl
  | cons effect effects ih =>
      rw [List.flatMap_cons, List.flatMap_cons, List.map_append,
        List.flatMap_append, ih, Effect.kinds_outputs]

/-- The outputs are in order, and lead to a phase of the state. -/
def Reaction.Ordered (reaction : Reaction RequestParser HttpCallback)
    (phase : Phase) : Prop :=
  ∃ later ∈ phase.runOn reaction.outputs,
    reaction.verdict ≠ .error → later ∈ reaction.state.node.phases

theorem Case.Follows.ordered {case : Case} {node : Node} {errno : HttpErrno}
    (follows : case.Follows errno node.edges) {phase : Phase}
    (among : phase ∈ node.phases) (ch : UInt8) :
    (case.reaction ch).Ordered phase := by
  obtain ⟨edge, member, sameMarks, sameVerdict, next⟩ := follows.edge
  obtain ⟨later, runs, leads⟩ := node.edges_ordered phase among edge member
  rw [sameMarks, ← Case.kinds_outputs] at runs
  rw [sameVerdict] at leads
  refine ⟨later, ?_, ?_⟩
  · unfold Case.reaction
    rw [Phase.runOn_append, Option.mem_def]
    have effects : phase.runOn (case.effects.flatMap Effect.outputs) =
        some later := runs
    rw [effects, Option.bind_some]
    cases control : case.control with
    | advance =>
        have stays := (leads (by rw [control]; decide)).2 control
        rw [next (by rw [control]; decide)] at stays
        unfold RequestParser.piece
        cases opened : CountingParser.tokenAt case.parser.state with
        | none => rfl
        | some token =>
            have again := stays token opened
            simp [Phase.runOn, Phase.run, Token.kind_callback, again]
    | error => rfl
    | exit => rfl
  · intro goesOn
    have phases := (leads goesOn).1
    rwa [next goesOn] at phases

theorem Phase.runOn_piece {phase later : Phase} {token : Token}
    (next : phase.next (.token token) = some later) (ch : UInt8) :
    phase.runOn [token.callback [ch]] = some later := by
  simp [runOn, run, Token.kind_callback, next]

theorem phases_headerField {phase : Phase} {trailing : Bool}
    (among : phase ∈ Node.phases ⟨.headerField, trailing⟩) :
    phase.next (.token .headerField) = some phase ∧
      phase ∈ Node.phases ⟨.headerValueDiscardWs, trailing⟩ := by
  revert among
  cases trailing <;> cases phase <;> decide

theorem phases_headerValue {phase : Phase} {trailing : Bool}
    (among : phase ∈ Node.phases ⟨.headerValue, trailing⟩) :
    phase.next (.token .headerValue) = some phase ∧
      phase ∈ Node.phases ⟨.headerAlmostDone, trailing⟩ := by
  revert among
  cases trailing <;> cases phase <;> decide

theorem phases_body {phase : Phase} {trailing : Bool} {state : ParserState}
    (body : state = .bodyIdentity ∨ state = .chunkData)
    (among : phase ∈ Node.phases ⟨state, trailing⟩) :
    phase.next (.token .body) = some .content ∧
      .content ∈ Node.phases ⟨state, trailing⟩ ∧
      .content ∈ Node.phases ⟨.messageDone, trailing⟩ ∧
      .content ∈ Node.phases ⟨.chunkDataAlmostDone, trailing⟩ := by
  revert among
  rcases body with rfl | rfl <;> cases trailing <;> cases phase <;> decide

namespace RequestParser

variable {parser : RequestParser}

theorem onValueChar_trailing {hState : HeaderState} {ch : UInt8}
    {found : RequestParser × HeaderState}
    (goesOn : parser.onValueChar hState ch = some found) :
    found.1.flags.trailing = parser.flags.trailing := by
  revert goesOn
  unfold onValueChar matchValue
  cases hState <;> dsimp only <;> (try split) <;> (try split_ifs) <;>
    rintro ⟨⟩ <;> simp

theorem react_ordered {phase : Phase} (among : phase ∈ parser.node.phases)
    (ch : UInt8) : (parser.react ch).Ordered phase := by
  have here : parser.node = ⟨parser.state, parser.flags.trailing⟩ := rfl
  have refused : ∀ {later : RequestParser},
      Reaction.Ordered ⟨later, [], .error⟩ phase :=
    ⟨phase, rfl, fun wrong => (wrong rfl).elim⟩
  rw [here] at among
  unfold react
  cases state : parser.state <;> rw [state] at among <;> dsimp only
  case headerField =>
    obtain ⟨stays, behind⟩ := phases_headerField among
    unfold reactHeaderField
    split_ifs
    · obtain ⟨index, hState, same⟩ := parser.onFieldChar_frame ch (token ch)
      refine ⟨phase, Phase.runOn_piece stays ch, fun _ => ?_⟩
      rw [same]
      dsimp only [node]
      rwa [state]
    · exact ⟨phase, rfl, fun _ => behind⟩
    · exact refused
  case headerValue =>
    obtain ⟨stays, behind⟩ := phases_headerValue among
    unfold reactHeaderValue
    split_ifs
    · exact ⟨phase, rfl, fun _ => behind⟩
    · exact @Case.Follows.ordered _
        ⟨.headerAlmostDone, parser.flags.trailing⟩ _
        (@onHeaderAlmostDone_follows (parser.goto .headerAlmostDone) ch) _
        behind ch
    · cases next : parser.onValueChar parser.headerState ch with
      | none => exact refused
      | some found =>
          refine ⟨phase, Phase.runOn_piece stays ch, fun _ => ?_⟩
          dsimp only [node, store]
          rwa [onValueChar_state state next, onValueChar_trailing next]
  case bodyIdentity =>
    obtain ⟨next, stays, done, -⟩ := phases_body (.inl rfl) among
    unfold reactBodyIdentity
    dsimp only
    split_ifs
    · have follows := (@onMessageDone_follows
        (parser.countDown.goto .messageDone)).mono
          (List.subset_cons_self .refuse _)
      obtain ⟨later, runs, leads⟩ := @Case.Follows.ordered _
        ⟨.messageDone, parser.flags.trailing⟩ _ follows _ done ch
      refine ⟨later, ?_, leads⟩
      have piece : phase.runOn [.body [ch]] = some .content :=
        Phase.runOn_piece next ch
      have joined := phase.runOn_append [.body [ch]]
        ((parser.countDown.goto .messageDone).onMessageDone.reaction
          ch).outputs
      rw [piece, Option.bind_some] at joined
      exact joined.trans runs
    · refine ⟨.content, Phase.runOn_piece next ch, fun _ => ?_⟩
      dsimp only [node, countDown, minus]
      rwa [state]
  case chunkData =>
    obtain ⟨next, stays, -, almost⟩ := phases_body (.inr rfl) among
    unfold reactChunkData
    dsimp only
    split_ifs
    · exact ⟨.content, Phase.runOn_piece next ch, fun _ => almost⟩
    · refine ⟨.content, Phase.runOn_piece next ch, fun _ => ?_⟩
      dsimp only [node, countDown, minus]
      rwa [state]
  all_goals
    rw [← state, ← here] at among
    exact (parser.onByte_follows ch).ordered among ch

theorem scan_ordered {phase : Phase} (among : phase ∈ parser.node.phases)
    (bytes : Bytes) :
    ∃ later ∈ phase.runOn (scan react parser bytes).outputs,
      (scan react parser bytes).verdict ≠ .error →
        later ∈ (scan react parser bytes).state.node.phases := by
  induction bytes generalizing parser phase with
  | nil => exact ⟨phase, rfl, fun _ => among⟩
  | cons ch bytes ih =>
      obtain ⟨later, runs, leads⟩ := react_ordered among ch
      cases verdict : (parser.react ch).verdict with
      | advance =>
          obtain ⟨last, runsOn, ends⟩ := ih (leads (by rw [verdict]; decide))
          rw [scan_cons_advance verdict]
          refine ⟨last, ?_, ends⟩
          rw [Phase.runOn_append, Option.mem_def.mp runs]
          exact runsOn
      | error =>
          rw [scan_cons_error verdict]
          exact ⟨later, runs, fun wrong => (wrong rfl).elim⟩
      | exit =>
          rw [scan_cons_exit verdict]
          exact ⟨later, runs, fun _ => leads (by rw [verdict]; decide)⟩

end RequestParser

/-- What holds behind calls that have reported `history`. -/
structure CountingParser.Reached (history : List HttpCallback)
    (parser : CountingParser) : Prop where
  ordered : ∃ later ∈ Phase.between.runOn history,
    parser.httpErrno = .ok → later ∈ parser.toRequestParser.node.phases
  sound : parser.httpErrno = .ok → parser.Sound
  ends : parser.httpErrno = .ok →
    RequestParser.EndsIn history parser.toRequestParser

namespace CountingParser

variable {history : List HttpCallback} {parser : CountingParser}

theorem init_reached : Reached [] init :=
  ⟨⟨.between, rfl, fun _ => List.mem_cons_self⟩,
    fun _ => RequestParser.init_sound,
    fun _ => RequestParser.endsIn_of_state rfl rfl⟩

theorem Reached.failed {late : List HttpCallback} {other : CountingParser}
    (ordered : Phase.between.runOn (history ++ late) ≠ none)
    (failed : other.httpErrno ≠ .ok) : Reached (history ++ late) other := by
  obtain ⟨later, runs⟩ := Option.ne_none_iff_exists'.mp ordered
  exact ⟨⟨later, runs, fun wrong => (failed wrong).elim⟩,
    fun wrong => (failed wrong).elim, fun wrong => (failed wrong).elim⟩

/-- What has been reported in order up to some piece is in order. -/
theorem ordered_of_append {early late : List HttpCallback} {phase : Phase}
    (ordered : phase.runOn (early ++ late) ≠ none) :
    phase.runOn early ≠ none := by
  intro none
  rw [Phase.runOn_append, none] at ordered
  exact ordered rfl

theorem Reached.executeAll (reached : Reached history parser)
    (ok : parser.httpErrno = .ok) {data : Bytes}
    (small : data.length + httpMaxHeaderSize.toNat < 2 ^ 32) :
    Reached (history ++ (parser.executeAll data).callbacks)
      (parser.executeAll data).parser := by
  obtain ⟨phase, runs, among⟩ := reached.ordered
  have outputs : ∀ bytes, Phase.between.runOn (history ++
      (scan RequestParser.react parser.toRequestParser bytes).outputs) =
        phase.runOn
          (scan RequestParser.react parser.toRequestParser bytes).outputs := by
    intro bytes
    rw [Phase.runOn_append, Option.mem_def.mp runs, Option.bind_some]
  cases executeAll_reports (reached.ends ok) (reached.sound ok) small with
  | overflow taken later pending errno split read alike =>
      obtain ⟨last, runsOn, -⟩ := RequestParser.scan_ordered (among ok) taken
      have ordered := Phase.runOn_alike alike .between
      rw [List.nil_append, outputs, Option.mem_def.mp runsOn] at ordered
      apply Reached.failed
      · apply ordered_of_append
        rw [ordered]
        exact Option.some_ne_none last
      · rw [errno]
        decide
  | exact pending state rest closed alike =>
      obtain ⟨last, runsOn, leads⟩ := RequestParser.scan_ordered (among ok) data
      have ordered := Phase.runOn_alike alike .between
      rw [List.nil_append, outputs, Option.mem_def.mp runsOn] at ordered
      have errno := RequestParser.errno_scan ok data
      rw [← state] at errno
      by_cases noError : (scan RequestParser.react parser.toRequestParser
          data).verdict ≠ .error
      · have none := closed noError
        subst none
        rw [Pending.callbacks, Option.toList_none, List.map_nil,
          List.append_nil] at ordered alike
        obtain ⟨sound, ends⟩ :=
          RequestParser.scan_rests (reached.sound ok) (reached.ends ok) noError
        have leads := leads noError
        rw [List.nil_append] at alike
        have ends := ends.of_alike alike.symm
        rw [← state] at leads sound ends
        exact ⟨⟨last, ordered, fun _ => leads⟩, fun _ => sound, fun _ => ends⟩
      · apply Reached.failed
        · apply ordered_of_append
          rw [ordered]
          exact Option.some_ne_none last
        · exact fun wrong => noError (errno.mp wrong)

/-- Any call, whatever its data and whatever the calls before it. -/
theorem Reached.execute (reached : Reached history parser) {data : Bytes}
    (small : data.length + httpMaxHeaderSize.toNat < 2 ^ 32) :
    Reached (history ++ (parser.execute data).2.1)
      (parser.execute data).1 := by
  unfold CountingParser.execute
  split_ifs with failed
  · rwa [List.append_nil]
  · have ok := not_not.mp failed
    cases data with
    | nil =>
        dsimp only
        split
        · rwa [List.append_nil]
        · rwa [List.append_nil]
        · obtain ⟨phase, runs, -⟩ := reached.ordered
          apply Reached.failed
          · rw [List.append_nil, Option.mem_def.mp runs]
            exact Option.some_ne_none phase
          · exact nofun
    | cons ch rest => exact reached.executeAll ok small

theorem Reached.callbacks (reached : Reached history parser)
    {calls : List Bytes}
    (small : ∀ data ∈ calls,
      data.length + httpMaxHeaderSize.toNat < 2 ^ 32) :
    Phase.between.runOn (history ++ httpParser.callbacks parser calls) ≠
      none := by
  induction calls generalizing history parser with
  | nil =>
      obtain ⟨phase, runs, -⟩ := reached.ordered
      have none : httpParser.callbacks parser [] = [] := rfl
      rw [none, List.append_nil, Option.mem_def.mp runs]
      exact Option.some_ne_none phase
  | cons data calls ih =>
      have called := reached.execute (small data List.mem_cons_self)
      have later := ih called
        (fun data member => small data (List.mem_cons_of_mem _ member))
      rw [List.append_assoc] at later
      exact later

end CountingParser

end Woody
