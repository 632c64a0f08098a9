import Woody.HttpParser.Execution

/-!
# Sequences of calls

The caller of `http_parser_execute` has to look at the error number and at
`upgrade` behind every call.  When it does, all ways of cutting a stream into
calls lead to the same state at the same byte and report the same, unless the
header is too long.
-/

namespace Woody

open Scanner

namespace RequestParser

variable {parser : RequestParser}

/-- The parser is between messages. -/
def AtStart (parser : RequestParser) : Prop :=
  parser.state = .startReq ∨ parser.state = .dead

instance : Decidable parser.AtStart :=
  inferInstanceAs (Decidable (_ ∨ _))

/-- An error has occurred, or the rest is in another protocol. -/
def halted (parser : RequestParser) : Bool :=
  parser.httpErrno ≠ .ok || (parser.upgrade && parser.AtStart)

theorem not_atStart_goto {state : ParserState} (start : state ≠ .startReq)
    (dead : state ≠ .dead) : ¬ (parser.goto state).AtStart :=
  not_or.mpr ⟨start, dead⟩

theorem atStart_newMessage (parser : RequestParser) :
    (parser.goto parser.newMessage).AtStart :=
  parser.newMessage_cases

end RequestParser

/-- Behind a message the parser returns if it is upgraded.  One that is running
goes on only if it is not. -/
structure Case.Settles (running : Prop) (case : Case) : Prop where
  advance : running → case.control = .advance → case.parser.AtStart →
    case.parser.upgrade = false
  exit : case.control = .exit →
    case.parser.AtStart ∧ case.parser.upgrade = true

namespace Case.Settles

variable {running : Prop}

theorem goesOn {parser : RequestParser} {effects : List Effect}
    (inside : ¬ parser.AtStart) :
    (Case.advance parser effects).Settles running :=
  ⟨fun _ _ start => (inside start).elim, nofun⟩

theorem error {parser : RequestParser} {errno : HttpErrno} :
    (Case.error parser errno).Settles running :=
  ⟨nofun, nofun⟩

theorem strictCheck {parser : RequestParser} {failed : Bool} {later : Case}
    (settles : later.Settles running) :
    (Case.strictCheck parser failed later).Settles running := by
  cases failed with
  | true => exact error
  | false => exact settles

theorem behind {effects : List Effect} {later : Case}
    (settles : later.Settles running) :
    (Case.behind effects later).Settles running :=
  ⟨settles.advance, settles.exit⟩

end Case.Settles

namespace RequestParser

variable {parser : RequestParser} {running : Prop}

theorem onMessageDone_settles : parser.onMessageDone.Settles running := by
  unfold onMessageDone
  cases upgrade : parser.upgrade with
  | true =>
      refine ⟨?_, fun _ => ⟨parser.atStart_newMessage, upgrade⟩⟩
      simp [goto, upgrade]
  | false =>
      refine ⟨fun _ _ _ => upgrade, ?_⟩
      simp [goto, upgrade]

theorem onHeadersDone_settles (ch : UInt8) :
    (parser.onHeadersDone ch).Settles running := by
  apply Case.Settles.strictCheck
  dsimp only
  split_ifs with leaves chunked empty known
  · have upgrade := (Bool.and_eq_true_iff.mp leaves).1
    exact ⟨fun _ => nofun, fun _ => ⟨parser.atStart_newMessage, upgrade⟩⟩
  · exact .goesOn (not_atStart_goto nofun nofun)
  · refine ⟨fun _ _ _ => ?_, nofun⟩
    simp [chunked, empty] at leaves
    exact leaves
  · exact .goesOn (not_atStart_goto nofun nofun)
  · refine ⟨fun _ _ _ => ?_, nofun⟩
    simp [chunked, not_not.mp known] at leaves
    exact leaves

theorem onHeadersAlmostDone_settles (ch : UInt8) :
    (parser.onHeadersAlmostDone ch).Settles running := by
  apply Case.Settles.strictCheck
  split_ifs
  · exact onMessageDone_settles
  · exact .behind (onHeadersDone_settles ch)

theorem onHeaderFieldStart_settles (ch : UInt8) :
    (parser.onHeaderFieldStart ch).Settles running := by
  unfold onHeaderFieldStart
  dsimp only
  split_ifs
  · exact .goesOn (not_atStart_goto nofun nofun)
  · exact onHeadersAlmostDone_settles ch
  · exact .error
  all_goals exact .goesOn (not_or.mpr ⟨nofun, nofun⟩)

theorem headerEnd_settles (ch : UInt8) (state : ParserState) :
    ((parser.setFlag.goto state).onHeaderFieldStart ch).Settles running :=
  onHeaderFieldStart_settles ch

theorem onHeaderValueStart_settles (ch : UInt8) :
    (parser.onHeaderValueStart ch).Settles running := by
  have inside : ∀ index flags hState length,
      ¬ RequestParser.AtStart
        { parser with
          state := .headerValue
          index := index
          flags := flags
          headerState := hState
          contentLength := length } :=
    fun _ _ _ _ => not_or.mpr ⟨nofun, nofun⟩
  unfold onHeaderValueStart
  dsimp only
  split
  · exact .goesOn (inside _ _ _ _)
  · exact .goesOn (inside _ _ _ _)
  · split_ifs
    · exact .error
    · exact .goesOn (inside _ _ _ _)
  · exact .goesOn (inside _ _ _ _)
  · exact .goesOn (inside _ _ _ _)
  · exact .goesOn (inside _ _ _ _)

/-- The states whose cases can end a message, or stay between two. -/
def settling : List ParserState :=
  [.dead, .startReq, .headerFieldStart, .headerValueDiscardLws,
    .headerValueLws, .headersAlmostDone, .headersDone, .messageDone]

theorem edges_inside (node : Node) (others : node.state ∉ settling) :
    ∀ edge ∈ node.edges, edge.verdict ≠ .exit ∧
      (edge.verdict = .advance →
        edge.next.state ≠ .startReq ∧ edge.next.state ≠ .dead) := by
  rcases node with ⟨state, trailing⟩
  revert others
  cases state <;> cases trailing <;> decide

theorem onByte_settles (ch : UInt8) :
    (parser.onByte ch).Settles
      (parser.AtStart → parser.upgrade = false) := by
  by_cases others : parser.node.state ∉ settling
  · obtain ⟨edge, member, -, sameVerdict, next⟩ :=
      (parser.onByte_follows ch).edge
    obtain ⟨noExit, inside⟩ := edges_inside parser.node others edge member
    rw [sameVerdict] at noExit inside
    refine ⟨fun _ goesOn start => ?_, fun exits => (noExit exits).elim⟩
    have stays := inside goesOn
    rw [next (by rw [goesOn]; decide)] at stays
    rcases start with start | dead
    · exact (stays.1 start).elim
    · exact (stays.2 dead).elim
  · have among : parser.state ∈ settling := not_not.mp others
    unfold onByte
    cases state : parser.state <;> rw [state] at among <;> dsimp only
    case dead =>
      unfold onDead
      split_ifs
      · exact ⟨fun running _ start => running start, nofun⟩
      · exact .error
    case startReq =>
      unfold onStartReq
      dsimp only
      split_ifs
      · exact ⟨fun running _ start => running start, nofun⟩
      · exact .error
      · split
        · exact .error
        · exact .goesOn (not_or.mpr ⟨nofun, nofun⟩)
    case headerFieldStart => exact onHeaderFieldStart_settles ch
    case headersAlmostDone => exact onHeadersAlmostDone_settles ch
    case headersDone => exact onHeadersDone_settles ch
    case messageDone => exact onMessageDone_settles
    case headerValueDiscardLws =>
      unfold onHeaderValueDiscardLws
      split_ifs
      · exact .goesOn (not_atStart_goto nofun nofun)
      · exact .behind (headerEnd_settles ch _)
    case headerValueLws =>
      unfold onHeaderValueLws
      split_ifs
      · exact onHeaderValueStart_settles ch
      · exact headerEnd_settles ch _
    all_goals exact absurd among (by decide)

/-- An error, and nothing else, writes to the error number.  A parser that is
running stops behind a message if it is upgraded. -/
structure Settled (running : Prop) (errno : HttpErrno)
    (reaction : Reaction RequestParser HttpCallback) : Prop where
  refused : reaction.verdict = .error → reaction.state.httpErrno.Refuses
  kept : reaction.verdict ≠ .error → reaction.state.httpErrno = errno
  advance : running → reaction.verdict = .advance →
    reaction.state.AtStart → reaction.state.upgrade = false
  exit : reaction.verdict = .exit →
    reaction.state.AtStart ∧ reaction.state.upgrade = true

theorem Settled.of_case {case : Case} {errno : HttpErrno}
    {edges : List Edge} (follows : case.Follows errno edges)
    (settles : case.Settles running) (ch : UInt8) :
    Settled running errno (case.reaction ch) :=
  ⟨follows.refused, follows.kept, settles.advance, settles.exit⟩

theorem Settled.goesOn {errno : HttpErrno}
    {outputs : List HttpCallback} (kept : parser.httpErrno = errno)
    (inside : ¬ parser.AtStart) :
    Settled running errno ⟨parser, outputs, .advance⟩ :=
  ⟨nofun, fun _ => kept, fun _ _ start => (inside start).elim, nofun⟩

theorem Settled.error {errno : HttpErrno}
    {outputs : List HttpCallback} (fails : parser.httpErrno.Refuses) :
    Settled running errno ⟨parser, outputs, .error⟩ :=
  ⟨fun _ => fails, fun wrong => (wrong rfl).elim, nofun, nofun⟩

theorem not_atStart_of_state {state : ParserState}
    (here : parser.state = state) (start : state ≠ .startReq)
    (dead : state ≠ .dead) : ¬ parser.AtStart := by
  unfold AtStart
  rw [here]
  exact not_or.mpr ⟨start, dead⟩

theorem react_settled (parser : RequestParser) (ch : UInt8) :
    Settled (parser.AtStart → parser.upgrade = false) parser.httpErrno
      (parser.react ch) := by
  unfold react
  cases state : parser.state <;> dsimp only
  case headerField =>
    unfold reactHeaderField
    split_ifs
    · obtain ⟨index, hState, same⟩ := parser.onFieldChar_frame ch (token ch)
      rw [same]
      exact .goesOn rfl (not_atStart_of_state state nofun nofun)
    · exact .goesOn rfl (not_atStart_goto nofun nofun)
    · exact .error ⟨nofun, nofun⟩
  case headerValue =>
    unfold reactHeaderValue
    split_ifs
    · exact .goesOn rfl (not_atStart_goto nofun nofun)
    · exact .of_case
        (@onHeaderAlmostDone_follows (parser.goto .headerAlmostDone) ch)
        (.strictCheck (.goesOn (not_atStart_goto nofun nofun))) ch
    · cases next : parser.onValueChar parser.headerState ch with
      | none => exact .error ⟨nofun, nofun⟩
      | some found =>
          obtain ⟨_, _, _, _, same⟩ := onValueChar_frame state next
          dsimp only [store]
          rw [same]
          exact .goesOn rfl (not_atStart_of_state state nofun nofun)
  case bodyIdentity =>
    unfold reactBodyIdentity
    dsimp only
    split_ifs
    · have settled := @Settled.of_case
        (parser.AtStart → parser.upgrade = false) _ _ _
        (@onMessageDone_follows (parser.countDown.goto .messageDone))
        onMessageDone_settles ch
      exact ⟨settled.refused, settled.kept, settled.advance, settled.exit⟩
    · exact .goesOn rfl (not_atStart_of_state state nofun nofun)
  case chunkData =>
    unfold reactChunkData
    dsimp only
    split_ifs
    · exact .goesOn rfl (not_atStart_goto nofun nofun)
    · exact .goesOn rfl (not_atStart_of_state state nofun nofun)
  all_goals
    exact .of_case (parser.onByte_follows ch)
      (onByte_settles ch) ch

theorem halted_eq_false : parser.halted = false ↔
    parser.httpErrno = .ok ∧ (parser.AtStart → parser.upgrade = false) := by
  unfold halted
  simp only [Bool.or_eq_false_iff, decide_eq_false_iff_not, not_not,
    Bool.and_eq_false_imp]
  constructor
  · rintro ⟨errno, running⟩
    refine ⟨errno, fun start => ?_⟩
    by_contra upgrade
    exact running (Bool.eq_true_of_not_eq_false upgrade) start
  · rintro ⟨errno, running⟩
    refine ⟨errno, fun upgrade start => ?_⟩
    rw [running start] at upgrade
    cases upgrade

/-- The machine stops where the caller has to look. -/
theorem halted_react (running : parser.halted = false) (ch : UInt8) :
    (parser.react ch).state.halted = false ↔
      (parser.react ch).verdict = .advance := by
  obtain ⟨errno, goesOn⟩ := halted_eq_false.mp running
  have settled := parser.react_settled ch
  rw [halted_eq_false]
  cases verdict : (parser.react ch).verdict with
  | advance =>
      refine iff_of_true ⟨?_, settled.advance goesOn verdict⟩ rfl
      rw [settled.kept (by rw [verdict]; decide), errno]
  | error =>
      exact iff_of_false (fun both => (settled.refused verdict).1 both.1) nofun
  | exit =>
      obtain ⟨start, upgrade⟩ := settled.exit verdict
      refine iff_of_false (fun both => ?_) nofun
      rw [both.2 start] at upgrade
      cases upgrade

theorem halted_scan (running : parser.halted = false) (bytes : Bytes) :
    (scan react parser bytes).state.halted = false ↔
      (scan react parser bytes).verdict = .advance := by
  induction bytes generalizing parser with
  | nil => exact iff_of_true running rfl
  | cons ch bytes ih =>
      have first := halted_react running ch
      cases verdict : (parser.react ch).verdict with
      | advance =>
          rw [scan_cons_advance verdict]
          exact ih (first.mpr verdict)
      | error =>
          rw [scan_cons_error verdict]
          rw [verdict] at first
          exact first
      | exit =>
          rw [scan_cons_exit verdict]
          rw [verdict] at first
          exact first

theorem errno_scan (errno : parser.httpErrno = .ok) (bytes : Bytes) :
    (scan react parser bytes).state.httpErrno = .ok ↔
      (scan react parser bytes).verdict ≠ .error := by
  induction bytes generalizing parser with
  | nil => exact iff_of_true errno nofun
  | cons ch bytes ih =>
      have settled := parser.react_settled ch
      cases verdict : (parser.react ch).verdict with
      | advance =>
          rw [scan_cons_advance verdict]
          have kept := settled.kept (by rw [verdict]; decide)
          exact ih (kept.trans errno)
      | error =>
          rw [scan_cons_error verdict]
          exact iff_of_false (settled.refused verdict).1 (fun wrong => wrong rfl)
      | exit =>
          rw [scan_cons_exit verdict]
          have kept := settled.kept (by rw [verdict]; decide)
          exact iff_of_true (kept.trans errno) nofun

theorem atStart_of_exit {bytes : Bytes}
    (exits : (scan react parser bytes).verdict = .exit) :
    (scan react parser bytes).state.AtStart := by
  have stops : (scan react parser bytes).verdict ≠ .advance := by
    rw [exits]
    decide
  obtain ⟨early, ch, late, rfl, read, same⟩ := exists_of_stop stops
  rw [exits] at same
  rw [scan_append_advance read, scan_cons_exit same]
  exact ((react_settled _ ch).exit same).1

theorem AtStart.sound (start : parser.AtStart) : parser.Sound := by
  apply sound_of_free
  rcases start with state | state <;> rw [state] <;> rfl

/-- What has been reported ends with the token that is open between the
calls. -/
def EndsIn (history : List HttpCallback) (parser : RequestParser) : Prop :=
  ∀ token, CountingParser.tokenAt parser.state = some token →
    HttpCallback.gluing.Alike (history ++ [token.callback []]) history

theorem EndsIn.of_alike {left right : List HttpCallback}
    (ends : EndsIn left parser)
    (alike : HttpCallback.gluing.Alike left right) : EndsIn right parser := by
  intro token opened
  have glued := ends token opened
  exact (alike.symm.append_right _).trans (glued.trans alike)

theorem endsIn_of_state {history : List HttpCallback} {state : ParserState}
    (here : parser.state = state)
    (closed : CountingParser.tokenAt state = none) :
    EndsIn history parser := by
  intro token opened
  rw [here, closed] at opened
  cases opened

theorem AtStart.endsIn {history : List HttpCallback} (start : parser.AtStart) :
    EndsIn history parser := by
  rcases start with state | state
  · exact endsIn_of_state state rfl
  · exact endsIn_of_state state rfl

theorem endsIn_piece {history : List HttpCallback} {token : Token}
    (opened : CountingParser.tokenAt parser.state = some token)
    (ch : UInt8) : EndsIn (history ++ [token.callback [ch]]) parser := by
  intro other opens
  rw [opened] at opens
  cases opens
  have glued := Gluing.Alike.glued (HttpCallback.glue_token token [ch] [])
    history []
  rw [List.append_assoc]
  exact glued

theorem endsIn_reaction {history : List HttpCallback} {case : Case}
    (goesOn : case.control = .advance) (ch : UInt8) :
    EndsIn (history ++ (case.reaction ch).outputs)
      (case.reaction ch).state := by
  intro token opened
  have here : CountingParser.tokenAt case.parser.state = some token := opened
  have piece : case.parser.piece ch = [token.callback [ch]] := by
    simp [piece, here]
  have ends := @endsIn_piece case.parser
    (history ++ case.effects.flatMap Effect.outputs) token here ch
  unfold Case.reaction
  dsimp only
  rw [goesOn]
  dsimp only
  rw [piece, ← List.append_assoc]
  exact ends token here

theorem endsIn_react {history : List HttpCallback} {ch : UInt8}
    (goesOn : (parser.react ch).verdict = .advance) :
    EndsIn (history ++ (parser.react ch).outputs)
      (parser.react ch).state := by
  unfold react at goesOn ⊢
  cases state : parser.state <;> rw [state] at goesOn <;> dsimp only at *
  case headerField =>
    unfold reactHeaderField at goesOn ⊢
    split_ifs at goesOn ⊢
    · have opened : CountingParser.tokenAt
          (parser.onFieldChar ch (token ch)).state = some .headerField := by
        rw [onFieldChar_state, state]
        rfl
      exact endsIn_piece opened ch
    · exact endsIn_of_state rfl rfl
  case headerValue =>
    unfold reactHeaderValue at goesOn ⊢
    split_ifs at goesOn ⊢
    · exact endsIn_of_state rfl rfl
    · exact endsIn_reaction goesOn ch
    · cases next : parser.onValueChar parser.headerState ch with
      | none => simp [next] at goesOn
      | some found =>
          have opened : CountingParser.tokenAt (store found).state =
              some .headerValue := by
            rw [store, onValueChar_state state next]
            rfl
          exact endsIn_piece opened ch
  case bodyIdentity =>
    unfold reactBodyIdentity at goesOn ⊢
    dsimp only at *
    split_ifs at goesOn ⊢
    · have ends := @endsIn_reaction (history ++ [.body [ch]]) _ goesOn ch
      rwa [List.append_assoc] at ends
    · exact endsIn_of_state state rfl
  case chunkData =>
    unfold reactChunkData
    dsimp only
    split_ifs
    · exact endsIn_of_state rfl rfl
    · exact endsIn_of_state state rfl
  all_goals exact endsIn_reaction goesOn ch

theorem endsIn_scan {history : List HttpCallback} {bytes : Bytes}
    (ends : EndsIn history parser)
    (goesOn : (scan react parser bytes).verdict = .advance) :
    EndsIn (history ++ (scan react parser bytes).outputs)
      (scan react parser bytes).state :=
  scan_invariant (fun _ _ _ _ goesOn => endsIn_react goesOn) ends goesOn

/-- Between two calls the parser stands as the machine does. -/
theorem scan_rests {history : List HttpCallback} {bytes : Bytes}
    (sound : parser.Sound) (ends : EndsIn history parser)
    (noError : (scan react parser bytes).verdict ≠ .error) :
    (scan react parser bytes).state.Sound ∧
      EndsIn (history ++ (scan react parser bytes).outputs)
        (scan react parser bytes).state := by
  cases verdict : (scan react parser bytes).verdict with
  | advance => exact ⟨scan_sound sound verdict, endsIn_scan ends verdict⟩
  | error => exact (noError verdict).elim
  | exit =>
      have start := atStart_of_exit verdict
      exact ⟨start.sound, start.endsIn⟩

end RequestParser

open RequestParser

namespace CountingParser

variable {parser : CountingParser} {history : List HttpCallback}

theorem tracks_start (ends : EndsIn history parser.toRequestParser)
    (data : Bytes) :
    ∃ pending : Pending, pending.token = tokenAt parser.state ∧
      Tracks history [] pending data
        ⟨parser, marksAt parser.state data, []⟩ := by
  cases opened : tokenAt parser.state with
  | none =>
      refine ⟨none, rfl, ?_, ?_⟩
      · funext token
        simp [marksAt, opened, Pending.marks]
      · simp [Gluing.Alike, Pending.callbacks]
  | some token =>
      refine ⟨some (token, []), rfl, ?_, ?_⟩
      · funext other
        simp [marksAt, opened, Pending.marks]
      · have glued := ends token opened
        simpa [Pending.callbacks] using glued

/-- A call does what the machine does at its data. -/
theorem executeAll_reports {data : Bytes}
    (ends : EndsIn history parser.toRequestParser) (sound : parser.Sound)
    (small : data.length + httpMaxHeaderSize.toNat < 2 ^ 32) :
    Reports history [] parser.toRequestParser data
      (parser.executeAll data) := by
  obtain ⟨pending, token, tracks⟩ := tracks_start ends data
  refine Progress.loop_follows (Nat.lt_succ_self _) tracks ?_ sound small
  intro _
  rw [token]
  exact ParserState.tokenAt_mem_opens _

/-- The calls for the reads of a connection.  The caller goes on as long as
no error has occurred and the connection is not upgraded; `rest` is what it is
left with. -/
def feed (parser : CountingParser) : List Bytes → Executed
  | [] => ⟨parser, [], []⟩
  | data :: later =>
      let called := parser.execute data
      if called.1.halted then
        ⟨called.1, called.2.1, data.drop called.2.2 ++ later.flatten⟩
      else
        let behind := feed called.1 later
        { behind with callbacks := called.2.1 ++ behind.callbacks }

theorem execute_of_running (running : parser.halted = false) {data : Bytes}
    (some : data ≠ []) :
    parser.execute data =
      ((parser.executeAll data).parser, (parser.executeAll data).callbacks,
        data.length - (parser.executeAll data).rest.length) := by
  have errno := (halted_eq_false.mp running).1
  obtain ⟨ch, rest, rfl⟩ := List.exists_cons_of_ne_nil some
  unfold execute
  rw [if_neg (not_not.mpr errno)]

/-- All calls for a connection do what the machine does at its bytes. -/
theorem feed_reports {reads : List Bytes}
    (some : ∀ data ∈ reads, data ≠ [])
    (small : ∀ data ∈ reads,
      data.length + httpMaxHeaderSize.toNat < 2 ^ 32)
    (running : parser.halted = false) (sound : parser.Sound)
    (ends : EndsIn history parser.toRequestParser) :
    Reports history [] parser.toRequestParser reads.flatten
      (parser.feed reads) := by
  induction reads generalizing parser history with
  | nil =>
      refine .exact none rfl rfl (fun _ => rfl) ?_
      simp [feed, scan, Gluing.Alike, Pending.callbacks]
  | cons data later ih =>
      have reports := executeAll_reports ends sound
        (small data List.mem_cons_self)
      have called := execute_of_running running (some data List.mem_cons_self)
      unfold feed
      rw [called, List.flatten_cons]
      dsimp only
      cases reports with
      | overflow taken behind pending errno split read alike =>
          have stops : (parser.executeAll data).parser.halted = true := by
            simp [halted, errno]
          rw [if_pos stops]
          refine .overflow taken (behind ++ later.flatten) pending errno ?_
            read alike
          rw [split, List.append_assoc]
      | exact pending state rest closed alike =>
          have stops := halted_scan running data
          rw [← state] at stops
          by_cases verdict :
              (scan react parser.toRequestParser data).verdict = .advance
          · rw [if_neg (by simp [stops.mpr verdict])]
            have none := closed (by rw [verdict]; decide)
            subst none
            simp only [Pending.callbacks, Option.toList_none, List.map_nil,
              List.append_nil, List.nil_append] at alike
            have soundLater : (parser.executeAll data).parser.Sound := by
              rw [state]
              exact scan_sound sound verdict
            have endsLater := (endsIn_scan ends verdict).of_alike alike.symm
            rw [← state] at endsLater
            have behind := ih
              (fun data member => some data (List.mem_cons_of_mem _ member))
              (fun data member => small data (List.mem_cons_of_mem _ member))
              (stops.mpr verdict) soundLater endsLater
            rw [state] at behind
            exact Reports.behind verdict (behind.of_alike alike)
          · have stops' : (parser.executeAll data).parser.halted = true :=
              Bool.eq_true_of_not_eq_false fun goesOn => verdict (stops.mp goesOn)
            rw [if_pos stops']
            have scanned := scan_append_stop verdict later.flatten
            have isRest : data.drop
                (data.length - (parser.executeAll data).rest.length) =
                  (scan react parser.toRequestParser data).rest := by
              rw [rest]
              exact (List.suffix_iff_eq_drop.mp (rest_suffix data)).symm
            refine .exact pending ?_ ?_ ?_ ?_ <;> rw [scanned]
            · exact state
            · rw [isRest]
            · exact closed
            · exact alike

end CountingParser

end Woody
