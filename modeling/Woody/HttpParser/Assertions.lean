import Woody.HttpParser.Grammar

/-!
# The assertions of `http_parser_execute`

The source asserts what it relies on: no error where a callback runs, a count
of one at the first digit of a chunk size, the flag and the length of a body,
known states of the matchers, and at most one mark at the end of the data.
The index of a matcher is a field of eight bits and is read in a word.
-/

namespace Woody

open Scanner

namespace HeaderState

/-- The cases of the switch in `s_header_field`. -/
def nameCases : List HeaderState :=
  [.general, .c, .co, .con, .matchingConnection, .matchingProxyConnection,
    .matchingContentLength, .matchingTransferEncoding, .matchingUpgrade,
    .connection, .contentLength, .transferEncoding, .upgrade]

/-- The cases of the switch in `s_header_value` that can be reached. -/
def valueCases : List HeaderState :=
  [.general, .contentLength, .matchingTransferEncodingChunked,
    .matchingConnectionTokenStart, .matchingConnectionKeepAlive,
    .matchingConnectionClose, .matchingConnectionUpgrade,
    .matchingConnectionToken, .transferEncodingChunked,
    .connectionKeepAlive, .connectionClose, .connectionUpgrade]

/-- The cases that increment the index. -/
def counting : List HeaderState :=
  [.c, .co, .con, .matchingConnection, .matchingProxyConnection,
    .matchingContentLength, .matchingTransferEncoding, .matchingUpgrade,
    .matchingTransferEncodingChunked, .matchingConnectionKeepAlive,
    .matchingConnectionClose, .matchingConnectionUpgrade]

/-- The case is one of the switch, and if it increments the index, the index
stays in eight bits. -/
def Handled (cases : List HeaderState) (seen : HeaderState × Nat) : Prop :=
  seen.1 ∈ cases ∧ (seen.1 ∈ counting → seen.2 + 1 < 2 ^ 8)

theorem word_lengths :
    CONNECTION.length = 10 ∧ PROXY_CONNECTION.length = 16 ∧
      CONTENT_LENGTH.length = 14 ∧ TRANSFER_ENCODING.length = 17 ∧
      UPGRADE.length = 7 ∧ CHUNKED.length = 7 ∧ KEEP_ALIVE.length = 10 ∧
      CLOSE.length = 5 := by
  decide

theorem handled_of_inName {index : Nat} {hState : HeaderState}
    (inName : hState.InName index) : Handled nameCases (hState, index) := by
  have lengths := word_lengths
  constructor
  · revert inName
    cases hState <;> simp [InName, nameCases]
  · revert inName
    cases hState <;> simp [InName, counting] <;> omega

theorem handled_of_inValue {index : Nat} {hState : HeaderState}
    (inValue : hState.InValue index) :
    Handled valueCases (hState, index) := by
  have lengths := word_lengths
  constructor
  · revert inValue
    cases hState <;> simp [InValue, valueCases]
  · revert inValue
    cases hState <;> simp [InValue, counting] <;> omega

end HeaderState

namespace RequestParser

/-- What the switch in the loop of `s_header_field` sees. -/
def namesSeen : RequestParser → Bytes → List (HeaderState × Nat)
  | _, [] => []
  | parser, ch :: rest =>
      if token ch = 0 then []
      else
        (parser.headerState, parser.index) ::
          namesSeen (parser.onFieldChar ch (token ch)) rest

/-- What the switch in the loop of `s_header_value` sees. -/
def valuesSeen : RequestParser → HeaderState → Bytes →
    List (HeaderState × Nat)
  | _, _, [] => []
  | parser, hState, ch :: rest =>
      if ch = CR ∨ ch = LF then []
      else
        (hState, parser.index) ::
          if hState = .general then []
          else
            match parser.onValueChar hState ch with
            | none => []
            | some (parser, hState) => valuesSeen parser hState rest

theorem namesSeen_handled {parser : RequestParser}
    (inName : parser.headerState.InName parser.index) (data : Bytes) :
    ∀ seen ∈ parser.namesSeen data,
      HeaderState.Handled HeaderState.nameCases seen := by
  induction data generalizing parser with
  | nil => exact nofun
  | cons ch data ih =>
      unfold namesSeen
      split_ifs with separator
      · exact nofun
      · rw [List.forall_mem_cons]
        exact ⟨HeaderState.handled_of_inName inName, ih (onFieldChar_sound separator inName)⟩

theorem valuesSeen_handled {parser : RequestParser} {hState : HeaderState}
    (inValue : hState.InValue parser.index) (data : Bytes) :
    ∀ seen ∈ parser.valuesSeen hState data,
      HeaderState.Handled HeaderState.valueCases seen := by
  induction data generalizing parser hState with
  | nil => exact nofun
  | cons ch data ih =>
      unfold valuesSeen
      split_ifs
      · exact nofun
      · rw [List.forall_mem_cons]
        exact ⟨HeaderState.handled_of_inValue inValue, nofun⟩
      · rw [List.forall_mem_cons]
        refine ⟨HeaderState.handled_of_inValue inValue, ?_⟩
        cases next : parser.onValueChar hState ch with
        | none => exact nofun
        | some found => exact ih (onValueChar_sound inValue next)

/-- The states whose cases assert `F_CHUNKED`. -/
def chunkStates : List ParserState :=
  [.chunkSizeStart, .chunkSize, .chunkParameters, .chunkSizeAlmostDone,
    .chunkData, .chunkDataAlmostDone, .chunkDataDone]

end RequestParser

/-- What is asserted in a turn, with the loop of the source at `p`, and behind
the loop. -/
structure Progress.Asserts (progress : Progress) (p : Bytes) : Prop where
  noError : progress.parser.httpErrno = .ok
  method : progress.parser.state = .reqMethod →
    progress.parser.index ≤ progress.parser.method.string.length
  names : progress.parser.state = .headerField →
    ∀ seen ∈ progress.parser.namesSeen p,
      HeaderState.Handled HeaderState.nameCases seen
  values : progress.parser.state = .headerValue →
    ∀ seen ∈ progress.parser.valuesSeen progress.parser.headerState p,
      HeaderState.Handled HeaderState.valueCases seen
  known : progress.parser.state = .bodyIdentity ∨
      progress.parser.state = .chunkData →
    progress.parser.HasLength
  chunked : progress.parser.state ∈ RequestParser.chunkStates →
    progress.parser.flags.chunked = true
  counted : progress.parser.state = .chunkSizeStart →
    ∃ counted, progress.count 1 = .ok counted ∧ counted.parser.nread = 1
  exhausted : progress.parser.state = .chunkDataAlmostDone →
    progress.parser.contentLength = 0
  single : ∀ first second, (progress.marks first).isSome →
    (progress.marks second).isSome → first = second

theorem RequestParser.Sound.chunked {parser : RequestParser}
    (sound : parser.Sound) (chunk : parser.state ∈ chunkStates) :
    parser.flags.chunked = true := by
  unfold Sound at sound
  revert chunk
  cases state : parser.state <;> rw [state] at sound <;> dsimp only at sound
  case chunkSizeStart | chunkDataDone => exact fun _ => sound
  case chunkSize | chunkParameters | chunkSizeAlmostDone | chunkData |
      chunkDataAlmostDone =>
    exact fun _ => sound.1
  all_goals
    intro chunk
    exact absurd chunk (by decide)

theorem Pending.single (pending : Pending) (p : Bytes) (first second : Token)
    (one : (pending.marks p first).isSome)
    (two : (pending.marks p second).isSome) : first = second := by
  have opened : ∀ token, (pending.marks p token).isSome →
      pending.token = some token := by
    intro token isSome
    by_contra other
    rw [Pending.marks_of_ne other] at isSome
    cases isSome
  have same := (opened first one).symm.trans (opened second two)
  exact Option.some.inj same

/-- At the first digit of a chunk size nothing has been counted. -/
def CountingParser.Fresh (parser : CountingParser) : Prop :=
  parser.httpErrno = .ok → parser.state = .chunkSizeStart → parser.nread = 0

theorem Tracks.asserts {history outputs : List HttpCallback}
    {pending : Pending} {p : Bytes} {progress : Progress}
    (tracks : Tracks history outputs pending p progress)
    (noError : progress.parser.httpErrno = .ok)
    (sound : progress.parser.Sound) (fresh : progress.parser.Fresh) :
    progress.Asserts p where
  noError := noError
  method state := by
    unfold RequestParser.Sound at sound
    rwa [state] at sound
  names state := RequestParser.namesSeen_handled (sound.of_headerField state) p
  values state :=
    RequestParser.valuesSeen_handled (sound.of_headerValue state) p
  known := sound.hasLength
  chunked := sound.chunked
  counted state := by
    have nothing := fresh noError state
    have fits : ¬ (0 : UInt32) + UInt32.ofNat 1 > httpMaxHeaderSize := by decide
    refine ⟨{ progress with parser := { progress.parser with nread := 1 } },
      ?_, rfl⟩
    unfold Progress.count
    dsimp only
    rw [nothing, if_neg fits]
    rfl
  exhausted state := by
    unfold RequestParser.Sound at sound
    rw [state] at sound
    exact sound.2
  single := by
    rw [tracks.marks]
    exact pending.single p

/-- A case that leads to the first digit of a chunk size resets the count. -/
def Case.Resets (case : Case) : Prop :=
  case.control ≠ .error → case.parser.state = .chunkSizeStart →
    .resetRead ∈ case.effects

namespace Case.Resets

theorem elsewhere {parser : RequestParser} {effects : List Effect}
    {control : Control} (other : parser.state ≠ .chunkSizeStart) :
    (Case.mk parser effects control).Resets :=
  fun _ here => (other here).elim

theorem error {parser : RequestParser} {errno : HttpErrno} :
    (Case.error parser errno).Resets :=
  fun wrong => (wrong rfl).elim

theorem strictCheck {parser : RequestParser} {failed : Bool} {later : Case}
    (resets : later.Resets) :
    (Case.strictCheck parser failed later).Resets := by
  cases failed with
  | true => exact error
  | false => exact resets

theorem behind {effects : List Effect} {later : Case}
    (resets : later.Resets) : (Case.behind effects later).Resets :=
  fun goesOn here => List.mem_append_right _ (resets goesOn here)

end Case.Resets

namespace RequestParser

variable {parser : RequestParser}

theorem newMessage_ne (parser : RequestParser) :
    parser.newMessage ≠ .chunkSizeStart := by
  rcases parser.newMessage_cases with next | next <;> rw [next] <;> decide

theorem onMessageDone_resets : parser.onMessageDone.Resets :=
  .elsewhere parser.newMessage_ne

theorem onHeadersDone_resets (ch : UInt8) :
    (parser.onHeadersDone ch).Resets := by
  apply Case.Resets.strictCheck
  dsimp only
  split_ifs
  · exact .elsewhere parser.newMessage_ne
  · exact fun _ _ => List.mem_cons_self
  · exact .elsewhere parser.newMessage_ne
  · exact .elsewhere nofun
  · exact .elsewhere parser.newMessage_ne

theorem onHeadersAlmostDone_resets (ch : UInt8) :
    (parser.onHeadersAlmostDone ch).Resets := by
  apply Case.Resets.strictCheck
  split_ifs
  · exact onMessageDone_resets
  · exact .behind (onHeadersDone_resets ch)

theorem onHeaderFieldStart_resets (ch : UInt8) :
    (parser.onHeaderFieldStart ch).Resets := by
  unfold onHeaderFieldStart
  dsimp only
  split_ifs
  · exact .elsewhere nofun
  · exact onHeadersAlmostDone_resets ch
  · exact .error
  all_goals exact .elsewhere nofun

theorem onHeaderValueStart_resets (ch : UInt8) :
    (parser.onHeaderValueStart ch).Resets := by
  unfold onHeaderValueStart
  dsimp only
  split
  · exact .elsewhere nofun
  · exact .elsewhere nofun
  · split_ifs
    · exact .error
    · exact .elsewhere nofun
  · exact .elsewhere nofun
  · exact .elsewhere nofun
  · exact .elsewhere nofun

/-- The states from which a case can lead to the first digit of a chunk
size. -/
def beforeChunk : List ParserState :=
  [.headerFieldStart, .headerValueDiscardLws, .headerValueLws,
    .headersAlmostDone, .headersDone, .chunkDataDone]

theorem edges_elsewhere (node : Node) (others : node.state ∉ beforeChunk) :
    ∀ edge ∈ node.edges, edge.next.state ≠ .chunkSizeStart := by
  rcases node with ⟨state, trailing⟩
  revert others
  cases state <;> cases trailing <;> decide

theorem onByte_resets (ch : UInt8) : (parser.onByte ch).Resets := by
  by_cases others : parser.node.state ∉ beforeChunk
  · obtain ⟨edge, member, -, -, next⟩ := (parser.onByte_follows ch).edge
    intro goesOn
    have elsewhere := edges_elsewhere parser.node others edge member
    rw [next goesOn] at elsewhere
    exact fun here => (elsewhere here).elim
  · have among : parser.state ∈ beforeChunk := not_not.mp others
    unfold onByte
    cases state : parser.state <;> rw [state] at among <;> dsimp only
    case headerFieldStart => exact onHeaderFieldStart_resets ch
    case headersAlmostDone => exact onHeadersAlmostDone_resets ch
    case headersDone => exact onHeadersDone_resets ch
    case chunkDataDone => exact .strictCheck fun _ _ => List.mem_cons_self
    case headerValueDiscardLws =>
      unfold onHeaderValueDiscardLws
      split_ifs
      · exact .elsewhere nofun
      · exact .behind (onHeaderFieldStart_resets ch)
    case headerValueLws =>
      unfold onHeaderValueLws
      split_ifs
      · exact onHeaderValueStart_resets ch
      · exact onHeaderFieldStart_resets ch
    all_goals exact absurd among (by decide)

end RequestParser

/-- Where a turn leaves the parser. -/
def Turn.progress : Turn → Progress
  | .next progress _ => progress
  | .stop progress _ => progress

namespace Progress

theorem effect_nread (p : Bytes) (progress : Progress) (effect : Effect) :
    (Progress.effect p progress effect).parser.nread =
        progress.parser.nread ∨
      (Progress.effect p progress effect).parser.nread = 0 := by
  cases effect with
  | mark token => exact .inl (congrArg _ (parser_mark progress token p))
  | data token => exact .inl (congrArg _ (parser_data progress token p))
  | notify callback => exact .inl rfl
  | resetRead => exact .inr rfl

theorem effects_nread_zero (p : Bytes) (effects : List Effect)
    {progress : Progress} (zero : progress.parser.nread = 0) :
    (effects.foldl (Progress.effect p) progress).parser.nread = 0 := by
  induction effects generalizing progress with
  | nil => exact zero
  | cons effect effects ih =>
      apply ih
      rcases effect_nread p progress effect with kept | reset
      · exact kept.trans zero
      · exact reset

theorem effects_nread {p : Bytes} {effects : List Effect}
    (resets : Effect.resetRead ∈ effects) (progress : Progress) :
    (effects.foldl (Progress.effect p) progress).parser.nread = 0 := by
  obtain ⟨early, late, rfl⟩ := List.append_of_mem resets
  rw [List.foldl_append, List.foldl_cons]
  exact effects_nread_zero p late rfl

theorem perform_fresh {progress : Progress} {case : Case} {p : Bytes}
    (resets : case.Resets)
    (refused : case.control = .error → case.parser.httpErrno ≠ .ok) :
    (progress.perform case p).progress.parser.Fresh := by
  have same : (progress.perform case p).progress =
      case.effects.foldl (Progress.effect p) (progress.set case.parser) := by
    unfold perform
    cases case.control <;> rfl
  have parser := parser_effects p case.effects (progress.set case.parser)
  rw [parser_set] at parser
  intro ok here
  rw [same] at ok here ⊢
  rw [parser] at ok here
  have goesOn : case.control ≠ .error := fun failed => refused failed ok
  exact effects_nread (resets goesOn here) _

theorem fresh_of_state {progress : Progress} {state : ParserState}
    (here : progress.parser.state = state)
    (elsewhere : state ≠ .chunkSizeStart) : progress.parser.Fresh :=
  fun _ there => (elsewhere (here.symm.trans there)).elim

theorem fresh_of_errno {progress : Progress} {errno : HttpErrno}
    (failed : progress.parser.httpErrno = errno) (error : errno ≠ .ok) :
    progress.parser.Fresh :=
  fun ok => (error (failed.symm.trans ok)).elim

theorem errno_of_overflow {progress overflowed : Progress} {v : Nat}
    (counted : progress.count v = .error overflowed) :
    overflowed.parser.httpErrno = .headerOverflow := by
  rcases progress.count_cases v with ⟨_, _, _, ok⟩ | ⟨_, failed, errno, _⟩
  · rw [ok] at counted
    cases counted
  · rw [failed] at counted
    cases counted
    exact errno

theorem parser_of_counted {progress later : Progress} {v : Nat}
    (counted : progress.count v = .ok later) :
    later.parser.toRequestParser = progress.parser.toRequestParser := by
  rcases progress.count_cases v with ⟨_, _, _, ok⟩ | ⟨_, failed, _, _⟩
  · rw [ok] at counted
    cases counted
    rfl
  · rw [failed] at counted
    cases counted

theorem headerField_fresh {progress : Progress} (start : Bytes)
    (field : progress.parser.state = .headerField) :
    (progress.headerField start).progress.parser.Fresh := by
  obtain ⟨state, -, -⟩ := scan_fieldLoop field start
  unfold headerField
  dsimp only
  split
  · next overflowed counted =>
      exact fresh_of_errno (errno_of_overflow counted) nofun
  · next later counted =>
      split
      · have same := congrArg RequestParser.state (parser_of_counted counted)
        exact fresh_of_state (same.trans state) nofun
      · split_ifs
        · exact fresh_of_state (congrArg RequestParser.state
            (congrArg CountingParser.toRequestParser (parser_data _ _ _))) nofun
        · exact fresh_of_errno rfl nofun

theorem valueLoop_state {parser : RequestParser}
    (value : parser.state = .headerValue) (hState : HeaderState)
    (data : Bytes) :
    (parser.valueLoop hState data).parser.state = .headerValue := by
  induction data generalizing parser hState with
  | nil => exact value
  | cons ch data ih =>
      unfold RequestParser.valueLoop
      split_ifs
      · exact value
      · exact value
      · cases next : parser.onValueChar hState ch with
        | none => exact value
        | some found =>
            exact ih (RequestParser.onValueChar_state value next) found.2

theorem valueAtEnd_fresh {progress : Progress}
    (value : progress.parser.state = .headerValue) (taken : Nat) :
    (progress.valueAtEnd taken).progress.parser.Fresh := by
  unfold valueAtEnd
  split
  · next overflowed counted =>
      exact fresh_of_errno (errno_of_overflow counted) nofun
  · next later counted =>
      have same := congrArg RequestParser.state (parser_of_counted counted)
      exact fresh_of_state (same.trans value) nofun

theorem valueAtCr_fresh (progress : Progress) (p : Bytes) (taken : Nat) :
    (progress.valueAtCr p taken).progress.parser.Fresh := by
  unfold valueAtCr
  dsimp only
  split
  · next overflowed counted =>
      exact fresh_of_errno (errno_of_overflow counted) nofun
  · next later counted =>
      have same := congrArg RequestParser.state (parser_of_counted counted)
      rw [parser_data] at same
      exact fresh_of_state same nofun

theorem valueAtLf_fresh (progress : Progress) (ch : UInt8) (p : Bytes)
    (taken : Nat) : (progress.valueAtLf ch p taken).progress.parser.Fresh := by
  unfold valueAtLf
  dsimp only
  split
  · next overflowed counted =>
      exact fresh_of_errno (errno_of_overflow counted) nofun
  · exact perform_fresh (.strictCheck (.elsewhere nofun))
      fun failed => ((RequestParser.onHeaderAlmostDone_follows ch).refused
        failed).1

theorem headerValue_fresh {progress : Progress} (start : Bytes)
    (value : progress.parser.state = .headerValue) :
    (progress.headerValue start).progress.parser.Fresh := by
  have state := valueLoop_state value progress.parser.headerState start
  unfold headerValue
  dsimp only
  split_ifs
  · exact fresh_of_errno rfl nofun
  · split
    · exact valueAtEnd_fresh state _
    · split_ifs
      · exact valueAtCr_fresh _ _ _
      · exact valueAtLf_fresh _ _ _ _

theorem bodyIdentity_fresh {progress : Progress} (p : Bytes)
    (identity : progress.parser.state = .bodyIdentity) :
    (progress.bodyIdentity p).progress.parser.Fresh := by
  unfold bodyIdentity
  dsimp only
  split_ifs
  · exact perform_fresh RequestParser.onMessageDone_resets
      fun failed => (RequestParser.onMessageDone_follows.refused failed).1
  · exact fresh_of_state identity nofun

theorem chunkData_fresh {progress : Progress} (p : Bytes)
    (chunk : progress.parser.state = .chunkData) :
    (progress.chunkData p).progress.parser.Fresh := by
  unfold chunkData
  dsimp only
  split_ifs
  · exact fresh_of_state rfl nofun
  · exact fresh_of_state chunk nofun

theorem switch_fresh (progress : Progress) (ch : UInt8) (rest : Bytes) :
    (progress.switch ch rest).progress.parser.Fresh := by
  unfold switch
  cases state : progress.parser.state <;> dsimp only
  case headerField => exact headerField_fresh _ state
  case headerValue => exact headerValue_fresh _ state
  case bodyIdentity => exact bodyIdentity_fresh _ state
  case chunkData => exact chunkData_fresh _ state
  all_goals
    exact perform_fresh (RequestParser.onByte_resets ch)
      fun failed => ((RequestParser.onByte_follows _ ch).refused failed).1

/-- Every turn that leads to the first digit of a chunk size leaves a count of
zero. -/
theorem turn_fresh (progress : Progress) (ch : UInt8) (rest : Bytes) :
    (progress.turn ch rest).progress.parser.Fresh := by
  unfold turn
  split_ifs
  · split
    · next overflowed counted =>
        exact fresh_of_errno (errno_of_overflow counted) nofun
    · exact switch_fresh _ ch rest
  · exact switch_fresh progress ch rest

/-- The turns of the loop, each with the data that is left; the last one may be
the end of the data, behind the loop. -/
def turns : Nat → Progress → Bytes → List (Progress × Bytes)
  | 0, _, _ => []
  | _ + 1, progress, [] => [(progress, [])]
  | fuel + 1, progress, ch :: rest =>
      (progress, ch :: rest) ::
        match progress.turn ch rest with
        | .next progress p => turns fuel progress p
        | .stop _ _ => []

theorem loop_fresh {fuel : Nat} {progress : Progress} {p : Bytes}
    (fresh : progress.parser.Fresh) : (loop fuel progress p).parser.Fresh := by
  induction fuel generalizing progress p with
  | zero => exact fresh
  | succ fuel ih =>
      cases p with
      | nil =>
          unfold loop
          dsimp only
          rwa [parser_finish]
      | cons ch rest =>
          have turned := turn_fresh progress ch rest
          unfold loop
          cases same : progress.turn ch rest with
          | next later p =>
              rw [same] at turned
              exact ih turned
          | stop later p =>
              rw [same] at turned
              exact turned

variable {history outputs : List HttpCallback} {pending : Pending}

theorem turns_assert {fuel : Nat} {progress : Progress} {p : Bytes}
    (tracks : Tracks history outputs pending p progress)
    (opens : p ≠ [] → pending.token ∈ progress.parser.state.opens)
    (sound : progress.parser.Sound)
    (small : p.length + httpMaxHeaderSize.toNat < 2 ^ 32)
    (noError : progress.parser.httpErrno = .ok)
    (fresh : progress.parser.Fresh) :
    ∀ turn ∈ turns fuel progress p, turn.1.Asserts turn.2 := by
  induction fuel generalizing progress pending outputs p with
  | zero => exact List.forall_mem_nil _
  | succ fuel ih =>
      cases p with
      | nil =>
          exact List.forall_mem_singleton.mpr
            (tracks.asserts noError sound fresh)
      | cons ch rest =>
          have follows := turn_follows tracks (opens (List.cons_ne_nil _ _))
            sound small
          have freshLater := turn_fresh progress ch rest
          unfold turns
          rw [List.forall_mem_cons]
          refine ⟨tracks.asserts noError sound fresh, ?_⟩
          cases turned : progress.turn ch rest with
          | stop later rest => exact List.forall_mem_nil _
          | next later behind =>
              rw [turned] at follows freshLater
              obtain ⟨taken, open_, split, some, read, state, opens, tracks⟩ :=
                follows
              have length := congrArg List.length split
              rw [List.length_append] at length
              have soundLater : later.parser.Sound := by
                rw [state]
                exact RequestParser.scan_sound sound read
              have errno := (RequestParser.errno_scan noError taken).mpr
                (by rw [read]; decide)
              rw [← state] at errno
              exact ih tracks opens soundLater (by omega) errno freshLater

end Progress

namespace CountingParser

/-- The turns of a call. -/
def turns (parser : CountingParser) (data : Bytes) :
    List (Progress × Bytes) :=
  if parser.httpErrno ≠ .ok ∨ data = [] then []
  else
    Progress.turns (data.length + 1)
      ⟨parser, marksAt parser.state data, []⟩ data

/-- The turns of a sequence of calls. -/
def turnsOf (parser : CountingParser) : List Bytes → List (Progress × Bytes)
  | [] => []
  | data :: later =>
      parser.turns data ++ turnsOf (parser.execute data).1 later

variable {history : List HttpCallback} {parser : CountingParser}

theorem execute_fresh (fresh : parser.Fresh) (data : Bytes) :
    (parser.execute data).1.Fresh := by
  unfold execute
  split_ifs
  · exact fresh
  · cases data with
    | nil =>
        dsimp only
        split
        · exact fresh
        · exact fresh
        · exact nofun
    | cons ch rest => exact Progress.loop_fresh fresh

theorem turns_assert (reached : Reached history parser)
    (fresh : parser.Fresh) {data : Bytes}
    (small : data.length + httpMaxHeaderSize.toNat < 2 ^ 32) :
    ∀ turn ∈ parser.turns data, turn.1.Asserts turn.2 := by
  unfold turns
  split_ifs with failed
  · exact List.forall_mem_nil _
  · have ok := not_not.mp (not_or.mp failed).1
    obtain ⟨pending, token, tracks⟩ := tracks_start (reached.ends ok) data
    refine Progress.turns_assert tracks ?_ (reached.sound ok) small ok fresh
    intro _
    rw [token]
    exact ParserState.tokenAt_mem_opens _

theorem turnsOf_assert (reached : Reached history parser)
    (fresh : parser.Fresh) {calls : List Bytes}
    (small : ∀ data ∈ calls,
      data.length + httpMaxHeaderSize.toNat < 2 ^ 32) :
    ∀ turn ∈ parser.turnsOf calls, turn.1.Asserts turn.2 := by
  induction calls generalizing history parser with
  | nil => exact List.forall_mem_nil _
  | cons data calls ih =>
      have first := small data List.mem_cons_self
      unfold turnsOf
      rw [List.forall_mem_append]
      exact ⟨turns_assert reached fresh first,
        ih (reached.execute first) (execute_fresh fresh data)
          (fun data member => small data (List.mem_cons_of_mem _ member))⟩

/-- All turns of a sequence of calls find what they assert. -/
def AssertionsHold (calls : List Bytes) : Prop :=
  ∀ turn ∈ init.turnsOf calls, turn.1.Asserts turn.2

/-- No assertion of the source fails, whatever the calls are. -/
theorem assertions_hold {calls : List Bytes}
    (small : ∀ data ∈ calls,
      data.length + httpMaxHeaderSize.toNat < 2 ^ 32) :
    AssertionsHold calls :=
  turnsOf_assert init_reached (fun _ => nofun) small

/-- Two chunks and a trailing header, in two calls. -/
theorem chunked_assertions_hold :
    AssertionsHold
      [ascii ("POST / HTTP/1.1\r\nTransfer-Encoding: chunked\r\n\r\n" ++
          "1\r\na\r\n2"),
        ascii "\r\nbc\r\n0\r\nT: v\r\n\r\n"] :=
  assertions_hold (by decide +kernel)

end CountingParser

end Woody
