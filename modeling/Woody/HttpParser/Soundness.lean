import Woody.HttpParser.Graph
import Woody.HttpParser.Methods

/-!
# What the states of `http_parser` rely on

The source asserts in some states what the ones before have to leave behind:
a length that is neither zero nor unknown where a body is read, the flag for
chunks where chunks are read, no state of a header name behind the name.  The
index into a matcher is a field of eight bits; where it is incremented it is
small.
-/

namespace Woody

open Scanner

namespace HeaderState

/-- The states in which `s_header_field` can be, with the index. -/
def InName (index : Nat) : HeaderState → Bool
  | .general | .connection | .contentLength | .transferEncoding
  | .upgrade => true
  | .c => index = 0
  | .co => index = 1
  | .con => index = 2
  | .matchingConnection => index + 1 < CONNECTION.length
  | .matchingProxyConnection => index + 1 < PROXY_CONNECTION.length
  | .matchingContentLength => index + 1 < CONTENT_LENGTH.length
  | .matchingTransferEncoding => index + 1 < TRANSFER_ENCODING.length
  | .matchingUpgrade => index + 1 < UPGRADE.length
  | _ => false

/-- The states in which `s_header_value` can be, with the index. -/
def InValue (index : Nat) : HeaderState → Bool
  | .general | .contentLength | .matchingConnectionToken
  | .transferEncodingChunked | .connectionKeepAlive | .connectionClose
  | .connectionUpgrade => true
  | .matchingConnectionTokenStart => index = 0
  | .matchingTransferEncodingChunked => index + 1 < CHUNKED.length
  | .matchingConnectionKeepAlive => index + 1 < KEEP_ALIVE.length
  | .matchingConnectionClose => index + 1 < CLOSE.length
  | .matchingConnectionUpgrade => index + 1 < UPGRADE.length
  | _ => false

end HeaderState

namespace RequestParser

/-- A body of this length is read: the assertion of `s_body_identity` and of
`s_chunk_data`. -/
def HasLength (parser : RequestParser) : Prop :=
  parser.contentLength ≠ 0 ∧ parser.contentLength ≠ ullongMax

/-- What a state relies on. -/
def Sound (parser : RequestParser) : Prop :=
  match parser.state with
  | .reqMethod => parser.index ≤ parser.method.string.length
  | .headerField => parser.headerState.InName parser.index
  | .headerValue => parser.headerState.InValue parser.index
  | .bodyIdentity => parser.HasLength
  | .chunkSizeStart | .chunkDataDone => parser.flags.chunked = true
  | .chunkSize | .chunkParameters | .chunkSizeAlmostDone =>
      parser.flags.chunked = true ∧ parser.contentLength ≠ ullongMax
  | .chunkData => parser.flags.chunked = true ∧ parser.HasLength
  | .chunkDataAlmostDone =>
      parser.flags.chunked = true ∧ parser.contentLength = 0
  | _ => True

theorem init_sound : init.Sound := trivial

end RequestParser

/-- The states that rely on nothing. -/
def ParserState.free : ParserState → Bool
  | .reqMethod | .headerField | .headerValue | .bodyIdentity
  | .chunkSizeStart | .chunkSize | .chunkParameters | .chunkSizeAlmostDone
  | .chunkData | .chunkDataAlmostDone | .chunkDataDone => false
  | _ => true

namespace RequestParser

theorem sound_of_free {parser : RequestParser} (free : parser.state.free) :
    parser.Sound := by
  unfold Sound
  cases state : parser.state <;> rw [state] at free <;> trivial

end RequestParser

/-- Where the case goes on, the next state finds what it relies on. -/
def Case.Sound (case : Case) : Prop :=
  case.control = .advance → case.parser.Sound

namespace Case.Sound

theorem advance {parser : RequestParser} {effects : List Effect}
    (sound : parser.Sound) : (Case.advance parser effects).Sound :=
  fun _ => sound

theorem error {parser : RequestParser} {errno : HttpErrno} :
    (Case.error parser errno).Sound := by
  rintro ⟨⟩

theorem strictCheck {parser : RequestParser} {failed : Bool} {later : Case}
    (sound : later.Sound) : (Case.strictCheck parser failed later).Sound := by
  cases failed with
  | true => exact error
  | false => exact sound

theorem behind {effects : List Effect} {later : Case}
    (sound : later.Sound) : (Case.behind effects later).Sound :=
  sound

end Case.Sound

namespace RequestParser

variable {parser : RequestParser}

theorem onStartReq_sound (ch : UInt8) (start : parser.state = .startReq) :
    (parser.onStartReq ch).Sound := by
  unfold onStartReq
  dsimp only
  split_ifs
  · exact .advance (by simp [Sound, start])
  · exact .error
  · split
    · exact .error
    · next method _ =>
        have long := HttpMethod.length_string method
        exact .advance (by simp only [Sound]; omega)

theorem onReqMethod_sound (ch : UInt8) (method : parser.state = .reqMethod)
    (sound : parser.Sound) : (parser.onReqMethod ch).Sound := by
  unfold Sound at sound
  rw [method] at sound
  unfold onReqMethod
  dsimp only
  split_ifs with nul space same
  · exact .error
  · exact .advance (by simp [Sound])
  · have inside : parser.index < parser.method.string.length := by
      by_contra outside
      rw [List.getD_eq_default _ _ (by omega)] at same
      exact nul same
    exact .advance (by simp only [Sound, method]; omega)
  · split
    · exact .error
    · next other exchanged =>
        have inside := HttpMethod.length_of_other exchanged
        exact .advance (by simp only [Sound, method]; omega)

theorem onHeadersDone_sound (ch : UInt8) :
    (parser.onHeadersDone ch).Sound := by
  have free : (parser.goto parser.newMessage).Sound := by
    apply sound_of_free
    rw [goto_state]
    rcases parser.newMessage_cases with next | next <;> rw [next] <;> rfl
  apply Case.Sound.strictCheck
  dsimp only
  split_ifs with upgrade chunked empty known
  · rintro ⟨⟩
  · exact .advance chunked
  · exact .advance free
  · exact .advance ⟨empty, known⟩
  · exact .advance free

theorem onMessageDone_sound : parser.onMessageDone.Sound := by
  intro _
  apply sound_of_free
  rcases parser.newMessage_cases with next | next <;>
    simp only [onMessageDone, goto_state, next] <;> rfl

theorem onHeadersAlmostDone_sound (ch : UInt8) :
    (parser.onHeadersAlmostDone ch).Sound := by
  apply Case.Sound.strictCheck
  split_ifs
  · exact onMessageDone_sound
  · exact .behind (onHeadersDone_sound ch)

theorem onHeaderFieldStart_sound (ch : UInt8) :
    (parser.onHeaderFieldStart ch).Sound := by
  unfold onHeaderFieldStart
  dsimp only
  split_ifs
  · exact .advance trivial
  · exact onHeadersAlmostDone_sound ch
  · exact .error
  all_goals exact .advance (by simp only [Sound]; decide)

theorem onHeaderValueStart_sound (ch : UInt8) :
    (parser.onHeaderValueStart ch).Sound := by
  unfold onHeaderValueStart
  dsimp only
  split
  · exact .advance rfl
  · split_ifs <;> exact .advance (by simp only [Sound]; decide)
  · next length =>
      split_ifs
      · exact .error
      · exact .advance (by simp [Sound, length, HeaderState.InValue])
  · split_ifs <;> exact .advance (by simp only [Sound]; decide)
  · next token => exact .advance (by simp [Sound, token, HeaderState.InValue])
  · exact .advance rfl

theorem unhex_lt {ch digit : UInt8} (hex : unhex ch = some digit) :
    digit.toNat < 16 := by
  revert digit
  exact @forall_byte
    (fun ch => ∀ digit ∈ unhex ch, digit.toNat < 16) (by decide +kernel) ch

/-- The guard against an overflow lets through only what can take one more
digit; the length is then known. -/
theorem toNat_next_digit {base : Nat} {length digit : UInt64}
    (digits : 0 < base) (small : base < 256)
    (guard : ¬ (ullongMax - UInt64.ofNat base) / UInt64.ofNat base < length)
    (below : digit.toNat < base) :
    (length * UInt64.ofNat base + digit).toNat =
        length.toNat * base + digit.toNat ∧
      length * UInt64.ofNat base + digit ≠ ullongMax := by
  have baseValue : (UInt64.ofNat base).toNat = base :=
    UInt64.toNat_ofNat_of_lt' (by simp only [UInt64.size]; omega)
  have maxValue : ullongMax.toNat = 2 ^ 64 - 1 := by decide
  have le : UInt64.ofNat base ≤ ullongMax := by
    rw [UInt64.le_iff_toNat_le, baseValue, maxValue]
    omega
  rw [UInt64.not_lt, UInt64.le_iff_toNat_le, UInt64.toNat_div,
    UInt64.toNat_sub_of_le _ _ le, baseValue, maxValue] at guard
  have room : length.toNat * base ≤ 2 ^ 64 - 1 - base :=
    (Nat.mul_le_mul_right base guard).trans (Nat.div_mul_le_self _ _)
  have value : (length * UInt64.ofNat base + digit).toNat =
      length.toNat * base + digit.toNat := by
    rw [UInt64.toNat_add, UInt64.toNat_mul, baseValue,
      Nat.mod_eq_of_lt (by omega), Nat.mod_eq_of_lt (by omega)]
  refine ⟨value, ?_⟩
  intro unknown
  rw [unknown, maxValue] at value
  omega

theorem onChunkSizeStart_sound (ch : UInt8)
    (start : parser.state = .chunkSizeStart) (sound : parser.Sound) :
    (parser.onChunkSizeStart ch).Sound := by
  unfold Sound at sound
  rw [start] at sound
  unfold onChunkSizeStart
  split
  · exact .error
  · next digit hex =>
      have small := unhex_lt hex
      refine .advance ⟨sound, ?_⟩
      intro unknown
      have value := congrArg UInt64.toNat unknown
      have maxValue : ullongMax.toNat = 2 ^ 64 - 1 := by decide
      rw [UInt8.toNat_toUInt64, maxValue] at value
      omega

theorem onChunkSize_sound (ch : UInt8) (size : parser.state = .chunkSize)
    (sound : parser.Sound) : (parser.onChunkSize ch).Sound := by
  unfold Sound at sound
  rw [size] at sound
  unfold onChunkSize
  cases hex : unhex ch with
  | none =>
      dsimp only
      split_ifs
      · exact .advance sound
      · exact .advance sound
      · exact .error
  | some digit =>
      dsimp only
      split_ifs with cr tooLong
      · exact .advance sound
      · exact .error
      · have below : digit.toUInt64.toNat < 16 := by
          rw [UInt8.toNat_toUInt64]
          exact unhex_lt hex
        have known := (toNat_next_digit (by decide) (by decide) tooLong below).2
        refine .advance ?_
        simp only [Sound, size]
        exact ⟨sound.1, known⟩

theorem onChunkParameters_sound (ch : UInt8)
    (parameters : parser.state = .chunkParameters) (sound : parser.Sound) :
    (parser.onChunkParameters ch).Sound := by
  have kept := sound
  unfold Sound at kept
  rw [parameters] at kept
  unfold onChunkParameters
  split_ifs
  · exact .advance kept
  · exact .advance sound

theorem onChunkSizeAlmostDone_sound (ch : UInt8)
    (almost : parser.state = .chunkSizeAlmostDone) (sound : parser.Sound) :
    (parser.onChunkSizeAlmostDone ch).Sound := by
  unfold Sound at sound
  rw [almost] at sound
  apply Case.Sound.strictCheck
  split_ifs with empty
  · exact .advance trivial
  · exact .advance ⟨sound.1, empty, sound.2⟩

theorem onChunkDataAlmostDone_sound (ch : UInt8)
    (almost : parser.state = .chunkDataAlmostDone) (sound : parser.Sound) :
    (parser.onChunkDataAlmostDone ch).Sound := by
  unfold Sound at sound
  rw [almost] at sound
  exact .strictCheck (.advance sound.1)

theorem onChunkDataDone_sound (ch : UInt8)
    (done : parser.state = .chunkDataDone) (sound : parser.Sound) :
    (parser.onChunkDataDone ch).Sound := by
  unfold Sound at sound
  rw [done] at sound
  exact .strictCheck (.advance sound)

theorem headerEnd_sound (ch : UInt8) (state : ParserState) :
    ((parser.setFlag.goto state).onHeaderFieldStart ch).Sound :=
  onHeaderFieldStart_sound ch

/-- The states from which one can come to a state that relies on something. -/
def leading : List ParserState :=
  [.startReq, .reqMethod, .headerFieldStart, .headerValueDiscardWs,
    .headerValueDiscardLws, .headerValueStart, .headerValueLws,
    .headersAlmostDone, .headersDone, .chunkSizeStart, .chunkSize,
    .chunkParameters, .chunkSizeAlmostDone, .chunkDataAlmostDone,
    .chunkDataDone, .headerField, .headerValue, .bodyIdentity, .chunkData]

theorem edges_free (node : Node) (others : node.state ∉ leading) :
    ∀ edge ∈ node.edges, edge.verdict = .advance →
      edge.next.state.free = true := by
  rcases node with ⟨state, trailing⟩
  revert others
  cases state <;> cases trailing <;> decide

theorem onByte_sound (ch : UInt8) (sound : parser.Sound) :
    (parser.onByte ch).Sound := by
  by_cases others : parser.node.state ∉ leading
  · intro goesOn
    obtain ⟨edge, member, -, sameVerdict, next⟩ :=
      (parser.onByte_follows ch).edge
    apply sound_of_free
    have free := edges_free parser.node others edge member
      (sameVerdict.trans goesOn)
    rwa [next (by rw [goesOn]; decide)] at free
  · have among : parser.state ∈ leading := not_not.mp others
    unfold onByte
    cases state : parser.state <;> rw [state] at among <;> dsimp only
    case startReq => exact onStartReq_sound ch state
    case reqMethod => exact onReqMethod_sound ch state sound
    case headerFieldStart => exact onHeaderFieldStart_sound ch
    case headerValueStart => exact onHeaderValueStart_sound ch
    case headersAlmostDone => exact onHeadersAlmostDone_sound ch
    case headersDone => exact onHeadersDone_sound ch
    case chunkSizeStart => exact onChunkSizeStart_sound ch state sound
    case chunkSize => exact onChunkSize_sound ch state sound
    case chunkParameters => exact onChunkParameters_sound ch state sound
    case chunkSizeAlmostDone => exact onChunkSizeAlmostDone_sound ch state sound
    case chunkDataAlmostDone => exact onChunkDataAlmostDone_sound ch state sound
    case chunkDataDone => exact onChunkDataDone_sound ch state sound
    case headerField | headerValue | bodyIdentity | chunkData =>
      exact .advance sound
    case headerValueDiscardWs =>
      unfold onHeaderValueDiscardWs
      split_ifs
      · exact .advance (sound_of_free (by rw [state]; rfl))
      · exact .advance trivial
      · exact .advance trivial
      · exact onHeaderValueStart_sound ch
    case headerValueDiscardLws =>
      unfold onHeaderValueDiscardLws
      split_ifs
      · exact .advance trivial
      · exact .behind (headerEnd_sound ch _)
    case headerValueLws =>
      unfold onHeaderValueLws
      split_ifs
      · exact onHeaderValueStart_sound ch
      · exact headerEnd_sound ch _
    all_goals exact absurd among (by decide)

theorem matchName_frame (word : Bytes) (c : UInt8) (found : HeaderState) :
    ∃ index hState, parser.matchName word c found =
      { parser with index := index, headerState := hState } := by
  unfold matchName
  dsimp only
  split <;> exact ⟨_, _, rfl⟩

/-- A character of a name writes to the matcher only. -/
theorem onFieldChar_frame (ch c : UInt8) :
    ∃ index hState, parser.onFieldChar ch c =
      { parser with index := index, headerState := hState } := by
  unfold onFieldChar
  split <;> (try split_ifs) <;>
    first | exact ⟨_, _, rfl⟩ | exact matchName_frame _ c _

theorem onFieldChar_state (ch c : UInt8) :
    (parser.onFieldChar ch c).state = parser.state := by
  obtain ⟨index, hState, same⟩ := parser.onFieldChar_frame ch c
  rw [same]

/-- A character of a value writes to the matcher, to the flags and to the
length only. -/
theorem onValueChar_frame {hState : HeaderState} {ch : UInt8}
    {found : RequestParser × HeaderState}
    (value : parser.state = .headerValue)
    (goesOn : parser.onValueChar hState ch = some found) :
    ∃ index later length flags, found.1 =
      { parser with
        index := index
        headerState := later
        contentLength := length
        flags := flags } := by
  have stays : parser.goto .headerValue = parser := by
    rw [goto, ← value]
  revert goesOn
  unfold onValueChar matchValue setFlag
  rw [stays]
  cases hState <;> dsimp only <;> (try split) <;> (try split_ifs) <;>
    rintro ⟨⟩ <;> exact ⟨_, _, _, _, rfl⟩

theorem onValueChar_state {hState : HeaderState} {ch : UInt8}
    {found : RequestParser × HeaderState}
    (value : parser.state = .headerValue)
    (goesOn : parser.onValueChar hState ch = some found) :
    found.1.state = .headerValue := by
  obtain ⟨_, _, _, _, same⟩ := onValueChar_frame value goesOn
  rw [same]
  exact value

theorem lt_of_matchAt {word : Bytes} {index : Nat} {c : UInt8}
    (some : c ≠ 0) (more : matchAt word index c = .more) :
    index + 1 < word.length := by
  unfold matchAt at more
  split_ifs at more with failed last
  obtain ⟨-, same⟩ := not_or.mp failed
  have inside : index < word.length := by
    by_contra outside
    rw [List.getD_eq_default _ _ (by omega)] at same
    exact same some
  omega

theorem matchName_sound {word : Bytes} {c : UInt8} {found : HeaderState}
    (some : c ≠ 0)
    (goesOn : ∀ index, index + 1 < word.length →
      parser.headerState.InName index)
    (ends : ∀ index, found.InName index) :
    (parser.matchName word c found).headerState.InName
      (parser.matchName word c found).index := by
  unfold matchName
  dsimp only
  cases more : matchAt word (parser.index + 1) c with
  | failed => rfl
  | complete => exact ends _
  | more => exact goesOn _ (lt_of_matchAt some more)

theorem onFieldChar_sound {ch c : UInt8} (some : c ≠ 0)
    (sound : parser.headerState.InName parser.index) :
    (parser.onFieldChar ch c).headerState.InName
      (parser.onFieldChar ch c).index := by
  unfold onFieldChar
  cases state : parser.headerState <;> rw [state] at sound <;> dsimp only
  case general => rw [state]; rfl
  case c | co | con =>
    simp only [HeaderState.InName, decide_eq_true_eq] at sound
    rw [sound]
    split_ifs <;> rfl
  case matchingConnection | matchingProxyConnection | matchingContentLength |
      matchingTransferEncoding | matchingUpgrade =>
    refine matchName_sound some ?_ (fun _ => rfl)
    intro index inside
    rw [state]
    exact decide_eq_true inside
  case connection | contentLength | transferEncoding | upgrade =>
    split_ifs
    · rfl
    · rw [state]
      rfl
  all_goals cases sound

theorem matchValue_sound {hState other found : HeaderState} {word : Bytes}
    {c : UInt8} (some : c ≠ 0)
    (goesOn : ∀ index, index + 1 < word.length → hState.InValue index)
    (fails : ∀ index, other.InValue index)
    (ends : ∀ index, found.InValue index) :
    (parser.matchValue hState word c other found).2.InValue
      (parser.matchValue hState word c other found).1.index := by
  unfold matchValue
  dsimp only
  cases more : matchAt word (parser.index + 1) c with
  | failed => exact fails _
  | complete => exact ends _
  | more => exact goesOn _ (lt_of_matchAt some more)

theorem lower_ne_zero (ch : UInt8) : lower ch ≠ 0 :=
  @forall_byte (fun ch => lower ch ≠ 0) (by decide +kernel) ch

theorem onValueChar_sound {hState : HeaderState} {ch : UInt8}
    (sound : hState.InValue parser.index)
    {found : RequestParser × HeaderState}
    (goesOn : parser.onValueChar hState ch = some found) :
    found.2.InValue found.1.index := by
  have some := lower_ne_zero ch
  revert goesOn
  unfold onValueChar
  cases hState <;> dsimp only
  case general => rintro ⟨⟩; rfl
  case contentLength => split_ifs <;> rintro ⟨⟩ <;> rfl
  case matchingTransferEncodingChunked | matchingConnectionKeepAlive |
      matchingConnectionClose | matchingConnectionUpgrade =>
    rintro ⟨⟩
    exact matchValue_sound some (fun _ inside => decide_eq_true inside)
      (fun _ => rfl) (fun _ => rfl)
  case matchingConnectionTokenStart =>
    have start : parser.index = 0 := of_decide_eq_true sound
    rintro ⟨⟩
    rw [start]
    split_ifs <;> rfl
  case matchingConnectionToken | transferEncodingChunked |
      connectionKeepAlive | connectionClose | connectionUpgrade =>
    split_ifs <;> rintro ⟨⟩ <;> rfl
  all_goals cases sound

theorem Sound.of_headerField (sound : parser.Sound)
    (field : parser.state = .headerField) :
    parser.headerState.InName parser.index := by
  unfold Sound at sound
  rwa [field] at sound

theorem Sound.of_headerValue (sound : parser.Sound)
    (value : parser.state = .headerValue) :
    parser.headerState.InValue parser.index := by
  unfold Sound at sound
  rwa [value] at sound

/-- The assertion on the length of a body. -/
theorem Sound.hasLength (sound : parser.Sound)
    (body : parser.state = .bodyIdentity ∨ parser.state = .chunkData) :
    parser.HasLength := by
  unfold Sound at sound
  rcases body with state | state <;> rw [state] at sound
  · exact sound
  · exact sound.2

theorem countDown_ne (length : parser.HasLength) :
    parser.countDown.contentLength ≠ ullongMax := by
  intro unknown
  have sum := UInt64.sub_eq_iff_eq_add.mp unknown
  exact length.1 (sum.trans (by decide))

/-- Every byte that is read leaves the next state what it relies on. -/
theorem react_sound (ch : UInt8) (sound : parser.Sound)
    (goesOn : (parser.react ch).verdict = .advance) :
    (parser.react ch).state.Sound := by
  unfold react at goesOn ⊢
  cases state : parser.state <;> rw [state] at goesOn <;> dsimp only at *
  case headerField =>
    have inName := sound.of_headerField state
    unfold reactHeaderField at goesOn ⊢
    split_ifs at goesOn ⊢ with some colon
    · have later := @onFieldChar_sound parser ch _ some inName
      unfold Sound
      rw [onFieldChar_state, state]
      exact later
    · trivial
  case headerValue =>
    have inValue := sound.of_headerValue state
    unfold reactHeaderValue at goesOn ⊢
    split_ifs at goesOn ⊢ with cr lf
    · trivial
    · exact Case.Sound.strictCheck (Case.Sound.advance trivial) goesOn
    · cases next : parser.onValueChar parser.headerState ch with
      | none => simp [next] at goesOn
      | some found =>
          have later := onValueChar_sound inValue next
          have stays := onValueChar_state state next
          dsimp only
          unfold Sound store
          dsimp only
          rw [stays]
          exact later
  case bodyIdentity =>
    have length := sound.hasLength (.inl state)
    unfold reactBodyIdentity at goesOn ⊢
    dsimp only at *
    split_ifs at goesOn ⊢ with last
    · exact onMessageDone_sound goesOn
    · unfold Sound
      rw [show parser.countDown.state = .bodyIdentity from state]
      exact ⟨last, countDown_ne length⟩
  case chunkData =>
    have length := sound.hasLength (.inr state)
    have chunked : parser.countDown.flags.chunked = true := by
      unfold Sound at sound
      rw [state] at sound
      exact sound.1
    unfold reactChunkData
    dsimp only
    split_ifs with last
    · exact ⟨chunked, last⟩
    · unfold Sound
      rw [show parser.countDown.state = .chunkData from state]
      exact ⟨chunked, last, countDown_ne length⟩
  all_goals exact onByte_sound ch sound goesOn

theorem scan_sound {bytes : Bytes} (sound : parser.Sound)
    (goesOn : (scan react parser bytes).verdict = .advance) :
    (scan react parser bytes).state.Sound :=
  @scan_invariant _ _ _ react (fun _ => Sound)
    (fun _ _ ch sound goesOn => react_sound ch sound goesOn) [] parser sound
    bytes goesOn

end RequestParser

end Woody
