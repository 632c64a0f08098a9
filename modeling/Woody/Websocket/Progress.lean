import Woody.Websocket.HandlerLoop

/-!
# The parser between calls, and its progress

Between two calls of `Parse` the parser stands at the start of a header with
an empty body, or inside a body that is not complete.  Both subtractions of
the body part are therefore exact, a call inside a body consumes a byte, and
the read loop of the handler ends.
-/

namespace Woody

namespace WebsocketParser

/-- What a parser looks like between two calls. -/
def AtRest (parser : WebsocketParser) : Prop :=
  (parser.state = .headerBegin ∧ parser.body = []) ∨
    (parser.state = .bodyBegin ∧
      parser.body.length < parser.payloadLength.toNat)

/-- The parser behind a sequence of calls. -/
def afterCalls (parser : WebsocketParser) : List Bytes → WebsocketParser
  | [] => parser
  | data :: later => afterCalls (parser.parse data 0).parser later

/-- The parser and the `parsed_bytes` with which a call gets to the body part;
`none` when it returns from the header part. -/
def bodyEntry (parser : WebsocketParser) (data : Bytes) (parsedBytes : Nat) :
    Option (WebsocketParser × Nat) :=
  if parser.state = .headerBegin then
    match parser.parseHeader data parsedBytes with
    | .leave _ _ _ => none
    | .enterBody parser headerBytes =>
        some ({ parser with state := .bodyBegin }, parsedBytes + headerBytes)
  else
    some (parser, parsedBytes)

theorem parse_of_bodyEntry {parser entered : WebsocketParser} {data : Bytes}
    {parsedBytes reached : Nat}
    (entry : parser.bodyEntry data parsedBytes = some (entered, reached)) :
    parser.parse data parsedBytes = entered.parseBody data reached := by
  unfold bodyEntry at entry
  unfold parse
  by_cases state : parser.state = .headerBegin
  · rw [if_pos state] at entry ⊢
    cases header : parser.parseHeader data parsedBytes with
    | leave ok later error =>
        rw [header] at entry
        cases entry
    | enterBody later headerBytes =>
        rw [header] at entry
        cases entry
        rfl
  · rw [if_neg state] at entry ⊢
    cases entry
    rfl

theorem Holds.atRest {key : UInt32} {pending : Bytes}
    {parser : WebsocketParser} (holds : Holds key pending parser) :
    parser.AtRest := by
  cases holds with
  | header state body register => exact .inl ⟨state, body⟩
  | @body header size _ headed short =>
      have bounded := HeaderFraming.size_le headed
      refine .inr ⟨rfl, ?_⟩
      simp only [awaiting, List.length_drop]
      omega

theorem Holds.bodyEntry {key : UInt32} {pending data : Bytes}
    {parser entered : WebsocketParser} {reached : Nat}
    (holds : Holds key pending parser)
    (entry : parser.bodyEntry data 0 = some (entered, reached)) :
    entered.body.length ≤ entered.payloadLength.toNat ∧
      reached ≤ data.length := by
  unfold WebsocketParser.bodyEntry at entry
  cases holds with
  | header state body register =>
      rw [if_pos state] at entry
      cases headed : HeaderFraming.front data with
      | needMore =>
          obtain ⟨later, left, -⟩ := parseHeader_needMore parser headed
          rw [left] at entry
          cases entry
      | reject =>
          obtain ⟨later, reason, left, -⟩ := parseHeader_reject parser headed 0
          rw [left] at entry
          cases entry
      | frame header size =>
          have bounded := HeaderFraming.size_le headed
          rw [parseHeader_frame headed] at entry
          cases entry
          refine ⟨?_, by omega⟩
          simp [loadHeader, body]
  | @body header size _ headed short =>
      have bounded := HeaderFraming.size_le headed
      rw [if_neg (by simp [awaiting])] at entry
      cases entry
      refine ⟨?_, Nat.zero_le _⟩
      simp only [awaiting, List.length_drop]
      omega

theorem Holds.pending_ne_nil {key : UInt32} {pending : Bytes}
    {parser : WebsocketParser} (holds : Holds key pending parser)
    (state : parser.state = .bodyBegin) : pending ≠ [] := by
  cases holds with
  | header other =>
      rw [state] at other
      cases other
  | body headed short =>
      rintro rfl
      exact absurd (HeaderFraming.size_le headed)
        (Nat.not_le.mpr (HeaderFraming.size_pos headed))

/-- A call on a parser at rest, and the parser at rest it leaves behind. -/
structure Progresses (parser : WebsocketParser) (data : Bytes) : Prop where
  before : parser.AtRest
  exact : ∀ entered reached,
    parser.bodyEntry data 0 = some (entered, reached) →
      parser.parse data 0 = entered.parseBody data reached ∧
        entered.body.length ≤ entered.payloadLength.toNat ∧
          reached ≤ data.length
  bounded : (parser.parse data 0).parsedBytes ≤ data.length
  single : (parser.parse data 0).delivered.toList.length ≤ 1
  progress : parser.state = .bodyBegin → data ≠ [] →
    0 < (parser.parse data 0).parsedBytes
  after : (parser.parse data 0).parser.AtRest

theorem Holds.progresses {key : UInt32} {pending : Bytes}
    {parser : WebsocketParser} (holds : Holds key pending parser)
    (data : Bytes) : Progresses parser data := by
  obtain ⟨bounded, -, held⟩ := resumes.step holds data
  refine ⟨holds.atRest, ?_, bounded, ?_, ?_, held.atRest⟩
  · intro entered reached entry
    exact ⟨parse_of_bodyEntry entry, holds.bodyEntry entry⟩
  · cases (parser.parse data 0).delivered with
    | none => exact Nat.zero_le 1
    | some frame => exact Nat.le_refl 1
  · intro state given
    have taken := holds.pending_ne_nil state
    have turn := holds.turn data
    generalize parser.parse data 0 = result at turn
    cases turn with
    | frame found behind => exact Nat.sub_pos_of_lt behind
    | reject boundary => exact (taken boundary).elim
    | headerIncomplete boundary => exact (taken boundary).elim
    | bodyIncomplete => exact List.length_pos_iff.mpr given

theorem Holds.afterCalls {key : UInt32} {pending : Bytes}
    {parser : WebsocketParser} (holds : Holds key pending parser)
    (calls : List Bytes) :
    ∃ key pending, Holds key pending (parser.afterCalls calls) := by
  induction calls generalizing key pending parser with
  | nil => exact ⟨key, pending, holds⟩
  | cons data calls ih => exact ih (resumes.step holds data).2.2

end WebsocketParser

namespace WebsocketHandler

/-- The parser invariant holds in every run, no subtraction wraps around and
the read loop ends.  One iteration for every readable byte and a last one
are enough. -/
theorem parser_progress (memory : WebsocketParser) (calls : List Bytes) :
    let parser := memory.init.afterCalls calls
    (∀ data, WebsocketParser.Progresses parser data) ∧
      ∀ handler : WebsocketHandler, handler.codec.parser = parser →
        ∀ (buffer : Buffer) (fuel : Nat), buffer.readableBytes < fuel →
          (handler.onDataLoop fuel buffer).exit ≠ .outOfFuel := by
  intro parser
  obtain ⟨key, pending, holds⟩ :=
    (WebsocketParser.Holds.init memory).afterCalls calls
  refine ⟨fun data => holds.progresses data, ?_⟩
  intro handler same buffer fuel enough
  have held : handler.codec.Holds ⟨key, handler.codec⟩ pending :=
    ⟨same ▸ holds, rfl⟩
  exact (onDataLoop_outcome held enough).exit_ne_outOfFuel

/-- A frame that announces 2^64 - 1 bytes, after its first byte of payload; and
the loop over two frames, of which the second one is not complete. -/
theorem largest_frame_progress :
    let announced : Bytes := [130, 127, 255, 255, 255, 255, 255, 255, 255, 255, 7]
    let parser := (WebsocketParser.init default).afterCalls [announced]
    (WebsocketParser.Progresses parser [1, 2] ∧
      parser.state = .bodyBegin ∧ parser.body = [7]) ∧
    let buffer := Buffer.init.readFd [129, 128, 1, 2, 3, 4, 129, 131, 1, 2]
    let result := (upgraded ⟨.connected, 0⟩ default).onDataLoop 11 buffer
    result.events.length = 1 ∧ result.exit ≠ .outOfFuel := by
  intro announced parser
  refine ⟨⟨(parser_progress default [announced]).1 [1, 2], by decide +kernel,
    by decide +kernel⟩, ?_⟩
  intro buffer result
  refine ⟨by decide +kernel, ?_⟩
  exact (parser_progress default []).2 (upgraded ⟨.connected, 0⟩ default) rfl
    buffer 11 (by decide +kernel)

end WebsocketHandler

end Woody
