import Woody.HttpParser.Reading

/-!
# The content of a request

A body of a known length, and chunks: the size of a chunk is read digit by
digit, and the data behind it is as long as the size says.
-/

namespace Woody

open Scanner

/-- The number that goes on with these hexadecimal digits. -/
def hexFrom (n : Nat) (digits : Bytes) : Option Nat :=
  Bytes.numeralFrom 16 (fun ch => (unhex ch).map UInt8.toNat) n digits

/-- The largest size that the guard against an overflow lets through. -/
def maxChunkSize : Nat := 18446744073709551599

theorem hexFrom_cons {n total : Nat} {ch : UInt8} {digits : Bytes}
    (number : hexFrom n (ch :: digits) = some total) :
    ∃ digit, unhex ch = some digit ∧
      hexFrom (n * 16 + digit.toNat) digits = some total := by
  obtain ⟨value, isValue, later⟩ := Bytes.numeralFrom_cons number
  obtain ⟨digit, isDigit, rfl⟩ := Option.map_eq_some_iff.mp isValue
  exact ⟨digit, isDigit, later⟩

/-- The line of a chunk's size: its digits, and what comes behind them, which
begins with a semicolon or a space and is skipped. -/
structure SizeLine (size : Nat) where
  digits : Bytes
  extension : Bytes
  some : digits ≠ []
  number : hexFrom 0 digits = Option.some size
  begins : extension.head?.all fun ch => ch = octet ';' || ch = octet ' '
  inside : CR ∉ extension

def SizeLine.text {size : Nat} (line : SizeLine size) : Bytes :=
  line.digits ++ line.extension ++ [CR, LF]

/-- A chunk: the line of its size, and its data. -/
structure Chunk where
  data : Bytes
  line : SizeLine data.length
  some : data ≠ []
  small : data.length ≤ maxChunkSize

namespace Chunk

def text (chunk : Chunk) : Bytes :=
  chunk.line.text ++ chunk.data ++ [CR, LF]

def callback (chunk : Chunk) : HttpCallback := .body chunk.data

end Chunk

/-- The content of a message, as it is written. -/
inductive Content where
  | whole (bytes : Bytes)
  | chunked (chunks : List Chunk) (last : SizeLine 0)

namespace Content

def text : Content → Bytes
  | .whole bytes => bytes
  | .chunked chunks last =>
      chunks.flatMap Chunk.text ++ (last.text ++ [CR, LF])

def callbacks : Content → List HttpCallback
  | .whole bytes => if bytes = [] then [] else [.body bytes]
  | .chunked chunks _ => chunks.map Chunk.callback

end Content

namespace RequestParser

variable {parser : RequestParser}

/-- The parser at the end of a message. -/
def finished (parser : RequestParser) : RequestParser :=
  parser.goto parser.newMessage

theorem piece_finished (parser : RequestParser) (ch : UInt8) :
    parser.finished.piece ch = [] := by
  unfold piece finished
  rcases parser.newMessage_cases with state | state <;>
    simp [state, CountingParser.tokenAt]

theorem onMessageDone_finished (stays : parser.upgrade = false) :
    (parser.goto .messageDone).onMessageDone =
      .advance parser.finished [.notify .messageComplete] := by
  have control : ((parser.goto .messageDone).goto parser.newMessage).upgrade =
      false := stays
  calc (parser.goto .messageDone).onMessageDone
      = ⟨parser.finished, [.notify .messageComplete],
          if ((parser.goto .messageDone).goto parser.newMessage).upgrade then
            .exit
          else .advance⟩ := rfl
    _ = _ := by
      rw [control]
      rfl

theorem alike_whole_body {body : Bytes} (some : body ≠ []) :
    HttpCallback.gluing.Alike (body.map fun ch => .body [ch])
      [.body body] := by
  obtain ⟨ch, rest, rfl⟩ := List.exists_cons_of_ne_nil some
  exact HttpCallback.alike_pieces .body [ch] rest

/-- The data of a body, or of a chunk, up to its last byte. -/
theorem data_reads
    (body : parser.state = .bodyIdentity ∨ parser.state = .chunkData)
    {data : Bytes} (nonempty : data ≠ [])
    (sized : parser.contentLength.toNat = data.length)
    {rest : List HttpCallback} {later : RequestParser}
    (last : ∀ (before : RequestParser) (ch : UInt8),
      before.state = parser.state →
      before.countDown = parser.minus data.length →
      before.countDown.contentLength = 0 →
      before.react ch = ⟨later, .body [ch] :: rest, .advance⟩) :
    parser.Reads data (.body data :: rest) later := by
  rcases List.eq_nil_or_concat' data with rfl | ⟨early, ch, rfl⟩
  · exact (nonempty rfl).elim
  have length : (early ++ [ch]).length = early.length + 1 := by simp
  rw [length] at sized
  obtain ⟨counted, zero, -⟩ :=
    @last_of_split parser (early ++ [ch]) early [] ch rfl sized.symm
  have front := @scan_body parser body early (by omega)
  have reads : parser.Reads early (early.map fun ch => .body [ch])
      (parser.minus early.length) := ⟨_, front, rfl⟩
  have reaction := last (parser.minus early.length) ch rfl
    (by rw [← counted, sized, length]) zero
  refine (reads.append (.byte reaction)).of_alike ?_
  have whole := (alike_whole_body nonempty).append_right rest
  rw [List.map_append, List.append_assoc] at whole
  exact whole

theorem body_reads (identity : parser.state = .bodyIdentity)
    (stays : parser.upgrade = false) {body : Bytes} (nonempty : body ≠ [])
    (sized : parser.contentLength.toNat = body.length) :
    parser.Reads body [.body body, .messageComplete]
      (parser.minus body.length).finished := by
  apply data_reads (.inl identity) nonempty sized
  intro before ch state counted zero
  have done := @onMessageDone_finished (parser.minus body.length) stays
  unfold react
  simp only [state, identity, reactBodyIdentity, if_pos zero]
  rw [counted, done]
  simp [Case.reaction, Case.advance, piece_finished, Effect.outputs]

theorem size_digits_read (size : parser.state = .chunkSize) {digits : Bytes}
    {total : Nat}
    (number : hexFrom parser.contentLength.toNat digits = some total)
    (small : total ≤ maxChunkSize) :
    parser.Reads digits []
      { parser with contentLength := UInt64.ofNat total } := by
  induction digits generalizing parser with
  | nil =>
      cases number
      rw [UInt64.ofNat_toNat]
      exact Reads.nil parser
  | cons ch digits ih =>
      obtain ⟨digit, isDigit, later⟩ := hexFrom_cons number
      have most := (Bytes.le_numeralFrom (by decide) later).trans small
      have bound : ((ullongMax - 16) / 16).toNat = 1152921504606846974 := by
        decide
      have long : maxChunkSize = 18446744073709551599 := rfl
      have guard : ¬ (ullongMax - 16) / 16 < parser.contentLength := by
        rw [UInt64.lt_iff_toNat_lt, bound]
        omega
      have value := (@toNat_next_digit 16 parser.contentLength digit.toUInt64
        (by decide) (by decide) guard
        (by rw [UInt8.toNat_toUInt64]; exact unhex_lt isDigit)).1
      rw [UInt8.toNat_toUInt64] at value
      have noCr : ch ≠ CR := by
        rintro rfl
        have noDigit : unhex CR = none := by decide
        rw [noDigit] at isDigit
        cases isDigit
      have reaction : parser.react ch =
          ⟨{ parser with
              contentLength := parser.contentLength * 16 + digit.toUInt64 },
            [], .advance⟩ := by
        unfold react
        simp only [size, onByte, onChunkSize, noCr, isDigit, guard, if_false]
        simp [Case.reaction, Case.advance, piece, CountingParser.tokenAt]
      have rest := @ih
        { parser with
          contentLength := parser.contentLength * 16 + digit.toUInt64 } size
        (by rw [← later]; exact congrArg (hexFrom · digits) value)
      exact Reads.cons reaction rest

theorem extension_skipped (parameters : parser.state = .chunkParameters)
    {extension : Bytes} (inside : CR ∉ extension) :
    parser.Reads extension [] parser := by
  induction extension with
  | nil => exact Reads.nil parser
  | cons ch extension ih =>
      have noCr := List.ne_of_not_mem_cons inside
      have inside := List.not_mem_of_not_mem_cons inside
      have reaction : parser.react ch = ⟨parser, [], .advance⟩ := by
        unfold react
        simp [parameters, onByte, onChunkParameters, Ne.symm noCr,
          Case.reaction, Case.advance, piece, CountingParser.tokenAt]
      exact Reads.cons reaction (ih inside)

theorem extension_reads (size : parser.state = .chunkSize) {extension : Bytes}
    (begins : extension.head?.all fun ch => ch = octet ';' || ch = octet ' ')
    (inside : CR ∉ extension) :
    parser.Reads (extension ++ [CR]) []
      (parser.goto .chunkSizeAlmostDone) := by
  cases extension with
  | nil =>
      have cr : parser.react CR =
          ⟨parser.goto .chunkSizeAlmostDone, [], .advance⟩ := by
        unfold react
        simp only [size, onByte]
        rfl
      exact .byte cr
  | cons ch extension =>
      have noCr := List.ne_of_not_mem_cons inside
      have inside := List.not_mem_of_not_mem_cons inside
      have first : unhex ch = none ∧ (ch = octet ';' ∨ ch = octet ' ') := by
        have begun : ch = octet ';' ∨ ch = octet ' ' := by simpa using begins
        refine ⟨?_, begun⟩
        rcases begun with rfl | rfl <;> decide
      have reaction : parser.react ch =
          ⟨parser.goto .chunkParameters, [], .advance⟩ := by
        unfold react
        simp only [size, onByte, onChunkSize, Ne.symm noCr, first, if_false,
          if_true]
        rfl
      have cr : (parser.goto .chunkParameters).react CR =
          ⟨parser.goto .chunkSizeAlmostDone, [], .advance⟩ := rfl
      have skipped := @extension_skipped (parser.goto .chunkParameters) rfl
        extension inside
      exact Reads.cons reaction (skipped.append (.byte cr))

theorem size_reads (start : parser.state = .chunkSizeStart) {size : Nat}
    (line : SizeLine size) (small : size ≤ maxChunkSize) :
    parser.Reads (line.digits ++ (line.extension ++ [CR])) []
      { parser with
        contentLength := UInt64.ofNat size
        state := .chunkSizeAlmostDone } := by
  obtain ⟨ch, digits, split⟩ := List.exists_cons_of_ne_nil line.some
  have number := line.number
  rw [split] at number ⊢
  obtain ⟨digit, isDigit, later⟩ := hexFrom_cons number
  have reaction : parser.react ch =
      ⟨{ parser with
          contentLength := digit.toUInt64
          state := .chunkSize }, [], .advance⟩ := by
    unfold react
    simp only [start, onByte, onChunkSizeStart, isDigit]
    rfl
  have rest := @size_digits_read
    { parser with
      contentLength := digit.toUInt64
      state := .chunkSize } rfl digits size
    (by
      rw [← later, Nat.zero_mul, Nat.zero_add]
      exact congrArg (hexFrom · digits) (UInt8.toNat_toUInt64 digit)) small
  have extension := @extension_reads
    { parser with
      contentLength := UInt64.ofNat size
      state := .chunkSize } rfl line.extension line.begins line.inside
  exact Reads.cons reaction (rest.append extension)

/-- A chunk is reported as its data. -/
theorem chunk_reads (start : parser.state = .chunkSizeStart) (chunk : Chunk) :
    parser.Reads chunk.text [chunk.callback]
      { parser with contentLength := 0 } := by
  have positive := List.length_pos_of_ne_nil chunk.some
  have fits : chunk.data.length < 2 ^ 64 :=
    chunk.small.trans_lt (by decide)
  have value : (UInt64.ofNat chunk.data.length).toNat = chunk.data.length :=
    UInt64.toNat_ofNat_of_lt' fits
  have notLast : UInt64.ofNat chunk.data.length ≠ 0 := by
    intro zero
    rw [zero] at value
    exact positive.ne value
  let inData : RequestParser :=
    { parser with
      contentLength := UInt64.ofNat chunk.data.length
      state := .chunkData }
  have size := size_reads start chunk.line chunk.small
  have lf : ({ parser with
      contentLength := UInt64.ofNat chunk.data.length
      state := .chunkSizeAlmostDone } : RequestParser).react LF =
        ⟨inData, [], .advance⟩ := by
    unfold react
    simp only [onByte, onChunkSizeAlmostDone, notLast, if_false]
    rfl
  have data : inData.Reads chunk.data [.body chunk.data]
      ((inData.minus chunk.data.length).goto .chunkDataAlmostDone) := by
    apply data_reads (.inr rfl) chunk.some value
    intro before ch state counted zero
    unfold react
    simp only [state, inData, reactChunkData, if_pos zero]
    rw [counted]
  have ends : ((inData.minus chunk.data.length).goto
      .chunkDataAlmostDone).Reads [CR, LF] []
        ((inData.minus chunk.data.length).goto .chunkSizeStart) :=
    ⟨[], rfl, rfl⟩
  have whole := ((size.append (.byte lf)).append data).append ends
  have none : (inData.minus chunk.data.length).goto .chunkSizeStart =
      { parser with contentLength := 0 } := by
    simp [inData, minus, goto, start]
  have text : chunk.line.digits ++ (chunk.line.extension ++ [CR]) ++ [LF] ++
      chunk.data ++ [CR, LF] = chunk.text := by
    simp only [Chunk.text, SizeLine.text, List.append_assoc, List.cons_append,
      List.nil_append]
  rw [none, text] at whole
  exact whole

theorem chunks_read (start : parser.state = .chunkSizeStart)
    (chunks : List Chunk) :
    ∃ length, parser.Reads (chunks.flatMap Chunk.text)
      (chunks.map Chunk.callback) { parser with contentLength := length } := by
  induction chunks generalizing parser with
  | nil => exact ⟨parser.contentLength, Reads.nil parser⟩
  | cons chunk chunks ih =>
      obtain ⟨length, back⟩ := @ih { parser with contentLength := 0 } start
      exact ⟨length, (chunk_reads start chunk).append back⟩

/-- The chunk of size zero, and the end of its message. -/
theorem last_chunk_reads (start : parser.state = .chunkSizeStart)
    (stays : parser.upgrade = false) (last : SizeLine 0) :
    ∃ later, parser.Reads (last.text ++ [CR, LF]) [.messageComplete] later ∧
      later.state = parser.newMessage := by
  let ended : RequestParser :=
    { parser with
      contentLength := 0
      flags := { parser.flags with trailing := true }
      state := .headersAlmostDone }
  have size := size_reads start last (Nat.zero_le _)
  have ends : ({ parser with
      contentLength := UInt64.ofNat 0
      state := .chunkSizeAlmostDone } : RequestParser).Reads [LF, CR] []
        ended := ⟨[], rfl, rfl⟩
  have lf : ended.react LF = ⟨ended.finished, [.messageComplete], .advance⟩ := by
    have done := @onMessageDone_finished ended stays
    have case : ended.onHeadersAlmostDone LF =
        (ended.goto .messageDone).onMessageDone := rfl
    have reaction : ended.react LF =
        (ended.onHeadersAlmostDone LF).reaction LF := rfl
    rw [reaction, case, done]
    simp [Case.reaction, Case.advance, piece_finished, Effect.outputs]
  refine ⟨ended.finished, ?_, rfl⟩
  have whole := (size.append ends).append (.byte lf)
  have text : last.digits ++ (last.extension ++ [CR]) ++ [LF, CR] ++ [LF] =
      last.text ++ [CR, LF] := by
    simp only [SizeLine.text, List.append_assoc, List.cons_append,
      List.nil_append]
  rw [text] at whole
  exact whole

end RequestParser

end Woody
