import Woody.HttpParser.Assertions
import Woody.HttpParser.Segmentation

/-!
# The limit on headers

`nread` counts the bytes of a header.  A name or a value that goes on in the
next call is counted one too many, so the count of the calls is that of the
bytes up to one for each call.
-/

namespace Woody

open Scanner

def Effect.resets : Effect → Bool
  | .resetRead => true
  | _ => false

def Case.resets (case : Case) : Bool := case.effects.any Effect.resets

namespace RequestParser

/-- The case of this byte sets the count back. -/
def resets (parser : RequestParser) (ch : UInt8) : Bool :=
  (parser.onByte ch).resets

/-- The count with this byte, if it belongs to a header. -/
def counted (parser : RequestParser) (n : Nat) : Nat :=
  if parser.state.parsingHeader then n + 1 else n

/-- The count behind a byte. -/
def tally (parser : RequestParser) (n : Nat) (ch : UInt8) : Nat :=
  if parser.resets ch then 0 else parser.counted n

/-- The bytes of the header that has come last, behind the bytes of a
stream. -/
def headerBytes : RequestParser → Nat → Bytes → Nat
  | _, n, [] => n
  | parser, n, ch :: rest =>
      headerBytes (parser.react ch).state (parser.tally n ch) rest

/-- The largest number of bytes that a header of the stream has, as far as the
stream is read. -/
def peak : RequestParser → Nat → Bytes → Nat
  | _, n, [] => n
  | parser, n, ch :: rest =>
      max (parser.counted n)
        (match (parser.react ch).verdict with
        | .advance => peak (parser.react ch).state (parser.tally n ch) rest
        | .error | .exit => 0)

variable {parser : RequestParser} {n : Nat}

theorem counted_le (parser : RequestParser) (n : Nat) :
    n ≤ parser.counted n ∧ parser.counted n ≤ n + 1 := by
  unfold counted
  split_ifs <;> omega

theorem tally_le (parser : RequestParser) (n : Nat) (ch : UInt8) :
    parser.tally n ch ≤ parser.counted n := by
  unfold tally
  split_ifs
  · exact Nat.zero_le _
  · exact le_rfl

/-- More bytes in front make the counts larger by that many at most. -/
theorem tally_add (parser : RequestParser) (n k : Nat) (ch : UInt8) :
    parser.tally n ch ≤ parser.tally (n + k) ch ∧
      parser.tally (n + k) ch ≤ parser.tally n ch + k := by
  unfold tally counted
  split_ifs <;> omega

theorem headerBytes_mono {m : Nat} (le : n ≤ m) (bytes : Bytes) :
    parser.headerBytes n bytes ≤ parser.headerBytes m bytes := by
  induction bytes generalizing parser n m with
  | nil => exact le
  | cons ch bytes ih =>
      obtain ⟨k, rfl⟩ := Nat.exists_eq_add_of_le le
      exact ih (parser.tally_add n k ch).1

theorem headerBytes_add (k : Nat) (bytes : Bytes) :
    parser.headerBytes (n + k) bytes ≤ parser.headerBytes n bytes + k := by
  induction bytes generalizing parser n with
  | nil => exact le_rfl
  | cons ch bytes ih =>
      unfold headerBytes
      have first := (parser.tally_add n k ch).2
      exact (headerBytes_mono first bytes).trans ih

theorem peak_mono {m : Nat} (le : n ≤ m) (bytes : Bytes) :
    parser.peak n bytes ≤ parser.peak m bytes := by
  induction bytes generalizing parser n m with
  | nil => exact le
  | cons ch bytes ih =>
      obtain ⟨k, rfl⟩ := Nat.exists_eq_add_of_le le
      have front : parser.counted n ≤ parser.counted (n + k) := by
        unfold counted
        split_ifs <;> omega
      unfold peak
      apply max_le_max front
      split
      · exact ih (parser.tally_add n k ch).1
      · exact le_rfl
      · exact le_rfl

theorem peak_add (k : Nat) (bytes : Bytes) :
    parser.peak (n + k) bytes ≤ parser.peak n bytes + k := by
  induction bytes generalizing parser n with
  | nil => exact le_rfl
  | cons ch bytes ih =>
      have front : parser.counted (n + k) ≤ parser.counted n + k := by
        unfold counted
        split_ifs <;> omega
      unfold peak
      rw [← max_add_add_right]
      apply max_le_max front
      split
      · exact (peak_mono (parser.tally_add n k ch).2 bytes).trans ih
      · exact Nat.zero_le _
      · exact Nat.zero_le _

theorem le_peak (parser : RequestParser) (n : Nat) (bytes : Bytes) :
    n ≤ parser.peak n bytes := by
  cases bytes with
  | nil => exact le_rfl
  | cons ch bytes => exact (parser.counted_le n).1.trans (le_max_left _ _)

section Append

variable {early : Bytes}
  (read : (scan react parser early).verdict = .advance)

include read

theorem headerBytes_append (late : Bytes) :
    parser.headerBytes n (early ++ late) =
      (scan react parser early).state.headerBytes
        (parser.headerBytes n early) late := by
  induction early generalizing parser n with
  | nil => rfl
  | cons ch early ih =>
      cases verdict : (parser.react ch).verdict with
      | advance =>
          rw [scan_cons_advance verdict] at read ⊢
          exact ih read
      | error =>
          rw [scan_cons_error verdict] at read
          cases read
      | exit =>
          rw [scan_cons_exit verdict] at read
          cases read

theorem peak_append (late : Bytes) :
    parser.peak n (early ++ late) =
      max (parser.peak n early)
        ((scan react parser early).state.peak
          (parser.headerBytes n early) late) := by
  induction early generalizing parser n with
  | nil =>
      exact (max_eq_right (parser.le_peak n late)).symm
  | cons ch early ih =>
      cases verdict : (parser.react ch).verdict with
      | advance =>
          rw [scan_cons_advance verdict] at read ⊢
          rw [List.cons_append, peak, peak, verdict]
          dsimp only
          rw [ih read, headerBytes, max_assoc]
      | error =>
          rw [scan_cons_error verdict] at read
          cases read
      | exit =>
          rw [scan_cons_exit verdict] at read
          cases read

end Append

theorem peak_append_stop {early : Bytes}
    (stopped : (scan react parser early).verdict ≠ .advance) (late : Bytes) :
    parser.peak n (early ++ late) = parser.peak n early := by
  induction early generalizing parser n with
  | nil => exact (stopped rfl).elim
  | cons ch early ih =>
      rw [List.cons_append, peak, peak]
      cases verdict : (parser.react ch).verdict with
      | advance =>
          rw [scan_cons_advance verdict] at stopped
          dsimp only
          rw [ih stopped]
      | error => rfl
      | exit => rfl

theorem tally_of_header {state : ParserState} (here : parser.state = state)
    (loop : state = .headerField ∨ state = .headerValue) (n : Nat)
    (ch : UInt8) : parser.counted n = n + 1 ∧ parser.tally n ch = n + 1 := by
  unfold tally resets counted onByte
  rw [here]
  rcases loop with rfl | rfl <;> exact ⟨rfl, rfl⟩

theorem tally_of_body (body : parser.state = .bodyIdentity ∨
    parser.state = .chunkData) (n : Nat) (ch : UInt8) :
    parser.counted n = n ∧ parser.tally n ch = n := by
  unfold tally resets counted onByte
  rcases body with here | here <;> rw [here] <;> exact ⟨rfl, rfl⟩

theorem counts_name (field : parser.state = .headerField) {taken : Bytes}
    (tokens : ∀ ch ∈ taken, token ch ≠ 0) :
    parser.headerBytes n taken = n + taken.length ∧
      parser.peak n taken = n + taken.length := by
  induction taken generalizing parser n with
  | nil => exact ⟨rfl, rfl⟩
  | cons ch taken ih =>
      obtain ⟨first, tokens⟩ := List.forall_mem_cons.mp tokens
      obtain ⟨counted, tally⟩ := tally_of_header field (.inl rfl) n ch
      have reaction : parser.react ch =
          ⟨parser.onFieldChar ch (token ch), [.headerField [ch]],
            .advance⟩ := by
        simp [react, field, reactHeaderField, first]
      have stays : (parser.onFieldChar ch (token ch)).state = .headerField := by
        rw [onFieldChar_state, field]
      obtain ⟨bytes, top⟩ := @ih _ (n + 1) stays tokens
      unfold headerBytes peak
      rw [reaction, tally, counted]
      dsimp only
      rw [bytes, top, List.length_cons]
      omega

theorem counts_value (value : parser.state = .headerValue) {taken : Bytes}
    (inside : ∀ ch ∈ taken, ¬ IsLineEnd ch)
    (read : (scan react parser taken).verdict = .advance) :
    parser.headerBytes n taken = n + taken.length ∧
      parser.peak n taken = n + taken.length := by
  induction taken generalizing parser n with
  | nil => exact ⟨rfl, rfl⟩
  | cons ch taken ih =>
      obtain ⟨first, inside⟩ := List.forall_mem_cons.mp inside
      obtain ⟨counted, tally⟩ := tally_of_header value (.inr rfl) n ch
      have reaction := @react_value parser parser.headerState ch value first
      have unstored : store (parser, parser.headerState) = parser := rfl
      rw [unstored] at reaction
      cases next : parser.onValueChar parser.headerState ch with
      | none =>
          rw [next] at reaction
          rw [scan_cons_error (by rw [reaction]; rfl)] at read
          cases read
      | some found =>
          rw [next] at reaction
          have goesOn : (parser.react ch).verdict = .advance := by
            rw [reaction]
            rfl
          rw [scan_cons_advance goesOn] at read
          have stays : (parser.react ch).state.state = .headerValue := by
            rw [reaction]
            exact onValueChar_state value next
          obtain ⟨bytes, top⟩ := @ih _ (n + 1) stays inside read
          unfold headerBytes peak
          rw [goesOn, tally, counted]
          dsimp only
          rw [bytes, top, List.length_cons]
          omega

theorem counts_body (body : parser.state = .bodyIdentity ∨
      parser.state = .chunkData)
    {taken : Bytes} (more : taken.length < parser.contentLength.toNat) :
    parser.headerBytes n taken = n ∧ parser.peak n taken = n := by
  induction taken generalizing parser with
  | nil => exact ⟨rfl, rfl⟩
  | cons ch taken ih =>
      rw [List.length_cons] at more
      obtain ⟨counted, tally⟩ := tally_of_body body n ch
      have left : parser.countDown.contentLength ≠ 0 := by
        rw [countDown, ne_eq, minus_eq_zero_iff (by omega)]
        omega
      have fewer : taken.length < parser.countDown.contentLength.toNat := by
        rw [countDown, toNat_minus (by omega)]
        omega
      have reaction := react_body body left ch
      obtain ⟨bytes, top⟩ := @ih parser.countDown body fewer
      unfold headerBytes peak
      rw [reaction, tally, counted]
      dsimp only
      rw [bytes, top]
      exact ⟨rfl, max_self n⟩

/-- A search for a line end that gives up has seen none in the first bytes. -/
theorem skipGeneral_far {data : Bytes} (ends : skipGeneral data = []) :
    ∀ ch ∈ data.take httpMaxHeaderSize.toNat, ¬ IsLineEnd ch := by
  have found : ∀ {property : UInt8 → Bool} {n : Nat},
      (data.take httpMaxHeaderSize.toNat).findIdx? property = some n →
        data.drop n ≠ [] := by
    intro property n at_ nothing
    have inside := (List.findIdx?_eq_some_iff_getElem.mp at_).1
    have outside := List.drop_eq_nil_iff.mp nothing
    rw [List.length_take] at inside
    omega
  unfold skipGeneral at ends
  dsimp only at ends
  cases cr : (data.take httpMaxHeaderSize.toNat).findIdx? (· = CR) with
  | some c =>
      cases lf : (data.take httpMaxHeaderSize.toNat).findIdx? (· = LF) with
      | some l =>
          rw [cr, lf] at ends
          dsimp only at ends
          split_ifs at ends
          · exact (found lf ends).elim
          · exact (found cr ends).elim
      | none =>
          rw [cr, lf] at ends
          exact (found cr ends).elim
  | none =>
      cases lf : (data.take httpMaxHeaderSize.toNat).findIdx? (· = LF) with
      | some l =>
          rw [cr, lf] at ends
          exact (found lf ends).elim
      | none =>
          have noCr := List.findIdx?_eq_none_iff.mp cr
          have noLf := List.findIdx?_eq_none_iff.mp lf
          intro ch member
          have apart : ch ≠ CR ∧ ch ≠ LF :=
            ⟨of_decide_eq_false (noCr ch member),
              of_decide_eq_false (noLf ch member)⟩
          exact not_or.mpr apart

/-- A value in which the search for a line end gives up has many bytes. -/
theorem valueLoop_far (value : parser.state = .headerValue)
    (hState : HeaderState) {data : Bytes}
    (ends : (parser.valueLoop hState data).p = []) :
    ∃ early late, data = early ++ late ∧
      (scan react (store (parser, hState)) early).verdict = .advance ∧
      (∀ ch ∈ early, ¬ IsLineEnd ch) ∧
      (late = [] ∨ httpMaxHeaderSize.toNat ≤ early.length) := by
  induction data generalizing parser hState with
  | nil => exact ⟨[], [], rfl, rfl, nofun, .inl rfl⟩
  | cons ch data ih =>
      unfold valueLoop at ends
      split_ifs at ends with lineEnd general
      · subst general
        have inside := skipGeneral_far ends
        refine ⟨(ch :: data).take httpMaxHeaderSize.toNat,
          (ch :: data).drop httpMaxHeaderSize.toNat,
          (List.take_append_drop _ _).symm, ?_, inside, ?_⟩
        · rw [scan_general value inside]
        · by_cases short : (ch :: data).length ≤ httpMaxHeaderSize.toNat
          · exact .inl (List.drop_eq_nil_of_le short)
          · rw [List.length_take]
            exact .inr (by omega)
      · cases next : parser.onValueChar hState ch with
        | none => simp [next] at ends
        | some found =>
            rw [next] at ends
            obtain ⟨early, late, split, read, inside, far⟩ :=
              ih (onValueChar_state value next) found.2 ends
            have reaction : (store (parser, hState)).react ch =
                ⟨store found, [.headerValue [ch]], .advance⟩ := by
              rw [react_value value lineEnd, next]
              rfl
            refine ⟨ch :: early, late, congrArg (ch :: ·) split, ?_,
              List.forall_mem_cons.mpr ⟨lineEnd, inside⟩,
              far.imp_right fun long => long.trans (Nat.le_succ _)⟩
            rw [scan_cons_advance (by rw [reaction]), reaction]
            exact read

end RequestParser

/-- A turn that begins with a count of `n` counts the bytes that it reads, and
ends the call when there are too many. -/
def Turn.Counts (parser : RequestParser) (n : Nat) (p : Bytes) :
    Turn → Prop
  | .next progress later =>
      ∃ taken, p = taken ++ later ∧
        (scan RequestParser.react parser taken).verdict = .advance ∧
        parser.peak n taken ≤ httpMaxHeaderSize.toNat ∧
        progress.parser.nread ≤ httpMaxHeaderSize ∧
        parser.headerBytes n taken ≤ progress.parser.nread.toNat ∧
        progress.parser.nread.toNat ≤
          parser.headerBytes n taken + if later = [] then 1 else 0
  | .stop progress _ =>
      (progress.parser.httpErrno = .headerOverflow ∧
        ∃ taken later, p = taken ++ later ∧
          (scan RequestParser.react parser taken).verdict = .advance ∧
          httpMaxHeaderSize.toNat ≤ parser.peak n taken) ∨
      (progress.parser.httpErrno ≠ .headerOverflow ∧
        (progress.parser.httpErrno = .ok →
          parser.peak n p ≤ httpMaxHeaderSize.toNat) ∧
        (scan RequestParser.react parser p).verdict ≠ .advance)

namespace Turn.Counts

variable {parser : RequestParser} {n : Nat} {p : Bytes}

theorem behind {taken : Bytes} {turn : Turn}
    (read : (scan RequestParser.react parser taken).verdict = .advance)
    (fits : parser.peak n taken ≤ httpMaxHeaderSize.toNat)
    (counts : turn.Counts (scan RequestParser.react parser taken).state
      (parser.headerBytes n taken) p) :
    turn.Counts parser n (taken ++ p) := by
  have top := fun late => RequestParser.peak_append (n := n) read late
  cases turn with
  | next progress later =>
      obtain ⟨more, rfl, readMore, fitsMore, within, low, high⟩ := counts
      refine ⟨taken ++ more, (List.append_assoc _ _ _).symm, ?_, ?_, within,
        ?_, ?_⟩
      · rw [scan_append_advance read]
        exact readMore
      · rw [top]
        exact max_le fits fitsMore
      · rw [RequestParser.headerBytes_append read]
        exact low
      · rw [RequestParser.headerBytes_append read]
        exact high
  | stop progress rest =>
      rcases counts with
        ⟨errno, more, later, rfl, readMore, reached⟩ |
        ⟨errno, fitsMore, stops⟩
      · refine .inl ⟨errno, taken ++ more, later,
          (List.append_assoc _ _ _).symm, ?_, ?_⟩
        · rw [scan_append_advance read]
          exact readMore
        · rw [top]
          exact reached.trans (le_max_right _ _)
      · refine .inr ⟨errno, fun ok => ?_, ?_⟩
        · rw [top]
          exact max_le fits (fitsMore ok)
        · rw [scan_append_advance read]
          exact stops

theorem overflow {progress : Progress} {taken later rest : Bytes}
    (errno : progress.parser.httpErrno = .headerOverflow)
    (read : (scan RequestParser.react parser taken).verdict = .advance)
    (reached : httpMaxHeaderSize.toNat ≤ parser.peak n taken) :
    (Turn.stop progress rest).Counts parser n (taken ++ later) :=
  .inl ⟨errno, taken, later, rfl, read, reached⟩

end Turn.Counts

namespace Progress

variable {progress : Progress} {parser : RequestParser} {n : Nat}

theorem nread_effects (p : Bytes) (effects : List Effect)
    (progress : Progress) :
    (effects.foldl (Progress.effect p) progress).parser.nread =
      if effects.any Effect.resets then 0 else progress.parser.nread := by
  induction effects generalizing progress with
  | nil => rfl
  | cons effect effects ih =>
      rw [List.foldl_cons, ih, List.any_cons]
      cases effect with
      | mark token =>
          rw [Progress.effect, parser_mark]
          rfl
      | data token =>
          rw [Progress.effect, parser_data]
          rfl
      | notify callback => rfl
      | resetRead => exact ite_self _

theorem perform_counts {case : Case} {ch : UInt8} (rest : Bytes)
    (refused : case.control = .error → case.parser.httpErrno.Refuses)
    (kept : case.control ≠ .error → case.parser.httpErrno = .ok)
    (same : (parser.react ch).verdict = case.control)
    (sameResets : parser.resets ch = case.resets)
    (counted : progress.parser.nread.toNat = parser.counted n)
    (within : progress.parser.nread ≤ httpMaxHeaderSize) :
    (progress.perform case (ch :: rest)).Counts parser n (ch :: rest) := by
  have nread := nread_effects (ch :: rest) case.effects
    (progress.set case.parser)
  have errno := congrArg RequestParser.httpErrno
    (parser_effects (ch :: rest) case.effects (progress.set case.parser))
  rw [parser_set] at errno
  have tally : (case.effects.foldl (Progress.effect (ch :: rest))
      (progress.set case.parser)).parser.nread.toNat = parser.tally n ch := by
    unfold RequestParser.tally
    rw [nread, sameResets, ← counted]
    unfold Case.resets
    split_ifs <;> rfl
  have fits : parser.counted n ≤ httpMaxHeaderSize.toNat := by
    rw [← counted]
    exact UInt32.le_iff_toNat_le.mp within
  have below := (parser.tally_le n ch).trans fits
  unfold perform
  dsimp only
  cases control : case.control with
  | advance =>
      rw [control] at same
      refine ⟨[ch], rfl, ?_, ?_, ?_, ?_, ?_⟩
      · rw [scan_cons_advance same]
        rfl
      · unfold RequestParser.peak
        rw [same]
        exact max_le fits below
      · rw [UInt32.le_iff_toNat_le, tally]
        exact below
      · exact tally.ge
      · exact tally.le.trans (Nat.le_add_right _ _)
  | error =>
      rw [control] at same
      refine .inr ⟨?_, ?_, ?_⟩
      · rw [errno]
        exact (refused control).2
      · intro ok
        rw [errno] at ok
        exact ((refused control).1 ok).elim
      · rw [scan_cons_error same]
        exact nofun
  | exit =>
      rw [control] at same
      refine .inr ⟨?_, ?_, ?_⟩
      · rw [errno, kept (by rw [control]; decide)]
        decide
      · intro _
        unfold RequestParser.peak
        rw [same]
        exact max_le fits (Nat.zero_le _)
      · rw [scan_cons_exit same]
        exact nofun

theorem toNat_count {nread : UInt32} {length : Nat}
    (before : nread ≤ httpMaxHeaderSize)
    (small : length + httpMaxHeaderSize.toNat < 2 ^ 32) :
    (nread + UInt32.ofNat length).toNat = nread.toNat + length := by
  rw [UInt32.le_iff_toNat_le] at before
  rw [UInt32.toNat_add, UInt32.toNat_ofNat', Nat.mod_eq_of_lt (by omega),
    Nat.mod_eq_of_lt (by omega)]

/-- `COUNT_HEADER_SIZE`, with the number it leads to. -/
theorem count_toNat {v : Nat} (before : progress.parser.nread ≤ httpMaxHeaderSize)
    (small : v + httpMaxHeaderSize.toNat < 2 ^ 32) :
    (∃ nread, nread.toNat = progress.parser.nread.toNat + v ∧
      nread ≤ httpMaxHeaderSize ∧
      progress.count v =
        .ok { progress with
          parser := { progress.parser with nread := nread } }) ∨
    ∃ overflowed, progress.count v = .error overflowed ∧
      overflowed.parser.httpErrno = .headerOverflow ∧
      httpMaxHeaderSize.toNat < progress.parser.nread.toNat + v := by
  have sum := toNat_count before small
  unfold count
  dsimp only
  split_ifs with tooLong
  · refine .inr ⟨_, rfl, rfl, ?_⟩
    rw [← sum]
    exact UInt32.lt_iff_toNat_lt.mp tooLong
  · exact .inl ⟨_, sum, UInt32.not_lt.mp tooLong, rfl⟩

section Loops

variable (ok : parser.httpErrno = .ok)
  (sameParser : progress.parser.toRequestParser = parser)
  (within : progress.parser.nread ≤ httpMaxHeaderSize)

include ok sameParser within

/-- `s_header_field`, behind the count of its first byte. -/
theorem headerField_counts {start : Bytes}
    (field : parser.state = .headerField)
    (counted : progress.parser.nread.toNat = n + 1)
    (small : start.length + httpMaxHeaderSize.toNat < 2 ^ 32) :
    (progress.headerField start).Counts parser n start := by
  subst sameParser
  obtain ⟨state, ends, taken, split, tokens, read⟩ := scan_fieldLoop field start
  obtain ⟨bytes, top⟩ := RequestParser.counts_name (n := n) field tokens
  have verdict := congrArg Scanned.verdict read
  have errno := (RequestParser.errno_scan ok taken).mpr
    (by rw [verdict]; intro wrong; cases wrong)
  have later := congrArg Scanned.state read
  unfold headerField
  dsimp only
  generalize progress.parser.fieldLoop start = ended at *
  rcases ended with ⟨parser, p⟩
  dsimp only at *
  subst split
  have length : (taken ++ p).length - p.length = taken.length := by simp
  rw [length]
  rw [List.length_append] at small
  rcases @count_toNat (progress.set parser) taken.length within (by omega) with
    ⟨nread, sum, fits, counts⟩ | ⟨overflowed, counts, failed, tooLong⟩
  · have value : nread.toNat = n + taken.length + 1 := by
      have before : (progress.set parser).parser.nread.toNat = n + 1 := counted
      omega
    have bound := UInt32.le_iff_toNat_le.mp fits
    rw [counts]
    dsimp only
    cases p with
    | nil =>
        refine ⟨taken, rfl, verdict, by omega, fits, ?_, ?_⟩
        · dsimp only
          omega
        · dsimp only
          rw [if_pos rfl]
          omega
    | cons ch rest =>
        apply Turn.Counts.behind verdict (by omega)
        rw [later, bytes]
        rw [later] at errno
        have counted := RequestParser.tally_of_header state (.inl rfl)
          (n + taken.length) ch
        have noReset : parser.resets ch = false := by
          unfold RequestParser.resets RequestParser.onByte
          rw [state]
          rfl
        have separator : token ch = 0 := ends ch rfl
        dsimp only
        split_ifs with colon
        · apply @perform_counts
            { progress.set parser with
              parser := { (progress.set parser).parser with nread := nread } }
            parser (n + taken.length)
            (.advance (parser.goto .headerValueDiscardWs) [.data .headerField])
          · intro wrong
            cases wrong
          · exact fun _ => errno
          · have noToken : token (octet ':') = 0 := by decide
            simp [RequestParser.react, state, RequestParser.reactHeaderField,
              noToken, colon, Case.advance]
          · exact noReset
          · exact value.trans counted.1.symm
          · exact fits
        · apply @perform_counts
            { progress.set parser with
              parser := { (progress.set parser).parser with nread := nread } }
            parser (n + taken.length) (.error parser .invalidHeaderToken)
          · intro _
            constructor <;> intro wrong <;> cases wrong
          · exact fun wrong => (wrong rfl).elim
          · simp [RequestParser.react, state, RequestParser.reactHeaderField,
              separator, colon, Case.error]
          · exact noReset
          · exact value.trans counted.1.symm
          · exact fits
  · rw [counts]
    have before : (progress.set parser).parser.nread.toNat = n + 1 := counted
    exact .overflow failed verdict (by omega)

omit ok in
theorem valueAtEnd_counts {later : RequestParser} {hState : HeaderState}
    {start : Bytes} (value : parser.state = .headerValue)
    (ends : (parser.valueLoop hState start).p = [])
    (held : parser.headerState = hState)
    (counted : progress.parser.nread.toNat = n + 1)
    (small : start.length + httpMaxHeaderSize.toNat < 2 ^ 32) :
    ((progress.set later).valueAtEnd start.length).Counts parser n start := by
  subst sameParser held
  obtain ⟨early, late, split, read, inside, far⟩ :=
    RequestParser.valueLoop_far value progress.parser.headerState ends
  have unstored : RequestParser.store
      (progress.parser.toRequestParser, progress.parser.headerState) =
        progress.parser.toRequestParser := rfl
  rw [unstored] at read
  obtain ⟨bytes, top⟩ := RequestParser.counts_value (n := n) value inside read
  have before : (progress.set later).parser.nread.toNat = n + 1 := counted
  have length := congrArg List.length split
  rw [List.length_append] at length
  unfold valueAtEnd
  rcases @count_toNat (progress.set later) start.length within small with
    ⟨nread, sum, fits, counts⟩ | ⟨overflowed, counts, failed, tooLong⟩
  · rw [counts]
    have bound := UInt32.le_iff_toNat_le.mp fits
    have whole : late = [] := far.resolve_right (by omega)
    subst whole
    rw [List.append_nil] at split
    subst split
    refine ⟨start, (List.append_nil _).symm, read, by omega, fits, ?_, ?_⟩
    · dsimp only
      omega
    · dsimp only
      rw [if_pos rfl]
      omega
  · rw [counts, split]
    rw [split, List.length_append] at tooLong
    refine .overflow failed read ?_
    rcases far with rfl | long
    · rw [List.length_nil] at tooLong
      omega
    · omega

end Loops

section LineEnd

variable {taken rest : Bytes}
  (read : (scan RequestParser.react parser taken).verdict = .advance)
  (state : progress.parser.toRequestParser =
    (scan RequestParser.react parser taken).state)
  (value : progress.parser.state = .headerValue)
  (ok : progress.parser.httpErrno = .ok)
  (bytes : parser.headerBytes n taken = n + taken.length)
  (top : parser.peak n taken = n + taken.length)
  (counted : progress.parser.nread.toNat = n + 1)
  (within : progress.parser.nread ≤ httpMaxHeaderSize)
  (small : taken.length + httpMaxHeaderSize.toNat < 2 ^ 32)

include read state value ok bytes top counted within small

omit ok in
theorem valueAtCr_counts :
    (progress.valueAtCr (CR :: rest) taken.length).Counts parser n
      (taken ++ CR :: rest) := by
  have same := parser_data
    (progress.set (progress.parser.goto .headerAlmostDone)) .headerValue
    (CR :: rest)
  unfold valueAtCr
  dsimp only
  generalize (progress.set (progress.parser.goto .headerAlmostDone)).data
    .headerValue (CR :: rest) = reported at *
  have nread : reported.parser.nread = progress.parser.nread := by
    rw [same]
    rfl
  rcases @count_toNat reported taken.length (nread ▸ within) small with
    ⟨after, sum, fits, counts⟩ | ⟨overflowed, counts, failed, tooLong⟩
  · rw [nread, counted] at sum
    have bound := UInt32.le_iff_toNat_le.mp fits
    have header := RequestParser.tally_of_header value (.inr rfl)
      (n + taken.length) CR
    have goesOn : (progress.parser.react CR).verdict = .advance := by
      simp [RequestParser.react, value, RequestParser.reactHeaderValue]
    rw [counts]
    apply Turn.Counts.behind read (by omega)
    rw [← state, bytes]
    refine ⟨[CR], rfl, ?_, ?_, fits, ?_, ?_⟩
    · rw [scan_cons_advance goesOn]
      rfl
    · unfold RequestParser.peak
      rw [goesOn, header.1, header.2]
      exact max_le (by omega) (by dsimp only [RequestParser.peak]; omega)
    · rw [RequestParser.headerBytes, header.2]
      dsimp only [RequestParser.headerBytes]
      omega
    · rw [RequestParser.headerBytes, header.2]
      dsimp only [RequestParser.headerBytes]
      omega
  · rw [nread, counted] at tooLong
    rw [counts]
    exact .overflow failed read (by omega)

theorem valueAtLf_counts :
    (progress.valueAtLf LF (LF :: rest) taken.length).Counts parser n
      (taken ++ LF :: rest) := by
  unfold valueAtLf
  dsimp only
  rcases @count_toNat
      (progress.set (progress.parser.goto .headerAlmostDone)) taken.length
      within small with
    ⟨after, sum, fits, counts⟩ | ⟨overflowed, counts, failed, tooLong⟩
  · have total : after.toNat = n + 1 + taken.length := by
      rw [← counted]
      exact sum
    have bound := UInt32.le_iff_toNat_le.mp fits
    have header := RequestParser.tally_of_header value (.inr rfl)
      (n + taken.length) LF
    have follows := @RequestParser.onHeaderAlmostDone_follows
      (progress.parser.goto .headerAlmostDone) LF
    rw [counts]
    apply Turn.Counts.behind read (by omega)
    rw [← state, bytes]
    apply perform_counts
    · exact follows.refused
    · exact fun goesOn => (follows.kept goesOn).trans ok
    · have notCr : LF ≠ CR := by decide
      simp [RequestParser.react, value, RequestParser.reactHeaderValue, notCr,
        Case.reaction]
    · unfold RequestParser.resets RequestParser.onByte
      rw [value]
      rfl
    · rw [parser_data, header.1]
      dsimp only
      omega
    · rw [parser_data]
      exact fits
  · have before : (progress.set (progress.parser.goto
        .headerAlmostDone)).parser.nread.toNat = n + 1 := counted
    rw [counts]
    exact .overflow failed read (by omega)

end LineEnd

section Turns

variable (ok : progress.parser.httpErrno = .ok)
  (within : progress.parser.nread ≤ httpMaxHeaderSize)

include ok within

/-- `s_header_value`, behind the count of its first byte. -/
theorem headerValue_counts {start : Bytes}
    (value : progress.parser.state = .headerValue)
    (counted : progress.parser.nread.toNat = n + 1)
    (small : start.length + httpMaxHeaderSize.toNat < 2 ^ 32) :
    (progress.headerValue start).Counts progress.parser.toRequestParser n
      start := by
  obtain ⟨taken, split, stops, follows⟩ :=
    RequestParser.scan_valueLoop value progress.parser.headerState start
  have unstored : RequestParser.store
      (progress.parser.toRequestParser, progress.parser.headerState) =
        progress.parser.toRequestParser := rfl
  rw [unstored] at follows
  unfold headerValue
  dsimp only
  split_ifs with refused
  · refine .inr ⟨nofun, nofun, ?_⟩
    have some := stops refused
    obtain ⟨ch, rest, isRest⟩ := List.exists_cons_of_ne_nil some
    obtain ⟨state, -, read, -, refuses⟩ := follows (.inl some)
    obtain ⟨inside, none⟩ := refuses refused ch (by rw [isRest]; rfl)
    have fails := @RequestParser.react_value _ (progress.parser.valueLoop
      progress.parser.headerState start).hState ch state inside
    rw [none] at fails
    rw [isRest] at split
    rw [split, scan_append_advance (by rw [read]), read,
      scan_cons_error (by rw [fails]; rfl)]
    exact nofun
  · have goesOn := Bool.eq_false_of_not_eq_true refused
    cases ended : (progress.parser.valueLoop progress.parser.headerState
        start).p with
    | nil =>
        rw [List.length_nil, Nat.sub_zero]
        exact valueAtEnd_counts rfl within value ended rfl counted small
    | cons ch rest =>
        obtain ⟨state, inside, read, lineEnd, -⟩ :=
          follows (.inl (by rw [ended]; exact List.cons_ne_nil _ _))
        have verdict := congrArg Scanned.verdict read
        obtain ⟨bytes, top⟩ :=
          RequestParser.counts_value (n := n) value inside verdict
        have errno := (RequestParser.errno_scan ok taken).mpr
          (by rw [verdict]; exact nofun)
        rw [read] at errno
        have ends := lineEnd goesOn ch (by rw [ended]; rfl)
        rw [ended] at split
        have length : start.length - (ch :: rest).length = taken.length := by
          rw [split, List.length_append, Nat.add_sub_cancel]
        have smaller : taken.length + httpMaxHeaderSize.toNat < 2 ^ 32 := by
          rw [split, List.length_append] at small
          omega
        rw [length]
        dsimp only
        rcases ends with rfl | rfl
        · rw [if_pos rfl]
          have counts := @valueAtCr_counts (progress.set _) _ _ _ rest verdict
            (congrArg Scanned.state read).symm state bytes top counted within
            smaller
          rwa [← split] at counts
        · rw [if_neg (by decide)]
          have counts := @valueAtLf_counts (progress.set _) _ _ _ rest verdict
            (congrArg Scanned.state read).symm state errno bytes top counted
            within smaller
          rwa [← split] at counts

omit ok in
theorem body_more_counts {p : Bytes} {later : Progress}
    (body : progress.parser.state = .bodyIdentity ∨
      progress.parser.state = .chunkData)
    (more : p.length < progress.parser.contentLength.toNat)
    (same : later.parser.nread = progress.parser.nread) :
    (Turn.next later (p.drop (p.length - 1)).tail).Counts
      progress.parser.toRequestParser progress.parser.nread.toNat p := by
  obtain ⟨bytes, top⟩ := RequestParser.counts_body
    (n := progress.parser.nread.toNat) body more
  have bound := UInt32.le_iff_toNat_le.mp within
  have exhausted : (p.drop (p.length - 1)).tail = [] := by
    rw [← List.drop_one, List.drop_drop, List.drop_eq_nil_of_le]
    omega
  rw [exhausted]
  refine ⟨p, (List.append_nil _).symm, ?_, ?_, same ▸ within, ?_, ?_⟩
  · rw [RequestParser.scan_body body more]
  · rw [top]
    exact bound
  · rw [bytes, same]
  · rw [bytes, same]
    exact Nat.le_add_right _ _

omit within ok in
theorem nread_mark (parser : RequestParser) (p : Bytes) :
    ((progress.mark .body p).set parser).parser.nread =
      progress.parser.nread := by
  have same : ((progress.mark .body p).set parser).parser.nread =
      (progress.mark .body p).parser.nread := rfl
  rw [same, parser_mark]

theorem bodyIdentity_counts {p : Bytes}
    (identity : progress.parser.state = .bodyIdentity)
    (left : progress.parser.contentLength ≠ 0) :
    (progress.bodyIdentity p).Counts progress.parser.toRequestParser
      progress.parser.nread.toNat p := by
  have nonzero : progress.parser.contentLength.toNat ≠ 0 := by
    rwa [ne_eq, ← UInt64.toNat_zero, UInt64.toNat_inj]
  have bound := UInt32.le_iff_toNat_le.mp within
  unfold bodyIdentity
  dsimp only
  rcases body_split nonzero p with
    ⟨more, toRead⟩ | ⟨early, ch, rest, split, length, toRead⟩
  · have stays : ¬ (progress.parser.minus p.length).contentLength = 0 := by
      rw [RequestParser.minus_eq_zero_iff more.le]
      exact more.ne
    rw [toRead, if_neg stays]
    exact body_more_counts within (.inl identity) more (nread_mark _ _)
  · obtain ⟨counted, last, position⟩ := RequestParser.last_of_split split length
    obtain ⟨bytes, top⟩ := RequestParser.counts_body
      (n := progress.parser.nread.toNat) (.inl identity)
      (show early.length < _ by omega)
    have read := @RequestParser.scan_body progress.parser.toRequestParser
      (.inl identity) early (by omega)
    have state := congrArg Scanned.state read
    rw [toRead, position, counted, if_pos last]
    subst split
    apply Turn.Counts.behind (by rw [read]) (by rw [top]; exact bound)
    rw [state, bytes]
    have nread : ∀ first second : RequestParser,
        (((progress.mark .body (early ++ ch :: rest)).set first).set
          second).parser.nread = progress.parser.nread :=
      fun first _ => nread_mark first _
    have tally := @RequestParser.tally_of_body
      (progress.parser.minus early.length) (.inl identity)
      progress.parser.nread.toNat ch
    have done := @RequestParser.onMessageDone_follows
      ((progress.parser.minus early.length).countDown.goto .messageDone)
    apply perform_counts
    · exact done.refused
    · exact fun goesOn => (done.kept goesOn).trans ok
    · rw [@RequestParser.react_last (progress.parser.minus early.length)
        identity last ch]
      rfl
    · unfold RequestParser.resets RequestParser.onByte
      rw [show (progress.parser.minus early.length).state = .bodyIdentity from
        identity]
      rfl
    · rw [parser_data, nread, tally.1]
    · rw [parser_data, nread]
      exact within

omit ok in
theorem chunkData_counts {p : Bytes}
    (chunk : progress.parser.state = .chunkData)
    (left : progress.parser.contentLength ≠ 0) :
    (progress.chunkData p).Counts progress.parser.toRequestParser
      progress.parser.nread.toNat p := by
  have nonzero : progress.parser.contentLength.toNat ≠ 0 := by
    rwa [ne_eq, ← UInt64.toNat_zero, UInt64.toNat_inj]
  have bound := UInt32.le_iff_toNat_le.mp within
  unfold chunkData
  dsimp only
  rcases body_split nonzero p with
    ⟨more, toRead⟩ | ⟨early, ch, rest, split, length, toRead⟩
  · have stays : ¬ (progress.parser.minus p.length).contentLength = 0 := by
      rw [RequestParser.minus_eq_zero_iff more.le]
      exact more.ne
    rw [toRead, if_neg stays]
    exact body_more_counts within (.inr chunk) more (nread_mark _ _)
  · obtain ⟨counted, last, position⟩ :=
      RequestParser.last_of_split split length
    obtain ⟨bytes, top⟩ := RequestParser.counts_body
      (n := progress.parser.nread.toNat) (.inr chunk)
      (show early.length < _ by omega)
    have read := @RequestParser.scan_body progress.parser.toRequestParser
      (.inr chunk) early (by omega)
    have state := congrArg Scanned.state read
    rw [toRead, position, counted, if_pos last]
    subst split
    apply Turn.Counts.behind (by rw [read]) (by rw [top]; exact bound)
    rw [state, bytes]
    have nread : ∀ first second : RequestParser,
        (((progress.mark .body (early ++ ch :: rest)).set first).set
          second).parser.nread = progress.parser.nread :=
      fun first _ => nread_mark first _
    have tally := @RequestParser.tally_of_body
      (progress.parser.minus early.length) (.inr chunk)
      progress.parser.nread.toNat ch
    have goesOn : ((progress.parser.minus early.length).react ch).verdict =
        .advance := by
      simp [RequestParser.react, chunk, RequestParser.reactChunkData]
    refine ⟨[ch], rfl, ?_, ?_, ?_, ?_, ?_⟩
    · rw [scan_cons_advance goesOn]
      rfl
    · unfold RequestParser.peak
      rw [goesOn, tally.1, tally.2]
      exact max_le bound bound
    · rw [nread]
      exact within
    · rw [nread, RequestParser.headerBytes, tally.2]
      exact le_rfl
    · rw [nread, RequestParser.headerBytes, tally.2]
      exact Nat.le_add_right _ _

/-- The switch, behind the count of its first byte. -/
theorem switch_counts {ch : UInt8} {rest : Bytes}
    (sound : progress.parser.Sound)
    (counted : progress.parser.nread.toNat = progress.parser.counted n)
    (small : (ch :: rest).length + httpMaxHeaderSize.toNat < 2 ^ 32) :
    (progress.switch ch rest).Counts progress.parser.toRequestParser n
      (ch :: rest) := by
  unfold switch
  cases state : progress.parser.state <;> dsimp only
  case headerField =>
    rw [(RequestParser.tally_of_header state (.inl rfl) n ch).1] at counted
    exact headerField_counts ok rfl within state counted small
  case headerValue =>
    rw [(RequestParser.tally_of_header state (.inr rfl) n ch).1] at counted
    exact headerValue_counts ok within state counted small
  case bodyIdentity =>
    rw [(RequestParser.tally_of_body (.inl state) n ch).1] at counted
    subst counted
    exact bodyIdentity_counts ok within state (sound.hasLength (.inl state)).1
  case chunkData =>
    rw [(RequestParser.tally_of_body (.inr state) n ch).1] at counted
    subst counted
    exact chunkData_counts within state (sound.hasLength (.inr state)).1
  all_goals
    have follows := progress.parser.onByte_follows ch
    apply perform_counts rest follows.refused
      (fun goesOn => (follows.kept goesOn).trans ok) _ rfl counted within
    simp only [RequestParser.react, state]
    rfl

theorem turn_counts {ch : UInt8} {rest : Bytes}
    (sound : progress.parser.Sound)
    (small : (ch :: rest).length + httpMaxHeaderSize.toNat < 2 ^ 32) :
    (progress.turn ch rest).Counts progress.parser.toRequestParser
      progress.parser.nread.toNat (ch :: rest) := by
  have one : 1 + httpMaxHeaderSize.toNat < 2 ^ 32 := by decide
  unfold turn
  split_ifs with header
  · rcases count_toNat within one with
      ⟨nread, sum, fits, counts⟩ | ⟨overflowed, counts, failed, tooLong⟩
    · rw [counts]
      refine @switch_counts
        { progress with parser := { progress.parser with nread := nread } }
        progress.parser.nread.toNat ok fits ch rest sound ?_ small
      unfold RequestParser.counted
      rw [if_pos header]
      exact sum
    · rw [counts]
      refine @Turn.Counts.overflow _ _ overflowed [] _ _ failed rfl ?_
      exact Nat.le_of_lt_succ tooLong
  · apply switch_counts ok within sound _ small
    unfold RequestParser.counted
    rw [if_neg header]

end Turns

end Progress

/-- Calls for `p` that begin with a count of `n` and count up to `k` bytes
more than there are. -/
def Executed.Counts (parser : RequestParser) (n k : Nat) (p : Bytes)
    (executed : Executed) : Prop :=
  (executed.parser.httpErrno = .headerOverflow ∧
    ∃ taken later, p = taken ++ later ∧
      (scan RequestParser.react parser taken).verdict = .advance ∧
      httpMaxHeaderSize.toNat ≤ parser.peak n taken + k) ∨
  (executed.parser.httpErrno ≠ .headerOverflow ∧
    (executed.parser.httpErrno = .ok →
      parser.peak n p ≤ httpMaxHeaderSize.toNat) ∧
    ((scan RequestParser.react parser p).verdict = .advance →
      executed.parser.nread ≤ httpMaxHeaderSize ∧
        parser.headerBytes n p ≤ executed.parser.nread.toNat ∧
        executed.parser.nread.toNat ≤ parser.headerBytes n p + k))

namespace Executed.Counts

variable {parser : RequestParser} {n k : Nat} {p : Bytes}
  {executed : Executed}

theorem behind {taken : Bytes}
    (read : (scan RequestParser.react parser taken).verdict = .advance)
    (fits : parser.peak n taken ≤ httpMaxHeaderSize.toNat)
    (counts : executed.Counts (scan RequestParser.react parser taken).state
      (parser.headerBytes n taken) k p) :
    executed.Counts parser n k (taken ++ p) := by
  have top := fun late => RequestParser.peak_append (n := n) read late
  rcases counts with
    ⟨errno, more, later, rfl, readMore, reached⟩ | ⟨errno, fitsMore, close⟩
  · refine .inl ⟨errno, taken ++ more, later,
      (List.append_assoc _ _ _).symm, ?_, ?_⟩
    · rw [scan_append_advance read]
      exact readMore
    · rw [top]
      exact reached.trans (Nat.add_le_add_right (le_max_right _ _) k)
  · refine .inr ⟨errno, fun ok => ?_, fun readAll => ?_⟩
    · rw [top]
      exact max_le fits (fitsMore ok)
    · rw [scan_append_advance read] at readAll
      rw [RequestParser.headerBytes_append read]
      exact close readAll

/-- A turn that ends the call, begun with a count that is up to `k` too
large. -/
theorem of_stop {nread : Nat} {progress : Progress} {rest : Bytes}
    (low : n ≤ nread) (high : nread ≤ n + k)
    (counts : (Turn.stop progress rest).Counts parser nread p)
    (callbacks : List HttpCallback) :
    (⟨progress.parser, callbacks, rest⟩ : Executed).Counts parser n (k + 1)
      p := by
  rcases counts with
    ⟨errno, taken, later, split, read, reached⟩ | ⟨errno, fits, stops⟩
  · refine .inl ⟨errno, taken, later, split, read, ?_⟩
    have more := (RequestParser.peak_mono high taken).trans
      (@RequestParser.peak_add parser n k taken)
    omega
  · refine .inr ⟨errno, fun ok => ?_, fun read => (stops read).elim⟩
    exact (RequestParser.peak_mono low p).trans (fits ok)

end Executed.Counts

/-- The loop of a call counts one byte too many at most: the first one of a
name or of a value that goes on behind the data. -/
theorem Progress.loop_counts {progress : Progress}
    {history outputs : List HttpCallback} {pending : Pending}
    {n k fuel : Nat} {p : Bytes} (enough : p.length < fuel)
    (tracks : Tracks history outputs pending p progress)
    (opens : p ≠ [] → pending.token ∈ progress.parser.state.opens)
    (ok : progress.parser.httpErrno = .ok)
    (within : progress.parser.nread ≤ httpMaxHeaderSize)
    (low : n ≤ progress.parser.nread.toNat)
    (high : progress.parser.nread.toNat ≤ n + k)
    (sound : progress.parser.Sound)
    (small : p.length + httpMaxHeaderSize.toNat < 2 ^ 32) :
    (loop fuel progress p).Counts progress.parser.toRequestParser n
      (k + if p = [] then 0 else 1) p := by
  induction fuel generalizing progress pending outputs n k p with
  | zero => exact (Nat.not_lt_zero _ enough).elim
  | succ fuel ih =>
      cases p with
      | nil =>
          have parser := parser_finish progress
          have bound := UInt32.le_iff_toNat_le.mp within
          unfold loop
          dsimp only
          rw [parser]
          refine .inr ⟨?_, fun _ => low.trans bound, fun _ =>
            ⟨within, low, high⟩⟩
          rw [ok]
          decide
      | cons ch rest =>
          have counts := turn_counts ok within sound small
          have follows := turn_follows tracks (opens (List.cons_ne_nil _ _))
            sound small
          rw [if_neg (List.cons_ne_nil ch rest)]
          unfold loop
          cases turned : progress.turn ch rest with
          | stop progress rest =>
              rw [turned] at counts
              exact Executed.Counts.of_stop low high counts _
          | next later behind =>
              rw [turned] at counts follows
              obtain ⟨taken, split, read, fits, within, above, below⟩ := counts
              obtain ⟨same, open_, splitAgain, some, -, state, opens, tracks⟩ :=
                follows
              rw [split, List.append_left_inj] at splitAgain
              subst splitAgain
              have length := congrArg List.length split
              have nonempty := List.length_pos_of_ne_nil some
              rw [List.length_append] at length
              have soundLater : later.parser.Sound := by
                rw [state]
                exact RequestParser.scan_sound sound read
              have okLater : later.parser.httpErrno = .ok := by
                rw [state]
                exact (RequestParser.errno_scan ok taken).mpr
                  (by rw [read]; decide)
              have lower := (RequestParser.headerBytes_mono low taken).trans
                above
              have upper := below.trans (Nat.add_le_add_right
                ((RequestParser.headerBytes_mono high taken).trans
                  (RequestParser.headerBytes_add k taken)) _)
              rw [Nat.add_assoc] at upper
              have counted := ih (by omega) tracks opens okLater within lower
                upper soundLater (by omega)
              have once : (k + if behind = [] then 1 else 0) +
                  (if behind = [] then 0 else 1) = k + 1 := by
                split_ifs <;> rfl
              rw [state, once] at counted
              rw [split]
              exact counted.behind read
                ((RequestParser.peak_mono low taken).trans fits)

namespace CountingParser

variable {parser : CountingParser} {history : List HttpCallback} {n k : Nat}

/-- The calls count one byte too many for each call at most. -/
theorem feed_counts {reads : List Bytes} (areReads : AreReads reads)
    (running : parser.halted = false) (sound : parser.Sound)
    (ends : RequestParser.EndsIn history parser.toRequestParser)
    (within : parser.nread ≤ httpMaxHeaderSize)
    (low : n ≤ parser.nread.toNat) (high : parser.nread.toNat ≤ n + k) :
    (parser.feed reads).Counts parser.toRequestParser n (k + reads.length)
      reads.flatten := by
  induction reads generalizing parser history n k with
  | nil =>
      have bound := UInt32.le_iff_toNat_le.mp within
      refine .inr ⟨?_, fun _ => low.trans bound, fun _ => ⟨within, low, high⟩⟩
      rw [feed, (RequestParser.halted_eq_false.mp running).1]
      decide
  | cons data later ih =>
      obtain ⟨⟨some, small⟩, areLater⟩ := List.forall_mem_cons.mp areReads
      have ok := (RequestParser.halted_eq_false.mp running).1
      have reports := executeAll_reports ends sound small
      have called := execute_of_running running some
      have counts : (parser.executeAll data).Counts parser.toRequestParser n
          (k + 1) data := by
        obtain ⟨pending, token, tracks⟩ := tracks_start ends data
        have loop := Progress.loop_counts (Nat.lt_succ_self _) tracks
          (by rw [token]; exact fun _ => ParserState.tokenAt_mem_opens _) ok
          within low high sound small
        rwa [if_neg some] at loop
      unfold feed
      rw [called, List.flatten_cons, List.length_cons]
      dsimp only
      rcases counts with
        ⟨errno, taken, behind, split, read, reached⟩ | ⟨errno, fits, close⟩
      · have stops : (parser.executeAll data).parser.halted = true := by
          simp [RequestParser.halted, errno]
        rw [if_pos stops]
        refine .inl ⟨errno, taken, behind ++ later.flatten, ?_, read, ?_⟩
        · rw [split, List.append_assoc]
        · omega
      · cases reports with
        | overflow _ _ _ overflowed => exact (errno overflowed).elim
        | exact pending state rest closed alike =>
            have stops := RequestParser.halted_scan running data
            rw [← state] at stops
            by_cases verdict : (scan RequestParser.react parser.toRequestParser
                data).verdict = .advance
            · rw [if_neg (by simp [stops.mpr verdict])]
              have none := closed (by rw [verdict]; decide)
              subst none
              simp only [Pending.callbacks, Option.toList_none, List.map_nil,
                List.append_nil, List.nil_append] at alike
              have soundLater : (parser.executeAll data).parser.Sound := by
                rw [state]
                exact RequestParser.scan_sound sound verdict
              have endsLater :=
                (RequestParser.endsIn_scan ends verdict).of_alike alike.symm
              rw [← state] at endsLater
              have okLater := (RequestParser.halted_eq_false.mp
                (stops.mpr verdict)).1
              obtain ⟨within, low, high⟩ := close verdict
              have counted := ih areLater (stops.mpr verdict) soundLater
                endsLater within low high
              rw [state, Nat.add_assoc, Nat.add_comm 1] at counted
              exact counted.behind verdict (fits okLater)
            · have stopped : (parser.executeAll data).parser.halted = true :=
                Bool.eq_true_of_not_eq_false fun goesOn =>
                  verdict (stops.mp goesOn)
              rw [if_pos stopped]
              refine .inr ⟨errno, ?_, ?_⟩
              · rw [RequestParser.peak_append_stop verdict]
                exact fits
              · intro read
                rw [scan_append_stop verdict] at read
                exact (verdict read).elim

/-- A header that is accepted is within the limit, and one that is too long
is within the number of reads of it. -/
theorem header_limit {reads : List Bytes} (areReads : AreReads reads) :
    ((init.feed reads).parser.httpErrno = .ok →
      RequestParser.init.peak 0 reads.flatten ≤ httpMaxHeaderSize.toNat) ∧
    (RequestParser.init.peak 0 reads.flatten + reads.length <
        httpMaxHeaderSize.toNat →
      (init.feed reads).HeaderFits) := by
  have counts : (init.feed reads).Counts RequestParser.init 0
      (0 + reads.length) reads.flatten :=
    @feed_counts init [] 0 0 reads areReads rfl RequestParser.init_sound
      (init_endsIn []) (by decide) (Nat.zero_le _) (Nat.zero_le _)
  rw [Nat.zero_add] at counts
  rcases counts with
    ⟨errno, taken, later, split, read, reached⟩ | ⟨errno, fits, -⟩
  · constructor
    · intro ok
      rw [errno] at ok
      cases ok
    · intro fits
      rw [split, RequestParser.peak_append read] at fits
      have part := le_max_left (RequestParser.init.peak 0 taken)
        ((scan RequestParser.react RequestParser.init taken).state.peak
          (RequestParser.init.headerBytes 0 taken) later)
      omega
  · exact ⟨fits, fun _ => errno⟩

/-- A request of two messages in three reads, far from the limit. -/
theorem two_messages_fit :
    (init.feed
      [ascii "GET /a HTTP/1.1\r\nHo", ascii "st: b\r",
        ascii "\n\r\nGET /c HTTP/1.1\r\n\r\n"]).HeaderFits :=
  (header_limit (by decide +kernel)).2 (by decide +kernel)

end CountingParser

end Woody
