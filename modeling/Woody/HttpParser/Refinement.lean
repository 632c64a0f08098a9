import Woody.HttpParser.Soundness
import Woody.HttpParser.Tracking

/-!
# Every call follows the machine

`http_parser_execute` on the data of a call does what the machine on bytes
does: it ends in the same state, at the same byte, and its callbacks report
what the machine reports, unless the header is too long.  A call that ends in
an error does not report the token that is open there.
-/

namespace Woody

open Scanner

/-- A call follows the machine from `parser` over `p`. -/
inductive Reports (history outputs : List HttpCallback)
    (parser : RequestParser) (p : Bytes) (executed : Executed) : Prop
  /-- The header is too long: some first bytes are reported. -/
  | overflow (taken later : Bytes) (pending : Pending)
      (errno : executed.parser.httpErrno = .headerOverflow)
      (split : p = taken ++ later)
      (read : (scan RequestParser.react parser taken).verdict = .advance)
      (alike : HttpCallback.gluing.Alike
        (history ++ executed.callbacks ++ pending.callbacks)
        (history ++
          (outputs ++ (scan RequestParser.react parser taken).outputs)))
  | exact (pending : Pending)
      (state : executed.parser.toRequestParser =
        (scan RequestParser.react parser p).state)
      (rest : executed.rest = (scan RequestParser.react parser p).rest)
      (closed : (scan RequestParser.react parser p).verdict ≠ .error →
        pending = none)
      (alike : HttpCallback.gluing.Alike
        (history ++ executed.callbacks ++ pending.callbacks)
        (history ++
          (outputs ++ (scan RequestParser.react parser p).outputs)))

/-- A turn follows the machine: it reads some bytes as the machine does, or it
ends the call. -/
def Turn.Follows (history outputs : List HttpCallback)
    (parser : RequestParser) (p : Bytes) : Turn → Prop
  | .next progress later =>
      ∃ (taken : Bytes) (pending : Pending),
        p = taken ++ later ∧ taken ≠ [] ∧
        (scan RequestParser.react parser taken).verdict = .advance ∧
        progress.parser.toRequestParser =
          (scan RequestParser.react parser taken).state ∧
        (later ≠ [] → pending.token ∈ progress.parser.state.opens) ∧
        Tracks history
          (outputs ++ (scan RequestParser.react parser taken).outputs)
          pending later progress
  | .stop progress rest =>
      Reports history outputs parser p
        ⟨progress.parser, progress.callbacks, rest⟩

variable {history outputs : List HttpCallback} {parser : RequestParser}
  {progress : Progress} {pending : Pending}

section Behind

variable {taken p : Bytes}
  (read : (scan RequestParser.react parser taken).verdict = .advance)

include read

theorem Reports.behind {executed : Executed}
    (reports : Reports history
      (outputs ++ (scan RequestParser.react parser taken).outputs)
      (scan RequestParser.react parser taken).state p executed) :
    Reports history outputs parser (taken ++ p) executed := by
  cases reports with
  | overflow more later pending errno split readMore alike =>
      subst split
      refine .overflow (taken ++ more) later pending errno
        (List.append_assoc _ _ _).symm ?_ ?_
      · rw [scan_append_advance read]
        exact readMore
      · rw [scan_append_advance read, ← List.append_assoc outputs]
        exact alike
  | exact pending state rest closed alike =>
      refine .exact pending ?_ ?_ ?_ ?_
      · rw [scan_append_advance read]
        exact state
      · rw [scan_append_advance read]
        exact rest
      · rw [scan_append_advance read]
        exact closed
      · rw [scan_append_advance read, ← List.append_assoc outputs]
        exact alike

theorem Turn.Follows.behind {turn : Turn}
    (follows : turn.Follows history
      (outputs ++ (scan RequestParser.react parser taken).outputs)
      (scan RequestParser.react parser taken).state p) :
    turn.Follows history outputs parser (taken ++ p) := by
  cases turn with
  | next progress later =>
      obtain ⟨more, pending, split, some, readMore, state, opens, tracks⟩ :=
        follows
      subst split
      refine ⟨taken ++ more, pending, (List.append_assoc _ _ _).symm, ?_, ?_,
        ?_, opens, ?_⟩
      · exact List.append_ne_nil_of_right_ne_nil _ some
      · rw [scan_append_advance read]
        exact readMore
      · rw [scan_append_advance read]
        exact state
      · rw [scan_append_advance read, ← List.append_assoc outputs]
        exact tracks
  | stop progress rest => exact Reports.behind read follows

end Behind

/-- What earlier calls have reported can stand for what the machine has put
out. -/
theorem Reports.of_alike {early : List HttpCallback} {p : Bytes}
    {executed : Executed}
    (reports : Reports (history ++ early) [] parser p executed)
    (same : HttpCallback.gluing.Alike (history ++ early)
      (history ++ outputs)) :
    Reports history outputs parser p
      { executed with callbacks := early ++ executed.callbacks } := by
  have exchanged := fun late => same.append_right late
  cases reports with
  | overflow taken later pending errno split read alike =>
      refine .overflow taken later pending errno split read ?_
      have joined := alike.trans (exchanged _)
      simpa only [List.append_assoc, List.nil_append] using joined
  | exact pending state rest closed alike =>
      refine .exact pending state rest closed ?_
      have joined := alike.trans (exchanged _)
      simpa only [List.append_assoc, List.nil_append] using joined

/-- `COUNT_HEADER_SIZE` writes to the count, and may end the call. -/
theorem Progress.count_cases (progress : Progress) (v : Nat) :
    (∃ nread, nread = progress.parser.nread + UInt32.ofNat v ∧
      nread ≤ httpMaxHeaderSize ∧
      progress.count v =
        .ok { progress with
          parser := { progress.parser with nread := nread } }) ∨
    ∃ overflowed, progress.count v = .error overflowed ∧
      overflowed.parser.httpErrno = .headerOverflow ∧
      overflowed.callbacks = progress.callbacks := by
  unfold Progress.count
  dsimp only
  split_ifs with tooLong
  · exact .inr ⟨_, rfl, rfl, rfl⟩
  · exact .inl ⟨_, rfl, UInt32.not_lt.mp tooLong, rfl⟩

theorem Tracks.counted {p : Bytes} {nread : UInt32}
    (tracks : Tracks history outputs pending p progress) :
    Tracks history outputs pending p
      { progress with parser := { progress.parser with nread := nread } } :=
  ⟨tracks.marks, tracks.alike⟩

theorem Reports.at_once {p rest : Bytes} {overflowed : Progress}
    (tracks : Tracks history outputs pending p progress)
    (errno : overflowed.parser.httpErrno = .headerOverflow)
    (same : overflowed.callbacks = progress.callbacks) :
    Reports history outputs parser p
      ⟨overflowed.parser, overflowed.callbacks, rest⟩ := by
  refine .overflow [] p pending errno rfl rfl ?_
  rw [same]
  simpa [scan] using tracks.alike

/-- The marks of a case are in order from the token that is open. -/
def Case.InOrder (case : Case) (open_ : Option Token) : Prop :=
  ∃ last ∈ case.marks.foldlM Mark.move open_,
    (case.control = .advance →
      last = CountingParser.tokenAt case.parser.state) ∧
    (case.control = .exit → last = none)

theorem Case.Follows.inOrder {case : Case} {node : Node} {errno : HttpErrno}
    {open_ : Option Token} (follows : case.Follows errno node.edges)
    (among : open_ ∈ node.state.opens) : case.InOrder open_ := by
  obtain ⟨edge, member, sameMarks, sameVerdict, next⟩ := follows.edge
  obtain ⟨last, moved, advance, exit⟩ :=
    node.edges_inOrder edge member open_ among
  rw [sameMarks] at moved
  rw [sameVerdict] at advance exit
  refine ⟨last, moved, ?_, exit⟩
  intro goesOn
  rw [advance goesOn, next (by rw [goesOn]; decide)]
  rfl

theorem Turn.follows_next {ch : UInt8} {rest : Bytes} (pending : Pending)
    (goesOn : (parser.react ch).verdict = .advance)
    (state : progress.parser.toRequestParser = (parser.react ch).state)
    (opens : pending.token ∈ progress.parser.state.opens)
    (tracks : Tracks history (outputs ++ (parser.react ch).outputs) pending
      rest progress) :
    (Turn.next progress rest).Follows history outputs parser (ch :: rest) := by
  have single : scan RequestParser.react parser [ch] =
      ⟨(parser.react ch).state, (parser.react ch).outputs, [], .advance⟩ := by
    rw [scan_cons_advance goesOn]
    simp [scan]
  refine ⟨[ch], pending, rfl, List.cons_ne_nil _ _, ?_, ?_, fun _ => opens, ?_⟩
  · rw [single]
  · rw [single]
    exact state
  · rw [single]
    exact tracks

/-- A case of one byte is what the machine does there. -/
theorem Progress.perform_follows (case : Case) {ch : UInt8} {rest : Bytes}
    (tracks : Tracks history outputs pending (ch :: rest) progress)
    (inOrder : case.InOrder pending.token)
    (same : parser.react ch = case.reaction ch) :
    (progress.perform case (ch :: rest)).Follows history outputs parser
      (ch :: rest) := by
  obtain ⟨last, moved, advance, exit⟩ := inOrder
  have tracksSet :
      Tracks history outputs pending (ch :: rest) (progress.set case.parser) :=
    ⟨tracks.marks, tracks.alike⟩
  obtain ⟨later, isLast, tracksLater⟩ := tracksSet.effects moved
  have state := parser_effects (ch :: rest) case.effects
    (progress.set case.parser)
  rw [parser_set] at state
  unfold perform
  dsimp only
  cases control : case.control with
  | advance =>
      have verdict : (parser.react ch).verdict = .advance := by
        rw [same]
        exact control
      have token := isLast.trans (advance control)
      apply Turn.follows_next (later.push [ch]) verdict
      · rw [same]
        exact state
      · have sameState := congrArg RequestParser.state state
        rw [Pending.token_push, token, sameState]
        exact ParserState.tokenAt_mem_opens _
      · have moved := tracksLater.piece token
        rw [List.append_assoc] at moved
        simpa [same, Case.reaction, control] using moved
  | error =>
      have verdict : (parser.react ch).verdict = .error := by
        rw [same]
        exact control
      have outputs : (parser.react ch).outputs =
          case.effects.flatMap Effect.outputs := by
        simp [same, Case.reaction, control]
      refine .exact later ?_ ?_ ?_ ?_
      · rw [scan_cons_error verdict, same]
        exact state
      · rw [scan_cons_error verdict]
      · rw [scan_cons_error verdict]
        exact fun wrong => (wrong rfl).elim
      · rw [scan_cons_error verdict, outputs]
        exact tracksLater.alike
  | exit =>
      have verdict : (parser.react ch).verdict = .exit := by
        rw [same]
        exact control
      have outputs : (parser.react ch).outputs =
          case.effects.flatMap Effect.outputs := by
        simp [same, Case.reaction, control]
      refine .exact later ?_ ?_ ?_ ?_
      · rw [scan_cons_exit verdict, same]
        exact state
      · rw [scan_cons_exit verdict]
        rfl
      · intro _
        exact Pending.eq_none_of_token (isLast.trans (exit control))
      · rw [scan_cons_exit verdict, outputs]
        exact tracksLater.alike

end Woody
