import Woody.HttpParser.Refinement

/-!
# Bodies

`s_body_identity` and `s_chunk_data` take all bytes of the body that the call
has in one turn, and count them down at once.
-/

namespace Woody

open Scanner

variable {history outputs : List HttpCallback} {parser : RequestParser}
  {progress : Progress} {pending : Pending}

namespace RequestParser

@[simp] theorem minus_state (parser : RequestParser) (n : Nat) :
    (parser.minus n).state = parser.state := rfl

theorem minus_zero (parser : RequestParser) : parser.minus 0 = parser := by
  simp [minus]

theorem minus_minus (parser : RequestParser) (first second : Nat) :
    (parser.minus first).minus second = parser.minus (first + second) := by
  have sum : parser.contentLength - UInt64.ofNat first - UInt64.ofNat second =
      parser.contentLength - UInt64.ofNat (first + second) := by
    rw [UInt64.ofNat_add, UInt64.sub_eq_iff_eq_add, UInt64.sub_eq_iff_eq_add,
      UInt64.add_assoc, UInt64.add_comm (UInt64.ofNat second),
      UInt64.sub_add_cancel]
  simp only [minus, sum]

theorem toNat_minus {parser : RequestParser} {n : Nat}
    (enough : n ≤ parser.contentLength.toNat) :
    (parser.minus n).contentLength.toNat = parser.contentLength.toNat - n := by
  have value : (UInt64.ofNat n).toNat = n :=
    UInt64.toNat_ofNat_of_lt' (enough.trans_lt parser.contentLength.toNat_lt)
  have le : UInt64.ofNat n ≤ parser.contentLength := by
    rw [UInt64.le_iff_toNat_le, value]
    exact enough
  rw [minus, UInt64.toNat_sub_of_le _ _ le, value]

theorem minus_eq_zero_iff {parser : RequestParser} {n : Nat}
    (enough : n ≤ parser.contentLength.toNat) :
    (parser.minus n).contentLength = 0 ↔ n = parser.contentLength.toNat := by
  rw [← UInt64.toNat_inj, toNat_minus enough, UInt64.toNat_zero]
  omega

theorem react_body {parser : RequestParser}
    (body : parser.state = .bodyIdentity ∨ parser.state = .chunkData)
    (more : parser.countDown.contentLength ≠ 0) (ch : UInt8) :
    parser.react ch = ⟨parser.countDown, [.body [ch]], .advance⟩ := by
  unfold react
  rcases body with state | state
  · simp only [state, reactBodyIdentity, if_neg more]
  · simp only [state, reactChunkData, if_neg more]

theorem scan_body {parser : RequestParser}
    (body : parser.state = .bodyIdentity ∨ parser.state = .chunkData)
    {taken : Bytes} (more : taken.length < parser.contentLength.toNat) :
    scan react parser taken =
      ⟨parser.minus taken.length, taken.map fun ch => .body [ch], [],
        .advance⟩ := by
  induction taken generalizing parser with
  | nil =>
      rw [List.length_nil, minus_zero]
      rfl
  | cons ch taken ih =>
      rw [List.length_cons] at more
      have left : parser.countDown.contentLength ≠ 0 := by
        rw [countDown, ne_eq, minus_eq_zero_iff (by omega)]
        omega
      have fewer : taken.length < parser.countDown.contentLength.toNat := by
        rw [countDown, toNat_minus (by omega)]
        omega
      have reaction := react_body body left ch
      have later := @ih parser.countDown body fewer
      rw [scan_cons_advance (by rw [reaction]), reaction, later, countDown,
        minus_minus, List.length_cons, Nat.add_comm]
      rfl

end RequestParser

theorem alike_body (early : List HttpCallback) {taken : Bytes}
    (some : taken ≠ []) :
    HttpCallback.gluing.Alike
      (early ++ [.body []] ++ taken.map fun ch => .body [ch])
      (early ++ taken.map fun ch => .body [ch]) := by
  obtain ⟨ch, taken, rfl⟩ := List.exists_cons_of_ne_nil some
  have glued := Gluing.Alike.glued (HttpCallback.glue_token .body [] [ch])
    early (taken.map fun ch => .body [ch])
  rw [List.append_assoc]
  exact glued

/-- `MARK(body)`, and the bytes that the call has of the body. -/
theorem Tracks.body {taken p : Bytes}
    (tracks : Tracks history outputs pending (taken ++ p) progress)
    (free : pending.token = none ∨ pending.token = some .body)
    (some : taken ≠ []) :
    ∃ later : Pending, later.token = .some .body ∧
      Tracks history (outputs ++ taken.map fun ch => .body [ch]) later p
        (progress.mark .body (taken ++ p)) := by
  obtain ⟨opened, isOpen, marked⟩ := tracks.mark free
  refine ⟨opened.push taken, ?_, ?_⟩
  · rw [Pending.token_push, isOpen]
  · apply (marked.move taken isOpen).of_alike
    have alike := alike_body (history ++ outputs) some
    simp only [List.append_assoc] at alike ⊢
    exact alike

theorem RequestParser.piece_newMessage (parser : RequestParser) (ch : UInt8) :
    (parser.goto parser.newMessage).piece ch = [] := by
  unfold piece
  rw [goto_state]
  rcases parser.newMessage_cases with next | next <;> rw [next] <;> rfl

theorem RequestParser.newMessage_opens (parser : RequestParser) :
    none ∈ parser.newMessage.opens := by
  rcases parser.newMessage_cases with next | next <;> rw [next] <;> decide

theorem RequestParser.react_last {parser : RequestParser}
    (identity : parser.state = .bodyIdentity)
    (last : parser.countDown.contentLength = 0) (ch : UInt8) :
    let done := parser.countDown.goto .messageDone
    parser.react ch =
      ⟨done.goto done.newMessage, [.body [ch], .messageComplete],
        if parser.upgrade then .exit else .advance⟩ := by
  intro done
  have noPiece := done.piece_newMessage ch
  have upgrade : (done.goto done.newMessage).upgrade = parser.upgrade := rfl
  simp only [react, identity, reactBodyIdentity, if_pos last]
  unfold onMessageDone Case.reaction
  dsimp only
  rw [upgrade]
  cases parser.upgrade with
  | true => rfl
  | false =>
      simp only [Bool.false_eq_true, if_false]
      rw [noPiece]
      rfl

/-- The last byte of a body is read once more, at `s_message_done`. -/
theorem Progress.perform_last {ch : UInt8} {rest : Bytes}
    (tracks : Tracks history (outputs ++ [.body [ch]]) none rest progress)
    (identity : parser.state = .bodyIdentity)
    (last : parser.countDown.contentLength = 0) :
    (progress.perform (parser.countDown.goto .messageDone).onMessageDone
      (ch :: rest)).Follows history outputs parser (ch :: rest) := by
  have reaction := RequestParser.react_last identity last ch
  have done : Tracks history (outputs ++ [.body [ch]] ++ [.messageComplete])
      none rest (progress.notify .messageComplete) :=
    tracks.notify rfl
  rw [List.append_assoc] at done
  cases upgrade : parser.upgrade with
  | true =>
      have control : (parser.countDown.goto .messageDone).onMessageDone.control =
          .exit := by
        simp [RequestParser.onMessageDone, RequestParser.goto, upgrade,
          RequestParser.countDown, RequestParser.minus]
      rw [upgrade] at reaction
      have verdict : (parser.react ch).verdict = .exit := by
        rw [reaction]
        rfl
      unfold perform
      rw [control]
      refine .exact none ?_ ?_ (fun _ => rfl) ?_
      · rw [scan_cons_exit verdict, reaction]
        rfl
      · rw [scan_cons_exit verdict]
        rfl
      · rw [scan_cons_exit verdict, reaction]
        exact done.alike
  | false =>
      have control : (parser.countDown.goto .messageDone).onMessageDone.control =
          .advance := by
        simp [RequestParser.onMessageDone, RequestParser.goto, upgrade,
          RequestParser.countDown, RequestParser.minus]
      rw [upgrade] at reaction
      have verdict : (parser.react ch).verdict = .advance := by
        rw [reaction]
        rfl
      unfold perform
      rw [control]
      apply Turn.follows_next none verdict
      · rw [reaction]
        rfl
      · exact RequestParser.newMessage_opens _
      · rw [reaction]
        exact ⟨done.marks, done.alike⟩

/-- What a body takes of the data: all of it, or the bytes up to the last one
of the body. -/
theorem body_split {length : Nat} (some : length ≠ 0) (p : Bytes) :
    (p.length < length ∧ min length p.length = p.length) ∨
      ∃ early ch rest, p = early ++ ch :: rest ∧ early.length + 1 = length ∧
        min length p.length = length := by
  by_cases more : p.length < length
  · exact .inl ⟨more, Nat.min_eq_right more.le⟩
  · right
    have enough := Nat.le_of_not_lt more
    have inside : length - 1 < p.length := by omega
    refine ⟨p.take (length - 1), p[length - 1], p.drop length, ?_, ?_,
      Nat.min_eq_left enough⟩
    · have next := List.drop_eq_getElem_cons inside
      rw [show length - 1 + 1 = length by omega] at next
      rw [← next, List.take_append_drop]
    · rw [List.length_take]
      omega

theorem RequestParser.last_of_split {parser : RequestParser}
    {p early rest : Bytes} {ch : UInt8} (split : p = early ++ ch :: rest)
    (length : early.length + 1 = parser.contentLength.toNat) :
    parser.minus parser.contentLength.toNat =
        (parser.minus early.length).countDown ∧
      (parser.minus early.length).countDown.contentLength = 0 ∧
      p.drop (parser.contentLength.toNat - 1) = ch :: rest := by
  have counted : parser.minus parser.contentLength.toNat =
      (parser.minus early.length).countDown := by
    rw [countDown, minus_minus, length]
  refine ⟨counted, ?_, ?_⟩
  · rw [← counted]
    exact (minus_eq_zero_iff le_rfl).mpr rfl
  · rw [split, ← length, Nat.add_sub_cancel, List.drop_left]

section Body

variable {p : Bytes}
  (tracks : Tracks history outputs pending p progress)
  (free : pending.token = none) (some : p ≠ [])
  (body : progress.parser.state = .bodyIdentity ∨
    progress.parser.state = .chunkData)

include tracks free some body

theorem Progress.body_more (more : p.length < progress.parser.contentLength.toNat) :
    (Turn.next ((progress.mark .body p).set (progress.parser.minus p.length))
      (p.drop (p.length - 1)).tail).Follows history outputs
        progress.parser.toRequestParser p := by
  have read := RequestParser.scan_body body more
  have atStart : Tracks history outputs pending (p ++ []) progress := by
    rwa [List.append_nil]
  obtain ⟨later, -, tracksLater⟩ := atStart.body (.inl free) some
  rw [List.append_nil] at tracksLater
  have exhausted : (p.drop (p.length - 1)).tail = [] := by
    rw [← List.drop_one, List.drop_drop, List.drop_eq_nil_of_le]
    omega
  rw [exhausted]
  refine ⟨p, later, (List.append_nil _).symm, some, ?_, ?_,
    fun wrong => (wrong rfl).elim, ?_⟩
  · rw [read]
  · rw [read]
    rfl
  · rw [read]
    exact tracksLater.set

omit some in
/-- The body ends in the data: the bytes before the last one are read, and the
whole body is pending. -/
theorem Progress.body_last {early rest : Bytes} {ch : UInt8}
    (split : p = early ++ ch :: rest)
    (length : early.length + 1 = progress.parser.contentLength.toNat) :
    scan RequestParser.react progress.parser.toRequestParser early =
        ⟨progress.parser.minus early.length, early.map fun ch => .body [ch],
          [], .advance⟩ ∧
      progress.parser.minus progress.parser.contentLength.toNat =
        (progress.parser.minus early.length).countDown ∧
      (progress.parser.minus early.length).countDown.contentLength = 0 ∧
      p.drop (progress.parser.contentLength.toNat - 1) = ch :: rest ∧
      ∃ later : Pending, later.token = .some .body ∧
        Tracks history
          (outputs ++ early.map (fun ch => .body [ch]) ++ [.body [ch]])
          later rest (progress.mark .body p) := by
  obtain ⟨counted, last, position⟩ := RequestParser.last_of_split split length
  refine ⟨RequestParser.scan_body body (by omega), counted, last, position, ?_⟩
  · subst split
    have atStart : Tracks history outputs pending ((early ++ [ch]) ++ rest)
        progress := by
      rwa [List.append_assoc]
    obtain ⟨later, isOpen, tracksLater⟩ := atStart.body (.inl free)
      (List.append_ne_nil_of_right_ne_nil _ (List.cons_ne_nil _ _))
    rw [List.append_assoc, List.map_append, ← List.append_assoc]
      at tracksLater
    exact ⟨later, isOpen, tracksLater⟩

theorem Progress.bodyIdentity_follows
    (identity : progress.parser.state = .bodyIdentity)
    (left : progress.parser.contentLength ≠ 0) :
    (progress.bodyIdentity p).Follows history outputs
      progress.parser.toRequestParser p := by
  have nonzero : progress.parser.contentLength.toNat ≠ 0 := by
    rwa [ne_eq, ← UInt64.toNat_zero, UInt64.toNat_inj]
  unfold bodyIdentity
  dsimp only
  rcases body_split nonzero p with
    ⟨more, toRead⟩ | ⟨early, ch, rest, split, length, toRead⟩
  · have stays : ¬ (progress.parser.minus p.length).contentLength = 0 := by
      rw [RequestParser.minus_eq_zero_iff more.le]
      exact more.ne
    rw [toRead, if_neg stays]
    exact body_more tracks free some body more
  · obtain ⟨read, counted, last, position, later, isOpen, tracksLater⟩ :=
      body_last tracks free body split length
    rw [toRead, position, counted, if_pos last]
    subst split
    apply Turn.Follows.behind (by rw [read])
    rw [read]
    exact perform_last (tracksLater.set.set.data (.inr isOpen)) identity last

theorem Progress.chunkData_follows
    (chunk : progress.parser.state = .chunkData)
    (left : progress.parser.contentLength ≠ 0) :
    (progress.chunkData p).Follows history outputs
      progress.parser.toRequestParser p := by
  have nonzero : progress.parser.contentLength.toNat ≠ 0 := by
    rwa [ne_eq, ← UInt64.toNat_zero, UInt64.toNat_inj]
  unfold chunkData
  dsimp only
  rcases body_split nonzero p with
    ⟨more, toRead⟩ | ⟨early, ch, rest, split, length, toRead⟩
  · have stays : ¬ (progress.parser.minus p.length).contentLength = 0 := by
      rw [RequestParser.minus_eq_zero_iff more.le]
      exact more.ne
    rw [toRead, if_neg stays]
    exact body_more tracks free some body more
  · obtain ⟨read, counted, last, position, later, isOpen, tracksLater⟩ :=
      body_last tracks free body split length
    rw [toRead, position, counted, if_pos last]
    subst split
    apply Turn.Follows.behind (by rw [read])
    rw [read]
    have reaction : (progress.parser.minus early.length).react ch =
        ⟨(progress.parser.minus early.length).countDown.goto
          .chunkDataAlmostDone, [.body [ch]], .advance⟩ := by
      simp [RequestParser.react, chunk, RequestParser.reactChunkData, last]
    apply Turn.follows_next later (by rw [reaction])
    · rw [reaction]
      rfl
    · rw [isOpen]
      exact List.mem_cons_of_mem _ List.mem_cons_self
    · rw [reaction]
      exact tracksLater.set.set

end Body

end Woody
