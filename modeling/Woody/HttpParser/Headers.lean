import Woody.HttpParser.Refinement

/-!
# The loops over a header

`s_header_field` and `s_header_value` read many bytes in one turn.  Each loop
does what the machine does at its bytes; a value that no one looks at is
searched for its end without a look at the bytes before it.
-/

namespace Woody

open Scanner

variable {history outputs : List HttpCallback} {parser : RequestParser}
  {progress : Progress} {pending : Pending}

/-- The loop over a header name does what the machine does at its bytes. -/
theorem scan_fieldLoop {parser : RequestParser}
    (field : parser.state = .headerField) (data : Bytes) :
    let ended := parser.fieldLoop data
    ended.1.state = .headerField ∧
      (∀ ch ∈ ended.2.head?, token ch = 0) ∧
      ∃ taken, data = taken ++ ended.2 ∧ (∀ ch ∈ taken, token ch ≠ 0) ∧
        scan RequestParser.react parser taken =
          ⟨ended.1, taken.map fun ch => .headerField [ch], [], .advance⟩ := by
  induction data generalizing parser with
  | nil => exact ⟨field, by simp [RequestParser.fieldLoop], [], rfl, nofun, rfl⟩
  | cons ch data ih =>
      unfold RequestParser.fieldLoop
      split_ifs with separator
      · exact ⟨field, by simpa using separator, [], rfl, nofun, rfl⟩
      · have stays : (parser.onFieldChar ch (token ch)).state = .headerField := by
          rw [RequestParser.onFieldChar_state, field]
        obtain ⟨state, ends, taken, split, tokens, read⟩ := ih stays
        have reaction : parser.react ch =
            ⟨parser.onFieldChar ch (token ch), [.headerField [ch]],
              .advance⟩ := by
          simp [RequestParser.react, field, RequestParser.reactHeaderField,
            separator]
        refine ⟨state, ends, ch :: taken, congrArg (ch :: ·) split,
          List.forall_mem_cons.mpr ⟨separator, tokens⟩, ?_⟩
        rw [scan_cons_advance (by rw [reaction]), reaction, read]
        rfl

theorem Progress.headerField_follows {start : Bytes}
    (tracks : Tracks history outputs pending start progress)
    (opened : pending.token = some .headerField) (some : start ≠ [])
    (sameParser : progress.parser.toRequestParser = parser)
    (field : parser.state = .headerField) :
    (progress.headerField start).Follows history outputs parser start := by
  subst sameParser
  obtain ⟨state, ends, taken, split, -, read⟩ := scan_fieldLoop field start
  unfold headerField
  dsimp only
  generalize progress.parser.fieldLoop start = ended at *
  rcases ended with ⟨later, p⟩
  dsimp only at *
  subst split
  have moved := tracks.move taken opened
  have verdict := congrArg Scanned.verdict read
  have outputs' := congrArg Scanned.outputs read
  have state' := congrArg Scanned.state read
  rcases count_cases (progress.set later) ((taken ++ p).length - p.length) with
    ⟨nread, -, -, counted⟩ | ⟨overflowed, counted, errno, same⟩
  · rw [counted]
    dsimp only
    cases p with
    | nil =>
        refine ⟨taken, pending.push taken, rfl, ?_, verdict, ?_, ?_, ?_⟩
        · simpa using some
        · rw [state']
          rfl
        · exact fun wrong => (wrong rfl).elim
        · rw [outputs']
          exact ⟨moved.marks, moved.alike⟩
    | cons ch rest =>
        have separator : token ch = 0 := ends ch rfl
        apply Turn.Follows.behind verdict
        rw [state', outputs']
        dsimp only
        split_ifs with colon
        · apply perform_follows
            (.advance (later.goto .headerValueDiscardWs) [.data .headerField])
            moved.counted
          · refine ⟨none, ?_, fun _ => rfl, fun _ => rfl⟩
            simp [Case.marks, Case.advance, Effect.marks, Mark.move, opened]
          · have noToken : token (octet ':') = 0 := by decide
            simp [RequestParser.react, state, RequestParser.reactHeaderField,
              noToken, colon, Case.reaction, Case.advance, Effect.outputs,
              RequestParser.piece, CountingParser.tokenAt]
        · apply perform_follows
            (.error later .invalidHeaderToken) moved.counted
          · exact ⟨_, rfl, by simp [Case.error], by simp [Case.error]⟩
          · simp [RequestParser.react, state, RequestParser.reactHeaderField,
              separator, colon, Case.reaction, Case.error,
              RequestParser.setErrno]
  · rw [counted]
    refine .overflow taken p (pending.push taken) errno rfl verdict ?_
    rw [outputs', same]
    exact moved.alike

def IsLineEnd (ch : UInt8) : Prop := ch = CR ∨ ch = LF

/-- What a search in the first bytes says about all of them. -/
theorem of_findIdx?_take {found : UInt8 → Bool} {data : Bytes}
    {limit n : Nat} (at_ : (data.take limit).findIdx? found = some n) :
    (∀ ch ∈ data.take n, found ch = false) ∧
      ∀ ch ∈ (data.drop n).head?, found ch = true := by
  rw [List.findIdx?_eq_some_iff_getElem] at at_
  obtain ⟨inside, here, before⟩ := at_
  have bounds : n < limit ∧ n < data.length := by
    rw [List.length_take] at inside
    omega
  constructor
  · intro ch member
    obtain ⟨j, bound, rfl⟩ := List.mem_take_iff_getElem.mp member
    have earlier := before j (by omega)
    rw [List.getElem_take] at earlier
    exact Bool.not_eq_true _ ▸ earlier
  · intro ch first
    rw [List.head?_drop, List.getElem?_eq_getElem bounds.2] at first
    cases first
    rwa [List.getElem_take] at here

theorem mem_take_of_le {data : Bytes} {n m : Nat} (le : n ≤ m) {ch : UInt8}
    (member : ch ∈ data.take n) : ch ∈ data.take m :=
  (List.take_prefix_take_left le).subset member

/-- The search for the next line end finds it, unless it is too far away. -/
theorem skipGeneral_split (data : Bytes) :
    ∃ taken, data = taken ++ RequestParser.skipGeneral data ∧
      (RequestParser.skipGeneral data ≠ [] ∨
          data.length ≤ httpMaxHeaderSize.toNat →
        (∀ ch ∈ taken, ¬ IsLineEnd ch) ∧
          ∀ ch ∈ (RequestParser.skipGeneral data).head?, IsLineEnd ch) := by
  have noLineEnd {ch : UInt8} (noCr : decide (ch = CR) = false)
      (noLf : decide (ch = LF) = false) : ¬ IsLineEnd ch := by
    simpa [IsLineEnd] using ⟨of_decide_eq_false noCr, of_decide_eq_false noLf⟩
  unfold RequestParser.skipGeneral
  dsimp only
  cases cr : (data.take httpMaxHeaderSize.toNat).findIdx? (· = CR) with
  | none =>
      have noCr := List.findIdx?_eq_none_iff.mp cr
      cases lf : (data.take httpMaxHeaderSize.toNat).findIdx? (· = LF) with
      | none =>
          have noLf := List.findIdx?_eq_none_iff.mp lf
          refine ⟨data, (List.append_nil data).symm, ?_⟩
          rintro (wrong | short)
          · exact (wrong rfl).elim
          · rw [List.take_of_length_le short] at noCr noLf
            refine ⟨?_, by simp⟩
            exact fun ch member => noLineEnd (noCr ch member) (noLf ch member)
      | some l =>
          obtain ⟨before, here⟩ := of_findIdx?_take lf
          have inside : l ≤ httpMaxHeaderSize.toNat := by
            have bound := (List.findIdx?_eq_some_iff_getElem.mp lf).1
            rw [List.length_take] at bound
            omega
          refine ⟨data.take l, (List.take_append_drop l data).symm,
            fun _ => ⟨?_, ?_⟩⟩
          · exact fun ch member =>
              noLineEnd (noCr ch (mem_take_of_le inside member))
                (before ch member)
          · exact fun ch first => .inr (of_decide_eq_true (here ch first))
  | some c =>
      obtain ⟨beforeCr, hereCr⟩ := of_findIdx?_take cr
      have insideCr : c ≤ httpMaxHeaderSize.toNat := by
        have bound := (List.findIdx?_eq_some_iff_getElem.mp cr).1
        rw [List.length_take] at bound
        omega
      cases lf : (data.take httpMaxHeaderSize.toNat).findIdx? (· = LF) with
      | none =>
          have noLf := List.findIdx?_eq_none_iff.mp lf
          refine ⟨data.take c, (List.take_append_drop c data).symm,
            fun _ => ⟨?_, ?_⟩⟩
          · exact fun ch member => noLineEnd (beforeCr ch member)
              (noLf ch (mem_take_of_le insideCr member))
          · exact fun ch first => .inl (of_decide_eq_true (hereCr ch first))
      | some l =>
          obtain ⟨beforeLf, hereLf⟩ := of_findIdx?_take lf
          dsimp only
          split_ifs with order
          · refine ⟨data.take l, (List.take_append_drop l data).symm,
              fun _ => ⟨?_, ?_⟩⟩
            · exact fun ch member =>
                noLineEnd (beforeCr ch (mem_take_of_le order member))
                  (beforeLf ch member)
            · exact fun ch first => .inr (of_decide_eq_true (hereLf ch first))
          · refine ⟨data.take c, (List.take_append_drop c data).symm,
              fun _ => ⟨?_, ?_⟩⟩
            · exact fun ch member => noLineEnd (beforeCr ch member)
                (beforeLf ch (mem_take_of_le (by omega) member))
            · exact fun ch first => .inl (of_decide_eq_true (hereCr ch first))

namespace RequestParser

/-- The loop keeps the state of the header in a variable of its own. -/
theorem store_matchValue (parser : RequestParser)
    (held hState other found : HeaderState) (word : Bytes) (c : UInt8) :
    store ({ parser with headerState := held }.matchValue hState word c other
        found) =
      store (parser.matchValue hState word c other found) := by
  unfold matchValue
  dsimp only
  cases matchAt word (parser.index + 1) c <;> rfl

theorem map_store_onValueChar (parser : RequestParser)
    (held hState : HeaderState) (ch : UInt8) :
    ({ parser with headerState := held }.onValueChar hState ch).map store =
      (parser.onValueChar hState ch).map store := by
  unfold onValueChar
  cases hState <;> dsimp only <;> (try split_ifs) <;>
    first
    | rfl
    | exact congrArg some (store_matchValue parser held _ _ _ _ _)

theorem react_value {parser : RequestParser} {hState : HeaderState}
    {ch : UInt8} (value : parser.state = .headerValue)
    (inside : ¬ IsLineEnd ch) :
    (store (parser, hState)).react ch =
      match (parser.onValueChar hState ch).map store with
      | none =>
          ⟨(store (parser, hState)).setErrno .invalidContentLength, [], .error⟩
      | some later => ⟨later, [.headerValue [ch]], .advance⟩ := by
  have notCr : ch ≠ CR := fun same => inside (.inl same)
  have notLf : ch ≠ LF := fun same => inside (.inr same)
  have state : (store (parser, hState)).state = .headerValue := value
  have stored := map_store_onValueChar parser hState hState ch
  rw [← stored]
  unfold react
  rw [state]
  dsimp only
  unfold reactHeaderValue
  rw [if_neg notCr, if_neg notLf]
  have read : (store (parser, hState)).onValueChar
      (store (parser, hState)).headerState ch =
        { parser with headerState := hState }.onValueChar hState ch := rfl
  rw [read]
  cases { parser with headerState := hState }.onValueChar hState ch <;> rfl

theorem scan_general {parser : RequestParser}
    (value : parser.state = .headerValue) {taken : Bytes}
    (inside : ∀ ch ∈ taken, ¬ IsLineEnd ch) :
    scan react (store (parser, .general)) taken =
      ⟨store (parser, .general), taken.map fun ch => .headerValue [ch], [],
        .advance⟩ := by
  induction taken with
  | nil => rfl
  | cons ch taken ih =>
      obtain ⟨first, later⟩ := List.forall_mem_cons.mp inside
      have reaction : (store (parser, .general)).react ch =
          ⟨store (parser, .general), [.headerValue [ch]], .advance⟩ := by
        rw [react_value value first]
        rfl
      rw [scan_cons_advance (by rw [reaction]), reaction, ih later]
      rfl

/-- The loop over a value does what the machine does at its bytes, unless the
value is too long. -/
theorem scan_valueLoop {parser : RequestParser}
    (value : parser.state = .headerValue) (hState : HeaderState)
    (data : Bytes) :
    let ended := parser.valueLoop hState data
    ∃ taken, data = taken ++ ended.p ∧
      (ended.refused = true → ended.p ≠ []) ∧
      (ended.p ≠ [] ∨ data.length ≤ httpMaxHeaderSize.toNat →
        ended.parser.state = .headerValue ∧
        (∀ ch ∈ taken, ¬ IsLineEnd ch) ∧
        scan react (store (parser, hState)) taken =
          ⟨store (ended.parser, ended.hState),
            taken.map fun ch => .headerValue [ch], [], .advance⟩ ∧
        (ended.refused = false → ∀ ch ∈ ended.p.head?, IsLineEnd ch) ∧
        (ended.refused = true → ∀ ch ∈ ended.p.head?, ¬ IsLineEnd ch ∧
          ended.parser.onValueChar ended.hState ch = none)) := by
  induction data generalizing parser hState with
  | nil =>
      exact ⟨[], rfl, by simp [valueLoop],
        fun _ => ⟨value, nofun, rfl, by simp [valueLoop], by simp [valueLoop]⟩⟩
  | cons ch data ih =>
      unfold valueLoop
      split_ifs with lineEnd general
      · refine ⟨[], rfl, by simp, fun _ => ⟨value, nofun, rfl, ?_, by simp⟩⟩
        simpa [IsLineEnd] using lineEnd
      · subst general
        obtain ⟨taken, split, found⟩ := skipGeneral_split (ch :: data)
        refine ⟨taken, split, by simp, fun near => ?_⟩
        obtain ⟨inside, ends⟩ := found near
        exact ⟨value, inside, scan_general value inside, fun _ => ends,
          by simp⟩
      · cases next : parser.onValueChar hState ch with
        | none =>
            refine ⟨[], rfl, by simp,
              fun _ => ⟨value, nofun, rfl, by simp, ?_⟩⟩
            simpa using ⟨lineEnd, next⟩
        | some found =>
            rcases found with ⟨later, laterState⟩
            obtain ⟨taken, split, stops, follows⟩ :=
              ih (onValueChar_state value next) laterState
            refine ⟨ch :: taken, congrArg (ch :: ·) split, stops,
              fun near => ?_⟩
            have nearer : (later.valueLoop laterState data).p ≠ [] ∨
                data.length ≤ httpMaxHeaderSize.toNat := by
              refine near.imp_right fun short => ?_
              rw [List.length_cons] at short
              omega
            obtain ⟨state, inside, read, ends, refuses⟩ := follows nearer
            have reaction : (store (parser, hState)).react ch =
                ⟨store (later, laterState), [.headerValue [ch]],
                  .advance⟩ := by
              rw [react_value value lineEnd, next]
              rfl
            refine ⟨state, List.forall_mem_cons.mpr ⟨lineEnd, inside⟩, ?_, ends,
              refuses⟩
            rw [scan_cons_advance (by rw [reaction]), reaction, read]
            rfl

end RequestParser

theorem length_le_of_counted {nread : UInt32} {length : Nat}
    (before : nread ≤ httpMaxHeaderSize)
    (small : length + httpMaxHeaderSize.toNat < 2 ^ 32)
    (after : nread + UInt32.ofNat length ≤ httpMaxHeaderSize) :
    length ≤ httpMaxHeaderSize.toNat := by
  rw [UInt32.le_iff_toNat_le] at before after
  rw [UInt32.toNat_add, UInt32.toNat_ofNat', Nat.mod_eq_of_lt (by omega),
    Nat.mod_eq_of_lt (by omega)] at after
  omega

theorem Progress.valueAtEnd_follows {taken : Bytes}
    (tracks : Tracks history outputs pending taken progress)
    (opened : pending.token = some .headerValue) (some : taken ≠ [])
    (read : taken.length ≤ httpMaxHeaderSize.toNat →
      scan RequestParser.react parser taken =
        ⟨progress.parser.toRequestParser,
          taken.map fun ch => .headerValue [ch], [], .advance⟩)
    (within : progress.parser.nread ≤ httpMaxHeaderSize)
    (small : taken.length + httpMaxHeaderSize.toNat < 2 ^ 32) :
    (progress.valueAtEnd taken.length).Follows history outputs parser
      taken := by
  unfold valueAtEnd
  rcases progress.count_cases taken.length with
    ⟨nread, isNread, fits, counted⟩ | ⟨overflowed, counted, errno, same⟩
  · have short := length_le_of_counted within small (isNread ▸ fits)
    have atStart : Tracks history outputs pending (taken ++ []) progress := by
      rwa [List.append_nil]
    have moved := atStart.move taken opened
    rw [counted]
    refine ⟨taken, pending.push taken, (List.append_nil _).symm, some, ?_, ?_,
      fun wrong => (wrong rfl).elim, ?_⟩
    · rw [read short]
    · rw [read short]
    · rw [read short]
      exact moved.counted
  · rw [counted]
    exact Reports.at_once tracks errno same

theorem Progress.valueAtCr_follows {rest : Bytes} {taken : Nat}
    (tracks : Tracks history outputs pending (CR :: rest) progress)
    (opened : pending.token = some .headerValue)
    (sameParser : progress.parser.toRequestParser = parser)
    (value : parser.state = .headerValue) :
    (progress.valueAtCr (CR :: rest) taken).Follows history outputs parser
      (CR :: rest) := by
  subst sameParser
  have reaction : progress.parser.react CR =
      ⟨progress.parser.goto .headerAlmostDone, [], .advance⟩ := by
    simp [RequestParser.react, value, RequestParser.reactHeaderValue]
  have reported : Tracks history outputs none (CR :: rest)
      ((progress.set (progress.parser.goto .headerAlmostDone)).data
        .headerValue (CR :: rest)) :=
    tracks.set.data (.inr opened)
  have state := parser_data
    (progress.set (progress.parser.goto .headerAlmostDone)) .headerValue
    (CR :: rest)
  unfold valueAtCr
  dsimp only
  generalize (progress.set (progress.parser.goto .headerAlmostDone)).data
    .headerValue (CR :: rest) = done at *
  rcases done.count_cases taken with
    ⟨nread, -, -, counted⟩ | ⟨overflowed, counted, errno, same⟩
  · rw [counted]
    apply Turn.follows_next none (by rw [reaction])
    · rw [reaction, state]
      rfl
    · rw [state]
      exact ParserState.tokenAt_mem_opens .headerAlmostDone
    · rw [reaction, List.append_nil]
      exact (reported.skip [CR]).counted
  · rw [counted]
    exact Reports.at_once reported errno same

theorem Progress.valueAtLf_follows {rest : Bytes} {taken : Nat}
    (tracks : Tracks history outputs pending (LF :: rest) progress)
    (opened : pending.token = some .headerValue)
    (sameParser : progress.parser.toRequestParser = parser)
    (value : parser.state = .headerValue) :
    (progress.valueAtLf LF (LF :: rest) taken).Follows history outputs parser
      (LF :: rest) := by
  subst sameParser
  unfold valueAtLf
  dsimp only
  rcases (progress.set (progress.parser.goto .headerAlmostDone)).count_cases
      taken with
    ⟨nread, -, -, counted⟩ | ⟨overflowed, counted, errno, same⟩
  · rw [counted]
    apply perform_follows _ (tracks.set.counted.data (.inr opened))
    · exact ⟨none, rfl, fun _ => rfl, fun _ => rfl⟩
    · have notCr : LF ≠ CR := by decide
      simp [RequestParser.react, value, RequestParser.reactHeaderValue, notCr]
  · rw [counted]
    exact Reports.at_once tracks errno same

theorem Progress.headerValue_follows {start : Bytes}
    (tracks : Tracks history outputs pending start progress)
    (opened : pending.token = some .headerValue) (some : start ≠ [])
    (sameParser : progress.parser.toRequestParser = parser)
    (value : parser.state = .headerValue)
    (within : progress.parser.nread ≤ httpMaxHeaderSize)
    (small : start.length + httpMaxHeaderSize.toNat < 2 ^ 32) :
    (progress.headerValue start).Follows history outputs parser start := by
  subst sameParser
  obtain ⟨taken, split, stops, follows⟩ :=
    RequestParser.scan_valueLoop value progress.parser.headerState start
  unfold headerValue
  dsimp only
  generalize progress.parser.valueLoop progress.parser.headerState start =
    ended at *
  rcases ended with ⟨later, hState, p, refused⟩
  dsimp only at *
  have unstored : RequestParser.store
      (progress.parser.toRequestParser, progress.parser.headerState) =
        progress.parser.toRequestParser := rfl
  have length : (taken ++ p).length - p.length = taken.length := by simp
  rw [unstored] at follows
  subst split
  rw [length]
  cases p with
  | nil =>
      have goesOn : ¬ refused = true := fun refuses => stops refuses rfl
      rw [if_neg goesOn]
      rw [List.append_nil] at *
      exact valueAtEnd_follows tracks.set opened some
        (fun short => (follows (.inr short)).2.2.1) within small
  | cons ch rest =>
      obtain ⟨state, -, read, ends, refuses⟩ :=
        follows (.inl (List.cons_ne_nil _ _))
      have verdict : (scan RequestParser.react progress.parser.toRequestParser
          taken).verdict = .advance := by rw [read]
      have moved := tracks.move taken opened
      have stillOpen : (pending.push taken).token = .some .headerValue := by
        rw [Pending.token_push, opened]
      apply Turn.Follows.behind verdict
      rw [read]
      cases refused with
      | true =>
          obtain ⟨inside, none⟩ := refuses rfl ch rfl
          apply perform_follows
            (.error (RequestParser.store (later, hState)) .invalidContentLength)
            moved
          · exact ⟨_, rfl, by simp [Case.error], by simp [Case.error]⟩
          · rw [RequestParser.react_value state inside, none]
            rfl
      | false =>
          rw [if_neg Bool.false_ne_true]
          dsimp only
          rcases ends rfl ch rfl with rfl | rfl
          · rw [if_pos rfl]
            exact valueAtCr_follows moved.set stillOpen rfl state
          · rw [if_neg (by decide)]
            exact valueAtLf_follows moved.set stillOpen rfl state

end Woody
