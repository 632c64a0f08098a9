import Woody.HttpParser.HeaderNames
import Woody.HttpParser.HeaderValues

/-!
# Lines of a header

A line is settled by the byte behind it: a blank would continue the value.  So
a line leads to a parser from which the bytes behind it are read, if they do
not begin with a blank.
-/

namespace Woody

open Scanner

def IsBlank (ch : UInt8) : Prop := ch = octet ' ' ∨ ch = octet '\t'

instance (ch : UInt8) : Decidable (IsBlank ch) :=
  inferInstanceAs (Decidable (_ ∨ _))

instance (ch : UInt8) : Decidable (IsLineEnd ch) :=
  inferInstanceAs (Decidable (_ ∨ _))

/-- What the headers tell of the rest of the message. -/
structure Announced where
  flags : Flags
  length : Option Nat
  deriving DecidableEq

namespace Announced

/-- What no header has told anything of. -/
def unknown : Announced := ⟨.none, none⟩

/-- What a header tells; `none` for a length that is refused. -/
def learn (announced : Announced) (name value : Bytes) : Option Announced :=
  match value with
  | [] => some announced
  | first :: rest =>
      match HeaderState.ofName name with
      | .connection =>
          some
            { announced with
              flags :=
                (connectionOptions value).foldl Flags.hear announced.flags }
      | .transferEncoding =>
          some
            { announced with
              flags :=
                { announced.flags with
                  chunked := announced.flags.chunked || Names CHUNKED value } }
      | .upgrade =>
          some { announced with flags := { announced.flags with upgrade := true } }
      | .contentLength =>
          let number := RequestParser.numberFrom 0 value
          if (isNum first ∧ RequestParser.areDigits rest) ∧
              number ≤ RequestParser.maxContentLength then
            some { announced with length := some number }
          else none
      | _ => some announced

end Announced

namespace RequestParser

/-- The parser that has been told this. -/
def knowing (parser : RequestParser) (announced : Announced) : RequestParser :=
  { parser with
    flags := announced.flags
    contentLength :=
      match announced.length with
      | none => ullongMax
      | some n => UInt64.ofNat n }

/-- The bytes lead to a parser from which what comes behind them is read,
unless it begins with a blank. -/
def Leads (parser : RequestParser) (bytes : Bytes)
    (callbacks : List HttpCallback) (later : RequestParser) : Prop :=
  ∃ outputs, HttpCallback.gluing.Alike outputs callbacks ∧
    ∀ ch rest, ¬ IsBlank ch →
      scan react parser (bytes ++ ch :: rest) =
        { scan react later (ch :: rest) with
          outputs := outputs ++ (scan react later (ch :: rest)).outputs }

variable {parser middle later : RequestParser} {early late : Bytes}
  {first second : List HttpCallback}

theorem Leads.refl (parser : RequestParser) : parser.Leads [] [] parser :=
  ⟨[], rfl, fun _ _ _ => rfl⟩

theorem Reads.leads (reads : parser.Reads early first middle)
    (leads : middle.Leads late second later) :
    parser.Leads (early ++ late) (first ++ second) later := by
  obtain ⟨outputs, read, alike⟩ := reads
  obtain ⟨more, alikeMore, behind⟩ := leads
  refine ⟨outputs ++ more, ?_, ?_⟩
  · exact (alike.append_right more).trans (alikeMore.append_left first)
  · intro ch rest notBlank
    rw [List.append_assoc, scan_append_advance (by rw [read]), read]
    dsimp only
    rw [behind ch rest notBlank, List.append_assoc]

theorem Leads.trans {ch : UInt8} {bytes : Bytes}
    (front : parser.Leads early first middle) (notBlank : ¬ IsBlank ch)
    (back : middle.Leads (ch :: bytes) second later) :
    parser.Leads (early ++ ch :: bytes) (first ++ second) later := by
  obtain ⟨outputs, alike, behind⟩ := front
  obtain ⟨more, alikeMore, behindMore⟩ := back
  refine ⟨outputs ++ more, ?_, ?_⟩
  · exact (alike.append_right more).trans (alikeMore.append_left first)
  · intro next rest notBlankNext
    have step := behind ch (bytes ++ next :: rest) notBlank
    rw [List.append_assoc, List.cons_append, step, ← List.cons_append,
      behindMore next rest notBlankNext, List.append_assoc]

/-- What comes behind is read as from the later parser. -/
theorem Leads.scan_cons (leads : parser.Leads early first later) {ch : UInt8}
    (notBlank : ¬ IsBlank ch) (rest : Bytes) :
    ∃ outputs, HttpCallback.gluing.Alike outputs
        (first ++ (scan react later (ch :: rest)).outputs) ∧
      scan react parser (early ++ ch :: rest) =
        { scan react later (ch :: rest) with outputs := outputs } := by
  obtain ⟨outputs, alike, behind⟩ := leads
  exact ⟨_, alike.append_right _, behind ch rest notBlank⟩

theorem Leads.of_alike (leads : parser.Leads early first later)
    (alike : HttpCallback.gluing.Alike first second) :
    parser.Leads early second later := by
  obtain ⟨outputs, alikeFirst, behind⟩ := leads
  exact ⟨outputs, alikeFirst.trans alike, behind⟩

/-- What a parser does at a byte that is not a blank, another one does too. -/
theorem Leads.of_react {outputs : List HttpCallback}
    (same : ∀ ch, ¬ IsBlank ch → parser.react ch =
      { later.react ch with outputs := outputs ++ (later.react ch).outputs }) :
    parser.Leads [] outputs later := by
  refine ⟨outputs, rfl, ?_⟩
  intro ch rest notBlank
  have reaction := same ch notBlank
  rw [List.nil_append, scan, scan, reaction]
  cases (later.react ch).verdict <;> simp only [List.append_assoc]

theorem lws_leads (lws : parser.state = .headerValueLws) :
    parser.Leads [] [] (parser.setFlag.goto .headerFieldStart) := by
  apply Leads.of_react
  intro ch notBlank
  have blank : ¬ (ch = octet ' ' ∨ ch = octet '\t') := notBlank
  unfold react
  simp only [lws, goto_state, onByte, onHeaderValueLws, blank, if_false,
    List.nil_append]

theorem discardLws_leads (lws : parser.state = .headerValueDiscardLws) :
    parser.Leads [] [.headerValue []]
      (parser.setFlag.goto .headerFieldStart) := by
  apply Leads.of_react
  intro ch notBlank
  have blank : ¬ (ch = octet ' ' ∨ ch = octet '\t') := notBlank
  unfold react
  simp only [lws, goto_state, onByte, onHeaderValueDiscardLws, blank, if_false]
  simp [Case.reaction, Case.behind, Effect.outputs, Token.callback]

theorem goto_goto (parser : RequestParser) (first second : ParserState) :
    (parser.goto first).goto second = parser.goto second := rfl

theorem setFlag_goto (parser : RequestParser) (state : ParserState) :
    (parser.goto state).setFlag = parser.setFlag.goto state := by
  rcases parser with ⟨_, _, hState⟩
  cases hState <;> rfl

theorem value_leads {hState : HeaderState}
    (inValue : parser.state = .headerValue) {value : Bytes}
    (inside : ∀ ch ∈ value, ¬ IsLineEnd ch) {found : RequestParser × HeaderState}
    (follows : followValue (parser, hState) value = some found) :
    (store (parser, hState)).Leads (value ++ [CR, LF])
      (value.map fun ch => .headerValue [ch])
      ((store found).setFlag.goto .headerFieldStart) := by
  have read := @scan_value parser hState inValue value inside
  rw [follows] at read
  obtain ⟨read, state⟩ := read
  have reads : (store (parser, hState)).Reads value
      (value.map fun ch => .headerValue [ch]) (store found) := ⟨_, read, rfl⟩
  have stored : (store found).state = .headerValue := state
  have cr : (store found).react CR =
      ⟨(store found).goto .headerAlmostDone, [], .advance⟩ := by
    unfold react
    rw [stored]
    rfl
  have lf : ((store found).goto .headerAlmostDone).react LF =
      ⟨(store found).goto .headerValueLws, [], .advance⟩ := rfl
  have lineEnd := Reads.cons cr (.byte lf)
  have ends := (reads.append lineEnd).leads
    (@lws_leads ((store found).goto .headerValueLws) rfl)
  rw [List.append_nil, setFlag_goto, goto_goto] at ends
  simpa using ends

end RequestParser

/-- The line of a header. -/
structure HeaderLine where
  name : Bytes
  blanks : Bytes
  value : Bytes
  named : name ≠ []
  tokens : ∀ ch ∈ name, token ch ≠ 0
  areBlanks : ∀ ch ∈ blanks, IsBlank ch
  inside : ∀ ch ∈ value, ¬ IsLineEnd ch
  begins : ∀ ch ∈ value.head?, ¬ IsBlank ch

namespace HeaderLine

def text (line : HeaderLine) : Bytes :=
  line.name ++ octet ':' :: line.blanks ++ line.value ++ [CR, LF]

def callbacks (line : HeaderLine) : List HttpCallback :=
  [.headerField line.name, .headerValue line.value]

end HeaderLine

namespace RequestParser

variable {parser later : RequestParser}

theorem blanks_read (discard : parser.state = .headerValueDiscardWs)
    {blanks : Bytes} (areBlanks : ∀ ch ∈ blanks, IsBlank ch) :
    parser.Reads blanks [] parser := by
  induction blanks with
  | nil => exact Reads.nil parser
  | cons ch blanks ih =>
      obtain ⟨first, areBlanks⟩ := List.forall_mem_cons.mp areBlanks
      have reaction : parser.react ch = ⟨parser, [], .advance⟩ := by
        have blank : ch = octet ' ' ∨ ch = octet '\t' := first
        unfold react
        simp only [discard, onByte, onHeaderValueDiscardWs, blank, if_true]
        simp [Case.reaction, Case.advance, piece, discard,
          CountingParser.tokenAt]
      exact Reads.cons reaction (ih areBlanks)

/-- The line end behind a name, and the byte behind it. -/
theorem empty_leads (discard : parser.state = .headerValueDiscardWs) :
    parser.Leads [CR, LF] [.headerValue []]
      (parser.setFlag.goto .headerFieldStart) := by
  have cr : parser.react CR =
      ⟨parser.goto .headerValueDiscardWsAlmostDone, [], .advance⟩ := by
    unfold react
    simp only [discard, onByte]
    rfl
  have lf : (parser.goto .headerValueDiscardWsAlmostDone).react LF =
      ⟨parser.goto .headerValueDiscardLws, [], .advance⟩ := rfl
  have ends := (Reads.cons cr (.byte lf)).leads
    (@discardLws_leads (parser.goto .headerValueDiscardLws) rfl)
  rwa [setFlag_goto, goto_goto] at ends

/-- A parser whose matcher stands elsewhere. -/
def matching (parser : RequestParser) (index : Nat) (hState : HeaderState) :
    RequestParser :=
  { parser with index := index, headerState := hState }

theorem first_reaction (discard : parser.state = .headerValueDiscardWs)
    {ch : UInt8} (notBlank : ¬ IsBlank ch) (inside : ¬ IsLineEnd ch) :
    parser.react ch = (parser.onHeaderValueStart ch).reaction ch := by
  have blank : ¬ (ch = octet ' ' ∨ ch = octet '\t') := notBlank
  have cr : ch ≠ CR := fun same => inside (.inl same)
  have lf : ch ≠ LF := fun same => inside (.inr same)
  unfold react
  simp only [discard, onByte, onHeaderValueDiscardWs, blank, cr, lf, if_false]

/-- What a value tells behind a name that is recognised. -/
theorem value_learnt (base : RequestParser) {announced known : Announced}
    {index : Nat} {hState : HeaderState} {taken name : Bytes}
    (hasRead : hState.HasRead index taken)
    (recognised : hState.recognised = .ofName name) {first : UInt8}
    {rest : Bytes} (learns : announced.learn name (first :: rest) = some known) :
    ∃ parser found,
      (((base.knowing announced).matching index hState).goto
        .headerValueDiscardWs).onHeaderValueStart first =
          .advance parser [.mark .headerValue] ∧
      parser.state = .headerValue ∧
      followValue (parser, parser.headerState) rest = some found ∧
      settled found = (base.knowing known).unmatched.goto .headerValue := by
  unfold Announced.learn at learns
  rw [← recognised] at learns
  have general : hState.recognised = .general → known = announced →
      (((base.knowing announced).matching index hState).goto
        .headerValueDiscardWs).onHeaderValueStart first =
          .advance (((base.knowing announced).matching 0 .general).goto
            .headerValue) [.mark .headerValue] →
      ∃ parser found,
        (((base.knowing announced).matching index hState).goto
          .headerValueDiscardWs).onHeaderValueStart first =
            .advance parser [.mark .headerValue] ∧
        parser.state = .headerValue ∧
        followValue (parser, parser.headerState) rest = some found ∧
        settled found = (base.knowing known).unmatched.goto .headerValue := by
    rintro - rfl starts
    exact ⟨_, _, starts, rfl, follow_general _ rest, rfl⟩
  cases hState
  case general | c | co | con | matchingConnection |
      matchingProxyConnection | matchingContentLength |
      matchingTransferEncoding | matchingUpgrade =>
    cases learns
    exact general rfl rfl rfl
  case connection =>
    cases learns
    obtain ⟨found, follows, same⟩ := follow_connection
      (((base.knowing announced).matching 0 (connectionState first)).goto
        .headerValue) first rest
    exact ⟨_, found, rfl, rfl, follows, same⟩
  case transferEncoding =>
    cases learns
    obtain ⟨found, follows, same⟩ := follow_coding
      (((base.knowing announced).matching 0 (codingState first)).goto
        .headerValue) first rest
    exact ⟨_, found, rfl, rfl, follows, same⟩
  case upgrade =>
    cases learns
    exact ⟨_, _, rfl, rfl, follow_general _ rest, rfl⟩
  case contentLength =>
    dsimp only [HeaderState.recognised] at learns
    split_ifs at learns with fits
    cases learns
    obtain ⟨⟨num, digits⟩, bounded⟩ := fits
    let parser : RequestParser :=
      { ((base.knowing announced).matching 0 .contentLength).goto .headerValue with
        contentLength := (first - octet '0').toUInt64 }
    have number : numberFrom 0 (first :: rest) =
        numberFrom parser.contentLength.toNat rest := by
      have noSpace : first ≠ octet ' ' := by
        rintro rfl
        exact absurd num (by decide)
      rw [numberFrom, List.foldl_cons, if_neg noSpace, Nat.zero_mul,
        Nat.zero_add]
      exact congrArg (numberFrom · rest) (UInt8.toNat_toUInt64 _).symm
    have small := le_numberFrom parser.contentLength.toNat rest
    rw [number] at bounded
    have follows := follow_length parser (small.trans bounded) rest
    rw [if_pos ⟨digits, bounded⟩] at follows
    refine ⟨parser, _, ?_, rfl, follows, ?_⟩
    · have isDigit : ¬ (!isNum first) = true := by simp [num]
      exact if_neg isDigit
    · rw [number]
      rfl
  all_goals cases hasRead

/-- A line of a header is reported as its name and its value, and what it
tells is known behind it. -/
theorem line_leads {base : RequestParser} {announced known : Announced}
    (start : base.state = .headerFieldStart) (line : HeaderLine)
    (learns : announced.learn line.name line.value = some known) :
    ∃ index hState, (base.knowing announced).Leads line.text line.callbacks
      ((base.knowing known).matching index hState) := by
  obtain ⟨index, hState, hasRead, recognised, name⟩ :=
    @name_recognised (base.knowing announced) start _ line.named line.tokens
  have front := name.append (@blanks_read
    (((base.knowing announced).matching index hState).goto .headerValueDiscardWs)
    rfl _ line.areBlanks)
  have whole : line.text =
      line.name ++ [octet ':'] ++ line.blanks ++ (line.value ++ [CR, LF]) := by
    simp only [HeaderLine.text, List.append_assoc, List.cons_append,
      List.nil_append]
  have stands : ∀ announced : Announced, ((base.knowing announced).goto
      .headerFieldStart) = base.knowing announced := by
    intro announced
    rw [goto, ← start]
    rfl
  unfold HeaderLine.callbacks
  rw [whole]
  cases text : line.value with
  | nil =>
      rw [text] at learns
      cases learns
      have ends := front.leads (@empty_leads
        (((base.knowing announced).matching index hState).goto
          .headerValueDiscardWs) rfl)
      have unset : (((base.knowing announced).matching index hState).goto
          .headerValueDiscardWs).setFlag =
            ((base.knowing announced).matching index hState).goto
              .headerValueDiscardWs := by
        cases hState <;> first | rfl | cases hasRead
      refine ⟨index, hState, ?_⟩
      have moved : ((base.knowing announced).matching index hState).goto
          .headerFieldStart = (base.knowing announced).matching index hState :=
        congrArg (matching · index hState) (stands announced)
      rw [unset, goto_goto, moved] at ends
      exact ends
  | cons first rest =>
      have inside := line.inside
      have begins := line.begins
      rw [text] at learns inside begins
      obtain ⟨insideFirst, inside⟩ := List.forall_mem_cons.mp inside
      obtain ⟨parser, found, starts, state, follows, settles⟩ :=
        value_learnt base hasRead recognised learns
      have reaction := @first_reaction
        (((base.knowing announced).matching index hState).goto
          .headerValueDiscardWs) rfl first (begins first rfl) insideFirst
      rw [starts] at reaction
      have piece : (Case.advance parser [.mark .headerValue]).reaction first =
          ⟨parser, [.headerValue [], .headerValue [first]], .advance⟩ := by
        simp [Case.reaction, Case.advance, Effect.outputs, Token.callback,
          RequestParser.piece, state, CountingParser.tokenAt]
      rw [piece] at reaction
      have behind := (Reads.byte reaction).leads
        (value_leads state inside follows)
      have ends := front.leads behind
      refine ⟨(store found).setFlag.index, (store found).setFlag.headerState,
        ?_⟩
      have final : (store found).setFlag.goto .headerFieldStart =
          (base.knowing known).matching (store found).setFlag.index
            (store found).setFlag.headerState := by
        calc (store found).setFlag.goto .headerFieldStart
            = ((settled found).goto .headerFieldStart).matching
                (store found).setFlag.index
                (store found).setFlag.headerState := rfl
          _ = ((base.knowing known).goto .headerFieldStart).matching
                (store found).setFlag.index
                (store found).setFlag.headerState := by rw [settles]; rfl
          _ = _ := by rw [stands]
      rw [final] at ends
      refine ends.of_alike ?_
      have pieces := HttpCallback.alike_pieces .headerValue [] (first :: rest)
      exact pieces.append_left [.headerField line.name]

end RequestParser

end Woody
