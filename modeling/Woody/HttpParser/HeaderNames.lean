import Woody.HttpParser.Reading

/-!
# The names of headers

A header name is compared with five words at once while it is read.  The
matcher keeps an index and the word that is left; behind the name it tells
whether the name is one of the words, the case of letters aside.
-/

namespace Woody

open Scanner

namespace HeaderState

/-- The words that names are compared with, and what they stand for. -/
def words : List (Bytes × HeaderState) :=
  [(CONNECTION, .connection), (PROXY_CONNECTION, .connection),
    (CONTENT_LENGTH, .contentLength), (TRANSFER_ENCODING, .transferEncoding),
    (UPGRADE, .upgrade)]

/-- The header that a name stands for. -/
def ofName (name : Bytes) : HeaderState :=
  (words.lookup (name.map token)).getD .general

/-- The header that the matcher has recognised. -/
def recognised : HeaderState → HeaderState
  | .connection => .connection
  | .contentLength => .contentLength
  | .transferEncoding => .transferEncoding
  | .upgrade => .upgrade
  | _ => .general

/-- A front of a word that is the front of no other word. -/
def IsFront (word : Bytes) (least index : Nat) (taken : Bytes) : Prop :=
  least ≤ index ∧ index + 1 < word.length ∧ taken = word.take (index + 1)

/-- What the matcher has read in a state. -/
def HasRead (index : Nat) (taken : Bytes) : HeaderState → Prop
  | .general => ∀ word ∈ words, ¬ taken <+: word.1
  | .c => index = 0 ∧ taken = ascii "c"
  | .co => index = 1 ∧ taken = ascii "co"
  | .con => index = 2 ∧ taken = ascii "con"
  | .matchingConnection => IsFront CONNECTION 3 index taken
  | .matchingProxyConnection => IsFront PROXY_CONNECTION 0 index taken
  | .matchingContentLength => IsFront CONTENT_LENGTH 3 index taken
  | .matchingTransferEncoding => IsFront TRANSFER_ENCODING 0 index taken
  | .matchingUpgrade => IsFront UPGRADE 0 index taken
  | .connection => taken = CONNECTION ∨ taken = PROXY_CONNECTION
  | .contentLength => taken = CONTENT_LENGTH
  | .transferEncoding => taken = TRANSFER_ENCODING
  | .upgrade => taken = UPGRADE
  | _ => False

/-- A front of this length belongs to one word only. -/
def Alone (word : Bytes) (least : Nat) : Prop :=
  ∀ other ∈ words, word.take (least + 1) <+: other.1 → other.1 = word

instance (word : Bytes) (least : Nat) : Decidable (Alone word least) :=
  inferInstanceAs (Decidable (∀ other ∈ words, _ → _))

theorem Alone.of_front {word taken : Bytes} {least index : Nat}
    (alone : Alone word least) (front : IsFront word least index taken) :
    ∀ other ∈ words, taken <+: other.1 → other.1 = word := by
  obtain ⟨le, -, rfl⟩ := front
  intro other member taken
  apply alone other member
  exact (List.take_prefix_take_left (Nat.succ_le_succ le)).trans taken

/-- The front of a word, one character longer or not the front of a word. -/
theorem IsFront.next {word taken : Bytes} {least index : Nat}
    (alone : Alone word least) (front : IsFront word least index taken)
    (c : UInt8) :
    match matchAt word (index + 1) c with
    | .failed => ∀ other ∈ words, ¬ taken ++ [c] <+: other.1
    | .complete => taken ++ [c] = word
    | .more => IsFront word least (index + 1) (taken ++ [c]) := by
  have unique := alone.of_front front
  obtain ⟨le, inside, rfl⟩ := front
  have longer : c = word.getD (index + 1) 0 →
      word.take (index + 1) ++ [c] = word.take (index + 1 + 1) := by
    rintro rfl
    rw [List.take_succ_eq_append_getElem inside,
      List.getD_eq_getElem _ _ inside]
  unfold matchAt
  split_ifs with failed last
  · have differs : c ≠ word.getD (index + 1) 0 := by
      rcases failed with wrong | differs
      · omega
      · exact differs
    intro other member longerFront
    have same := unique other member
      ((List.prefix_append _ _).trans longerFront)
    rw [same] at longerFront
    obtain ⟨rest, split⟩ := longerFront
    apply differs
    rw [← split, List.append_assoc, List.getD_append_right _ _ _ _ (by simp)]
    simp [Nat.min_eq_left inside.le]
  · obtain ⟨-, same⟩ := not_or.mp failed
    rw [longer (not_not.mp same), List.take_of_length_le (by omega)]
  · obtain ⟨-, same⟩ := not_or.mp failed
    exact ⟨by omega, by omega, longer (not_not.mp same)⟩

/-- What is no front of a word does not become one. -/
theorem not_front_append {taken : Bytes}
    (none : ∀ word ∈ words, ¬ taken <+: word.1) (more : Bytes) :
    ∀ word ∈ words, ¬ taken ++ more <+: word.1 :=
  fun word member front => none word member
    ((List.prefix_append taken more).trans front)

theorem not_front_of_word {word : Bytes} (c : UInt8)
    (whole : ∀ other ∈ words, word <+: other.1 → other.1 = word) :
    ∀ other ∈ words, ¬ word ++ [c] <+: other.1 := by
  intro other member front
  have same := whole other member ((List.prefix_append _ _).trans front)
  have length := front.length_le
  rw [same, List.length_append] at length
  exact Nat.not_succ_le_self _ length

/-- How the words go on that begin with the front of `connection`. -/
theorem front_con (c : UInt8) :
    (c ≠ octet 'o' → ∀ word ∈ words, ¬ ascii "c" ++ [c] <+: word.1) ∧
    (c ≠ octet 'n' → ∀ word ∈ words, ¬ ascii "co" ++ [c] <+: word.1) ∧
    (c ≠ octet 'n' ∧ c ≠ octet 't' →
      ∀ word ∈ words, ¬ ascii "con" ++ [c] <+: word.1) :=
  @forall_byte (fun c =>
    (c ≠ octet 'o' → ∀ word ∈ words, ¬ ascii "c" ++ [c] <+: word.1) ∧
    (c ≠ octet 'n' → ∀ word ∈ words, ¬ ascii "co" ++ [c] <+: word.1) ∧
    (c ≠ octet 'n' ∧ c ≠ octet 't' →
      ∀ word ∈ words, ¬ ascii "con" ++ [c] <+: word.1)) (by decide +kernel) c

theorem front_first (c : UInt8) :
    (if c = octet 'c' then .c
      else if c = octet 'p' then .matchingProxyConnection
      else if c = octet 't' then .matchingTransferEncoding
      else if c = octet 'u' then .matchingUpgrade
      else .general : HeaderState).HasRead 0 [c] := by
  split_ifs with c p t u
  · rw [c]
    exact ⟨rfl, rfl⟩
  · rw [p]
    exact ⟨by decide, by decide, by decide⟩
  · rw [t]
    exact ⟨by decide, by decide, by decide⟩
  · rw [u]
    exact ⟨by decide, by decide, by decide⟩
  · intro word member front
    obtain ⟨rest, split⟩ := front
    have heads : ∀ word ∈ words, word.1.head? ∈
        [octet 'c', octet 'p', octet 't', octet 'u'].map some := by decide
    have head := heads word member
    rw [← split] at head
    simp [c, p, t, u] at head

/-- Behind a name the matcher knows what it stands for. -/
theorem HasRead.recognised {hState : HeaderState} {index : Nat} {name : Bytes}
    (hasRead : hState.HasRead index (name.map token)) :
    hState.recognised = ofName name := by
  have unlisted : ∀ {taken : Bytes},
      (∀ word ∈ words, taken ≠ word.1) → words.lookup taken = none := by
    intro taken differs
    rw [List.lookup_eq_none_iff]
    exact fun word member => bne_iff_ne.mpr (differs word member)
  have part : ∀ {taken word : Bytes} {least : Nat},
      IsFront word least index taken → Alone word least →
      (∀ word ∈ words, taken ≠ word.1) := by
    intro taken word least front alone other member same
    have whole := alone.of_front front other member (same ▸ List.prefix_refl _)
    have length := congrArg List.length (same.trans whole)
    rw [front.2.2, List.length_take] at length
    have inside := front.2.1
    omega
  unfold ofName
  cases hState
  case general =>
    rw [unlisted fun word member same =>
      hasRead word member (same ▸ List.prefix_refl _)]
    rfl
  case c | co | con =>
    rw [hasRead.2]
    rfl
  case matchingConnection | matchingProxyConnection | matchingContentLength |
      matchingTransferEncoding | matchingUpgrade =>
    rw [unlisted (part hasRead (by decide))]
    rfl
  case connection =>
    rcases hasRead with same | same <;> rw [same] <;> rfl
  case contentLength | transferEncoding | upgrade =>
    rw [show name.map token = _ from hasRead]
    rfl
  all_goals cases hasRead

end HeaderState

namespace RequestParser

variable {parser : RequestParser} {taken : Bytes}

open HeaderState

theorem matchName_hasRead {word : Bytes} {least : Nat} {found : HeaderState}
    {c : UInt8} (alone : Alone word least)
    (front : IsFront word least parser.index taken)
    (matching : ∀ index taken, IsFront word least index taken →
      parser.headerState.HasRead index taken)
    (complete : ∀ index, found.HasRead index word) :
    (parser.matchName word c found).headerState.HasRead
      (parser.matchName word c found).index (taken ++ [c]) := by
  have next := front.next alone c
  unfold matchName
  dsimp only
  cases more : matchAt word (parser.index + 1) c with
  | failed =>
      rw [more] at next
      exact next
  | complete =>
      rw [more] at next
      dsimp only at next ⊢
      rw [next]
      exact complete _
  | more =>
      rw [more] at next
      exact matching _ _ next

theorem onFieldChar_hasRead {ch : UInt8} (some : token ch ≠ 0)
    (hasRead : parser.headerState.HasRead parser.index taken) :
    (parser.onFieldChar ch (token ch)).headerState.HasRead
      (parser.onFieldChar ch (token ch)).index (taken ++ [token ch]) := by
  have noSpace : ch ≠ octet ' ' := by
    rintro rfl
    exact some (by decide)
  unfold onFieldChar
  cases state : parser.headerState <;> rw [state] at hasRead <;> dsimp only
  case general =>
    rw [state]
    exact not_front_append hasRead _
  case c =>
    obtain ⟨index, rfl⟩ := hasRead
    rw [index]
    split_ifs with o
    · rw [o]
      exact ⟨rfl, rfl⟩
    · exact (front_con (token ch)).1 o
  case co =>
    obtain ⟨index, rfl⟩ := hasRead
    rw [index]
    split_ifs with n
    · rw [n]
      exact ⟨rfl, rfl⟩
    · exact (front_con (token ch)).2.1 n
  case con =>
    obtain ⟨index, rfl⟩ := hasRead
    rw [index]
    split_ifs with n t
    · rw [n]
      exact ⟨by decide, by decide, by decide⟩
    · rw [t]
      exact ⟨by decide, by decide, by decide⟩
    · exact (front_con (token ch)).2.2 ⟨n, t⟩
  case matchingConnection =>
    exact matchName_hasRead (by decide) hasRead
      (fun _ _ front => by rw [state]; exact front) (fun _ => .inl rfl)
  case matchingProxyConnection =>
    exact matchName_hasRead (by decide) hasRead
      (fun _ _ front => by rw [state]; exact front) (fun _ => .inr rfl)
  case matchingContentLength | matchingTransferEncoding | matchingUpgrade =>
    exact matchName_hasRead (by decide) hasRead
      (fun _ _ front => by rw [state]; exact front) (fun _ => rfl)
  case connection =>
    rw [if_pos noSpace]
    rcases hasRead with rfl | rfl <;>
      exact not_front_of_word _ (by decide)
  case contentLength | transferEncoding | upgrade =>
    rw [if_pos noSpace]
    cases hasRead
    exact not_front_of_word _ (by decide)
  all_goals cases hasRead

/-- The parser behind a header name, in front of its colon. -/
def InName (base parser : RequestParser) (taken : Bytes) : Prop :=
  ∃ index hState, parser =
      { base with
        state := .headerField
        index := index
        headerState := hState } ∧
    hState.HasRead index (taken.map token)

theorem name_first {base : RequestParser}
    (start : base.state = .headerFieldStart) {ch : UInt8}
    (some : token ch ≠ 0) :
    ∃ parser, base.react ch =
        ⟨parser, [.headerField [], .headerField [ch]], .advance⟩ ∧
      base.InName parser [ch] := by
  have notEnd : ch ≠ CR ∧ ch ≠ LF := by
    constructor <;> rintro rfl <;> exact some (by decide)
  unfold react
  simp only [start, onByte, onHeaderFieldStart, notEnd.1, notEnd.2, if_false,
    some]
  exact ⟨_, rfl, _, _, rfl, front_first (token ch)⟩

theorem name_reads {base parser : RequestParser} {taken : Bytes}
    (inName : base.InName parser taken) {name : Bytes}
    (tokens : ∀ ch ∈ name, token ch ≠ 0) :
    ∃ later, scan react parser name =
        ⟨later, name.map fun ch => .headerField [ch], [], .advance⟩ ∧
      base.InName later (taken ++ name) := by
  induction name generalizing parser taken with
  | nil => exact ⟨parser, rfl, by rwa [List.append_nil]⟩
  | cons ch name ih =>
      obtain ⟨some, tokens⟩ := List.forall_mem_cons.mp tokens
      have field : parser.state = .headerField := by
        obtain ⟨index, hState, rfl, -⟩ := inName
        rfl
      have reaction : parser.react ch =
          ⟨parser.onFieldChar ch (token ch), [.headerField [ch]],
            .advance⟩ := by
        simp [react, field, reactHeaderField, some]
      have next : base.InName (parser.onFieldChar ch (token ch))
          (taken ++ [ch]) := by
        obtain ⟨index, hState, rfl, hasRead⟩ := inName
        have longer := @onFieldChar_hasRead
          { base with
            state := .headerField
            index := index
            headerState := hState } _ ch some hasRead
        obtain ⟨index', hState', same⟩ := @onFieldChar_frame
          { base with
            state := .headerField
            index := index
            headerState := hState } ch (token ch)
        rw [same] at longer ⊢
        refine ⟨index', hState', rfl, ?_⟩
        rw [List.map_append]
        exact longer
      obtain ⟨later, read, inLater⟩ := ih next tokens
      rw [List.append_assoc] at inLater
      refine ⟨later, ?_, inLater⟩
      rw [scan_cons_advance (by rw [reaction]), reaction]
      dsimp only
      rw [read]
      rfl

/-- What a header name stands for is known behind the colon, and the name
is reported. -/
theorem name_recognised {base : RequestParser}
    (start : base.state = .headerFieldStart) {name : Bytes} (some : name ≠ [])
    (tokens : ∀ ch ∈ name, token ch ≠ 0) :
    ∃ index hState, hState.HasRead index (name.map token) ∧
      hState.recognised = ofName name ∧
      base.Reads (name ++ [octet ':']) [.headerField name]
        { base with
          state := .headerValueDiscardWs
          index := index
          headerState := hState } := by
  obtain ⟨ch, name, rfl⟩ := List.exists_cons_of_ne_nil some
  obtain ⟨first, tokens⟩ := List.forall_mem_cons.mp tokens
  obtain ⟨parser, reaction, inName⟩ := name_first start first
  obtain ⟨later, read, index, hState, rfl, hasRead⟩ := name_reads inName tokens
  refine ⟨index, hState, hasRead, hasRead.recognised, ?_⟩
  have front : base.Reads (ch :: name) [.headerField (ch :: name)]
      { base with
        state := .headerField
        index := index
        headerState := hState } := by
    refine ⟨_, ?_, HttpCallback.alike_pieces .headerField [] (ch :: name)⟩
    rw [scan_cons_advance (by rw [reaction]), reaction]
    dsimp only
    rw [read]
    rfl
  exact front.append (.byte rfl)

end RequestParser

end Woody
