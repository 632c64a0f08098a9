import Woody.Foundation.Lines
import Woody.HttpParser.Headers

/-!
# The values of headers

The values of four headers tell the parser how long the message is and what
comes behind it.  A value is compared with a word while it is read; behind the
word spaces may follow.  The value of `Connection` is a list of options.
-/

namespace Woody

open Scanner

namespace RequestParser

/-- The loop over a value. -/
def followValue (found : RequestParser × HeaderState) (value : Bytes) :
    Option (RequestParser × HeaderState) :=
  value.foldlM (fun found ch => found.1.onValueChar found.2 ch) found

theorem followValue_cons (found : RequestParser × HeaderState) (ch : UInt8)
    (value : Bytes) :
    followValue found (ch :: value) =
      (found.1.onValueChar found.2 ch).bind fun later =>
        followValue later value := by
  unfold followValue
  rw [List.foldlM_cons]
  rfl

theorem followValue_append (found : RequestParser × HeaderState)
    (early late : Bytes) :
    followValue found (early ++ late) =
      (followValue found early).bind fun later => followValue later late := by
  unfold followValue
  rw [List.foldlM_append]
  rfl

theorem scan_value {parser : RequestParser} {hState : HeaderState}
    (inValue : parser.state = .headerValue) {value : Bytes}
    (inside : ∀ ch ∈ value, ¬ IsLineEnd ch) :
    match followValue (parser, hState) value with
    | some found =>
        scan react (store (parser, hState)) value =
            ⟨store found, value.map fun ch => .headerValue [ch], [],
              .advance⟩ ∧ found.1.state = .headerValue
    | none =>
        (scan react (store (parser, hState)) value).verdict = .error ∧
          (scan react (store (parser, hState)) value).state.httpErrno =
            .invalidContentLength := by
  induction value generalizing parser hState with
  | nil => exact ⟨rfl, inValue⟩
  | cons ch value ih =>
      obtain ⟨first, inside⟩ := List.forall_mem_cons.mp inside
      have reaction := @react_value parser hState ch inValue first
      rw [followValue_cons]
      dsimp only
      cases next : parser.onValueChar hState ch with
      | none =>
          rw [next] at reaction
          rw [Option.bind_none, scan_cons_error (by rw [reaction]; rfl),
            reaction]
          exact ⟨rfl, rfl⟩
      | some found =>
          rw [next] at reaction
          rw [Option.bind_some, scan_cons_advance (by rw [reaction]; rfl),
            reaction]
          have rest := @ih found.1 found.2 (onValueChar_state inValue next)
            inside
          rw [Prod.mk.eta] at rest
          cases follows : followValue found value with
          | none =>
              rw [follows] at rest
              exact rest
          | some later =>
              rw [follows] at rest
              dsimp only [Option.map_some] at rest ⊢
              rw [rest.1]
              exact ⟨rfl, rest.2⟩

end RequestParser

def areSpaces (text : Bytes) : Bool := text.all (· = octet ' ')

/-- The option is the word, the case of letters aside, with spaces behind. -/
def Names (word option : Bytes) : Prop :=
  (option.take word.length).map lower = word ∧
    areSpaces (option.drop word.length)

instance (word option : Bytes) : Decidable (Names word option) :=
  inferInstanceAs (Decidable (_ ∧ _))

/-- The option is the front of a word. -/
def IsPart (word option : Bytes) : Prop :=
  option.map lower <+: word ∧ option.length < word.length

instance (word option : Bytes) : Decidable (IsPart word option) :=
  inferInstanceAs (Decidable (_ ∧ _))

theorem names_cons {first ch : UInt8} {word option : Bytes} :
    Names (first :: word) (ch :: option) ↔
      lower ch = first ∧ Names word option := by
  simp [Names, and_assoc]

theorem isPart_cons {first ch : UInt8} {word option : Bytes} :
    IsPart (first :: word) (ch :: option) ↔
      lower ch = first ∧ IsPart word option := by
  simp [IsPart, List.cons_prefix_cons, and_assoc]

theorem names_nil {option : Bytes} : Names [] option ↔ areSpaces option := by
  simp [Names]

theorem not_names_empty {first : UInt8} {word : Bytes} :
    ¬ Names (first :: word) [] := by
  rintro ⟨named, -⟩
  cases named

theorem isPart_empty {first : UInt8} {word : Bytes} :
    IsPart (first :: word) [] :=
  ⟨List.nil_prefix, Nat.succ_pos _⟩

theorem Names.not_isPart {word option : Bytes} (names : Names word option) :
    ¬ IsPart word option := by
  intro part
  have length := congrArg List.length names.1
  rw [List.length_map, List.length_take] at length
  have shorter := part.2
  omega

/-- How a value is compared with a word: in one state while they agree, in
another one behind the word, and in a third one when they differ.  What is not
plain ends the comparison. -/
structure Compares (word : Bytes) (matching found other : HeaderState)
    (plain : UInt8 → Prop) : Prop where
  long : 1 < word.length
  matching_char : ∀ (parser : RequestParser) (ch : UInt8),
    parser.onValueChar matching ch =
      some (parser.matchValue matching word (lower ch) other found)
  found_char : ∀ (parser : RequestParser) (ch : UInt8), plain ch →
    parser.onValueChar found ch =
      some (parser, if ch = octet ' ' then found else other)
  other_char : ∀ (parser : RequestParser) (ch : UInt8), plain ch →
    parser.onValueChar other ch = some (parser, other)

/-- A character that does not end an option. -/
def InOption (ch : UInt8) : Prop := ch ≠ octet ','

theorem compares_chunked : Compares CHUNKED .matchingTransferEncodingChunked
    .transferEncodingChunked .general fun _ => True where
  long := by decide
  matching_char _ _ := rfl
  found_char parser ch _ := by
    unfold RequestParser.onValueChar
    dsimp only
    rw [ite_not]
  other_char _ _ _ := rfl

theorem compares_keepAlive : Compares KEEP_ALIVE .matchingConnectionKeepAlive
    .connectionKeepAlive .matchingConnectionToken InOption where
  long := by decide
  matching_char _ _ := rfl
  found_char parser ch inside := by
    unfold RequestParser.onValueChar
    dsimp only
    rw [if_neg inside, ite_not]
    split_ifs <;> rfl
  other_char _ _ inside := if_neg inside

theorem compares_close : Compares CLOSE .matchingConnectionClose
    .connectionClose .matchingConnectionToken InOption where
  long := by decide
  matching_char _ _ := rfl
  found_char parser ch inside := by
    unfold RequestParser.onValueChar
    dsimp only
    rw [if_neg inside, ite_not]
    split_ifs <;> rfl
  other_char _ _ inside := if_neg inside

theorem compares_upgrade : Compares UPGRADE .matchingConnectionUpgrade
    .connectionUpgrade .matchingConnectionToken InOption where
  long := by decide
  matching_char _ _ := rfl
  found_char parser ch inside := by
    unfold RequestParser.onValueChar
    dsimp only
    rw [if_neg inside, ite_not]
    split_ifs <;> rfl
  other_char _ _ inside := if_neg inside

namespace Compares

open RequestParser

variable {word : Bytes} {matching found other : HeaderState}
  {plain : UInt8 → Prop} (compares : Compares word matching found other plain)

include compares

theorem follow_other (parser : RequestParser) {rest : Bytes}
    (inOption : ∀ ch ∈ rest, plain ch) :
    followValue (parser, other) rest = some (parser, other) := by
  induction rest with
  | nil => rfl
  | cons ch rest ih =>
      obtain ⟨first, inOption⟩ := List.forall_mem_cons.mp inOption
      rw [followValue_cons, compares.other_char parser ch first]
      exact ih inOption

theorem follow_found (parser : RequestParser) {rest : Bytes}
    (inOption : ∀ ch ∈ rest, plain ch) :
    followValue (parser, found) rest =
      some (parser, if areSpaces rest then found else other) := by
  induction rest with
  | nil => rfl
  | cons ch rest ih =>
      obtain ⟨first, inOption⟩ := List.forall_mem_cons.mp inOption
      rw [followValue_cons, compares.found_char parser ch first,
        Option.bind_some]
      by_cases space : ch = octet ' '
      · rw [if_pos space, ih inOption]
        simp [areSpaces, space]
      · rw [if_neg space, compares.follow_other parser inOption]
        simp [areSpaces, space]

/-- The rest of an option, behind a front of the word. -/
theorem follow_matching (parser : RequestParser) {index : Nat}
    (inside : index + 1 < word.length) {rest : Bytes}
    (inOption : ∀ ch ∈ rest, plain ch) :
    ∃ later, followValue ({ parser with index := index }, matching) rest =
      some ({ parser with index := later },
        if Names (word.drop (index + 1)) rest then found
        else if IsPart (word.drop (index + 1)) rest then matching
        else other) := by
  have split := List.drop_eq_getElem_cons inside
  rw [split]
  induction rest generalizing index with
  | nil =>
      refine ⟨index, ?_⟩
      rw [if_neg not_names_empty, if_pos isPart_empty]
      rfl
  | cons ch rest ih =>
      obtain ⟨first, inOption⟩ := List.forall_mem_cons.mp inOption
      rw [followValue_cons, compares.matching_char, Option.bind_some]
      simp only [names_cons, isPart_cons]
      unfold matchValue matchAt
      dsimp only
      have getD := List.getD_eq_getElem word 0 inside
      by_cases same : lower ch = word[index + 1]
      · have goesOn : ¬ (index + 1 > word.length ∨
            lower ch ≠ word.getD (index + 1) 0) := by
          rw [getD, same]
          exact not_or.mpr ⟨by omega, fun differs => differs rfl⟩
        rw [if_neg goesOn, same]
        simp only [true_and]
        by_cases last : index + 1 = word.length - 1
        · have none : word.drop (index + 1 + 1) = [] :=
            List.drop_eq_nil_of_le (by omega)
          have noPart : ¬ IsPart [] rest := fun part => Nat.not_lt_zero _ part.2
          rw [if_pos last, none]
          refine ⟨index + 1, ?_⟩
          dsimp only
          rw [compares.follow_found _ inOption, if_neg noPart]
          simp only [names_nil]
        · have insideNext : index + 1 + 1 < word.length := by omega
          rw [if_neg last]
          dsimp only
          rw [List.drop_eq_getElem_cons insideNext]
          exact ih insideNext inOption (List.drop_eq_getElem_cons insideNext)
      · have fails : index + 1 > word.length ∨
            lower ch ≠ word.getD (index + 1) 0 := by
          rw [getD]
          exact .inr same
        rw [if_pos fails]
        simp only [same, false_and, if_false]
        exact ⟨index + 1, compares.follow_other _ inOption⟩

end Compares

/-- The state of the matcher behind the first character of an option. -/
def connectionState (ch : UInt8) : HeaderState :=
  if lower ch = octet 'k' then .matchingConnectionKeepAlive
  else if lower ch = octet 'c' then .matchingConnectionClose
  else if lower ch = octet 'u' then .matchingConnectionUpgrade
  else .matchingConnectionToken

/-- The state of the matcher behind an option. -/
def optionState (option : Bytes) : HeaderState :=
  if Names KEEP_ALIVE option then .connectionKeepAlive
  else if Names CLOSE option then .connectionClose
  else if Names UPGRADE option then .connectionUpgrade
  else if IsPart KEEP_ALIVE option then .matchingConnectionKeepAlive
  else if IsPart CLOSE option then .matchingConnectionClose
  else if IsPart UPGRADE option then .matchingConnectionUpgrade
  else .matchingConnectionToken

/-- Behind the front of a word a comma does not end the option. -/
def swallows (option : Bytes) : Bool :=
  IsPart KEEP_ALIVE option || IsPart CLOSE option || IsPart UPGRADE option

/-- The options that are looked at, of the pieces between commas that come
behind an option.  An empty one is the last one. -/
def heard : Bool → List Bytes → List Bytes
  | _, [] => []
  | true, _ :: later => heard false later
  | false, piece :: later =>
      match piece.dropWhile fun ch => lower ch = octet ' ' with
      | [] => []
      | ch :: rest =>
          if token (lower ch) = 0 then []
          else (ch :: rest) :: heard (swallows (ch :: rest)) later

/-- The options of a value that are looked at. -/
def connectionOptions (value : Bytes) : List Bytes :=
  match value.splitOn (octet ',') with
  | [] => []
  | first :: later => first :: heard (swallows first) later

/-- The flags behind an option. -/
def Flags.hear (flags : Flags) (option : Bytes) : Flags :=
  { flags with
    connectionKeepAlive :=
      flags.connectionKeepAlive || Names KEEP_ALIVE option
    connectionClose := flags.connectionClose || Names CLOSE option
    connectionUpgrade := flags.connectionUpgrade || Names UPGRADE option }

theorem words_split : KEEP_ALIVE = octet 'k' :: KEEP_ALIVE.drop 1 ∧
    CLOSE = octet 'c' :: CLOSE.drop 1 ∧
    UPGRADE = octet 'u' :: UPGRADE.drop 1 := by
  decide

namespace RequestParser

theorem follow_option (parser : RequestParser) {ch : UInt8} {rest : Bytes}
    (inOption : ∀ ch ∈ rest, InOption ch) :
    ∃ later, followValue ({ parser with index := 0 }, connectionState ch) rest =
      some ({ parser with index := later }, optionState (ch :: rest)) := by
  obtain ⟨keepAlive, close, upgrade⟩ := words_split
  obtain ⟨kc, ku, cu⟩ : octet 'k' ≠ octet 'c' ∧ octet 'k' ≠ octet 'u' ∧
      octet 'c' ≠ octet 'u' := by decide
  unfold connectionState optionState
  rw [keepAlive, close, upgrade]
  simp only [names_cons, isPart_cons]
  by_cases k : lower ch = octet 'k'
  · simp only [k, kc, ku, if_true, if_false, true_and, false_and]
    exact compares_keepAlive.follow_matching parser (by decide) inOption
  by_cases c : lower ch = octet 'c'
  · simp only [c, kc.symm, cu, if_true, if_false, true_and, false_and]
    exact compares_close.follow_matching parser (by decide) inOption
  by_cases u : lower ch = octet 'u'
  · simp only [u, ku.symm, cu.symm, if_true, if_false, true_and, false_and]
    exact compares_upgrade.follow_matching parser (by decide) inOption
  · simp only [k, c, u, if_false, false_and]
    exact ⟨0, compares_keepAlive.follow_other _ inOption⟩

/-- The parser with what the matcher does not write to. -/
def unmatched (parser : RequestParser) : RequestParser :=
  { parser with index := 0, headerState := .general }

/-- What is known behind a value that ends in this state. -/
def settled (found : RequestParser × HeaderState) : RequestParser :=
  (store found).setFlag.unmatched

theorem settled_option (parser : RequestParser) (ch : UInt8) (rest : Bytes) :
    settled (parser, optionState (ch :: rest)) =
      { parser.unmatched with flags := parser.flags.hear (ch :: rest) } := by
  obtain ⟨keepAlive, close, upgrade⟩ := words_split
  obtain ⟨kc, ku, cu⟩ : octet 'k' ≠ octet 'c' ∧ octet 'k' ≠ octet 'u' ∧
      octet 'c' ≠ octet 'u' := by decide
  unfold optionState Flags.hear
  rw [keepAlive, close, upgrade]
  simp only [names_cons, isPart_cons]
  by_cases k : lower ch = octet 'k'
  · simp only [k, kc, ku, if_false, true_and, false_and]
    split_ifs with names part <;>
      simp [settled, store, setFlag, unmatched, names, -List.drop_one]
  by_cases c : lower ch = octet 'c'
  · simp only [c, kc.symm, cu, if_false, true_and, false_and]
    split_ifs with names part <;>
      simp [settled, store, setFlag, unmatched, names, -List.drop_one]
  by_cases u : lower ch = octet 'u'
  · simp only [u, ku.symm, cu.symm, if_false, true_and, false_and]
    split_ifs with names part <;>
      simp [settled, store, setFlag, unmatched, names, -List.drop_one]
  · simp [k, c, u, settled, store, setFlag, unmatched]

/-- How a comma is read in a state: it ends an option, it belongs to one, or
nothing behind it is looked at. -/
def hearing : HeaderState → Option Bool
  | .matchingConnectionToken | .connectionKeepAlive | .connectionClose
  | .connectionUpgrade => some false
  | .matchingConnectionKeepAlive | .matchingConnectionClose
  | .matchingConnectionUpgrade => some true
  | _ => none

theorem hearing_optionState (ch : UInt8) (rest : Bytes) :
    hearing (optionState (ch :: rest)) = some (swallows (ch :: rest)) := by
  obtain ⟨keepAlive, close, upgrade⟩ := words_split
  obtain ⟨kc, ku, cu⟩ : octet 'k' ≠ octet 'c' ∧ octet 'k' ≠ octet 'u' ∧
      octet 'c' ≠ octet 'u' := by decide
  unfold optionState swallows
  rw [keepAlive, close, upgrade]
  simp only [names_cons, isPart_cons]
  by_cases k : lower ch = octet 'k'
  · simp only [k, kc, ku, if_false, true_and, false_and]
    split_ifs with names part
    · simp [hearing, names.not_isPart, -List.drop_one]
    · simp [hearing, part, -List.drop_one]
    · simp [hearing, part, -List.drop_one]
  by_cases c : lower ch = octet 'c'
  · simp only [c, kc.symm, cu, if_false, true_and, false_and]
    split_ifs with names part
    · simp [hearing, names.not_isPart, -List.drop_one]
    · simp [hearing, part, -List.drop_one]
    · simp [hearing, part, -List.drop_one]
  by_cases u : lower ch = octet 'u'
  · simp only [u, ku.symm, cu.symm, if_false, true_and, false_and]
    split_ifs with names part
    · simp [hearing, names.not_isPart, -List.drop_one]
    · simp [hearing, part, -List.drop_one]
    · simp [hearing, part, -List.drop_one]
  · simp [k, c, u, hearing]

theorem comma_ends (parser : RequestParser) {hState : HeaderState}
    (ends : hearing hState = some false) :
    ∃ next : RequestParser, parser.onValueChar hState (octet ',') =
        some ({ next with index := 0 }, .matchingConnectionTokenStart) ∧
      next.unmatched = settled (parser, hState) := by
  unfold onValueChar
  cases hState <;> cases ends <;> dsimp only <;> rw [if_pos rfl] <;>
    exact ⟨_, rfl, rfl⟩

theorem comma_belongs (parser : RequestParser) {hState : HeaderState}
    (belongs : hearing hState = some true) :
    parser.onValueChar hState (octet ',') =
      some ({ parser with index := parser.index + 1 },
        .matchingConnectionToken) := by
  have noComma : ∀ word ∈ [KEEP_ALIVE, CLOSE, UPGRADE],
      lower (octet ',') ∉ word := by decide
  have differs : ∀ word ∈ [KEEP_ALIVE, CLOSE, UPGRADE], ∀ index,
      matchAt word index (lower (octet ',')) = .failed := by
    intro word member index
    have none : lower (octet ',') ≠ word.getD index 0 := by
      by_cases inside : index < word.length
      · rw [List.getD_eq_getElem _ _ inside]
        intro same
        exact noComma word member (same ▸ List.getElem_mem inside)
      · rw [List.getD_eq_default _ _ (not_lt.mp inside)]
        decide
    exact if_pos (.inr none)
  unfold onValueChar matchValue
  cases hState <;> cases belongs <;> dsimp only
  · rw [differs KEEP_ALIVE (by simp)]
  · rw [differs CLOSE (by simp)]
  · rw [differs UPGRADE (by simp)]

theorem comma_start (parser : RequestParser) :
    parser.onValueChar .matchingConnectionTokenStart (octet ',') =
      some (parser, .general) := rfl

theorem follow_general (parser : RequestParser) (value : Bytes) :
    followValue (parser, .general) value = some (parser, .general) := by
  induction value with
  | nil => rfl
  | cons ch value ih =>
      rw [followValue_cons]
      exact ih

/-- A piece between two commas, where an option can begin. -/
theorem follow_piece (parser : RequestParser) {piece : Bytes}
    (inOption : ∀ ch ∈ piece, InOption ch) :
    followValue ({ parser with index := 0 }, .matchingConnectionTokenStart)
        piece =
      match piece.dropWhile fun ch => lower ch = octet ' ' with
      | [] => some ({ parser with index := 0 }, .matchingConnectionTokenStart)
      | ch :: rest =>
          if token (lower ch) = 0 then
            some ({ parser with index := 0 }, .general)
          else
            followValue ({ parser with index := 0 }, connectionState ch)
              rest := by
  induction piece with
  | nil => rfl
  | cons ch piece ih =>
      have inRest := (List.forall_mem_cons.mp inOption).2
      rw [followValue_cons, List.dropWhile_cons]
      have first : ∀ ch, ({ parser with index := 0 } : RequestParser).onValueChar
          .matchingConnectionTokenStart ch =
            some ({ parser with index := 0 },
              if lower ch = octet ' ' then .matchingConnectionTokenStart
              else if token (lower ch) = 0 then .general
              else connectionState ch) := by
        intro ch
        have letters := @forall_byte (fun ch =>
          (lower ch = octet ' ' → token (lower ch) = 0) ∧
          (lower ch = octet 'k' ∨ lower ch = octet 'c' ∨ lower ch = octet 'u' →
            lower ch ≠ octet ' ' ∧ token (lower ch) ≠ 0) ∧
          lower ch ≠ octet '\t') (by decide +kernel) ch
        unfold onValueChar connectionState
        dsimp only
        congr 2
        split_ifs <;> simp_all
      rw [first, Option.bind_some]
      by_cases blank : lower ch = octet ' '
      · rw [if_pos blank, ih inRest, decide_eq_true blank]
        rfl
      · rw [if_neg blank, decide_eq_false blank, if_neg Bool.false_ne_true]
        dsimp only
        split_ifs with stops
        · exact follow_general _ piece
        · rfl

/-- The parser behind options. -/
def hear (parser : RequestParser) (options : List Bytes) : RequestParser :=
  { parser with flags := options.foldl Flags.hear parser.flags }

/-- Where no option begins, nothing more is looked at. -/
theorem follow_start (parser : RequestParser) (later : List Bytes) :
    ∃ found, followValue (parser, .matchingConnectionTokenStart)
        (later.flatMap (octet ',' :: ·)) = some found ∧
      settled found = parser.unmatched := by
  cases later with
  | nil => exact ⟨_, rfl, rfl⟩
  | cons piece later =>
      rw [List.flatMap_cons, List.cons_append, followValue_cons, comma_start,
        Option.bind_some, follow_general]
      exact ⟨_, rfl, rfl⟩

/-- What the pieces behind an option tell. -/
theorem follow_pieces {later : List Bytes}
    (inOptions : ∀ piece ∈ later, ∀ ch ∈ piece, InOption ch) (parser : RequestParser)
    {hState : HeaderState} {swallow : Bool}
    (hears : hearing hState = some swallow) :
    ∃ found,
      followValue (parser, hState) (later.flatMap (octet ',' :: ·)) =
        some found ∧
      settled found = (settled (parser, hState)).hear (heard swallow later) := by
  induction later generalizing parser hState swallow with
  | nil => cases swallow <;> exact ⟨_, rfl, rfl⟩
  | cons piece later ih =>
      obtain ⟨inOption, inOptions⟩ := List.forall_mem_cons.mp inOptions
      rw [List.flatMap_cons, List.cons_append, followValue_cons]
      cases swallow with
      | true =>
          rw [comma_belongs parser hears, Option.bind_some, followValue_append,
            compares_close.follow_other _ inOption, Option.bind_some]
          obtain ⟨found, follows, same⟩ := ih inOptions
            { parser with index := parser.index + 1 }
            (show hearing .matchingConnectionToken = some false from rfl)
          refine ⟨found, follows, same.trans ?_⟩
          have kept : settled (parser, hState) = parser.unmatched := by
            cases hState <;> cases hears <;> rfl
          rw [kept]
          rfl
      | false =>
          obtain ⟨next, ends, kept⟩ := comma_ends parser hears
          rw [ends, Option.bind_some, followValue_append,
            follow_piece _ inOption, ← kept]
          unfold heard
          have partOf := List.dropWhile_suffix
            (l := piece) (fun ch => decide (lower ch = octet ' '))
          cases option : piece.dropWhile fun ch => lower ch = octet ' ' with
          | nil =>
              exact follow_start { next with index := 0 } later
          | cons ch rest =>
              dsimp only
              split_ifs with stops
              · rw [Option.bind_some, follow_general]
                exact ⟨_, rfl, rfl⟩
              · rw [option] at partOf
                have inRest : ∀ ch ∈ rest, InOption ch := fun ch member =>
                  inOption ch (partOf.subset (List.mem_cons_of_mem _ member))
                obtain ⟨index, follows⟩ := @follow_option next ch rest inRest
                rw [follows, Option.bind_some]
                obtain ⟨found, followsLater, same⟩ := ih inOptions
                  { next with index := index } (hearing_optionState ch rest)
                refine ⟨found, followsLater, same.trans ?_⟩
                rw [settled_option]
                rfl

/-- The options of a `Connection` header that are heard. -/
theorem follow_connection (parser : RequestParser) (ch : UInt8)
    (rest : Bytes) :
    ∃ found, followValue ({ parser with index := 0 }, connectionState ch)
        rest = some found ∧
      settled found = parser.unmatched.hear (connectionOptions (ch :: rest)) := by
  obtain ⟨first, later, pieces⟩ :=
    List.exists_cons_of_ne_nil (List.splitOn_ne_nil (octet ',') rest)
  have clean : ∀ piece ∈ first :: later, ∀ ch ∈ piece, InOption ch := by
    rw [← pieces]
    rintro piece member ch inPiece rfl
    exact Separated.not_mem_of_mem_splitOn member inPiece
  obtain ⟨inOption, inOptions⟩ := List.forall_mem_cons.mp clean
  have text := Separated.eq_of_splitOn pieces
  unfold connectionOptions
  rw [List.splitOn_cons_eq_if_modifyHead, pieces, text, followValue_append]
  by_cases comma : ch = octet ','
  · -- A comma in front belongs to the option that it begins.
    subst comma
    have begins : connectionState (octet ',') = .matchingConnectionToken := by
      decide
    rw [begins, compares_close.follow_other _ inOption, Option.bind_some]
    obtain ⟨found, follows, same⟩ := follow_pieces inOptions
      { parser with index := 0 }
      (show hearing .matchingConnectionToken = some false from rfl)
    have unnamed : ∀ word ∈ [KEEP_ALIVE, CLOSE, UPGRADE], ¬ Names word [] := by
      decide
    have nothing : parser.flags.hear [] = parser.flags := by
      simp only [List.forall_mem_cons, List.not_mem_nil] at unnamed
      simp [Flags.hear, unnamed]
    have swallowed : swallows [] = true := by decide
    refine ⟨found, follows, same.trans ?_⟩
    rw [if_pos (by simp)]
    dsimp only
    rw [swallowed, heard, hear, hear, List.foldl_cons]
    have flags : parser.unmatched.flags = parser.flags := rfl
    rw [flags, nothing]
    rfl
  · obtain ⟨index, follows⟩ := @follow_option parser ch first inOption
    rw [follows, Option.bind_some]
    obtain ⟨found, followsLater, same⟩ := follow_pieces inOptions
      { parser with index := index } (hearing_optionState ch first)
    refine ⟨found, followsLater, same.trans ?_⟩
    rw [settled_option, if_neg (by simpa using comma)]
    rfl

/-- The state of the matcher behind the first character of a coding. -/
def codingState (ch : UInt8) : HeaderState :=
  if octet 'c' = lower ch then .matchingTransferEncodingChunked else .general

/-- A body comes in chunks when the value is the word for it. -/
theorem follow_coding (parser : RequestParser) (ch : UInt8) (rest : Bytes) :
    ∃ found, followValue ({ parser with index := 0 }, codingState ch) rest =
        some found ∧
      settled found =
        { parser.unmatched with
          flags :=
            { parser.flags with
              chunked := parser.flags.chunked || Names CHUNKED (ch :: rest) } } := by
  have split : CHUNKED = octet 'c' :: CHUNKED.drop 1 := by decide
  unfold codingState
  rw [split]
  simp only [names_cons]
  by_cases c : lower ch = octet 'c'
  · obtain ⟨index, follows⟩ := compares_chunked.follow_matching parser
      (show 0 + 1 < CHUNKED.length by decide)
      (fun ch (_ : ch ∈ rest) => trivial)
    rw [if_pos c.symm, follows]
    refine ⟨_, rfl, ?_⟩
    split_ifs with names part <;>
      simp [settled, store, setFlag, unmatched, names, c, -List.drop_one]
  · rw [if_neg (Ne.symm c), follow_general]
    refine ⟨_, rfl, ?_⟩
    simp [c, settled, store, setFlag, unmatched]

/-- The number that goes on with these digits, spaces aside. -/
def numberFrom (n : Nat) (digits : Bytes) : Nat :=
  digits.foldl
    (fun n ch => if ch = octet ' ' then n else n * 10 + (ch - octet '0').toNat)
    n

def areDigits (text : Bytes) : Bool :=
  text.all fun ch => ch = octet ' ' || isNum ch

/-- The largest number that the guard against an overflow lets through. -/
def maxContentLength : Nat := 18446744073709551609

theorem le_numberFrom (n : Nat) (digits : Bytes) :
    n ≤ numberFrom n digits := by
  induction digits generalizing n with
  | nil => exact le_rfl
  | cons ch digits ih =>
      have rest := ih (if ch = octet ' ' then n
        else n * 10 + (ch - octet '0').toNat)
      have more : n ≤ if ch = octet ' ' then n
          else n * 10 + (ch - octet '0').toNat := by
        split_ifs <;> omega
      exact more.trans rest

theorem length_digit {length : UInt64} {ch : UInt8} (num : isNum ch)
    (below : length.toNat ≤ maxContentLength) :
    (if (ullongMax - 10) / 10 < length then
        maxContentLength < length.toNat * 10 + (ch - octet '0').toNat
      else
        (length * 10 + (ch - octet '0').toUInt64).toNat =
            length.toNat * 10 + (ch - octet '0').toNat ∧
          length.toNat * 10 + (ch - octet '0').toNat ≤ maxContentLength) := by
  have small : (ch - octet '0').toNat < 10 :=
    @forall_byte (fun ch => isNum ch → (ch - octet '0').toNat < 10)
      (by decide +kernel) ch num
  have bound : ((ullongMax - 10) / 10).toNat = 1844674407370955160 := by decide
  have long : maxContentLength = 18446744073709551609 := rfl
  split_ifs with guard
  · rw [UInt64.lt_iff_toNat_lt, bound] at guard
    omega
  · have value := (@toNat_next_digit 10 length (ch - octet '0').toUInt64
      (by decide) (by decide) guard
      (by rw [UInt8.toNat_toUInt64]; exact small)).1
    rw [UInt64.not_lt, UInt64.le_iff_toNat_le, bound] at guard
    rw [UInt8.toNat_toUInt64] at value
    exact ⟨value, by omega⟩

/-- The length that is announced, and when it is refused. -/
theorem follow_length (parser : RequestParser)
    (below : parser.contentLength.toNat ≤ maxContentLength) (rest : Bytes) :
    followValue (parser, .contentLength) rest =
      if areDigits rest ∧
          numberFrom parser.contentLength.toNat rest ≤ maxContentLength then
        some ({ parser with
            contentLength :=
              UInt64.ofNat (numberFrom parser.contentLength.toNat rest) },
          .contentLength)
      else none := by
  induction rest generalizing parser with
  | nil =>
      have all : areDigits [] ∧
          numberFrom parser.contentLength.toNat [] ≤ maxContentLength :=
        ⟨rfl, below⟩
      rw [if_pos all, numberFrom, List.foldl_nil, UInt64.ofNat_toNat]
      rfl
  | cons ch rest ih =>
      have cons : areDigits (ch :: rest) = true ↔
          (ch = octet ' ' ∨ isNum ch) ∧ areDigits rest = true := by
        simp [areDigits]
      rw [followValue_cons]
      simp only [cons]
      unfold onValueChar
      dsimp only
      by_cases space : ch = octet ' '
      · have same : numberFrom parser.contentLength.toNat (ch :: rest) =
            numberFrom parser.contentLength.toNat rest := by
          rw [numberFrom, List.foldl_cons, if_pos space]
          rfl
        rw [if_pos space, Option.bind_some, ih parser below, same]
        simp only [space, true_or, true_and]
      · have next : numberFrom parser.contentLength.toNat (ch :: rest) =
            numberFrom (parser.contentLength.toNat * 10 +
              (ch - octet '0').toNat) rest := by
          rw [numberFrom, List.foldl_cons, if_neg space]
          rfl
        rw [if_neg space, next]
        by_cases num : isNum ch
        · have digit := length_digit num below
          have isDigit : ¬ (!isNum ch) = true := by simp [num]
          rw [if_neg isDigit]
          split_ifs at digit ⊢ with guard fits fits
          · have long := le_numberFrom
              (parser.contentLength.toNat * 10 + (ch - octet '0').toNat) rest
            have bounded := fits.2
            omega
          · rfl
          · obtain ⟨value, bounded⟩ := digit
            rw [Option.bind_some, ih _ (by rw [value]; exact bounded), value,
              if_pos ⟨fits.1.2, fits.2⟩]
          · obtain ⟨value, bounded⟩ := digit
            rw [Option.bind_some, ih _ (by rw [value]; exact bounded), value,
              if_neg fun both => fits ⟨⟨.inr num, both.1⟩, both.2⟩]
        · have noDigit : (!isNum ch) = true := by simp [num]
          rw [if_pos noDigit, if_neg]
          · rfl
          · rintro ⟨⟨wrong | wrong, -⟩, -⟩
            · exact space wrong
            · exact num wrong

end RequestParser

end Woody
