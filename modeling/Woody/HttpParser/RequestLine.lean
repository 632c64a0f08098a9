import Woody.HttpParser.Reading

/-!
# Request lines

Which URLs are accepted is decided by one byte after the other; the states
tell whether a path, a server or a scheme is being read.  The language that
they accept is written out below.
-/

namespace Woody

open Scanner

/-- What can come in a path, in a query and in a fragment. -/
def isPathChar (ch : UInt8) : Bool :=
  isUrlChar ch || ch = octet '?' || ch = octet '#'

/-- What can come in the name of a server, with a user in front of it. -/
def isServerChar (ch : UInt8) : Bool :=
  isUserinfoChar ch || ch = octet '[' || ch = octet ']' || ch = octet '@'

/-- A byte that neither ends nor precedes a URL. -/
def Inside (ch : UInt8) : Prop := ch ≠ octet ' ' ∧ ch ≠ CR ∧ ch ≠ LF

instance (ch : UInt8) : Decidable (Inside ch) :=
  inferInstanceAs (Decidable (_ ∧ _))

theorem inside_of_isPathChar {ch : UInt8} (char : isPathChar ch) :
    Inside ch :=
  @forall_byte (fun ch => isPathChar ch → Inside ch) (by decide +kernel) ch char

theorem inside_of_isServerChar {ch : UInt8} (char : isServerChar ch) :
    Inside ch :=
  @forall_byte (fun ch => isServerChar ch → Inside ch) (by decide +kernel) ch
    char

theorem inside_of_isAlpha {ch : UInt8} (char : isAlpha ch) : Inside ch :=
  @forall_byte (fun ch => isAlpha ch → Inside ch) (by decide +kernel) ch char

/-- A server and perhaps a path or a query, `before` being the character in
front of it.  No two at signs follow each other. -/
def IsAuthority (before : UInt8) (url : Bytes) : Prop :=
  ∃ server tail, url = server ++ tail ∧
    (∀ ch ∈ server, isServerChar ch) ∧
    List.IsChain (fun first second => ¬ (first = octet '@' ∧ second = octet '@'))
      (before :: server) ∧
    (tail = [] ∨ ∃ first path, tail = first :: path ∧
      (first = octet '/' ∨ first = octet '?') ∧ ∀ ch ∈ path, isPathChar ch)

theorem IsAuthority.of_before {before other : UInt8} {url : Bytes}
    (isAuthority : IsAuthority before url)
    (same : other = octet '@' → before = octet '@') :
    IsAuthority other url := by
  obtain ⟨server, tail, split, chars, chain, path⟩ := isAuthority
  refine ⟨server, tail, split, chars, ?_, path⟩
  cases server with
  | nil => exact .singleton _
  | cons ch server =>
      rw [List.isChain_cons_cons] at chain ⊢
      exact ⟨fun both => chain.1 ⟨same both.1, both.2⟩, chain.2⟩

theorem isAuthority_nil (before : UInt8) : IsAuthority before [] :=
  ⟨[], [], rfl, List.forall_mem_nil _, .singleton _, .inl rfl⟩

theorem isAuthority_cons {before ch : UInt8} {url : Bytes} :
    IsAuthority before (ch :: url) ↔
      ((ch = octet '/' ∨ ch = octet '?') ∧ ∀ ch ∈ url, isPathChar ch) ∨
      (isServerChar ch ∧ ¬ (before = octet '@' ∧ ch = octet '@')) ∧
        IsAuthority ch url := by
  constructor
  · rintro ⟨server, tail, split, chars, chain, path⟩
    cases server with
    | nil =>
        rcases path with rfl | ⟨first, path, rfl, slash, inPath⟩
        · cases split
        · cases split
          exact .inl ⟨slash, inPath⟩
    | cons first server =>
        cases split
        obtain ⟨char, chars⟩ := List.forall_mem_cons.mp chars
        obtain ⟨apart, chain⟩ := List.isChain_cons_cons.mp chain
        exact .inr ⟨⟨char, apart⟩, server, tail, rfl, chars, chain, path⟩
  · rintro (⟨slash, inPath⟩ | ⟨⟨char, apart⟩, server, tail, rfl, chars, chain,
      path⟩)
    · exact ⟨[], ch :: url, rfl, List.forall_mem_nil _, .singleton _,
        .inr ⟨ch, url, rfl, slash, inPath⟩⟩
    · exact ⟨ch :: server, tail, rfl, List.forall_mem_cons.mpr ⟨char, chars⟩,
        List.isChain_cons_cons.mpr ⟨apart, chain⟩, path⟩

theorem not_isServerChar {ch : UInt8} (slash : ch = octet '/' ∨ ch = octet '?') :
    ¬ isServerChar ch := by
  rcases slash with rfl | rfl <;> decide

/-- The URLs that are accepted behind a method. -/
inductive IsTarget : HttpMethod → Bytes → Prop
  | path {method : HttpMethod} {first : UInt8} {path : Bytes}
      (other : method ≠ .connect) (begins : first = octet '/' ∨ first = octet '*')
      (inPath : ∀ ch ∈ path, isPathChar ch) : IsTarget method (first :: path)
  | scheme {method : HttpMethod} {scheme authority : Bytes}
      (other : method ≠ .connect) (some : scheme ≠ [])
      (letters : ∀ ch ∈ scheme, isAlpha ch) (server : authority ≠ [])
      (isAuthority : IsAuthority (octet '/') authority) :
      IsTarget method (scheme ++ ascii "://" ++ authority)
  | server {authority : Bytes} (some : authority ≠ [])
      (isAuthority : IsAuthority (octet '/') authority) :
      IsTarget .connect authority

theorem IsAuthority.inside {before : UInt8} {url : Bytes}
    (isAuthority : IsAuthority before url) : ∀ ch ∈ url, Inside ch := by
  obtain ⟨server, tail, rfl, chars, -, path⟩ := isAuthority
  refine List.forall_mem_append.mpr
    ⟨fun ch member => inside_of_isServerChar (chars ch member), ?_⟩
  rcases path with rfl | ⟨first, path, rfl, slash, inPath⟩
  · exact List.forall_mem_nil _
  · refine List.forall_mem_cons.mpr
      ⟨?_, fun ch member => inside_of_isPathChar (inPath ch member)⟩
    rcases slash with rfl | rfl <;> decide

theorem IsTarget.inside {method : HttpMethod} {url : Bytes}
    (target : IsTarget method url) : ∀ ch ∈ url, Inside ch := by
  cases target with
  | path _ begins inPath =>
      refine List.forall_mem_cons.mpr
        ⟨?_, fun ch member => inside_of_isPathChar (inPath ch member)⟩
      rcases begins with rfl | rfl <;> decide
  | scheme _ _ letters _ isAuthority =>
      refine List.forall_mem_append.mpr ⟨List.forall_mem_append.mpr
        ⟨fun ch member => inside_of_isAlpha (letters ch member), ?_⟩,
        isAuthority.inside⟩
      exact forall_of_all (by decide)
  | server _ isAuthority => exact isAuthority.inside

namespace ParserState

/-- `parse_url_char` along a URL. -/
def followUrl (state : ParserState) (url : Bytes) : ParserState :=
  url.foldl parseUrlChar state

/-- The states in which a URL can end. -/
def endsUrl : ParserState → Bool
  | .reqServer | .reqServerWithAt | .reqPath | .reqQueryStringStart
  | .reqQueryString | .reqFragmentStart | .reqFragment => true
  | _ => false

/-- The states behind the server. -/
def inPath : ParserState → Bool
  | .reqPath | .reqQueryStringStart | .reqQueryString | .reqFragmentStart
  | .reqFragment => true
  | _ => false

theorem endsUrl_of_inPath {state : ParserState} (path : state.inPath) :
    state.endsUrl := by
  cases state <;> first | rfl | cases path

theorem followUrl_dead (url : Bytes) : followUrl .dead url = .dead := by
  have dead : ∀ ch, parseUrlChar .dead ch = .dead := by
    intro ch
    unfold parseUrlChar
    split_ifs <;> rfl
  induction url with
  | nil => rfl
  | cons ch url ih =>
      unfold followUrl at ih ⊢
      rw [List.foldl_cons, dead]
      exact ih

theorem parseUrlChar_inPath {state : ParserState} (path : state.inPath)
    (ch : UInt8) :
    if isPathChar ch then (parseUrlChar state ch).inPath = true
    else parseUrlChar state ch = .dead := by
  revert ch
  apply forall_byte
  cases state <;> first | exact absurd path (by decide) | decide +kernel

theorem followUrl_inPath {state : ParserState} (path : state.inPath)
    (url : Bytes) :
    (followUrl state url).endsUrl ↔ ∀ ch ∈ url, isPathChar ch := by
  induction url generalizing state with
  | nil => exact iff_of_true (endsUrl_of_inPath path) (List.forall_mem_nil _)
  | cons ch url ih =>
      have step := parseUrlChar_inPath path ch
      have follows : followUrl state (ch :: url) =
          followUrl (parseUrlChar state ch) url := rfl
      rw [List.forall_mem_cons, follows]
      split_ifs at step with char
      · rw [ih step]
        exact (and_iff_right char).symm
      · rw [step, followUrl_dead]
        exact iff_of_false nofun fun inside => char inside.1

/-- The states in a server, with a character that is as the one before. -/
def atServer : ParserState → Option UInt8
  | .reqServerStart | .reqServer => some (octet '/')
  | .reqServerWithAt => some (octet '@')
  | _ => none

theorem parseUrlChar_server {state : ParserState} {before : UInt8}
    (server : state.atServer = some before) (ch : UInt8) :
    if ch = octet '/' ∨ ch = octet '?' then
      (parseUrlChar state ch).inPath = true
    else if isServerChar ch ∧ ¬ (before = octet '@' ∧ ch = octet '@') then
      ∃ later ∈ (parseUrlChar state ch).atServer,
        (parseUrlChar state ch).endsUrl = true ∧
        (later = octet '@' ↔ ch = octet '@')
    else parseUrlChar state ch = .dead := by
  revert ch
  apply forall_byte
  cases state <;> cases server <;> decide +kernel

/-- What is accepted behind the first character of a server. -/
theorem followUrl_server {state : ParserState} {before : UInt8}
    (server : state.atServer = some before) (url : Bytes) :
    (followUrl state url).endsUrl ↔
      (url = [] → state.endsUrl) ∧ IsAuthority before url := by
  induction url generalizing state before with
  | nil =>
      exact ⟨fun ends => ⟨fun _ => ends, isAuthority_nil before⟩,
        fun both => both.1 rfl⟩
  | cons ch url ih =>
      have step := parseUrlChar_server server ch
      have follows : followUrl state (ch :: url) =
          followUrl (parseUrlChar state ch) url := rfl
      rw [follows]
      have some : (ch :: url = [] → state.endsUrl) := nofun
      rw [and_iff_right some, isAuthority_cons]
      split_ifs at step with slash char
      · rw [followUrl_inPath step, and_iff_right slash]
        exact (or_iff_left fun wrong => not_isServerChar slash wrong.1.1).symm
      · obtain ⟨later, atServer, ends, same⟩ := step
        rw [ih atServer, and_iff_right fun _ => ends, and_iff_right char,
          or_iff_right fun wrong => slash wrong.1]
        exact ⟨fun url => url.of_before same.mpr,
          fun url => url.of_before same.mp⟩
      · rw [step, followUrl_dead]
        refine iff_of_false nofun ?_
        rintro (wrong | wrong)
        · exact slash wrong.1
        · exact char wrong.1

theorem parseUrlChar_schema (ch : UInt8) :
    parseUrlChar .reqSchema ch =
      if isAlpha ch then .reqSchema
      else if ch = octet ':' then .reqSchemaSlash
      else .dead := by
  revert ch
  exact forall_byte (by decide +kernel)

theorem parseUrlChar_slash (ch : UInt8) :
    parseUrlChar .reqSchemaSlash ch =
        (if ch = octet '/' then .reqSchemaSlashSlash else .dead) ∧
      parseUrlChar .reqSchemaSlashSlash ch =
        (if ch = octet '/' then .reqServerStart else .dead) := by
  revert ch
  exact forall_byte (by decide +kernel)

theorem followUrl_slashes (url : Bytes) :
    (followUrl .reqSchemaSlash url).endsUrl ↔
      ∃ authority, url = ascii "//" ++ authority ∧ authority ≠ [] ∧
        IsAuthority (octet '/') authority := by
  have slashes : ascii "//" = [octet '/', octet '/'] := by decide
  rw [slashes]
  rcases url with _ | ⟨first, _ | ⟨second, url⟩⟩
  · exact iff_of_false nofun nofun
  · refine iff_of_false ?_ nofun
    have follows : followUrl .reqSchemaSlash [first] =
        parseUrlChar .reqSchemaSlash first := rfl
    rw [follows, (parseUrlChar_slash first).1]
    split_ifs <;> exact nofun
  · have follows : followUrl .reqSchemaSlash (first :: second :: url) =
        followUrl (parseUrlChar (parseUrlChar .reqSchemaSlash first) second)
          url := rfl
    rw [follows, (parseUrlChar_slash first).1]
    by_cases both : first = octet '/' ∧ second = octet '/'
    · obtain ⟨rfl, rfl⟩ := both
      rw [if_pos rfl, (parseUrlChar_slash _).2, if_pos rfl,
        followUrl_server rfl]
      constructor
      · rintro ⟨some, isAuthority⟩
        exact ⟨url, rfl, fun wrong => absurd (some wrong) nofun, isAuthority⟩
      · rintro ⟨authority, split, some, isAuthority⟩
        cases split
        exact ⟨fun wrong => (some wrong).elim, isAuthority⟩
    · refine iff_of_false ?_ ?_
      · split_ifs with one
        · rw [(parseUrlChar_slash second).2, if_neg fun two => both ⟨one, two⟩,
            followUrl_dead]
          exact nofun
        · have stays : parseUrlChar .dead second = .dead :=
            followUrl_dead [second]
          rw [stays, followUrl_dead]
          exact nofun
      · rintro ⟨authority, split, -⟩
        cases split
        exact both ⟨rfl, rfl⟩

theorem followUrl_schema (url : Bytes) :
    (followUrl .reqSchema url).endsUrl ↔
      ∃ scheme authority, url = scheme ++ ascii "://" ++ authority ∧
        (∀ ch ∈ scheme, isAlpha ch) ∧ authority ≠ [] ∧
        IsAuthority (octet '/') authority := by
  have colon : ascii "://" = octet ':' :: ascii "//" := by decide
  have notAlpha : ¬ isAlpha (octet ':') := by decide
  simp only [colon, List.append_assoc, List.cons_append]
  induction url with
  | nil =>
      refine iff_of_false nofun ?_
      rintro ⟨scheme, authority, split, -⟩
      cases scheme <;> cases split
  | cons ch url ih =>
      have follows : followUrl .reqSchema (ch :: url) =
          followUrl (parseUrlChar .reqSchema ch) url := rfl
      rw [follows, parseUrlChar_schema]
      split_ifs with letter ends
      · apply ih.trans
        constructor
        · rintro ⟨scheme, authority, rfl, letters, server⟩
          exact ⟨ch :: scheme, authority, rfl,
            List.forall_mem_cons.mpr ⟨letter, letters⟩, server⟩
        · rintro ⟨scheme, authority, split, letters, server⟩
          cases scheme with
          | nil =>
              cases split
              exact (notAlpha letter).elim
          | cons first scheme =>
              cases split
              exact ⟨scheme, authority, rfl,
                (List.forall_mem_cons.mp letters).2, server⟩
      · subst ends
        rw [followUrl_slashes]
        constructor
        · rintro ⟨authority, rfl, server⟩
          exact ⟨[], authority, rfl, List.forall_mem_nil _, server⟩
        · rintro ⟨scheme, authority, split, letters, server⟩
          cases scheme with
          | nil =>
              cases split
              exact ⟨authority, rfl, server⟩
          | cons first scheme =>
              cases split
              exact (letter (List.forall_mem_cons.mp letters).1).elim
      · rw [followUrl_dead]
        refine iff_of_false nofun ?_
        rintro ⟨scheme, authority, split, letters, -⟩
        cases scheme with
        | nil =>
            cases split
            exact ends rfl
        | cons first scheme =>
            cases split
            exact letter (List.forall_mem_cons.mp letters).1

/-- The state in front of a URL, for a method. -/
def beforeUrl (method : HttpMethod) : ParserState :=
  if method = .connect then .reqServerStart else .reqSpacesBeforeUrl

theorem parseUrlChar_first (ch : UInt8) :
    parseUrlChar .reqSpacesBeforeUrl ch =
      if ch = octet '/' ∨ ch = octet '*' then .reqPath
      else if isAlpha ch then .reqSchema
      else .dead := by
  revert ch
  exact forall_byte (by decide +kernel)

/-- The URLs along which the states come to an end are the targets. -/
theorem followUrl_target (method : HttpMethod) (url : Bytes) :
    (followUrl (beforeUrl method) url).endsUrl ↔ IsTarget method url := by
  unfold beforeUrl
  split_ifs with connect
  · subst connect
    rw [followUrl_server rfl]
    constructor
    · rintro ⟨some, isAuthority⟩
      exact .server (fun wrong => absurd (some wrong) nofun) isAuthority
    · rintro (⟨other, -, -⟩ | ⟨other, -, -, -, -⟩ | ⟨some, isAuthority⟩)
      · exact (other rfl).elim
      · exact (other rfl).elim
      · exact ⟨fun wrong => (some wrong).elim, isAuthority⟩
  · cases url with
    | nil =>
        refine iff_of_false nofun ?_
        generalize isEmpty : ([] : Bytes) = url
        rintro (_ | ⟨-, some, -, -, -⟩ | _)
        · cases isEmpty
        · have none := List.append_eq_nil_iff.mp isEmpty.symm
          exact some (List.append_eq_nil_iff.mp none.1).1
        · exact connect rfl
    | cons ch url =>
        have follows : followUrl .reqSpacesBeforeUrl (ch :: url) =
            followUrl (parseUrlChar .reqSpacesBeforeUrl ch) url := rfl
        rw [follows, parseUrlChar_first]
        constructor
        · intro ends
          split_ifs at ends with path letter
          · exact .path connect path ((followUrl_inPath rfl url).mp ends)
          · obtain ⟨scheme, authority, rfl, letters, server, isAuthority⟩ :=
              (followUrl_schema url).mp ends
            exact @IsTarget.scheme method (ch :: scheme) authority connect
              (List.cons_ne_nil _ _)
              (List.forall_mem_cons.mpr ⟨letter, letters⟩) server isAuthority
          · rw [followUrl_dead] at ends
            cases ends
        · generalize isUrl : ch :: url = target
          rintro (⟨-, path, inPath⟩ | ⟨-, some, letters, server, isAuthority⟩ | _)
          · cases isUrl
            rw [if_pos path]
            exact (followUrl_inPath rfl url).mpr inPath
          · next scheme authority =>
            cases scheme with
            | nil => exact (some rfl).elim
            | cons first scheme =>
                cases isUrl
                obtain ⟨letter, letters⟩ := List.forall_mem_cons.mp letters
                have noPath : ¬ (ch = octet '/' ∨ ch = octet '*') := by
                  rintro (rfl | rfl) <;> exact absurd letter (by decide)
                rw [if_neg noPath, if_pos letter]
                exact (followUrl_schema _).mpr
                  ⟨scheme, authority, rfl, letters, server, isAuthority⟩
          · exact (connect rfl).elim

theorem tokenAt_parseUrlChar {state : ParserState} {ch : UInt8}
    (goesOn : parseUrlChar state ch ≠ .dead) :
    CountingParser.tokenAt (parseUrlChar state ch) = some .url := by
  revert goesOn
  unfold parseUrlChar parseUrlChar.server
  cases state <;> dsimp only <;> split_ifs <;> first | exact fun _ => rfl | simp

theorem tokenAt_followUrl {state : ParserState} {url : Bytes}
    (token : CountingParser.tokenAt state = some .url)
    (goesOn : followUrl state url ≠ .dead) :
    CountingParser.tokenAt (followUrl state url) = some .url := by
  induction url generalizing state with
  | nil => exact token
  | cons ch url ih =>
      apply ih _ goesOn
      apply tokenAt_parseUrlChar
      intro dead
      have follows : followUrl state (ch :: url) =
          followUrl (parseUrlChar state ch) url := rfl
      rw [follows, dead] at goesOn
      exact goesOn (followUrl_dead url)

end ParserState

/-- The number that goes on with these decimal digits. -/
def Version.numberFrom (n : Nat) (digits : Bytes) : Option Nat :=
  Bytes.numeralFrom 10
    (fun ch => if isNum ch then some (ch - octet '0').toNat else none) n digits

/-- A version as it is written: its digits, and the numbers they say.  Only
the first digit of the major number cannot be zero. -/
structure Version where
  majorDigits : Bytes
  minorDigits : Bytes
  major : Nat
  minor : Nat
  majorSome : majorDigits ≠ []
  minorSome : minorDigits ≠ []
  majorHead : majorDigits.head? ≠ some (octet '0')
  majorNumber : Version.numberFrom 0 majorDigits = some major
  minorNumber : Version.numberFrom 0 minorDigits = some minor
  majorSmall : major ≤ 999
  minorSmall : minor ≤ 999

namespace Version

/-- The end of a request line. -/
def text (version : Version) : Bytes :=
  ascii "HTTP/" ++ version.majorDigits ++ octet '.' :: version.minorDigits ++
    [CR, LF]

theorem numberFrom_cons {n total : Nat} {ch : UInt8} {digits : Bytes}
    (number : numberFrom n (ch :: digits) = some total) :
    isNum ch = true ∧
      numberFrom (n * 10 + (ch - octet '0').toNat) digits = some total := by
  obtain ⟨value, isValue, later⟩ := Bytes.numeralFrom_cons number
  split_ifs at isValue with num
  cases isValue
  exact ⟨num, later⟩

end Version

namespace RequestParser

variable {parser : RequestParser}

theorem reaction_onUrlChar (parser : RequestParser) (ch : UInt8)
    (effects : List Effect) :
    let later := parseUrlChar parser.state ch
    if later = .dead then
      ((parser.onUrlChar ch effects).reaction ch).verdict = .error
    else (parser.onUrlChar ch effects).reaction ch =
      ⟨parser.goto later, effects.flatMap Effect.outputs ++ [.url [ch]],
        .advance⟩ := by
  have onUrlChar_eq : parser.onUrlChar ch effects =
      if parseUrlChar parser.state ch = .dead then
        .error (parser.goto (parseUrlChar parser.state ch)) .invalidUrl
      else .advance (parser.goto (parseUrlChar parser.state ch)) effects := rfl
  dsimp only
  rw [onUrlChar_eq]
  by_cases dead : parseUrlChar parser.state ch = .dead
  · rw [if_pos dead, if_pos dead]
    rfl
  · have token := ParserState.tokenAt_parseUrlChar dead
    rw [if_neg dead, if_neg dead]
    simp [Case.reaction, Case.advance, piece, token, Token.callback]

theorem react_url (url : CountingParser.tokenAt parser.state = some .url)
    {ch : UInt8} (inside : Inside ch) :
    let later := parseUrlChar parser.state ch
    if later = .dead then (parser.react ch).verdict = .error
    else parser.react ch = ⟨parser.goto later, [.url [ch]], .advance⟩ := by
  have reaction : parser.react ch = (parser.onUrlChar ch []).reaction ch := by
    obtain ⟨space, cr, lf⟩ := inside
    unfold react
    cases state : parser.state <;> rw [state] at url <;>
      first
        | exact absurd url (by decide)
        | simp only [onByte, state, onUrlFront, onUrl, space, cr, lf, or_self,
            if_false]
  rw [reaction]
  exact parser.reaction_onUrlChar ch []

theorem react_first_url (spaces : parser.state = .reqSpacesBeforeUrl)
    {ch : UInt8} (inside : Inside ch) :
    let later := parseUrlChar (.beforeUrl parser.method) ch
    if later = .dead then (parser.react ch).verdict = .error
    else parser.react ch =
      ⟨parser.goto later, [.url [], .url [ch]], .advance⟩ := by
  have reaction : parser.react ch =
      ((parser.goto (.beforeUrl parser.method)).onUrlChar ch
        [.mark .url]).reaction ch := by
    unfold react ParserState.beforeUrl
    simp only [onByte, spaces, onReqSpacesBeforeUrl, inside.1, if_false]
    split_ifs
    · rfl
    · rw [goto, ← spaces]
  rw [reaction]
  exact (parser.goto (.beforeUrl parser.method)).reaction_onUrlChar ch
    [.mark .url]

theorem scan_url (url : CountingParser.tokenAt parser.state = some .url)
    {bytes : Bytes} (inside : ∀ ch ∈ bytes, Inside ch) :
    let later := parser.state.followUrl bytes
    if later = .dead then (scan react parser bytes).verdict = .error
    else scan react parser bytes =
      ⟨parser.goto later, bytes.map fun ch => .url [ch], [], .advance⟩ := by
  induction bytes generalizing parser with
  | nil =>
      have living : parser.state.followUrl [] ≠ .dead := by
        intro dead
        rw [show parser.state = .dead from dead] at url
        cases url
      rw [if_neg living]
      rfl
  | cons ch bytes ih =>
      obtain ⟨first, inside⟩ := List.forall_mem_cons.mp inside
      have reaction := react_url url first
      have follows : parser.state.followUrl (ch :: bytes) =
          (parseUrlChar parser.state ch).followUrl bytes := rfl
      dsimp only at reaction ⊢
      rw [follows]
      by_cases dead : parseUrlChar parser.state ch = .dead
      · rw [if_pos dead] at reaction
        rw [dead, ParserState.followUrl_dead, if_pos rfl,
          scan_cons_error reaction]
      · rw [if_neg dead] at reaction
        have rest := @ih (parser.goto (parseUrlChar parser.state ch))
          (ParserState.tokenAt_parseUrlChar dead) inside
        rw [scan_cons_advance (by rw [reaction]), reaction]
        dsimp only [goto_state] at rest ⊢
        split_ifs at rest ⊢ with later
        · exact rest
        · rw [rest]
          rfl

theorem react_url_space (url : CountingParser.tokenAt parser.state = some .url) :
    if parser.state.endsUrl then
      parser.react (octet ' ') = ⟨parser.goto .reqHttpStart, [], .advance⟩
    else (parser.react (octet ' ')).verdict = .error := by
  unfold react
  cases state : parser.state <;> rw [state] at url <;>
    first
      | exact absurd url (by decide)
      | simp [onByte, state, onUrlFront, onUrl, ParserState.endsUrl,
          Case.reaction, Case.advance, Case.error, Effect.outputs, piece,
          CountingParser.tokenAt]

theorem url_scanned (spaces : parser.state = .reqSpacesBeforeUrl)
    {url : Bytes} (nonempty : url ≠ []) (inside : ∀ ch ∈ url, Inside ch) :
    let later := (ParserState.beforeUrl parser.method).followUrl url
    if later = .dead then (scan react parser url).verdict = .error
    else parser.Reads url [.url url] (parser.goto later) ∧
      CountingParser.tokenAt later = some .url := by
  obtain ⟨ch, bytes, rfl⟩ := List.exists_cons_of_ne_nil nonempty
  obtain ⟨first, inside⟩ := List.forall_mem_cons.mp inside
  have reaction := react_first_url spaces first
  have follows : (ParserState.beforeUrl parser.method).followUrl (ch :: bytes) =
      (parseUrlChar (.beforeUrl parser.method) ch).followUrl bytes := rfl
  dsimp only at reaction ⊢
  rw [follows]
  by_cases dead : parseUrlChar (.beforeUrl parser.method) ch = .dead
  · rw [if_pos dead] at reaction
    rw [dead, ParserState.followUrl_dead, if_pos rfl, scan_cons_error reaction]
  · rw [if_neg dead] at reaction
    have token := ParserState.tokenAt_parseUrlChar dead
    have scanned := @scan_url
      (parser.goto (parseUrlChar (.beforeUrl parser.method) ch)) token bytes
      inside
    dsimp only [goto_state] at scanned
    split_ifs at scanned ⊢ with later
    · rw [scan_cons_advance (by rw [reaction]), reaction]
      exact scanned
    · refine ⟨⟨_, ?_, HttpCallback.alike_pieces .url [] (ch :: bytes)⟩,
        ParserState.tokenAt_followUrl token later⟩
      rw [scan_cons_advance (by rw [reaction]), reaction]
      dsimp only
      rw [scanned]
      rfl

theorem not_endsUrl_beforeUrl (method : HttpMethod) :
    (ParserState.beforeUrl method).endsUrl = false := by
  unfold ParserState.beforeUrl
  split_ifs <;> rfl

theorem url_reads (spaces : parser.state = .reqSpacesBeforeUrl) {url : Bytes}
    (target : IsTarget parser.method url) :
    parser.Reads (url ++ [octet ' ']) [.url url]
      (parser.goto .reqHttpStart) := by
  have ends := (ParserState.followUrl_target parser.method url).mpr target
  have nonempty : url ≠ [] := by
    rintro rfl
    exact Bool.false_ne_true
      ((not_endsUrl_beforeUrl parser.method).symm.trans ends)
  have living : (ParserState.beforeUrl parser.method).followUrl url ≠ .dead := by
    intro dead
    rw [dead] at ends
    cases ends
  have scanned := url_scanned spaces nonempty target.inside
  dsimp only at scanned
  rw [if_neg living] at scanned
  have space := @react_url_space (parser.goto
    ((ParserState.beforeUrl parser.method).followUrl url)) scanned.2
  rw [goto_state, if_pos ends] at space
  exact scanned.1.append (.byte space)

/-- The URLs that are read are the targets that the method can have. -/
theorem url_read_iff (spaces : parser.state = .reqSpacesBeforeUrl)
    {url : Bytes} (inside : ∀ ch ∈ url, Inside ch) :
    parser.Reads (url ++ [octet ' ']) [.url url] (parser.goto .reqHttpStart) ↔
      IsTarget parser.method url := by
  refine ⟨fun reads => ?_, url_reads spaces⟩
  rcases eq_or_ne url [] with rfl | nonempty
  · obtain ⟨outputs, read, -⟩ := reads
    have state := congrArg Scanned.state read
    have reaction : parser.react (octet ' ') = ⟨parser, [], .advance⟩ := by
      unfold react
      simp [spaces, onByte, onReqSpacesBeforeUrl, Case.reaction,
        Case.advance, piece, CountingParser.tokenAt]
    have skipped : (scan react parser [octet ' ']).state.state =
        .reqSpacesBeforeUrl := by
      rw [scan_cons_advance (by rw [reaction]), reaction]
      exact spaces
    rw [List.nil_append] at state
    rw [state] at skipped
    cases skipped
  · have verdict := reads.verdict
    have scanned := url_scanned spaces nonempty inside
    dsimp only at scanned
    rw [← ParserState.followUrl_target]
    by_contra ends
    split_ifs at scanned with dead
    · rw [scan_append_stop (by rw [scanned]; decide)] at verdict
      dsimp only at verdict
      rw [scanned] at verdict
      cases verdict
    · obtain ⟨⟨outputs, read, -⟩, token⟩ := scanned
      have space := @react_url_space (parser.goto
        ((ParserState.beforeUrl parser.method).followUrl url)) token
      rw [goto_state, if_neg ends] at space
      rw [scan_append_advance (by rw [read]), read] at verdict
      dsimp only at verdict
      rw [scan_cons_error space] at verdict
      cases verdict

/-- A scheme and a server, with a path behind it. -/
theorem absolute_url_read :
    ({ init with state := .reqSpacesBeforeUrl } : RequestParser).Reads
      (ascii "http://a.b/c ") [.url (ascii "http://a.b/c")]
      { init with state := .reqHttpStart } :=
  (@url_read_iff ({ init with state := .reqSpacesBeforeUrl } : RequestParser)
    rfl (ascii "http://a.b/c") (forall_of_all (by decide))).mpr
      (@IsTarget.scheme .delete (ascii "http") (ascii "a.b/c") (by decide)
        (by decide) (forall_of_all (by decide)) (by decide)
        ⟨ascii "a.b", ascii "/c", rfl, forall_of_all (by decide), by decide,
          .inr ⟨octet '/', ascii "c", rfl, .inl rfl,
            forall_of_all (by decide)⟩⟩)

/-- The parser behind the method of a request. -/
def withMethod (parser : RequestParser) (method : HttpMethod) :
    RequestParser :=
  { parser with
    flags := .none
    contentLength := ullongMax
    method := method
    index := method.string.length + 1
    state := .reqSpacesBeforeUrl }

theorem method_reads (start : parser.state = .startReq) (method : HttpMethod) :
    parser.Reads (method.string ++ [octet ' ']) [.messageBegin]
      (parser.withMethod method) := by
  have spells := method.spell_string
  have noSpace : octet ' ' ∉ method.string := by
    cases method <;> decide
  have ends : method.string.headD 0 ≠ CR ∧ method.string.headD 0 ≠ LF := by
    cases method <;> decide
  generalize length : method.string.length = long at spells
  cases string : method.string with
  | nil =>
      rw [string] at spells
      cases spells
  | cons ch word =>
      rw [string] at spells noSpace ends
      obtain ⟨cr, lf⟩ : ch ≠ CR ∧ ch ≠ LF := ends
      obtain ⟨suggested, first, letters⟩ := Option.bind_eq_some_iff.mp spells
      rcases react_first start cr lf with ⟨same, firstAgain, reaction⟩ | ⟨wrong, -⟩
      · rw [first] at firstAgain
        cases firstAgain
        rcases @scan_letters
            { parser with
              flags := .none
              contentLength := ullongMax
              method := suggested
              index := 1
              state := .reqMethod } rfl word
            (fun member => noSpace (List.mem_cons_of_mem _ member)) with
          ⟨found, found_eq, read⟩ | ⟨stops, -⟩
        · dsimp only at found_eq read
          rw [letters] at found_eq
          cases found_eq
          have space : ({ parser with
              flags := .none
              contentLength := ullongMax
              method := method
              index := long
              state := .reqMethod } : RequestParser).react (octet ' ') =
                ⟨parser.withMethod method, [], .advance⟩ := by
            have behind : method.string.getD long 0 = 0 :=
              List.getD_eq_default _ _ (by rw [length])
            have nonzero : octet ' ' ≠ 0 := by decide
            unfold react
            simp only [onByte, onReqMethod, nonzero, if_false, behind, and_self,
              if_true]
            rw [← length]
            rfl
          have rest := Reads.append ⟨[], read, rfl⟩ (.byte space)
          exact Reads.cons reaction rest
        · dsimp only at stops
          rw [letters] at stops
          cases stops
      · rw [first] at wrong
        cases wrong

theorem first_digit {ch : UInt8} (num : isNum ch = true)
    (notZero : ch ≠ octet '0') : ¬ (ch < octet '1' ∨ ch > octet '9') :=
  @forall_byte
    (fun ch => isNum ch = true → ch ≠ octet '0' →
      ¬ (ch < octet '1' ∨ ch > octet '9')) (by decide +kernel) ch num notZero

/-- The digits of a number behind the first one; `at_ n` has read the number
`n` so far. -/
theorem digits_read {at_ : Nat → RequestParser}
    (next : ∀ n ch, isNum ch = true → n * 10 + (ch - octet '0').toNat ≤ 999 →
      (at_ n).react ch =
        ⟨at_ (n * 10 + (ch - octet '0').toNat), [], .advance⟩)
    {n total : Nat} {digits : Bytes}
    (number : Version.numberFrom n digits = some total)
    (small : total ≤ 999) : (at_ n).Reads digits [] (at_ total) := by
  induction digits generalizing n with
  | nil =>
      cases number
      exact Reads.nil _
  | cons ch digits ih =>
      obtain ⟨num, later⟩ := Version.numberFrom_cons number
      have most := (Bytes.le_numeralFrom (by decide) later).trans small
      exact Reads.cons (next _ ch num most) (ih later)

theorem major_reads (first : parser.state = .reqFirstHttpMajor)
    (version : Version) :
    parser.Reads (version.majorDigits ++ [octet '.']) []
      { parser with
        httpMajor := version.major
        state := .reqFirstHttpMinor } := by
  obtain ⟨ch, digits, split⟩ := List.exists_cons_of_ne_nil version.majorSome
  have number := version.majorNumber
  have notZero := version.majorHead
  rw [split] at number notZero ⊢
  obtain ⟨num, later⟩ := Version.numberFrom_cons number
  rw [Nat.zero_mul, Nat.zero_add] at later
  have range := first_digit num fun zero => notZero (congrArg some zero)
  let inMajor (n : Nat) : RequestParser :=
    { parser with httpMajor := n, state := .reqHttpMajor }
  have begins : parser.react ch =
      ⟨inMajor (ch - octet '0').toNat, [], .advance⟩ := by
    unfold react
    simp only [first, onByte, onReqFirstHttpMajor, range, if_false]
    rfl
  have next (n : Nat) (ch : UInt8) (num : isNum ch = true)
      (small : n * 10 + (ch - octet '0').toNat ≤ 999) :
      (inMajor n).react ch =
        ⟨inMajor (n * 10 + (ch - octet '0').toNat), [], .advance⟩ := by
    have noDot : ch ≠ octet '.' := by
      rintro rfl
      cases num
    unfold react
    simp only [inMajor, onByte, onReqHttpMajor, noDot, num, Bool.not_true,
      Bool.false_eq_true, if_false, Nat.not_lt.mpr small]
    rfl
  have dot : (inMajor version.major).react (octet '.') =
      ⟨{ parser with
          httpMajor := version.major
          state := .reqFirstHttpMinor }, [], .advance⟩ := rfl
  exact (Reads.cons begins
    (digits_read next later version.majorSmall)).append (.byte dot)

theorem minor_reads (first : parser.state = .reqFirstHttpMinor)
    (version : Version) :
    parser.Reads (version.minorDigits ++ [CR, LF]) []
      { parser with
        httpMinor := version.minor
        state := .headerFieldStart } := by
  obtain ⟨ch, digits, split⟩ := List.exists_cons_of_ne_nil version.minorSome
  have number := version.minorNumber
  rw [split] at number ⊢
  obtain ⟨num, later⟩ := Version.numberFrom_cons number
  rw [Nat.zero_mul, Nat.zero_add] at later
  let inMinor (n : Nat) : RequestParser :=
    { parser with httpMinor := n, state := .reqHttpMinor }
  have begins : parser.react ch =
      ⟨inMinor (ch - octet '0').toNat, [], .advance⟩ := by
    unfold react
    simp only [first, onByte, onReqFirstHttpMinor, num, Bool.not_true,
      Bool.false_eq_true, if_false]
    rfl
  have next (n : Nat) (ch : UInt8) (num : isNum ch = true)
      (small : n * 10 + (ch - octet '0').toNat ≤ 999) :
      (inMinor n).react ch =
        ⟨inMinor (n * 10 + (ch - octet '0').toNat), [], .advance⟩ := by
    have noEnd : ch ≠ CR ∧ ch ≠ LF := by
      constructor <;>
      · rintro rfl
        cases num
    unfold react
    simp only [inMinor, onByte, onReqHttpMinor, noEnd.1, noEnd.2, num,
      Bool.not_true, Bool.false_eq_true, if_false, Nat.not_lt.mpr small]
    rfl
  have line : (inMinor version.minor).Reads [CR, LF] []
      { parser with
        httpMinor := version.minor
        state := .headerFieldStart } := ⟨[], rfl, rfl⟩
  exact (Reads.cons begins
    (digits_read next later version.minorSmall)).append line

theorem version_reads (http : parser.state = .reqHttpStart)
    (version : Version) :
    parser.Reads version.text []
      { parser with
        httpMajor := version.major
        httpMinor := version.minor
        state := .headerFieldStart } := by
  have name : parser.Reads (ascii "HTTP/") []
      (parser.goto .reqFirstHttpMajor) := by
    have begins : parser = parser.goto .reqHttpStart := by rw [goto, ← http]
    have letters : ascii "HTTP/" =
        [octet 'H', octet 'T', octet 'T', octet 'P', octet '/'] := by decide
    rw [begins, letters]
    exact ⟨[], rfl, rfl⟩
  have major := @major_reads (parser.goto .reqFirstHttpMajor) rfl version
  have minor := @minor_reads
    { parser with
      httpMajor := version.major
      state := .reqFirstHttpMinor } rfl version
  have whole := (name.append major).append minor
  have text : ascii "HTTP/" ++ (version.majorDigits ++ [octet '.']) ++
      (version.minorDigits ++ [CR, LF]) = version.text := by
    simp only [Version.text, List.append_assoc, List.cons_append,
      List.nil_append]
  rw [text] at whole
  exact whole

/-- The first line of a request. -/
def requestLine (method : HttpMethod) (url : Bytes) (version : Version) :
    Bytes :=
  method.string ++ octet ' ' :: url ++ octet ' ' :: version.text

/-- The parser behind the first line of a request. -/
def withLine (parser : RequestParser) (method : HttpMethod)
    (version : Version) : RequestParser :=
  { parser.withMethod method with
    httpMajor := version.major
    httpMinor := version.minor
    state := .headerFieldStart }

theorem requestLine_reads (start : parser.state = .startReq)
    {method : HttpMethod} {url : Bytes} (target : IsTarget method url)
    (version : Version) :
    parser.Reads (requestLine method url version) [.messageBegin, .url url]
      (parser.withLine method version) := by
  have first := method_reads start method
  have second := @url_reads (parser.withMethod method) rfl url target
  have third := @version_reads ((parser.withMethod method).goto .reqHttpStart)
    rfl version
  have all := (first.append second).append third
  have text : method.string ++ [octet ' '] ++ (url ++ [octet ' ']) ++
      version.text = requestLine method url version := by
    simp only [requestLine, List.append_assoc, List.cons_append,
      List.nil_append]
  rw [text] at all
  exact all

end RequestParser

end Woody
