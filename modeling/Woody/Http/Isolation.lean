import Mathlib.Data.List.Chain
import Woody.Http.Message
import Woody.HttpParser.Execute

/-!
# Isolation of the requests on one connection

A request should be the one that a fresh codec makes of its message.  The
codec keeps the current header name and the body across messages: the first
header continues the name that was kept, a message without headers adds the
kept header, and a message without a body gets the kept body.
-/

namespace Woody

namespace HTTPCodec

/-- The request is that of a fresh codec on this message alone, and it has no
headers if the message has none. -/
def Isolated (message : Message) (request : HTTPRequest) : Prop :=
  (init.onCallbacks message.callbacks).2 = [request] ∧
    (message.headers = [] → request.headersMap = ∅)

/-- A kept name does no harm if the first header is repeated behind itself,
and stands there also under the continued name. -/
def Harmless (name : Bytes) : List (Bytes × Bytes) → Prop
  | [] => False
  | entry :: entries =>
      name = [] ∨
        entries.lookup entry.1 = some entry.2 ∧
          entries.lookup (name ++ entry.1) = some entry.2

/-- The message behind takes nothing over from the message in front of it. -/
def Unmixed (front behind : Message) : Prop :=
  Harmless (front.entries.getLastD ([], [])).1 behind.entries ∧
    (behind.body ≠ [] ∨ lastPiece [] front.body = [])

theorem find_insertAll_empty (entries : List (Bytes × Bytes)) (name : Bytes) :
    (StringMap.insertAll ∅ entries).find name = entries.lookup name := by
  rw [StringMap.find_insertAll, StringMap.find_empty]
  rfl

theorem insertAll_empty_eq_iff {left right : List (Bytes × Bytes)} :
    StringMap.insertAll ∅ left = StringMap.insertAll ∅ right ↔
      ∀ name, left.lookup name = right.lookup name := by
  constructor
  · intro same name
    rw [← find_insertAll_empty, same, find_insertAll_empty]
  · intro same
    apply StringMap.ext_find
    intro name
    rw [find_insertAll_empty, same, find_insertAll_empty]

theorem lookup_added_iff {name value : Bytes}
    {entries : List (Bytes × Bytes)} (headed : entries ≠ []) :
    (∀ other, (added name value entries).lookup other = entries.lookup other) ↔
      Harmless name entries := by
  obtain ⟨⟨first, text⟩, rest, rfl⟩ := List.exists_cons_of_ne_nil headed
  simp only [added, Harmless, StringMap.lookup_cons_eq]
  constructor
  · intro same
    by_cases fresh : name = []
    · exact .inl fresh
    · have longer : name ++ first ≠ first := by simpa using fresh
      have plain := same first
      have continued := same (name ++ first)
      rw [if_neg longer.symm, if_pos rfl] at plain
      rw [if_pos rfl, if_neg longer] at continued
      exact .inr ⟨plain, continued.symm⟩
  · rintro (rfl | ⟨plain, continued⟩) other
    · rfl
    · by_cases isPlain : other = first
      · simp [isPlain, plain]
      · by_cases isContinued : other = name ++ first
        · simp [isContinued, continued]
        · simp [isPlain, isContinued]

theorem added_empty {entries : List (Bytes × Bytes)} (headed : entries ≠ []) :
    added [] [] entries = entries := by
  cases entries with
  | nil => exact (headed rfl).elim
  | cons entry entries => rfl

theorem lastPiece_eq_iff {old : Bytes} {pieces : List Bytes} :
    lastPiece old pieces = lastPiece [] pieces ↔ pieces ≠ [] ∨ old = [] := by
  cases pieces with
  | nil => simp [lastPiece]
  | cons piece pieces => simp [lastPiece, List.getLast?_cons]

theorem isolated_completed_iff {name value body : Bytes} {message : Message} :
    Isolated message (completed name value body message) ↔
      Harmless name message.entries ∧ (message.body ≠ [] ∨ body = []) := by
  unfold Isolated
  rw [alone, List.cons.injEq, ← lastPiece_eq_iff]
  by_cases headless : message.headers = []
  · have entries : message.entries = [] := by simp [Message.entries, headless]
    have filled : (completed name value body message).headersMap ≠ ∅ := by
      intro empty
      have found := congrArg (·.find name) empty
      simp [completed, entries, added, find_insertAll_empty,
        StringMap.find_empty] at found
    simp [headless, filled, entries, Harmless]
  · have headed : message.entries ≠ [] := by simpa [Message.entries]
    rw [← @lookup_added_iff name value _ headed, ← insertAll_empty_eq_iff]
    simp only [headless, completed, added_empty headed,
      HTTPRequest.mk.injEq, true_and, and_true, false_implies]
    exact and_congr eq_comm eq_comm

/-- The requests of a run, for what the codec has kept in front of it. -/
def delivered : Bytes → Bytes → Bytes → List Message → List HTTPRequest
  | _, _, _, [] => []
  | name, value, body, message :: messages =>
      let last := (added name value message.entries).getLastD ([], [])
      completed name value body message ::
        delivered last.1 last.2 (lastPiece body message.body) messages

theorem onCallbacks_messages {codec : HTTPCodec} {name value body : Bytes}
    (between : Between codec name value body) (messages : List Message) :
    (codec.onCallbacks (messages.flatMap Message.callbacks)).2 =
      delivered name value body messages := by
  induction messages generalizing codec name value body with
  | nil => rfl
  | cons message messages ih =>
      obtain ⟨next, runs, behind⟩ := onCallbacks_message between message
      rw [List.flatMap_cons, onCallbacks_append, runs]
      dsimp only
      rw [ih behind]
      rfl

/-- Behind an isolated message the codec keeps the name of its last header
and the last piece of its body. -/
theorem keeps_of_harmless {name value : Bytes}
    {entries : List (Bytes × Bytes)} (harmless : Harmless name entries) :
    ((added name value entries).getLastD ([], [])).1 =
      (entries.getLastD ([], [])).1 := by
  cases entries with
  | nil => exact harmless.elim
  | cons entry entries =>
      cases entries with
      | nil =>
          rcases harmless with rfl | ⟨plain, _⟩
          · rfl
          · cases plain
      | cons next entries => simp [added]

theorem isolated_delivered_iff {name value body : Bytes}
    {messages : List Message} :
    List.Forall₂ Isolated messages (delivered name value body messages) ↔
      (∀ message ∈ messages.head?, Harmless name message.entries ∧
        (message.body ≠ [] ∨ body = [])) ∧
      messages.IsChain Unmixed := by
  induction messages generalizing name value body with
  | nil => simp [delivered]
  | cons message messages ih =>
      rw [delivered, List.forall₂_cons, isolated_completed_iff,
        List.isChain_cons]
      simp only [List.head?_cons, Option.mem_def, Option.some.injEq,
        forall_eq']
      apply and_congr_right
      rintro ⟨harmless, bodied⟩
      rw [ih, keeps_of_harmless harmless, lastPiece_eq_iff.mpr bodied]
      rfl

theorem Harmless.headed {name : Bytes} {message : Message}
    (harmless : Harmless name message.entries) : message.headers ≠ [] := by
  intro headless
  simp [Message.entries, headless, Harmless] at harmless

theorem harmless_nil_iff {message : Message} :
    Harmless [] message.entries ↔ message.headers ≠ [] := by
  constructor
  · exact Harmless.headed
  · intro headed
    obtain ⟨header, headers, split⟩ := List.exists_cons_of_ne_nil headed
    simp [Message.entries, split, Harmless]

/-- In a chain of messages that take nothing over only the first one can be
without headers. -/
theorem headed_of_unmixed {messages : List Message}
    (unmixed : messages.IsChain Unmixed)
    (first : ∀ message ∈ messages.head?, message.headers ≠ []) :
    ∀ message ∈ messages, message.headers ≠ [] := by
  induction messages with
  | nil => exact fun message impossible => (List.not_mem_nil impossible).elim
  | cons message messages ih =>
      rw [List.isChain_cons] at unmixed
      have later := ih unmixed.2 fun next isNext =>
        (unmixed.1 next isNext).1.headed
      exact List.forall_mem_cons.mpr ⟨first message rfl, later⟩

theorem isolated_messages_iff {messages : List Message} :
    List.Forall₂ Isolated messages (delivered [] [] [] messages) ↔
      (∀ message ∈ messages, message.headers ≠ []) ∧
        messages.IsChain Unmixed := by
  rw [isolated_delivered_iff]
  simp only [harmless_nil_iff, or_true, and_true]
  constructor
  · rintro ⟨first, unmixed⟩
    exact ⟨headed_of_unmixed unmixed first, unmixed⟩
  · rintro ⟨headed, unmixed⟩
    exact ⟨fun message isFirst => headed message (List.mem_of_mem_head? isFirst),
      unmixed⟩

/-- The requests of a connection are isolated from each other if and only if
every message has headers and takes nothing over from the one before it. -/
theorem requests_isolated_iff (parser : HttpParser) (reads : List Bytes)
    (messages : List Message)
    (reported : parser.callbacks parser.init reads =
      messages.flatMap Message.callbacks) :
    List.Forall₂ Isolated messages
        (requestsOf parser parser.init init reads) ↔
      (∀ message ∈ messages, message.headers ≠ []) ∧
        messages.IsChain Unmixed := by
  rw [requestsOf_eq, reported, onCallbacks_messages between_init,
    isolated_messages_iff]

/-- `GET / HTTP/1.1` with one header line for each of these entries. -/
def getMessage (entries : List (Bytes × Bytes)) : Message where
  method := ascii "GET"
  upgrade := false
  url := [ascii "/"]
  headers := entries.map .whole
  body := []

def hostOnly : Message := getMessage [(ascii "Host", ascii "a")]

def hostOnlyRead : Bytes := ascii "GET / HTTP/1.1\r\nHost: a\r\n\r\n"

/-- The name `Host` that is kept of the first request is harmless in front of
the second one. -/
theorem two_requests_isolated :
    let messages :=
      [hostOnly,
        getMessage
          [(ascii "Host", ascii "b"), (ascii "Host", ascii "b"),
            (ascii "HostHost", ascii "b")]]
    let reads :=
      [hostOnlyRead ++ ascii "GET / HTTP/1.1\r\nHost: b\r\n",
        ascii "Host: b\r\nHostHost: b\r\n\r\n"]
    List.Forall₂ Isolated messages
      (requestsOf httpParser httpParser.init init reads) := by
  intro messages reads
  have reported : httpParser.callbacks httpParser.init reads =
      messages.flatMap Message.callbacks := by
    decide +kernel
  refine (requests_isolated_iff httpParser reads messages reported).mpr ?_
  refine ⟨by decide, List.isChain_pair.mpr ⟨.inr ?_, .inr rfl⟩⟩
  decide +kernel

/-- The header of the second request is called `HostHost`. -/
theorem second_request_mixed :
    let reads := [hostOnlyRead, hostOnlyRead]
    httpParser.callbacks httpParser.init reads =
        [hostOnly, hostOnly].flatMap Message.callbacks ∧
      ¬ List.Forall₂ Isolated [hostOnly, hostOnly]
        (requestsOf httpParser httpParser.init init reads) := by
  intro reads
  refine ⟨by decide +kernel, fun isolated => ?_⟩
  have second := (List.forall₂_cons.mp (List.forall₂_cons.mp isolated).2).1.1
  have hosts := congrArg (List.map (·.headersMap.find (ascii "Host"))) second
  exact absurd hosts (by decide +kernel)

end HTTPCodec

end Woody
