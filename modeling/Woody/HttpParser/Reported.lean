import Mathlib.Data.List.Induction
import Woody.HttpParser.Grammar

/-!
# Reported messages

What is in order can be read as messages, and the codec's requirement on what
is reported to it is met.
-/

namespace Woody

/-- A message as the parser reports it, with the headers that come behind a
body in chunks. -/
structure ReportedMessage extends Message where
  trailers : List HeaderPieces
  located : url ≠ []

namespace ReportedMessage

/-- All callbacks but the last one. -/
def front (message : ReportedMessage) : List HttpCallback :=
  HTTPCodec.headCallbacks message.url message.headers message.method
      message.upgrade ++
    message.body.map .body ++ message.trailers.flatMap HeaderPieces.callbacks

def callbacks (message : ReportedMessage) : List HttpCallback :=
  message.front ++ [.messageComplete]

/-- One more header behind the body. -/
def trailer (message : ReportedMessage) (header : HeaderPieces) :
    ReportedMessage :=
  { message with trailers := message.trailers ++ [header] }

end ReportedMessage

namespace HeaderPieces

/-- A header with a name in pieces, and the first piece of its value. -/
def begin (name : List Bytes) (named : name ≠ []) (data : Bytes) :
    HeaderPieces :=
  ⟨name, [data], named, List.cons_ne_nil _ _⟩

/-- One more piece of the value. -/
def more (header : HeaderPieces) (data : Bytes) : HeaderPieces where
  name := header.name
  value := header.value ++ [data]
  named := header.named
  valued := List.append_ne_nil_of_left_ne_nil header.valued _

theorem callbacks_begin (name : List Bytes) (named : name ≠ [])
    (data : Bytes) :
    (begin name named data).callbacks =
      name.map .headerField ++ [.headerValue data] := rfl

theorem callbacks_more (header : HeaderPieces) (data : Bytes) :
    (header.more data).callbacks = header.callbacks ++ [.headerValue data] := by
  simp [callbacks, more]

end HeaderPieces

/-- The part of a message that has been reported in a phase. -/
inductive Draft : Phase → List HttpCallback → Prop
  | between : Draft .between []
  | begun : Draft .begun [.messageBegin]
  | url {url : List Bytes} (located : url ≠ []) :
      Draft .url (.messageBegin :: url.map .url)
  | field {url : List Bytes} {headers : List HeaderPieces}
      {name : List Bytes} (located : url ≠ []) (named : name ≠ []) :
      Draft .field
        (.messageBegin :: url.map .url ++
          headers.flatMap HeaderPieces.callbacks ++ name.map .headerField)
  | value {url : List Bytes} {headers : List HeaderPieces}
      {last : HeaderPieces} (located : url ≠ []) :
      Draft .value
        (.messageBegin :: url.map .url ++
          headers.flatMap HeaderPieces.callbacks ++ last.callbacks)
  | headed {message : ReportedMessage} (empty : message.body = [])
      (plain : message.trailers = []) : Draft .headed message.front
  | content {message : ReportedMessage} (plain : message.trailers = []) :
      Draft .content message.front
  | trailerField {message : ReportedMessage} {name : List Bytes}
      (named : name ≠ []) :
      Draft .trailerField (message.front ++ name.map .headerField)
  | trailerValue {message : ReportedMessage} {last : HeaderPieces} :
      Draft .trailerValue (message.front ++ last.callbacks)

namespace Draft

variable {phase later : Phase} {early : List HttpCallback}
  {callback : HttpCallback}

theorem of_eq {other : List HttpCallback} (draft : Draft phase early)
    (same : early = other) : Draft phase other :=
  same ▸ draft

theorem front_trailer (message : ReportedMessage) (header : HeaderPieces) :
    (message.trailer header).front = message.front ++ header.callbacks := by
  simp [ReportedMessage.front, ReportedMessage.trailer]

theorem content_more {message : ReportedMessage}
    (plain : message.trailers = []) (data : Bytes) :
    Draft .content (message.front ++ [.body data]) := by
  let longer : ReportedMessage :=
    { message with body := message.body ++ [data] }
  have draft := @content longer plain
  exact draft.of_eq (by simp [longer, ReportedMessage.front, plain])

/-- One more callback that is in order belongs to the message, or completes
it. -/
theorem step (draft : Draft phase early)
    (next : phase.next callback.kind = some later) :
    Draft later (early ++ [callback]) ∨
      later = .between ∧
        ∃ message : ReportedMessage, early ++ [callback] =
          message.callbacks := by
  have some : ∀ (pieces : List Bytes) data, pieces ++ [data] ≠ [] :=
    fun pieces data => List.append_ne_nil_of_right_ne_nil _
      (List.cons_ne_nil _ _)
  cases draft with
  | between => cases callback <;> cases next; exact .inl .begun
  | begun =>
      cases callback <;> cases next
      case begun.url.refl data => exact .inl (.url (some [] data))
  | @url url located =>
      cases callback <;> cases next
      case url.url.refl data =>
        exact .inl ((Draft.url (some url data)).of_eq (by simp))
      case url.headerField.refl data =>
        exact .inl ((@field url [] [data] located (some [] data)).of_eq
          (by simp))
      case url.headersComplete.refl method upgrade =>
        let message : ReportedMessage :=
          ⟨⟨method, upgrade, url, [], []⟩, [], located⟩
        have draft := @headed message rfl rfl
        exact .inl (draft.of_eq (by
          simp [message, ReportedMessage.front, HTTPCodec.headCallbacks]))
  | @field url headers name located named =>
      cases callback <;> cases next
      case field.headerField.refl data =>
        exact .inl ((@field url headers _ located (some name data)).of_eq
          (by simp))
      case field.headerValue.refl data =>
        exact .inl ((@value url headers (.begin name named data)
          located).of_eq (by simp [HeaderPieces.callbacks_begin]))
  | @value url headers last located =>
      cases callback <;> cases next
      case value.headerField.refl data =>
        exact .inl ((@field url (headers ++ [last]) [data] located
          (some [] data)).of_eq (by simp))
      case value.headerValue.refl data =>
        exact .inl ((@value url headers (last.more data) located).of_eq
          (by simp [HeaderPieces.callbacks_more]))
      case value.headersComplete.refl method upgrade =>
        let message : ReportedMessage :=
          ⟨⟨method, upgrade, url, headers ++ [last], []⟩, [], located⟩
        have draft := @headed message rfl rfl
        exact .inl (draft.of_eq (by
          simp [message, ReportedMessage.front, HTTPCodec.headCallbacks]))
  | @headed message empty plain =>
      cases callback <;> cases next
      case headed.body.refl data => exact .inl (content_more plain data)
      case headed.headerField.refl data =>
        exact .inl (trailerField (some [] data))
      case headed.messageComplete.refl => exact .inr ⟨rfl, message, rfl⟩
  | @content message plain =>
      cases callback <;> cases next
      case content.body.refl data => exact .inl (content_more plain data)
      case content.headerField.refl data =>
        exact .inl (trailerField (some [] data))
      case content.messageComplete.refl => exact .inr ⟨rfl, message, rfl⟩
  | @trailerField message name named =>
      cases callback <;> cases next
      case trailerField.headerField.refl data =>
        exact .inl ((@trailerField message _ (some name data)).of_eq
          (by simp))
      case trailerField.headerValue.refl data =>
        exact .inl ((@trailerValue message (.begin name named data)).of_eq
          (by simp [HeaderPieces.callbacks_begin]))
  | @trailerValue message last =>
      cases callback <;> cases next
      case trailerValue.headerField.refl data =>
        rw [← front_trailer]
        exact .inl (trailerField (some [] data))
      case trailerValue.headerValue.refl data =>
        exact .inl ((@trailerValue message (last.more data)).of_eq
          (by simp [HeaderPieces.callbacks_more]))
      case trailerValue.messageComplete.refl =>
        rw [← front_trailer]
        exact .inr ⟨rfl, _, rfl⟩

theorem beginning (draft : Draft phase early) :
    ∃ message : ReportedMessage, early <+: message.callbacks := by
  cases draft with
  | between =>
      exact ⟨⟨⟨[], false, [[]], [], []⟩, [], List.cons_ne_nil _ _⟩,
        List.nil_prefix⟩
  | begun =>
      exact ⟨⟨⟨[], false, [[]], [], []⟩, [], List.cons_ne_nil _ _⟩, _, rfl⟩
  | @url url located =>
      refine ⟨⟨⟨[], false, url, [], []⟩, [], located⟩,
        [.headersComplete [] false, .messageComplete], ?_⟩
      simp [ReportedMessage.callbacks, ReportedMessage.front,
        HTTPCodec.headCallbacks]
  | @field url headers name located named =>
      refine ⟨⟨⟨[], false, url, headers ++ [.begin name named []], []⟩, [],
        located⟩, [.headerValue [], .headersComplete [] false,
          .messageComplete], ?_⟩
      simp [ReportedMessage.callbacks, ReportedMessage.front,
        HTTPCodec.headCallbacks, HeaderPieces.callbacks_begin]
  | @value url headers last located =>
      refine ⟨⟨⟨[], false, url, headers ++ [last], []⟩, [], located⟩,
        [.headersComplete [] false, .messageComplete], ?_⟩
      simp [ReportedMessage.callbacks, ReportedMessage.front,
        HTTPCodec.headCallbacks]
  | @headed message _ _ => exact ⟨message, List.prefix_append _ _⟩
  | @content message _ => exact ⟨message, List.prefix_append _ _⟩
  | @trailerField message name named =>
      refine ⟨message.trailer (.begin name named []),
        [.headerValue [], .messageComplete], ?_⟩
      rw [ReportedMessage.callbacks, front_trailer,
        HeaderPieces.callbacks_begin]
      simp
  | @trailerValue message last =>
      refine ⟨message.trailer last, [.messageComplete], ?_⟩
      rw [ReportedMessage.callbacks, front_trailer]

end Draft

/-- Callbacks in order are messages, and the beginning of one more. -/
theorem Phase.messages_of_runOn {callbacks : List HttpCallback} {phase : Phase}
    (ordered : Phase.between.runOn callbacks = some phase) :
    ∃ (messages : List ReportedMessage) (early : List HttpCallback),
      callbacks = messages.flatMap ReportedMessage.callbacks ++ early ∧
        Draft phase early := by
  induction callbacks using List.reverseRecOn generalizing phase with
  | nil => cases ordered; exact ⟨[], [], rfl, .between⟩
  | append_singleton callbacks callback ih =>
      rw [runOn_append] at ordered
      obtain ⟨middle, runs, next⟩ := Option.bind_eq_some_iff.mp ordered
      obtain ⟨messages, early, split, draft⟩ := ih runs
      have one : middle.next callback.kind = some phase := by
        simpa [runOn, run] using next
      rcases draft.step one with later | ⟨rfl, message, complete⟩
      · refine ⟨messages, early ++ [callback], ?_, later⟩
        rw [split, List.append_assoc]
      · refine ⟨messages ++ [message], [], ?_, .between⟩
        rw [split, List.append_assoc, complete]
        simp

namespace CountingParser

/-- What the parser reports is a sequence of messages, the last one
perhaps not complete, whatever the calls are. -/
theorem reports_messages {calls : List Bytes}
    (small : ∀ data ∈ calls,
      data.length + httpMaxHeaderSize.toNat < 2 ^ 32) :
    ∃ (messages : List ReportedMessage) (early : List HttpCallback)
      (last : ReportedMessage),
      httpParser.callbacks httpParser.init calls =
        messages.flatMap ReportedMessage.callbacks ++ early ∧
      early <+: last.callbacks := by
  have ordered := init_reached.callbacks small
  obtain ⟨phase, runs⟩ := Option.ne_none_iff_exists'.mp ordered
  obtain ⟨messages, early, split, draft⟩ := Phase.messages_of_runOn runs
  obtain ⟨last, beginning⟩ := draft.beginning
  exact ⟨messages, early, last, split, beginning⟩

/-- Two requests in three calls, the second one with an error in it. -/
theorem calls_report_messages :
    ∃ (messages : List ReportedMessage) (early : List HttpCallback)
      (last : ReportedMessage),
      httpParser.callbacks httpParser.init
          [ascii "GET / HTTP/1.1\r\nHo", ascii "st: a\r\n\r\nPUT",
            ascii " /b HTTP/1.1\r\nContent-Length: x\r\n"] =
        messages.flatMap ReportedMessage.callbacks ++ early ∧
      early <+: last.callbacks :=
  reports_messages (by decide +kernel)

end CountingParser

end Woody
