import Mathlib.Tactic.MkIffOfInductiveProp
import Woody.Foundation.Transducer
import Woody.Http.Rendering

/-!
# The length of a response

`Format` adds the header with `AddHeader`, which keeps an entry that is there
already: what the application wrote under that name, or the length of an
earlier message.
-/

namespace Woody

/-- The calls that build responses and send them. -/
inductive ResponseCall where
  | setStatus (code : Int) (message : Bytes)
  | addHeader (name value : Bytes)
  | addBody (body : Bytes)
  | cleanUp
  | finish
  deriving DecidableEq

/-- The strings of the header that a call passes have no end of a line in
them. -/
def ResponseCall.Unbroken : ResponseCall → Prop
  | .setStatus _ message => OneLine message
  | .addHeader name value => OneLine name ∧ OneLine value
  | _ => True

instance : DecidablePred ResponseCall.Unbroken
  | .setStatus _ message => inferInstanceAs (Decidable (OneLine message))
  | .addHeader name value =>
      inferInstanceAs (Decidable (OneLine name ∧ OneLine value))
  | .addBody _ => .isTrue trivial
  | .cleanUp => .isTrue trivial
  | .finish => .isTrue trivial

/-- A header line as a client reads it: its name without regard to letter
case, and its value without the whitespace around it. -/
def readField (line : Bytes) : Bytes × Bytes :=
  (lowerCase (line.takeWhile (· ≠ 58)),
    trim ((line.dropWhile (· ≠ 58)).drop 1))

/-- The lengths that a message declares, and what follows its empty line. -/
def declared (text : Bytes) : Option (List (Option Nat) × Bytes) :=
  (Separated.readHead 13 10 text).map fun head =>
    let lengths := (head.1.tail.map readField).filter fun field =>
      field.1 = ascii "content-length"
    (lengths.map fun field => decimal field.2, head.2)

/-- A message declares one length, and it is that of its content. -/
def Framed (text : Bytes) : Prop :=
  ∃ content, declared text = some ([some content.length], content)

namespace HTTPResponse

/-- One call, and the messages it sends. -/
def step (boost : Boost) (response : HTTPResponse) :
    ResponseCall → HTTPResponse × List Bytes
  | .setStatus code message => (response.setStatus code message, [])
  | .addHeader name value => (response.addHeader name value, [])
  | .addBody body => (response.addBody body, [])
  | .cleanUp => (response.cleanUp, [])
  | .finish =>
      let finished := response.finish boost
      (finished.1, [finished.2])

/-- A header of this name is read as a length. -/
def ReadsAsLength (name : Bytes) : Prop :=
  lowerCase (name.takeWhile (· ≠ 58)) = ascii "content-length"

instance : DecidablePred ReadsAsLength :=
  fun _ => inferInstanceAs (Decidable (_ = _))

/-- No header but `Content-Length` itself is read as a length. -/
def SoleLength (headers : StringMap) : Prop :=
  ∀ name value, headers.find name = some value →
    ReadsAsLength name → name = ascii "Content-Length"

/-- No other header is read as a length, and a length that is there already is
that of the body. -/
@[mk_iff]
structure Measured (response : HTTPResponse) : Prop where
  sole : SoleLength response.headersMap
  length : match response.headersMap.find (ascii "Content-Length") with
    | some value => decimal (trim value) = some response.body.length
    | none => response.body.length < 2 ^ 31

theorem Unbroken.addHeader {response : HTTPResponse}
    (unbroken : response.Unbroken) {name value : Bytes}
    (oneName : OneLine name) (oneValue : OneLine value) :
    (response.addHeader name value).Unbroken := by
  refine ⟨unbroken.status, fun other text found => ?_⟩
  rw [HTTPResponse.addHeader, StringMap.find_insertPair] at found
  cases present : response.headersMap.find other with
  | some old =>
      rw [present] at found
      exact unbroken.headers other text (present.trans found)
  | none =>
      rw [present, Option.none_or] at found
      split at found
      · next same =>
          cases found
          exact ⟨same ▸ oneName, oneValue⟩
      · cases found

theorem Unbroken.format {response : HTTPResponse}
    (unbroken : response.Unbroken) {boost : Boost} {hash : Bytes → Bytes}
    (correct : boost.Correct hash) : (response.format boost).Unbroken := by
  refine unbroken.addHeader (by decide) (oneLine_of_not_mem ?_)
  rw [Boost.intToString, correct.castString]
  exact not_mem_ascii_toString _

theorem readField_headerLine_fst (entry : Bytes × Bytes) :
    (readField (headerLine entry)).1 =
      lowerCase (entry.1.takeWhile (· ≠ 58)) := by
  rw [readField, headerLine_eq, Separated.takeWhile_append_cons]

theorem readField_headerLine_snd {name : Bytes} (clean : 58 ∉ name)
    (value : Bytes) :
    (readField (headerLine (name, value))).2 = trim value := by
  rw [readField, headerLine_eq, Separated.dropWhile_append_separator clean]
  exact trim_cons_of_isSpace (by decide) value

theorem declared_toText {response : HTTPResponse}
    (unbroken : response.Unbroken) {boost : Boost} {hash : Bytes → Bytes}
    (correct : boost.Correct hash) :
    declared (response.toText boost) =
      some ((response.headersMap.toList.filter fun entry =>
          decide (ReadsAsLength entry.1)).map fun entry =>
            decimal (readField (headerLine entry)).2,
        response.body) := by
  have reads : (fun entry => decide
      ((readField (headerLine entry)).1 = ascii "content-length")) =
        fun entry => decide (ReadsAsLength entry.1) := by
    funext entry
    rw [readField_headerLine_fst]
    rfl
  rw [declared, unbroken.readHead_toText correct, ← reads]
  simp only [Option.map_some, List.tail_cons, headerLines, List.map_map,
    List.filter_map, Function.comp_def]

/-- A response that has a length is framed when this is the only one, and that
of the body. -/
theorem framed_toText_iff {response : HTTPResponse}
    (unbroken : response.Unbroken) {boost : Boost} {hash : Bytes → Bytes}
    (correct : boost.Correct hash) {text : Bytes}
    (found : response.headersMap.find (ascii "Content-Length") = some text) :
    Framed (response.toText boost) ↔
      SoleLength response.headersMap ∧
        decimal (trim text) = some response.body.length := by
  have own : (readField (headerLine (ascii "Content-Length", text))).2 =
      trim text :=
    readField_headerLine_snd (by decide) text
  have isLength : decide (ReadsAsLength (ascii "Content-Length")) = true := by
    decide
  have sole := StringMap.filter_toList_eq_singleton_iff found
    (fun entry => decide (ReadsAsLength entry.1)) isLength
  simp only [decide_eq_true_eq] at sole
  rw [Framed, declared_toText unbroken correct, SoleLength, ← sole, ← own]
  simp only [Option.some_inj, Prod.mk.injEq, exists_eq_right',
    List.map_eq_singleton_iff]
  constructor
  · rintro ⟨entry, kept, length⟩
    have member : (ascii "Content-Length", text) ∈ [entry] := by
      rw [← kept]
      exact List.mem_filter.mpr ⟨StringMap.mem_toList_iff.mpr found, isLength⟩
    rw [List.mem_singleton] at member
    subst member
    exact ⟨kept, length⟩
  · rintro ⟨kept, length⟩
    exact ⟨_, kept, length⟩

theorem soleLength_insertPair (headers : StringMap) (text : Bytes) :
    SoleLength (headers.insertPair (ascii "Content-Length") text) ↔
      SoleLength headers := by
  refine forall₂_congr fun name value => ?_
  rw [StringMap.find_insertPair]
  by_cases own : name = ascii "Content-Length"
  · simp [own]
  · rw [if_neg own, Option.or_none]

/-- `End` sends a message whose length is right exactly when the response was
measured before. -/
theorem finish_framed_iff {response : HTTPResponse}
    (unbroken : response.Unbroken) {boost : Boost} {hash : Bytes → Bytes}
    (correct : boost.Correct hash) :
    Framed (response.finish boost).2 ↔ response.Measured := by
  have formatted := unbroken.format correct
  have found := StringMap.find_insertPair response.headersMap
    (ascii "Content-Length") (boost.intToString response.body.length)
    (ascii "Content-Length")
  rw [if_pos rfl] at found
  rw [measured_iff, ← soleLength_insertPair _
    (boost.intToString response.body.length)]
  cases present : response.headersMap.find (ascii "Content-Length") with
  | some value =>
      rw [present] at found
      exact framed_toText_iff formatted correct found
  | none =>
      rw [present] at found
      rw [← correct.decimal_intToString_iff response.body.length]
      exact framed_toText_iff formatted correct found

theorem unbroken_of_empty {response : HTTPResponse}
    (message : response.statusMessage = [])
    (headers : response.headersMap = ∅) : response.Unbroken := by
  constructor
  · rw [message]
    decide
  · intro name value found
    rw [headers, StringMap.find_empty] at found
    cases found

theorem step_unbroken {boost : Boost} {hash : Bytes → Bytes}
    (correct : boost.Correct hash) (response : HTTPResponse)
    (call : ResponseCall) (passed : call.Unbroken)
    (unbroken : response.Unbroken) :
    (response.step boost call).1.Unbroken := by
  cases call with
  | setStatus code message => exact ⟨passed, unbroken.headers⟩
  | addHeader name value => exact unbroken.addHeader passed.1 passed.2
  | addBody body => exact ⟨unbroken.status, unbroken.headers⟩
  | cleanUp => exact unbroken_of_empty rfl rfl
  | finish => exact unbroken.format correct

/-- All messages of a run have their length exactly when the response is
measured in front of every `End`, whatever is called in between, as long as
no string that is passed has an end of a line in it. -/
theorem messages_framed_iff {boost : Boost} {hash : Bytes → Bytes}
    (correct : boost.Correct hash) (statusCode : Int)
    {calls : List ResponseCall} (passed : ∀ call ∈ calls, call.Unbroken) :
    (∀ text ∈ Transducer.outputs (step boost) (init statusCode) calls,
        Framed text) ↔
      ∀ early late, calls = early ++ .finish :: late →
        Measured (Transducer.after (step boost) (init statusCode) early) := by
  have unbroken {early late : List ResponseCall}
      (shape : calls = early ++ .finish :: late) :
      (Transducer.after (step boost) (init statusCode) early).Unbroken := by
    refine Transducer.after_invariant (step_unbroken correct)
      (unbroken_of_empty rfl rfl) fun call member => passed call ?_
    rw [shape]
    exact List.mem_append_left _ member
  constructor
  · intro framed early late shape
    rw [← finish_framed_iff (unbroken shape) correct]
    exact framed _ (Transducer.mem_outputs_iff.mpr
      ⟨early, .finish, late, shape, List.mem_cons_self⟩)
  · intro measured text sent
    obtain ⟨early, call, late, shape, answer⟩ :=
      Transducer.mem_outputs_iff.mp sent
    cases call with
    | setStatus | addHeader | addBody | cleanUp => cases answer
    | finish =>
        rw [List.mem_singleton.mp answer,
          finish_framed_iff (unbroken shape) correct]
        exact measured early late shape

/-- The calls for two messages, with the response cleaned up in between. -/
def cleanedUp : List ResponseCall :=
  [.setStatus 200 (ascii "OK"), .addBody (ascii "hi"), .finish, .cleanUp,
    .addHeader (ascii "Server") (ascii "woody"), .addBody (ascii "hello"),
    .finish]

theorem cleaned_up_messages_framed :
    let sent := Transducer.outputs (step zeroBoost) (init 0) cleanedUp
    sent.length = 2 ∧ ∀ text ∈ sent, Framed text := by
  refine ⟨rfl, (messages_framed_iff zeroBoost_correct 0 (by decide)).mpr ?_⟩
  intro early late split
  have measured (calls : List ResponseCall)
      (lone : ∀ entry ∈ (Transducer.after (step zeroBoost) (init 0)
        calls).headersMap.toList, ¬ ReadsAsLength entry.1)
      (absent : (Transducer.after (step zeroBoost) (init 0)
        calls).headersMap.find (ascii "Content-Length") = none)
      (short : (Transducer.after (step zeroBoost) (init 0)
        calls).body.length < 2 ^ 31) :
      Measured (Transducer.after (step zeroBoost) (init 0) calls) := by
    refine ⟨?_, by rwa [absent]⟩
    intro name value found reads
    exact (lone (name, value) (StringMap.mem_toList_iff.mpr found) reads).elim
  have finishes : ∀ n < cleanedUp.length, cleanedUp[n]? = some .finish →
      n = 2 ∨ n = 6 := by
    decide
  have isEarly : early = cleanedUp.take early.length := by
    rw [split, List.take_left]
  have ends := finishes early.length (by rw [split]; simp) (by rw [split]; simp)
  rw [isEarly]
  rcases ends with two | six
  · rw [two]
    exact measured _ (by decide +kernel) (by decide +kernel) (by decide +kernel)
  · rw [six]
    exact measured _ (by decide +kernel) (by decide +kernel) (by decide +kernel)

/-- A second message without `CleanUp` declares the length of the first. -/
theorem stale_length_sent :
    let sent := Transducer.outputs (step zeroBoost) (init 0)
      [.setStatus 200 (ascii "OK"), .addBody (ascii "hi"), .finish,
        .addBody (ascii "hello"), .finish]
    sent.map declared =
        [some ([some 2], ascii "hi"), some ([some 2], ascii "hello")] ∧
      ¬ ∀ text ∈ sent, Framed text := by
  intro sent
  have lengths : sent.map declared =
      [some ([some 2], ascii "hi"), some ([some 2], ascii "hello")] := by
    decide +kernel
  refine ⟨lengths, fun framed => ?_⟩
  have second : some ([some 2], ascii "hello") ∈ sent.map declared := by
    rw [lengths]
    exact List.mem_cons_of_mem _ List.mem_cons_self
  obtain ⟨text, isSent, declares⟩ := List.mem_map.mp second
  obtain ⟨content, own⟩ := framed text isSent
  rw [declares, Option.some_inj, Prod.mk.injEq] at own
  obtain ⟨length, rfl⟩ := own
  exact absurd length (by decide)

end HTTPResponse

end Woody
