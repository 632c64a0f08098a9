import Woody.HttpParser.Calls

/-!
# Two ways to cut a stream

What a connection receives comes in reads whose bounds mean nothing.  All ways
to cut the same bytes leave the parser in the same state at the same byte, and
are reported alike, unless the header is too long for one of them.
-/

namespace Woody

open Scanner

/-- Two sequences of calls that have come to the same.  In front of an error
the last piece of a token may be missing. -/
structure Executed.Same (left right : Executed) : Prop where
  parser : left.parser.toRequestParser = right.parser.toRequestParser
  rest : left.rest = right.rest
  callbacks : ∃ first second : Pending, HttpCallback.gluing.Alike
    (left.callbacks ++ first.callbacks) (right.callbacks ++ second.callbacks)
  whole : left.parser.httpErrno = .ok →
    HttpCallback.gluing.Alike left.callbacks right.callbacks

/-- Calls that have not run into a header that is too long. -/
def Executed.HeaderFits (executed : Executed) : Prop :=
  executed.parser.httpErrno ≠ .headerOverflow

instance (executed : Executed) : Decidable executed.HeaderFits :=
  inferInstanceAs (Decidable (_ ≠ _))

theorem Reports.same {parser : RequestParser} {p : Bytes}
    {left right : Executed} (ok : parser.httpErrno = .ok)
    (first : Reports [] [] parser p left)
    (second : Reports [] [] parser p right) (leftFits : left.HeaderFits)
    (rightFits : right.HeaderFits) : left.Same right := by
  cases first with
  | overflow _ _ _ errno => exact (leftFits errno).elim
  | exact pending state rest closed alike =>
      cases second with
      | overflow _ _ _ errno => exact (rightFits errno).elim
      | exact otherPending otherState otherRest otherClosed otherAlike =>
          simp only [List.nil_append] at alike otherAlike
          refine ⟨state.trans otherState.symm, rest.trans otherRest.symm,
            ⟨pending, otherPending, alike.trans otherAlike.symm⟩, ?_⟩
          intro errno
          rw [state] at errno
          have noError := (RequestParser.errno_scan ok p).mp errno
          have none := closed noError
          have otherNone := otherClosed noError
          subst none otherNone
          simpa [Pending.callbacks] using alike.trans otherAlike.symm

namespace CountingParser

/-- Reads as a connection passes them on. -/
def AreReads (reads : List Bytes) : Prop :=
  ∀ data ∈ reads,
    data ≠ [] ∧ data.length + httpMaxHeaderSize.toNat < 2 ^ 32

instance (reads : List Bytes) : Decidable (AreReads reads) :=
  inferInstanceAs (Decidable (∀ data ∈ reads,
    data ≠ [] ∧ data.length + httpMaxHeaderSize.toNat < 2 ^ 32))

theorem init_endsIn (history : List HttpCallback) :
    RequestParser.EndsIn history RequestParser.init :=
  RequestParser.endsIn_of_state rfl rfl

theorem feed_reports_init {reads : List Bytes} (areReads : AreReads reads) :
    Reports [] [] RequestParser.init reads.flatten (init.feed reads) :=
  @feed_reports init [] reads (fun data member => (areReads data member).1)
    (fun data member => (areReads data member).2) rfl
    RequestParser.init_sound (init_endsIn [])

/-- Calls that have not been stopped are all made. -/
theorem callbacks_feed {parser : CountingParser} {reads : List Bytes}
    (running : (parser.feed reads).parser.halted = false) :
    httpParser.callbacks parser reads = (parser.feed reads).callbacks := by
  induction reads generalizing parser with
  | nil => rfl
  | cons data later ih =>
      unfold feed at running ⊢
      dsimp only at running ⊢
      split_ifs at running ⊢ with stops
      · rw [running] at stops
        cases stops
      · exact congrArg ((parser.execute data).2.1 ++ ·) (ih running)

/-- The reads of a connection can be cut anywhere. -/
theorem feed_segmented {reads other : List Bytes}
    (areReads : AreReads reads) (otherAreReads : AreReads other)
    (sameBytes : reads.flatten = other.flatten)
    (fits : (init.feed reads).HeaderFits) (otherFits : (init.feed other).HeaderFits) :
    (init.feed reads).Same (init.feed other) := by
  have first := feed_reports_init areReads
  have second := feed_reports_init otherAreReads
  rw [← sameBytes] at second
  exact first.same rfl second fits otherFits

/-- A `POST` that is cut in a name, in a value, between CR and LF and in the
body. -/
theorem post_segmented :
    (init.feed
        [ascii "POST /a HT", ascii "TP/1.1\r\nContent-Le",
          ascii "ngth: ", ascii "1", ascii "0\r", ascii "\n\r\n01234",
          ascii "56789GET"]).Same
      (init.feed
        [ascii ("POST /a HTTP/1.1\r\nContent-Length: 10\r\n\r\n" ++
          "0123456789GET")]) :=
  feed_segmented (by decide +kernel) (by decide +kernel) (by decide +kernel)
    (by decide +kernel) (by decide +kernel)

end CountingParser

end Woody
