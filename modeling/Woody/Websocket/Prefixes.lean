import Woody.Websocket.Progress

/-!
# A frame that arrives in two parts

`Parse` returns true while it waits for the rest of a frame, except in front
of the second byte: there it returns the number of parsed bytes, which is
zero, and zero is false.
-/

namespace Woody

namespace WebsocketParser

/-- The calls of `Parse` on the two parts of a frame: the second one is given
what the first one left. -/
def secondCall (parser : WebsocketParser) (early late : Bytes) : ParseResult :=
  let first := parser.parse early 0
  first.parser.parse (early.drop first.parsedBytes ++ late) 0

/-- Both calls return true, and the second one delivers the frame. -/
structure ReadInTwo (parser : WebsocketParser) (early late : Bytes)
    (frame : WebsocketFrame) : Prop where
  waited : (parser.parse early 0).ok = true
  silent : (parser.parse early 0).delivered = none
  ok : (parser.secondCall early late).ok = true
  delivered : (parser.secondCall early late).delivered = some frame

/-- In front of a frame that is still incomplete, the second byte decides. -/
theorem Holds.waits_iff {key : UInt32} {parser : WebsocketParser}
    {wire : WireFrame} {early late : Bytes} (holds : Holds key [] parser)
    (valid : WireFraming.front (early ++ late) =
      .frame wire (early ++ late).length)
    (proper : late ≠ []) :
    (parser.parse early 0).ok = true ↔ 2 ≤ early.length := by
  have unfinished := Framing.unfinished_of_split valid proper
  have turn := holds.turn early
  generalize parser.parse early 0 = result at turn
  cases turn with
  | frame found => exact (unfinished _ _ found).elim
  | reject _ found =>
      rw [WireFraming.reject_append late found] at valid
      cases valid
  | headerIncomplete => exact decide_eq_true_iff
  | bodyIncomplete headed =>
      obtain ⟨first, second, rest, rfl, -⟩ :=
        Wire.headerFront_eq_frame_iff.mp headed
      exact iff_of_true rfl (Nat.le_add_left 2 rest.length)

/-- An incomplete frame is waited for exactly when its first two bytes are
there, in every parser that stands in front of a frame. -/
theorem incomplete_frame_waits_iff (memory : WebsocketParser)
    (calls : List Bytes) (wire : WireFrame) (early late : Bytes)
    (state : (memory.init.afterCalls calls).state = .headerBegin)
    (valid : WireFraming.front (early ++ late) =
      .frame wire (early ++ late).length)
    (proper : late ≠ []) :
    let parser := memory.init.afterCalls calls
    ReadInTwo parser early late (emit parser.maskingKey wire).2 ↔
      2 ≤ early.length := by
  intro parser
  obtain ⟨key, pending, reached⟩ := (Holds.init memory).afterCalls calls
  have holds := reached.boundary state
  obtain ⟨silent, ⟨middle, held⟩, delivered⟩ :=
    resumes.on_split holds valid proper
  rw [← holds.waits_iff valid proper]
  constructor
  · exact ReadInTwo.waited
  · intro waited
    exact ⟨waited, silent, held.ok_of_delivered delivered, delivered⟩

/-- A masked text of two bytes, cut inside its masking key, behind a frame
that has been read. -/
theorem cut_text_read :
    let parser := (WebsocketParser.init default).afterCalls [[129, 0]]
    ReadInTwo parser [129, 130, 0, 0] [0, 7, 104, 110]
      ⟨1, 0, 0, 0, 1, 1, 2, 7, [104, 110]⟩ :=
  (incomplete_frame_waits_iff default [[129, 0]]
    ⟨⟨1, 1, 2, some 7⟩, [104, 110]⟩ [129, 130, 0, 0] [0, 7, 104, 110]
    (by decide +kernel) (by decide +kernel) (by decide)).mpr (by decide)

/-- The empty prefix and the first byte of a frame are refused. -/
theorem first_byte_refused :
    let parser := WebsocketParser.init default
    let late : Bytes := [130, 0, 0, 0, 7, 104, 110]
    (parser.parse [] 0).ok = false ∧ (parser.parse [129] 0).ok = false ∧
      WireFraming.front (129 :: late) =
        .frame ⟨⟨1, 1, 2, some 7⟩, [104, 110]⟩ (129 :: late).length := by
  decide +kernel

end WebsocketParser

end Woody
