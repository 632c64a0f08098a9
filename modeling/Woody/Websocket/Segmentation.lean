import Woody.Websocket.BufferSafety

/-!
# Runs of reads

Every read is appended to the input buffer and followed by one `OnData`.  A
run delivers what the reference decoder finds in the whole stream, however
the stream is cut, as long as no read ends inside a frame header and every
read leaves the room that `prepend` needs.
-/

namespace Woody

/-- What a sequence of reads leaves behind, reports and consumes; a failed
assertion ends it. -/
structure Run where
  handler : WebsocketHandler
  buffer : Buffer
  events : List CodecEvent
  consumed : Nat
  aborted : Bool

namespace WebsocketHandler

def receive : WebsocketHandler → Buffer → List Bytes → Run
  | handler, buffer, [] => ⟨handler, buffer, [], 0, false⟩
  | handler, buffer, read :: reads =>
      let result := handler.onData (buffer.readFd read)
      if result.exit = .aborted then
        ⟨result.handler, result.buffer, result.events, result.consumed, true⟩
      else
        let later := receive result.handler result.buffer reads
        { later with
          events := result.events ++ later.events
          consumed := result.consumed + later.consumed }

/-- Every read fits, and ends behind a frame or inside a body; only the last
one may end at a header that is refused.  `pending` is what stands behind the
last complete frame so far. -/
def Tame : Bytes → List Bytes → Prop
  | _, [] => True
  | pending, read :: reads =>
      let residue := WireFraming.residue (pending ++ read)
      Room (pending ++ read) ∧
        (Headed residue ∨
          reads = [] ∧ HeaderFraming.front residue = .reject) ∧
        Tame residue reads

/-- The whole run is determined by the stream. -/
structure Faithful (register : WebsocketCodec.Register)
    (pending stream : Bytes) (run : Run) : Prop where
  survived : run.aborted = false
  empty : run.buffer.readable = []
  events : run.events = frameEvents register stream ++
    complaint (WireFraming.residue stream)
  consumed : pending.length + run.consumed +
    (lost (WireFraming.residue stream)).length = stream.length

theorem frameEvents_append (register : WebsocketCodec.Register)
    (early late : Bytes) :
    frameEvents register (early ++ late) =
      frameEvents register early ++
        frameEvents
          (carry WebsocketCodec.deliver register (WireFraming.frames early))
          (WireFraming.residue early ++ late) := by
  rw [frameEvents, Framing.frames_append, emitAll_append, List.flatMap_append]
  rfl

/-- The run lemma, by induction on the reads. -/
theorem receive_faithful {register : WebsocketCodec.Register}
    {pending : Bytes} {handler : WebsocketHandler} {buffer : Buffer}
    {reads : List Bytes} (holds : handler.codec.Holds register pending)
    (empty : buffer.readable = []) (tame : Tame pending reads) :
    Faithful register pending (pending ++ reads.flatten)
      (handler.receive buffer reads) := by
  induction reads generalizing register pending handler buffer with
  | nil =>
      have unfinished := holds.unfinished
      have headed := headed_of_holds holds.parser
      have frames := Framing.frames_of_unfinished unfinished
      have residue := Framing.residue_of_unfinished unfinished
      rw [List.flatten_nil, List.append_nil]
      refine ⟨rfl, empty, ?_, ?_⟩
      · rw [residue, headed.complaint_eq, frameEvents, frames]
        rfl
      · rw [residue, lost_eq_nil_iff.mpr headed]
        rfl
  | cons read reads ih =>
      obtain ⟨room, ending, rest⟩ := tame
      have outcome := onData_outcome holds (buffer.readFd read)
      rw [Buffer.readFd_readable, empty, List.nil_append] at outcome
      have survived := outcome.room_iff.mpr room
      rw [receive]
      simp only [survived, if_false]
      cases outcome with
      | aborted _ _ exit => exact (survived exit).elim
      | completed _ _ left events consumed held =>
          rw [List.flatten_cons, ← List.append_assoc]
          rcases ending with headed | ⟨last, refused⟩
          · rw [headed.kept_eq] at held
            rw [headed.complaint_eq, List.append_nil] at events
            rw [lost_eq_nil_iff.mpr headed, List.length_nil] at consumed
            have later := ih held left rest
            refine ⟨later.survived, later.empty, ?_, ?_⟩
            · rw [frameEvents_append, Framing.residue_append (pending ++ read),
                List.append_assoc, ← later.events]
              exact congrArg (· ++ _) events
            · have total := later.consumed
              rw [Framing.residue_append]
              simp only [List.length_append] at total consumed ⊢
              omega
          · subst last
            rw [List.flatten_nil, List.append_nil]
            refine ⟨rfl, left, ?_, consumed⟩
            exact (List.append_nil _).trans events

theorem Tame.early {pending : Bytes} {early late : List Bytes}
    (tame : Tame pending (early ++ late)) : Tame pending early := by
  induction early generalizing pending with
  | nil => trivial
  | cons read early ih =>
      obtain ⟨room, ending, rest⟩ := tame
      refine ⟨room, ?_, ih rest⟩
      rcases ending with headed | ⟨last, refused⟩
      · exact .inl headed
      · exact .inr ⟨(List.append_eq_nil_iff.mp last).1, refused⟩

theorem Tame.ending {pending : Bytes} {reads : List Bytes}
    (tame : Tame pending reads) (headed : Headed pending)
    (unfinished : WireFraming.Unfinished pending) :
    Headed (WireFraming.residue (pending ++ reads.flatten)) ∨
      HeaderFraming.front (WireFraming.residue (pending ++ reads.flatten)) =
        .reject := by
  induction reads generalizing pending with
  | nil =>
      rw [List.flatten_nil, List.append_nil,
        Framing.residue_of_unfinished unfinished]
      exact .inl headed
  | cons read reads ih =>
      obtain ⟨-, ending, rest⟩ := tame
      rcases ending with headed | ⟨last, refused⟩
      · rw [List.flatten_cons, ← List.append_assoc, Framing.residue_append]
        exact ih rest headed (Framing.residue_unfinished _)
      · subst last
        rw [List.flatten_cons, List.flatten_nil, List.append_nil]
        exact .inr refused

/-- Two runs invoke the same message callbacks in the same order, and the
error callback in both of them or in none. -/
structure SameCallbacks (first second : Run) : Prop where
  messages : first.events.filter (fun event => ¬ event.IsError) =
    second.events.filter fun event => ¬ event.IsError
  errors : (∃ event ∈ first.events, event.IsError) ↔
    ∃ event ∈ second.events, event.IsError

/-- No read drops a byte while a header is incomplete: everything has been
consumed or is still in the buffer. -/
def KeepsHeaders (handler : WebsocketHandler) (reads : List Bytes) : Prop :=
  ∀ early late, reads = early ++ late →
    HeaderFraming.front (WireFraming.residue early.flatten) = .needMore →
    let run := handler.receive Buffer.init early
    run.aborted = false ∧
      run.consumed + run.buffer.readable.length = early.flatten.length

theorem keepsHeaders_of_tame {conn : TcpConnection}
    {memory : WebsocketParser} {reads : List Bytes} (tame : Tame [] reads) :
    KeepsHeaders (upgraded conn memory) reads := by
  rintro early late rfl incomplete run
  have faithful : Faithful _ [] early.flatten run :=
    receive_faithful (WebsocketCodec.Holds.init memory) Buffer.init_readable
      tame.early
  have ending := tame.early.ending (.inl rfl) Framing.unfinished_nil
  rw [List.nil_append] at ending
  have headed : Headed (WireFraming.residue early.flatten) := by
    rcases ending with headed | refused
    · exact headed
    · rw [incomplete] at refused
      cases refused
  have consumed := faithful.consumed
  rw [lost_eq_nil_iff.mpr headed] at consumed
  refine ⟨faithful.survived, ?_⟩
  rw [faithful.empty]
  simpa using consumed

/-- When delivery does not depend on segmentation.  Two ways of cutting a
stream into reads deliver the same and lose nothing when no read ends inside a
frame header, a refused header comes in the last read only, and no read has
more than eight bytes behind its first frame. -/
theorem tame_runs_agree (conn : TcpConnection) (memory : WebsocketParser)
    {first second : List Bytes} (same : first.flatten = second.flatten)
    (firstTame : Tame [] first) (secondTame : Tame [] second) :
    let handler := upgraded conn memory
    SameCallbacks (handler.receive Buffer.init first)
        (handler.receive Buffer.init second) ∧
      KeepsHeaders handler first ∧ KeepsHeaders handler second := by
  intro handler
  have firstRun : Faithful _ [] first.flatten
      (handler.receive Buffer.init first) :=
    receive_faithful (WebsocketCodec.Holds.init memory) Buffer.init_readable
      firstTame
  have secondRun : Faithful _ [] second.flatten
      (handler.receive Buffer.init second) :=
    receive_faithful (WebsocketCodec.Holds.init memory) Buffer.init_readable
      secondTame
  have events : (handler.receive Buffer.init first).events =
      (handler.receive Buffer.init second).events := by
    rw [firstRun.events, secondRun.events, same]
  refine ⟨⟨?_, ?_⟩, keepsHeaders_of_tame firstTame,
    keepsHeaders_of_tame secondTame⟩
  · rw [events]
  · rw [events]

/-- Two frames in one read or in two. -/
theorem two_frames_agree :
    let handler := upgraded ⟨.connected, 0⟩ default
    SameCallbacks (handler.receive Buffer.init [emptyText ++ emptyText])
        (handler.receive Buffer.init [emptyText, emptyText]) ∧
      KeepsHeaders handler [emptyText ++ emptyText] ∧
      KeepsHeaders handler [emptyText, emptyText] := by
  have room (rest : Bytes) (short : rest.length ≤ kCheapPrepend) :
      Room (emptyText ++ rest) := by
    intro wire total found
    have first : WireFraming.front emptyText =
        .frame ⟨⟨1, 1, 0, some 0x01020304⟩, []⟩ 6 := by decide
    have extended := WireFraming.frame_append rest first
    rw [found] at extended
    cases extended
    rw [List.length_append]
    exact Nat.add_le_add_left short 6
  have alone : WireFraming.residue emptyText = [] := by decide
  have both : WireFraming.residue (emptyText ++ emptyText) = [] := by decide
  apply tame_runs_agree
  · rfl
  · exact ⟨room emptyText (by decide), .inl (.inl both), trivial⟩
  · have single := room [] (Nat.zero_le _)
    rw [List.append_nil] at single
    refine ⟨single, .inl (.inl alone), ?_, ?_, trivial⟩
    · rw [List.nil_append, alone]
      exact single
    · rw [List.nil_append, alone]
      exact .inl (.inl alone)

/-- Cut inside its header, a frame is lost and only errors are reported. -/
theorem cut_header_disagrees :
    let handler := upgraded ⟨.connected, 0⟩ default
    (handler.receive Buffer.init [emptyText]).events = [.text ⟨.none, []⟩] ∧
    ¬ SameCallbacks (handler.receive Buffer.init [emptyText])
      (handler.receive Buffer.init
        [emptyText.take 1, emptyText.drop 1]) ∧
    ¬ KeepsHeaders handler [emptyText.take 1, emptyText.drop 1] := by
  intro handler
  have whole : (handler.receive Buffer.init [emptyText]).events =
      [.text ⟨.none, []⟩] := by decide +kernel
  have silent : (handler.receive Buffer.init
      [emptyText.take 1, emptyText.drop 1]).events.filter
        (fun event => ¬ event.IsError) = [] := by decide +kernel
  refine ⟨whole, ?_, ?_⟩
  · intro same
    have messages := same.messages
    rw [whole, silent] at messages
    exact absurd messages (by decide)
  · intro keeps
    have first := keeps [emptyText.take 1] [emptyText.drop 1] rfl (by decide)
    revert first
    decide +kernel

end WebsocketHandler

end Woody
