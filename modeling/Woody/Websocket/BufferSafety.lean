import Woody.Websocket.HandlerLoop

/-!
# The room in front of the unread bytes

`retrieveAllAsString` leaves eight bytes of room in front of the reader
index, and what a read brings behind its first frame has to fit there.
-/

namespace Woody

namespace WebsocketParser

/-- The bytes that the frame in progress still needs. -/
def missing (parser : WebsocketParser) : Nat :=
  if parser.state = .headerBegin then 0
  else parser.payloadLength.toNat - parser.body.length

/-- Where in the data the first frame ends, if it ends there. -/
def firstEnd (parser : WebsocketParser) (data : Bytes) : Option Nat :=
  if parser.state = .headerBegin then
    match WireFraming.front data with
    | .frame _ size => some size
    | _ => none
  else if parser.missing ≤ data.length then
    some parser.missing
  else
    none

/-- At most `kCheapPrepend` bytes of the data stand behind its first frame. -/
def RoomBehind (parser : WebsocketParser) (data : Bytes) : Prop :=
  ∀ size, parser.firstEnd data = some size →
    data.length ≤ size + kCheapPrepend

/-- The bytes of the data behind its last frame, not counting those that
continue the frame in progress. -/
def tail (parser : WebsocketParser) (data : Bytes) : Bytes :=
  WireFraming.residue (data.drop parser.missing)

/-- The data ends behind a frame or inside a body. -/
def EndsHeaded (parser : WebsocketParser) (data : Bytes) : Prop :=
  WebsocketHandler.Headed (parser.tail data)

theorem missing_awaiting (key : UInt32) (header : FrameHeader)
    (body : Bytes) :
    (awaiting key header body).missing =
      header.payloadLength.toNat - body.length := rfl

theorem Holds.firstEnd_eq_some_iff {key : UInt32} {pending data : Bytes}
    {parser : WebsocketParser} {size : Nat}
    (holds : Holds key pending parser) :
    parser.firstEnd data = some size ↔
      ∃ wire, WireFraming.front (pending ++ data) =
        .frame wire (pending.length + size) := by
  cases holds with
  | header state body register =>
      simp only [firstEnd, state, if_true, List.nil_append, List.length_nil,
        Nat.zero_add]
      cases WireFraming.front data with
      | needMore => simp
      | reject => simp
      | frame wire total => simp
  | @body header headerSize pending headed short =>
      have extended := HeaderFraming.frame_append data headed
      have bounded := HeaderFraming.size_le headed
      have inBody : (awaiting key header (pending.drop headerSize)).state ≠
          .headerBegin := by
        simp [awaiting]
      have need : (awaiting key header (pending.drop headerSize)).missing =
          headerSize + header.payloadLength.toNat - pending.length := by
        rw [missing_awaiting, List.length_drop]
        omega
      simp only [firstEnd, inBody, if_false, need]
      by_cases reached : headerSize + header.payloadLength.toNat ≤
          (pending ++ data).length
      · have found := Wire.front_of_reached extended reached
        rw [List.length_append] at reached
        rw [if_pos (by omega), found]
        constructor
        · intro same
          cases same
          exact ⟨_, congrArg (Front.frame _)
            (Nat.add_sub_of_le (Nat.le_of_lt short)).symm⟩
        · rintro ⟨wire, same⟩
          injection same with _ total
          rw [total, Nat.add_sub_cancel_left]
      · have incomplete := Wire.front_of_short extended
          (Nat.not_le.mp reached)
        rw [List.length_append] at reached
        rw [if_neg (by omega), incomplete]
        simp

theorem Holds.room_iff {key : UInt32} {pending data : Bytes}
    {parser : WebsocketParser} (holds : Holds key pending parser) :
    WebsocketHandler.Room (pending ++ data) ↔ parser.RoomBehind data := by
  constructor
  · intro room size ends
    obtain ⟨wire, found⟩ := holds.firstEnd_eq_some_iff.mp ends
    have fits := room wire _ found
    rw [List.length_append] at fits
    omega
  · intro room wire total found
    have behind := Framing.length_lt_of_unfinished holds.unfinished found
    have ends := holds.firstEnd_eq_some_iff.mpr
      ⟨wire, by rwa [Nat.add_sub_of_le (Nat.le_of_lt behind)]⟩
    have fits := room _ ends
    rw [List.length_append]
    omega

theorem Holds.lost_residue {key : UInt32} {pending data : Bytes}
    {parser : WebsocketParser} (holds : Holds key pending parser) :
    WebsocketHandler.lost (WireFraming.residue (pending ++ data)) =
      WebsocketHandler.lost (parser.tail data) := by
  cases holds with
  | header state body register =>
      simp only [tail, missing, state, if_true, List.drop_zero,
        List.nil_append]
  | @body header headerSize pending headed short =>
      have extended := HeaderFraming.frame_append data headed
      have bounded := HeaderFraming.size_le headed
      have need : (awaiting key header (pending.drop headerSize)).missing =
          headerSize + header.payloadLength.toNat - pending.length := by
        rw [missing_awaiting, List.length_drop]
        omega
      rw [tail, need]
      by_cases reached : headerSize + header.payloadLength.toNat ≤
          (pending ++ data).length
      · have found := Wire.front_of_reached extended reached
        rw [Framing.residue_of_frame found, List.drop_append,
          List.drop_eq_nil_of_le (Nat.le_of_lt short), List.nil_append]
      · have open_ := Framing.unfinished_of_needMore
          (Wire.front_of_short extended (Nat.not_le.mp reached))
        rw [List.length_append] at reached
        rw [Framing.residue_of_unfinished open_,
          List.drop_eq_nil_of_le (by omega)]
        simp only [WebsocketHandler.lost, extended]
        rfl

end WebsocketParser

namespace WebsocketHandler

/-- When the read loop is safe.  Every `prepend` meets its precondition
exactly when at most eight bytes stand behind the first frame of the buffer.
The buffer then ends with exactly the bytes that were not consumed, unless it
held an incomplete or refused header, which is lost. -/
theorem prepends_safe_iff {handler : WebsocketHandler}
    (reachable : Reachable handler) (buffer : Buffer) :
    let result := handler.onData buffer
    let parser := handler.codec.parser
    ((∀ call ∈ result.prepends, call.Safe) ↔
      parser.RoomBehind buffer.readable) ∧
    ((∀ call ∈ result.prepends, call.Safe) ∧
        result.buffer.readable = buffer.readable.drop result.consumed ↔
      parser.RoomBehind buffer.readable ∧
        parser.EndsHeaded buffer.readable) := by
  intro result parser
  obtain ⟨register, pending, holds, -⟩ := reachable.holds
  have outcome := onData_outcome holds buffer
  have survives : parser.RoomBehind buffer.readable →
      result.exit ≠ .aborted :=
    fun room => outcome.room_iff.mpr (holds.parser.room_iff.mpr room)
  have safe : (∀ call ∈ result.prepends, call.Safe) ↔
      parser.RoomBehind buffer.readable := by
    calc
      (∀ call ∈ result.prepends, call.Safe) ↔ result.exit ≠ .aborted :=
        onDataLoop_prepends _ _ _
      _ ↔ Room (pending ++ buffer.readable) := outcome.room_iff
      _ ↔ parser.RoomBehind buffer.readable := holds.parser.room_iff
  refine ⟨safe, ?_⟩
  rw [safe]
  apply and_congr_right
  intro room
  have ends : parser.EndsHeaded buffer.readable ↔
      lost (WireFraming.residue (pending ++ buffer.readable)) = [] := by
    rw [holds.parser.lost_residue, lost_eq_nil_iff]
    rfl
  rw [ends]
  cases outcome with
  | completed _ _ empty _ consumed _ =>
      change pending.length + result.consumed + _ = _ at consumed
      rw [List.length_append] at consumed
      rw [show result.buffer.readable = [] from empty, eq_comm,
        List.drop_eq_nil_iff, ← List.length_eq_zero_iff]
      constructor
      · intro all
        omega
      · intro nothing
        omega
  | aborted _ _ exit =>
      exact (survives room exit).elim

/-- A masked text frame without payload. -/
def emptyText : Bytes := [0x81, 0x80, 1, 2, 3, 4]

/-- Eight bytes of a second frame have room behind the first one. -/
theorem eight_bytes_behind_safe :
    let buffer := Buffer.init.readFd
      (emptyText ++ [0x81, 0x83, 1, 2, 3, 4, 96, 96])
    let result := (upgraded ⟨.connected, 0⟩ default).onData buffer
    result.prepends.length = 2 ∧ (∀ call ∈ result.prepends, call.Safe) ∧
      result.buffer.readable = buffer.readable.drop result.consumed := by
  intro buffer result
  let data : Bytes := emptyText ++ [0x81, 0x83, 1, 2, 3, 4, 96, 96]
  have readable : buffer.readable = data := by
    rw [Buffer.readFd_readable, Buffer.init_readable, List.nil_append]
  have room : (WebsocketParser.init default).RoomBehind buffer.readable := by
    rw [readable]
    intro size found
    have ends : (WebsocketParser.init default).firstEnd data = some 6 := by
      decide
    obtain rfl : 6 = size := Option.some.inj (ends.symm.trans found)
    decide
  have headed : (WebsocketParser.init default).EndsHeaded buffer.readable := by
    rw [readable]
    have tail : (WebsocketParser.init default).tail data =
        [0x81, 0x83, 1, 2, 3, 4, 96, 96] := by
      decide
    exact .inr ⟨⟨1, 1, 3, some 0x01020304⟩, 6, by rw [tail]; decide⟩
  exact ⟨by decide +kernel,
    (prepends_safe_iff (.upgraded _ default) buffer).2.mpr ⟨room, headed⟩⟩

/-- Two frames in one read abort the server when the second one has more than
eight bytes. -/
theorem second_frame_aborts :
    let result := (upgraded ⟨.connected, 0⟩ default).onData
      (Buffer.init.readFd
        (emptyText ++ [0x81, 0x83, 1, 2, 3, 4, 96, 96, 96]))
    result.exit = .aborted ∧ ¬ ∀ call ∈ result.prepends, call.Safe := by
  intro result
  have crowded : ¬ Room
      ([] ++ (Buffer.init.readFd (emptyText ++
        [0x81, 0x83, 1, 2, 3, 4, 96, 96, 96])).readable) := by
    rw [Buffer.readFd_readable, Buffer.init_readable]
    intro room
    have found : WireFraming.front
        (emptyText ++ [0x81, 0x83, 1, 2, 3, 4, 96, 96, 96]) =
          .frame ⟨⟨1, 1, 0, some 0x01020304⟩, []⟩ 6 := by decide
    have fits := room _ _ found
    exact absurd fits (by decide)
  have outcome : Outcome (.init default) [] _ result :=
    onData_outcome (WebsocketCodec.Holds.init default) _
  have exit : result.exit = .aborted :=
    not_not.mp (mt outcome.room_iff.mp crowded)
  refine ⟨exit, ?_⟩
  intro safe
  exact (onDataLoop_prepends _ _ _).mp safe exit

end WebsocketHandler

end Woody
