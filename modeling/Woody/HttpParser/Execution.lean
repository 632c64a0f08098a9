import Woody.HttpParser.Bodies
import Woody.HttpParser.Headers

/-!
# A call follows the machine

One turn after the other follows the machine, and at the end of the data the
token that is open is reported.
-/

namespace Woody

open Scanner

variable {history outputs : List HttpCallback} {parser : RequestParser}
  {progress : Progress} {pending : Pending}

theorem Progress.switch_follows {ch : UInt8} {rest : Bytes}
    (tracks : Tracks history outputs pending (ch :: rest) progress)
    (opens : pending.token ∈ progress.parser.state.opens)
    (sound : progress.parser.Sound)
    (within : progress.parser.state.parsingHeader = true →
      progress.parser.nread ≤ httpMaxHeaderSize)
    (small : (ch :: rest).length + httpMaxHeaderSize.toNat < 2 ^ 32) :
    (progress.switch ch rest).Follows history outputs
      progress.parser.toRequestParser (ch :: rest) := by
  have some := List.cons_ne_nil ch rest
  unfold switch
  cases state : progress.parser.state <;> dsimp only
  case headerField =>
    rw [state] at opens
    exact headerField_follows tracks (List.mem_singleton.mp opens) some rfl
      state
  case headerValue =>
    rw [state] at opens
    exact headerValue_follows tracks (List.mem_singleton.mp opens) some rfl
      state (within (by rw [state]; rfl)) small
  case bodyIdentity =>
    rw [state] at opens
    exact bodyIdentity_follows tracks (List.mem_singleton.mp opens) some
      (.inl state) state (sound.hasLength (.inl state)).1
  case chunkData =>
    rw [state] at opens
    exact chunkData_follows tracks (List.mem_singleton.mp opens) some
      (.inr state) state (sound.hasLength (.inr state)).1
  all_goals
    apply perform_follows _ tracks
    · exact (RequestParser.onByte_follows _ ch).inOrder opens
    · simp only [RequestParser.react, state]

theorem Progress.turn_follows {ch : UInt8} {rest : Bytes}
    (tracks : Tracks history outputs pending (ch :: rest) progress)
    (opens : pending.token ∈ progress.parser.state.opens)
    (sound : progress.parser.Sound)
    (small : (ch :: rest).length + httpMaxHeaderSize.toNat < 2 ^ 32) :
    (progress.turn ch rest).Follows history outputs
      progress.parser.toRequestParser (ch :: rest) := by
  unfold turn
  split_ifs with header
  · rcases progress.count_cases 1 with
      ⟨nread, -, fits, counted⟩ | ⟨overflowed, counted, errno, same⟩
    · rw [counted]
      exact switch_follows tracks.counted opens sound (fun _ => fits) small
    · rw [counted]
      exact Reports.at_once tracks errno same
  · exact switch_follows tracks opens sound
      (fun wrong => (header wrong).elim) small

/-- The loop over the data of a call follows the machine. -/
theorem Progress.loop_follows {fuel : Nat} {p : Bytes}
    (enough : p.length < fuel)
    (tracks : Tracks history outputs pending p progress)
    (opens : p ≠ [] → pending.token ∈ progress.parser.state.opens)
    (sound : progress.parser.Sound)
    (small : p.length + httpMaxHeaderSize.toNat < 2 ^ 32) :
    Reports history outputs progress.parser.toRequestParser p
      (loop fuel progress p) := by
  induction fuel generalizing progress pending outputs p with
  | zero => exact (Nat.not_lt_zero _ enough).elim
  | succ fuel ih =>
      cases p with
      | nil =>
          unfold loop
          refine .exact none ?_ rfl (fun _ => rfl) ?_
          · exact congrArg _ (parser_finish progress)
          · simpa [scan] using tracks.finish.alike
      | cons ch rest =>
          have follows := turn_follows tracks (opens (List.cons_ne_nil _ _))
            sound small
          unfold loop
          cases turned : progress.turn ch rest with
          | stop progress rest =>
              rw [turned] at follows
              exact follows
          | next later behind =>
              rw [turned] at follows
              obtain ⟨taken, open_, split, some, read, state, opens, tracks⟩ :=
                follows
              have length := congrArg List.length split
              have nonempty := List.length_pos_of_ne_nil some
              rw [List.length_append] at length
              have soundLater : later.parser.Sound := by
                rw [state]
                exact RequestParser.scan_sound sound read
              have ends := ih (by omega) tracks opens soundLater (by omega)
              rw [state] at ends
              rw [split]
              exact Reports.behind read ends

end Woody
