import Woody.Websocket.Assembly

/-!
# Frames that leave no trace in message assembly

A control frame, and a frame that is answered with an error, leaves the codec
as it was and delivers no data.  The other frames of a sequence can therefore
be run on their own.
-/

namespace Woody

namespace WebsocketCodec

/-- A control frame, or a frame for which the codec reported an error. -/
def Transparent (entry : WebsocketFrame × List CodecEvent) : Prop :=
  entry.1.IsControl ∨ ∃ event ∈ entry.2, event.IsError

instance (entry : WebsocketFrame × List CodecEvent) :
    Decidable (Transparent entry) :=
  inferInstanceAs (Decidable (_ ∨ _))

/-- The sequence without its control frames and without the frames for which
the codec reported an error. -/
def assembledFrames (codec : WebsocketCodec) (frames : List WebsocketFrame) :
    List WebsocketFrame :=
  ((codec.trace frames).filter fun entry => ¬ Transparent entry).map Prod.fst

/-- Every handler that reports an error returns before it changes anything. -/
theorem FrameStep.of_error {codec : WebsocketCodec} {frame : WebsocketFrame}
    {result : WebsocketCodec × List CodecEvent}
    (step : FrameStep codec frame result)
    (error : ∃ event ∈ result.2, event.IsError) :
    result.1 = codec ∧ result.2.filterMap CodecEvent.dataMessage? = [] := by
  obtain ⟨event, member, isError⟩ := error
  cases step with
  | unhandled | started | continued | stray => cases member
  | refused | notStarted | overlapping => exact ⟨rfl, rfl⟩
  | control _ _ message =>
      cases List.mem_singleton.mp member
      cases event with
      | error => exact message.elim
      | text | binary | close | ping | pong => exact isError.elim
  | single | finished =>
      cases List.mem_singleton.mp member
      exact (DataType.callback_not_error _ _ isError).elim

theorem transparent_step (codec : WebsocketCodec) (frame : WebsocketFrame)
    (transparent :
      decide (Transparent (frame, (codec.onParsedFrame frame).2)) = true) :
    (codec.onParsedFrame frame).1 = codec ∧
      (codec.onParsedFrame frame).2.filterMap CodecEvent.dataMessage? = [] := by
  have step := codec.onParsedFrame_step frame
  rcases of_decide_eq_true transparent with control | error
  · exact step.of_control control
  · exact step.of_error error

theorem assembledFrames_eq (codec : WebsocketCodec)
    (frames : List WebsocketFrame) :
    codec.assembledFrames frames =
      Transducer.purge onParsedFrame
        (fun entry => decide (Transparent entry)) codec frames := by
  simp only [assembledFrames, Transducer.purge, trace_eq, decide_not]

/-- Control frames and rejected frames are invisible to message assembly,
in every state of the codec. -/
theorem assembly_ignores_transparent (codec : WebsocketCodec)
    (frames : List WebsocketFrame) :
    let kept := codec.assembledFrames frames
    codec.messages kept = codec.messages frames ∧
      (codec.after kept).curMessageType =
        (codec.after frames).curMessageType ∧
      (codec.after kept).textMessage = (codec.after frames).textMessage ∧
      (codec.after kept).binaryMessage =
        (codec.after frames).binaryMessage := by
  intro kept
  have unmoved (codec : WebsocketCodec) (frame : WebsocketFrame)
      (transparent :
        decide (Transparent (frame, (codec.onParsedFrame frame).2)) = true) :
      (codec.onParsedFrame frame).1 = codec :=
    (transparent_step codec frame transparent).1
  have messages : codec.messages kept = codec.messages frames := by
    simp only [kept, assembledFrames_eq, messages_eq]
    apply Transducer.filterMap_outputs_purge unmoved
    intro codec frame transparent
    exact (transparent_step codec frame transparent).2
  have same : codec.after kept = codec.after frames := by
    simp only [kept, assembledFrames_eq, after_eq]
    exact Transducer.after_purge unmoved codec frames
  rw [same]
  exact ⟨messages, rfl, rfl, rfl⟩

end WebsocketCodec

end Woody
