import Mathlib.Data.List.Basic
import Mathlib.Tactic.TypeStar

/-!
# One-shot framings of a stream

A framing looks at the front of a stream and finds a frame of known size,
finds a front that no later symbol can repair, or asks for more.  The frames
of a stream and the residue behind them are obtained by repeating this, and
both are compositional: cutting a stream anywhere and carrying the residue of
the first part over to the second part loses nothing.
-/

namespace Woody

/-- What a one-shot decoder finds at the front of a stream. -/
inductive Front (α : Type*) where
  | needMore
  | reject
  | frame (value : α) (size : Nat)
  deriving DecidableEq

/-- A decoder of the front of a stream whose answer depends only on the
symbols of the frame it finds. -/
structure Framing (β α : Type*) where
  front : List β → Front α
  size_pos : ∀ {stream value size},
    front stream = .frame value size → 0 < size
  size_le : ∀ {stream value size},
    front stream = .frame value size → size ≤ stream.length
  frame_append : ∀ {stream value size} (later : List β),
    front stream = .frame value size →
      front (stream ++ later) = .frame value size
  frame_take : ∀ {stream value size},
    front stream = .frame value size →
      front (stream.take size) = .frame value size
  reject_append : ∀ {stream} (later : List β),
    front stream = .reject → front (stream ++ later) = .reject

namespace Framing

variable {α β : Type*} (framing : Framing β α)

/-- Decode at most `fuel` frames; the second component is what is left. -/
def scan : Nat → List β → List α × List β
  | 0, stream => ([], stream)
  | fuel + 1, stream =>
      match framing.front stream with
      | .frame value size =>
          let later := scan fuel (stream.drop size)
          (value :: later.1, later.2)
      | _ => ([], stream)

/-- All frames at the front of a stream, in order. -/
def frames (stream : List β) : List α := (framing.scan stream.length stream).1

/-- The symbols of a stream behind its last frame. -/
def residue (stream : List β) : List β :=
  (framing.scan stream.length stream).2

variable {framing}

theorem scan_fuel {stream : List β} {fuel : Nat}
    (enough : stream.length ≤ fuel) :
    framing.scan fuel stream = framing.scan stream.length stream := by
  induction fuel using Nat.strongRecOn generalizing stream with
  | _ fuel ih =>
      cases fuel with
      | zero =>
          have empty : stream.length = 0 := by omega
          rw [empty]
      | succ fuel =>
          cases found : framing.front stream with
          | needMore =>
              cases stream with
              | nil => simp [scan, found]
              | cons => simp [scan, found]
          | reject =>
              cases stream with
              | nil => simp [scan, found]
              | cons => simp [scan, found]
          | frame value size =>
              have positive := framing.size_pos found
              have bounded := framing.size_le found
              obtain ⟨length, lengthEq⟩ :
                  ∃ length, stream.length = length + 1 :=
                ⟨stream.length - 1, by omega⟩
              have dropped : (stream.drop size).length ≤ length := by
                simp only [List.length_drop]
                omega
              rw [lengthEq]
              simp only [scan, found]
              have droppedFuel : (stream.drop size).length ≤ fuel := by omega
              rw [ih fuel (by omega) droppedFuel,
                ih length (by omega) dropped]

theorem scan_of_frame {stream : List β} {value : α} {size : Nat}
    (found : framing.front stream = .frame value size) :
    framing.scan stream.length stream =
      (value :: framing.frames (stream.drop size),
        framing.residue (stream.drop size)) := by
  have positive := framing.size_pos found
  have bounded := framing.size_le found
  obtain ⟨length, lengthEq⟩ : ∃ length, stream.length = length + 1 :=
    ⟨stream.length - 1, by omega⟩
  have dropped : (stream.drop size).length ≤ length := by
    simp only [List.length_drop]
    omega
  rw [lengthEq]
  simp only [scan, found, frames, residue, scan_fuel dropped]

theorem frames_of_frame {stream : List β} {value : α} {size : Nat}
    (found : framing.front stream = .frame value size) :
    framing.frames stream = value :: framing.frames (stream.drop size) := by
  rw [frames, scan_of_frame found]

theorem residue_of_frame {stream : List β} {value : α} {size : Nat}
    (found : framing.front stream = .frame value size) :
    framing.residue stream = framing.residue (stream.drop size) := by
  rw [residue, scan_of_frame found]

/-- No frame stands at the front of the stream. -/
def Unfinished (framing : Framing β α) (stream : List β) : Prop :=
  ∀ value size, framing.front stream ≠ .frame value size

theorem unfinished_of_needMore {stream : List β}
    (found : framing.front stream = .needMore) :
    framing.Unfinished stream := by
  intro value size framed
  rw [found] at framed
  cases framed

private theorem scan_of_unfinished {stream : List β}
    (unfinished : framing.Unfinished stream) :
    framing.scan stream.length stream = ([], stream) := by
  cases lengthEq : stream.length with
  | zero => rfl
  | succ length =>
      cases found : framing.front stream with
      | needMore => simp [scan, found]
      | reject => simp [scan, found]
      | frame value size => exact (unfinished value size found).elim

theorem frames_of_unfinished {stream : List β}
    (unfinished : framing.Unfinished stream) :
    framing.frames stream = [] := by
  rw [frames, scan_of_unfinished unfinished]

theorem residue_of_unfinished {stream : List β}
    (unfinished : framing.Unfinished stream) :
    framing.residue stream = stream := by
  rw [residue, scan_of_unfinished unfinished]

theorem unfinished_nil : framing.Unfinished [] := by
  intro value size found
  have positive := framing.size_pos found
  have bounded := framing.size_le found
  simp only [List.length_nil] at bounded
  omega

@[simp] theorem frames_nil : framing.frames [] = [] := rfl

@[simp] theorem residue_nil : framing.residue [] = [] := rfl

theorem frame_induction (framing : Framing β α) {motive : List β → Prop}
    (unfinished : ∀ stream, framing.Unfinished stream → motive stream)
    (framed : ∀ stream value size,
      framing.front stream = .frame value size →
        motive (stream.drop size) → motive stream)
    (stream : List β) : motive stream := by
  generalize lengthEq : stream.length = length
  induction length using Nat.strongRecOn generalizing stream with
  | _ length ih =>
      by_cases open_ : framing.Unfinished stream
      · exact unfinished stream open_
      · simp only [Unfinished, not_forall, not_not] at open_
        obtain ⟨value, size, found⟩ := open_
        have positive := framing.size_pos found
        have bounded := framing.size_le found
        apply framed stream value size found
        exact ih (stream.drop size).length (by
          simp only [List.length_drop]
          omega) (stream.drop size) rfl

theorem residue_unfinished (stream : List β) :
    framing.Unfinished (framing.residue stream) := by
  induction stream using frame_induction framing with
  | unfinished stream open_ =>
      rw [residue_of_unfinished open_]
      exact open_
  | framed stream value size found ih =>
      rw [residue_of_frame found]
      exact ih

/-- Cutting a stream keeps its frames once the residue is carried over. -/
theorem frames_append (stream later : List β) :
    framing.frames (stream ++ later) =
      framing.frames stream ++
        framing.frames (framing.residue stream ++ later) := by
  induction stream using frame_induction framing with
  | unfinished stream open_ =>
      rw [frames_of_unfinished open_, residue_of_unfinished open_,
        List.nil_append]
  | framed stream value size found ih =>
      have extended := framing.frame_append later found
      have bounded := framing.size_le found
      rw [frames_of_frame extended, frames_of_frame found,
        residue_of_frame found, List.drop_append_of_le_length bounded, ih,
        List.cons_append]

theorem residue_append (stream later : List β) :
    framing.residue (stream ++ later) =
      framing.residue (framing.residue stream ++ later) := by
  induction stream using frame_induction framing with
  | unfinished stream open_ => rw [residue_of_unfinished open_]
  | framed stream value size found ih =>
      have extended := framing.frame_append later found
      have bounded := framing.size_le found
      rw [residue_of_frame extended, residue_of_frame found,
        List.drop_append_of_le_length bounded, ih]

theorem frames_prefix (stream later : List β) :
    framing.frames stream <+: framing.frames (stream ++ later) := by
  rw [frames_append]
  exact List.prefix_append _ _

theorem forall_mem_frames {property : α → Prop}
    (front : ∀ stream value size,
      framing.front stream = .frame value size → property value)
    (stream : List β) : ∀ value ∈ framing.frames stream, property value := by
  induction stream using frame_induction framing with
  | unfinished stream open_ =>
      rw [frames_of_unfinished open_]
      exact fun value member => (List.not_mem_nil member).elim
  | framed stream value size found ih =>
      rw [frames_of_frame found]
      exact List.forall_mem_cons.mpr ⟨front stream value size found, ih⟩

/-- A frame at the front survives cutting the stream behind it. -/
theorem front_take_of_le {stream : List β} {value : α} {size length : Nat}
    (found : framing.front stream = .frame value size)
    (reached : size ≤ length) :
    framing.front (stream.take length) = .frame value size := by
  have cut : stream.take length =
      stream.take size ++ (stream.take length).drop size := by
    calc
      stream.take length =
          (stream.take length).take size ++ (stream.take length).drop size :=
        (List.take_append_drop size _).symm
      _ = stream.take size ++ (stream.take length).drop size := by
        rw [List.take_take, Nat.min_eq_left reached]
  rw [cut]
  exact framing.frame_append _ (framing.frame_take found)

/-- An unfinished prefix is shorter than the frame it grows into. -/
theorem length_lt_of_unfinished {pending later : List β} {value : α}
    {size : Nat} (unfinished : framing.Unfinished pending)
    (found : framing.front (pending ++ later) = .frame value size) :
    pending.length < size := by
  by_contra reached
  have kept := framing.frame_take found
  rw [List.take_append_of_le_length (by omega)] at kept
  have whole := framing.frame_append (pending.drop size) kept
  rw [List.take_append_drop] at whole
  exact unfinished value size whole

theorem unfinished_of_split {early late : List β} {value : α}
    (found : framing.front (early ++ late) =
      .frame value (early ++ late).length)
    (proper : late ≠ []) : framing.Unfinished early := by
  intro other size cut
  have bounded := framing.size_le cut
  have whole := framing.frame_append late cut
  rw [found] at whole
  cases whole
  have behind := List.length_pos_iff.mpr proper
  rw [List.length_append] at bounded
  omega

section LengthPrefixed

variable {η : Type*}

/-- The front of a stream whose frames are a header and a body of the length
the header announces. -/
def prefixedFront (header : List β → Front η) (bodyLength : η → Nat)
    (build : η → List β → α) (stream : List β) : Front α :=
  match header stream with
  | .needMore => .needMore
  | .reject => .reject
  | .frame value size =>
      if stream.length < size + bodyLength value then
        .needMore
      else
        .frame (build value ((stream.drop size).take (bodyLength value)))
          (size + bodyLength value)

theorem prefixedFront_eq_frame_iff {header : List β → Front η}
    {bodyLength : η → Nat} {build : η → List β → α} {stream : List β}
    {framed : α} {total : Nat} :
    prefixedFront header bodyLength build stream = .frame framed total ↔
      ∃ value size, header stream = .frame value size ∧
        size + bodyLength value ≤ stream.length ∧
        framed = build value ((stream.drop size).take (bodyLength value)) ∧
        total = size + bodyLength value := by
  unfold prefixedFront
  cases found : header stream with
  | needMore => simp
  | reject => simp
  | frame value size =>
      by_cases short : stream.length < size + bodyLength value
      · simp only [short, if_true, reduceCtorEq, Front.frame.injEq, false_iff]
        rintro ⟨_, _, ⟨rfl, rfl⟩, reached, -, -⟩
        omega
      · simp only [short, if_false, Front.frame.injEq]
        constructor
        · rintro ⟨rfl, rfl⟩
          exact ⟨value, size, ⟨rfl, rfl⟩, by omega, rfl, rfl⟩
        · rintro ⟨_, _, ⟨rfl, rfl⟩, -, rfl, rfl⟩
          exact ⟨rfl, rfl⟩

theorem prefixedFront_eq_reject_iff {header : List β → Front η}
    {bodyLength : η → Nat} {build : η → List β → α} {stream : List β} :
    prefixedFront header bodyLength build stream = .reject ↔
      header stream = .reject := by
  unfold prefixedFront
  cases header stream with
  | needMore => simp
  | reject => simp
  | frame value size =>
      simp only [reduceCtorEq, iff_false]
      split <;> simp

/-- A framing of headers, extended to whole frames. -/
def lengthPrefixed (header : Framing β η) (bodyLength : η → Nat)
    (build : η → List β → α) : Framing β α where
  front := prefixedFront header.front bodyLength build
  size_pos := by
    intro stream framed total found
    obtain ⟨value, size, headed, -, -, rfl⟩ :=
      prefixedFront_eq_frame_iff.mp found
    have positive := header.size_pos headed
    omega
  size_le := by
    intro stream framed total found
    obtain ⟨value, size, -, reached, -, rfl⟩ :=
      prefixedFront_eq_frame_iff.mp found
    exact reached
  frame_append := by
    intro stream framed total later found
    obtain ⟨value, size, headed, reached, rfl, rfl⟩ :=
      prefixedFront_eq_frame_iff.mp found
    apply prefixedFront_eq_frame_iff.mpr
    refine ⟨value, size, header.frame_append later headed, ?_, ?_, rfl⟩
    · rw [List.length_append]
      omega
    · rw [List.drop_append_of_le_length (by omega),
        List.take_append_of_le_length (by rw [List.length_drop]; omega)]
  frame_take := by
    intro stream framed total found
    obtain ⟨value, size, headed, reached, rfl, rfl⟩ :=
      prefixedFront_eq_frame_iff.mp found
    apply prefixedFront_eq_frame_iff.mpr
    refine ⟨value, size, ?_, ?_, ?_, rfl⟩
    · exact front_take_of_le headed (Nat.le_add_right _ _)
    · exact Nat.le_of_eq (by rw [List.length_take, Nat.min_eq_left reached])
    · rw [List.drop_take, List.take_take, Nat.add_sub_cancel_left,
        Nat.min_self]
  reject_append := by
    intro stream later found
    have headed := prefixedFront_eq_reject_iff.mp found
    exact prefixedFront_eq_reject_iff.mpr (header.reject_append later headed)

variable {header : Framing β η} {bodyLength : η → Nat}
  {build : η → List β → α} {stream : List β}

theorem lengthPrefixed_front_of_short {value : η} {size : Nat}
    (headed : header.front stream = .frame value size)
    (short : stream.length < size + bodyLength value) :
    (lengthPrefixed header bodyLength build).front stream = .needMore := by
  simp [lengthPrefixed, prefixedFront, headed, short]

theorem lengthPrefixed_front_of_reached {value : η} {size : Nat}
    (headed : header.front stream = .frame value size)
    (reached : size + bodyLength value ≤ stream.length) :
    (lengthPrefixed header bodyLength build).front stream =
      .frame (build value ((stream.drop size).take (bodyLength value)))
        (size + bodyLength value) :=
  prefixedFront_eq_frame_iff.mpr
    ⟨value, size, headed, reached, rfl, rfl⟩

end LengthPrefixed

section Encoding

variable {γ : Type*} {encode : γ → List β} {view : γ → α}

/-- An encoding is self-delimiting when every item is read back from any
stream that starts with its encoding. -/
def SelfDelimiting (framing : Framing β α) (encode : γ → List β)
    (view : γ → α) (item : γ) : Prop :=
  ∀ later, framing.front (encode item ++ later) =
    .frame (view item) (encode item).length

variable {items : List γ}

theorem frames_flatMap
    (delimited : ∀ item ∈ items, framing.SelfDelimiting encode view item) :
    framing.frames (items.flatMap encode) = items.map view := by
  induction items with
  | nil => rfl
  | cons item items ih =>
      obtain ⟨first, rest⟩ := List.forall_mem_cons.mp delimited
      rw [List.flatMap_cons, frames_of_frame (first _), List.drop_left,
        ih rest, List.map_cons]

/-- What has arrived of a stream of encodings reads as the first items. -/
theorem frames_prefix_flatMap {stream : List β}
    (delimited : ∀ item ∈ items, framing.SelfDelimiting encode view item)
    (arrived : stream <+: items.flatMap encode) :
    framing.frames stream <+: items.map view := by
  obtain ⟨later, whole⟩ := arrived
  rw [← frames_flatMap delimited, ← whole]
  exact framing.frames_prefix stream later

end Encoding

end Framing

end Woody
