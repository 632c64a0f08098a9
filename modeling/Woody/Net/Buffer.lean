import Woody.Foundation.Bytes

/-!
# The input buffer of a connection

`muduo::net::Buffer` is a vector with a reader and a writer index.  An `assert`
that can fail is an abort of the server and makes an operation partial;
`prepend` is the only such operation here.
-/

namespace Woody

def kCheapPrepend : Nat := 8
def kInitialSize : Nat := 1024

structure Buffer where
  storage : Bytes
  readerIndex : Nat
  writerIndex : Nat
  headroom : kCheapPrepend ≤ storage.length
  ordered : readerIndex ≤ writerIndex
  bounded : writerIndex ≤ storage.length

namespace Buffer

def init : Buffer where
  storage := List.replicate (kCheapPrepend + kInitialSize) 0
  readerIndex := kCheapPrepend
  writerIndex := kCheapPrepend
  headroom := by simp
  ordered := Nat.le_refl _
  bounded := by simp

def readableBytes (buffer : Buffer) : Nat :=
  buffer.writerIndex - buffer.readerIndex

def writableBytes (buffer : Buffer) : Nat :=
  buffer.storage.length - buffer.writerIndex

def prependableBytes (buffer : Buffer) : Nat := buffer.readerIndex

/-- The bytes between the two indices. -/
def readable (buffer : Buffer) : Bytes :=
  (buffer.storage.drop buffer.readerIndex).take buffer.readableBytes

@[simp] theorem init_readable : init.readable = [] := by
  simp [init, readable, readableBytes]

theorem readable_length (buffer : Buffer) :
    buffer.readable.length = buffer.readableBytes := by
  have ordered := buffer.ordered
  have bounded := buffer.bounded
  simp only [readable, readableBytes, List.length_take, List.length_drop]
  omega

def retrieveAll (buffer : Buffer) : Buffer where
  storage := buffer.storage
  readerIndex := kCheapPrepend
  writerIndex := kCheapPrepend
  headroom := buffer.headroom
  ordered := Nat.le_refl _
  bounded := buffer.headroom

def retrieveAllAsString (buffer : Buffer) : Bytes × Buffer :=
  (buffer.readable, buffer.retrieveAll)

@[simp] theorem retrieveAll_readable (buffer : Buffer) :
    buffer.retrieveAll.readable = [] := by
  simp [retrieveAll, readable, readableBytes]

@[simp] theorem retrieveAll_prependableBytes (buffer : Buffer) :
    buffer.retrieveAll.prependableBytes = kCheapPrepend := rfl

/-- `retrieve`, `none` when the assertion `len <= readableBytes()` fails. -/
def retrieve (buffer : Buffer) (len : Nat) : Option Buffer :=
  if buffer.readableBytes < len then
    none
  else if inside : len < buffer.readableBytes then
    some
      { storage := buffer.storage
        readerIndex := buffer.readerIndex + len
        writerIndex := buffer.writerIndex
        headroom := buffer.headroom
        ordered := by
          unfold readableBytes at inside
          omega
        bounded := buffer.bounded }
  else
    some buffer.retrieveAll

theorem retrieve_eq_some {buffer : Buffer} {len : Nat}
    (held : len ≤ buffer.readable.length) :
    ∃ later, buffer.retrieve len = some later ∧
      later.readable = buffer.readable.drop len := by
  rw [readable_length] at held
  unfold retrieve
  rw [if_neg (Nat.not_lt.mpr held)]
  split
  · rename_i inside
    refine ⟨_, rfl, ?_⟩
    unfold readableBytes at inside
    simp only [readable, readableBytes]
    rw [List.drop_take, List.drop_drop, Nat.sub_sub]
  · rename_i outside
    refine ⟨_, rfl, ?_⟩
    rw [retrieveAll_readable]
    apply (List.drop_of_length_le _).symm
    rw [readable_length]
    omega

/-- `prepend`, `none` when the assertion `len <= prependableBytes()` fails. -/
def prepend (buffer : Buffer) (data : Bytes) : Option Buffer :=
  if room : data.length ≤ buffer.prependableBytes then
    some
      { storage := buffer.storage.overwrite
          (buffer.readerIndex - data.length) data
        readerIndex := buffer.readerIndex - data.length
        writerIndex := buffer.writerIndex
        headroom := by
          have ordered := buffer.ordered
          have bounded := buffer.bounded
          have headroom := buffer.headroom
          unfold prependableBytes at room
          rw [Bytes.overwrite_length (by omega)]
          exact headroom
        ordered := Nat.le_trans (Nat.sub_le _ _) buffer.ordered
        bounded := by
          have ordered := buffer.ordered
          have bounded := buffer.bounded
          unfold prependableBytes at room
          rw [Bytes.overwrite_length (by omega)]
          exact bounded }
  else
    none

theorem prepend_isSome_iff (buffer : Buffer) (data : Bytes) :
    (buffer.prepend data).isSome ↔ data.length ≤ buffer.prependableBytes := by
  unfold prepend
  split <;> simp [*]

theorem readable_prepend {buffer later : Buffer} {data : Bytes}
    (prepended : buffer.prepend data = some later) :
    later.readable = data ++ buffer.readable := by
  unfold prepend at prepended
  split at prepended
  · rename_i room
    cases prepended
    have ordered := buffer.ordered
    have bounded := buffer.bounded
    unfold prependableBytes at room
    have behind : buffer.readerIndex - data.length + data.length =
        buffer.readerIndex := by omega
    have window : buffer.writerIndex - (buffer.readerIndex - data.length) =
        data.length + (buffer.writerIndex - buffer.readerIndex) := by omega
    simp only [readable, readableBytes]
    rw [Bytes.drop_overwrite (Nat.le_refl _) (by omega), behind, window,
      Nat.sub_self, List.take_zero, List.nil_append,
      List.take_length_add_append]
  · cases prepended

/-- At most eight bytes can be put back into an emptied buffer. -/
theorem retrieveAll_prepend (buffer : Buffer) {data : Bytes}
    (fits : data.length ≤ kCheapPrepend) :
    ∃ refilled, buffer.retrieveAll.prepend data = some refilled ∧
      refilled.readable = data := by
  have enough := buffer.retrieveAll.prepend_isSome_iff data
  rw [retrieveAll_prependableBytes] at enough
  obtain ⟨refilled, prepended⟩ :=
    Option.isSome_iff_exists.mp (enough.mpr fits)
  have readable := readable_prepend prepended
  rw [retrieveAll_readable, List.append_nil] at readable
  exact ⟨refilled, prepended, readable⟩

theorem retrieveAll_prepend_none (buffer : Buffer) {data : Bytes}
    (crowded : kCheapPrepend < data.length) :
    buffer.retrieveAll.prepend data = none := by
  have enough := buffer.retrieveAll.prepend_isSome_iff data
  rw [retrieveAll_prependableBytes] at enough
  apply Option.not_isSome_iff_eq_none.mp
  intro refilled
  exact Nat.not_le.mpr crowded (enough.mp refilled)

/-- Copy into the writable region and move the writer index. -/
def write (buffer : Buffer) (data : Bytes)
    (fits : data.length ≤ buffer.writableBytes) : Buffer where
  storage := buffer.storage.overwrite buffer.writerIndex data
  readerIndex := buffer.readerIndex
  writerIndex := buffer.writerIndex + data.length
  headroom := by
    have bounded := buffer.bounded
    unfold writableBytes at fits
    rw [Bytes.overwrite_length (by omega)]
    exact buffer.headroom
  ordered := Nat.le_trans buffer.ordered (Nat.le_add_right _ _)
  bounded := by
    have bounded := buffer.bounded
    unfold writableBytes at fits
    rw [Bytes.overwrite_length (by omega)]
    omega

theorem write_readable (buffer : Buffer) (data : Bytes)
    (fits : data.length ≤ buffer.writableBytes) :
    (buffer.write data fits).readable = buffer.readable ++ data := by
  have ordered := buffer.ordered
  have bounded := buffer.bounded
  have window : buffer.writerIndex + data.length - buffer.readerIndex =
      (buffer.readable ++ data).length := by
    rw [List.length_append, readable_length, readableBytes]
    omega
  have front : (buffer.storage.drop buffer.readerIndex).take
      (buffer.writerIndex - buffer.readerIndex) = buffer.readable := rfl
  rw [readable, readableBytes]
  simp only [write]
  rw [Bytes.drop_overwrite ordered bounded, front, window, List.take_left]

/-- `makeSpace`: grow the vector, or move the readable bytes to the front. -/
def makeSpace (buffer : Buffer) (len : Nat) : Buffer :=
  if tight : buffer.writableBytes + buffer.prependableBytes <
      len + kCheapPrepend then
    { storage := buffer.storage ++
        List.replicate (buffer.writerIndex + len - buffer.storage.length) 0
      readerIndex := buffer.readerIndex
      writerIndex := buffer.writerIndex
      headroom := by
        rw [List.length_append]
        exact Nat.le_trans buffer.headroom (Nat.le_add_right _ _)
      ordered := buffer.ordered
      bounded := by
        rw [List.length_append]
        exact Nat.le_trans buffer.bounded (Nat.le_add_right _ _) }
  else
    have fits : kCheapPrepend + buffer.readable.length ≤
        buffer.storage.length := by
      have ordered := buffer.ordered
      have bounded := buffer.bounded
      unfold writableBytes prependableBytes at tight
      rw [readable_length, readableBytes]
      omega
    { storage := buffer.storage.overwrite kCheapPrepend buffer.readable
      readerIndex := kCheapPrepend
      writerIndex := kCheapPrepend + buffer.readable.length
      headroom := by
        rw [Bytes.overwrite_length fits]
        exact buffer.headroom
      ordered := Nat.le_add_right _ _
      bounded := by
        rw [Bytes.overwrite_length fits]
        exact fits }

theorem makeSpace_readable (buffer : Buffer) (len : Nat) :
    (buffer.makeSpace len).readable = buffer.readable := by
  have ordered := buffer.ordered
  have bounded := buffer.bounded
  unfold makeSpace
  split
  · simp only [readable, readableBytes]
    rw [List.drop_append_of_le_length (by omega),
      List.take_append_of_le_length (by rw [List.length_drop]; omega)]
  · have room : kCheapPrepend ≤ buffer.storage.length := buffer.headroom
    change ((buffer.storage.overwrite kCheapPrepend buffer.readable).drop
      kCheapPrepend).take (kCheapPrepend + buffer.readable.length -
        kCheapPrepend) = buffer.readable
    rw [Bytes.drop_overwrite (Nat.le_refl _) room, Nat.sub_self,
      List.take_zero, List.nil_append, Nat.add_sub_cancel_left,
      List.take_left]

theorem makeSpace_enough (buffer : Buffer) {len : Nat}
    (short : buffer.writableBytes < len) :
    len ≤ (buffer.makeSpace len).writableBytes := by
  have ordered := buffer.ordered
  have bounded := buffer.bounded
  unfold makeSpace
  split
  · simp only [writableBytes, List.length_append, List.length_replicate]
      at short ⊢
    omega
  · rename_i loose
    have fits : kCheapPrepend + buffer.readable.length ≤
        buffer.storage.length := by
      unfold writableBytes prependableBytes at loose
      rw [readable_length, readableBytes]
      omega
    simp only [writableBytes, Bytes.overwrite_length fits]
    unfold writableBytes prependableBytes at loose
    rw [readable_length, readableBytes]
    omega

def ensureWritableBytes (buffer : Buffer) (len : Nat) : Buffer :=
  if buffer.writableBytes < len then buffer.makeSpace len else buffer

theorem ensureWritableBytes_readable (buffer : Buffer) (len : Nat) :
    (buffer.ensureWritableBytes len).readable = buffer.readable := by
  unfold ensureWritableBytes
  split
  · exact buffer.makeSpace_readable len
  · rfl

/-- The assertion at the end of `ensureWritableBytes` holds. -/
theorem ensureWritableBytes_enough (buffer : Buffer) (len : Nat) :
    len ≤ (buffer.ensureWritableBytes len).writableBytes := by
  unfold ensureWritableBytes
  split
  · exact buffer.makeSpace_enough ‹_›
  · exact Nat.not_lt.mp ‹_›

def append (buffer : Buffer) (data : Bytes) : Buffer :=
  (buffer.ensureWritableBytes data.length).write data
    (buffer.ensureWritableBytes_enough data.length)

@[simp] theorem append_readable (buffer : Buffer) (data : Bytes) :
    (buffer.append data).readable = buffer.readable ++ data := by
  rw [append, write_readable, ensureWritableBytes_readable]

/-- `readFd`, for the bytes that `readv` delivers: what does not fit goes
through the extra buffer. -/
def readFd (buffer : Buffer) (received : Bytes) : Buffer :=
  if fits : received.length ≤ buffer.writableBytes then
    buffer.write received fits
  else
    let writable := buffer.writableBytes
    (buffer.write (received.take writable)
      (List.length_take_le _ _)).append (received.drop writable)

@[simp] theorem readFd_readable (buffer : Buffer) (received : Bytes) :
    (buffer.readFd received).readable = buffer.readable ++ received := by
  unfold readFd
  split
  · exact buffer.write_readable received ‹_›
  · rw [append_readable, write_readable, List.append_assoc,
      List.take_append_drop]

end Buffer

end Woody
