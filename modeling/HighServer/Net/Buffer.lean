import HighServer.Lib.Storage
import HighServer.Net.Abort

/-!
# The input and output buffer of a connection

`Buffer` is the class of `Buffer.h`: a byte vector with a reader and a writer index. The indices
are natural numbers, so this is the class at sizes at which no `size_t` sum wraps.

* the operations, under the names of the header, `readFd` from `Buffer.cpp`;
* `Buffer.Wf`: `readerIndex_ <= writerIndex_ <= buffer_.size()`;
* `Buffer.Yields`: what an operation has to do to the readable bytes. One lemma for each
  operation: `yields_append`, `yields_retrieve`, `yields_readFd_received`, …, and `prepend_eq`.
-/

namespace HighServer

open Storage

/-- Bytes as they stand in a `char` array or a `std::string`. -/
abbrev Bytes := List UInt8

def kCheapPrepend : ℕ := 8
def kInitialSize : ℕ := 1024

/-- The size of `extrabuf` in `Buffer::readFd`. -/
def extrabufSize : ℕ := 65536

structure Buffer where
  buffer_ : Bytes
  readerIndex_ : ℕ
  writerIndex_ : ℕ
  deriving DecidableEq, Repr

/-- The result of `readv`: the bytes received, or `-1`. -/
inductive ReadResult where
  | received (data : Bytes)
  | failed
  deriving DecidableEq, Repr

namespace Buffer

/-- The constructor. -/
def new : Buffer where
  buffer_ := List.replicate (kCheapPrepend + kInitialSize) 0
  readerIndex_ := kCheapPrepend
  writerIndex_ := kCheapPrepend

def readableBytes (b : Buffer) : ℕ := b.writerIndex_ - b.readerIndex_

def writableBytes (b : Buffer) : ℕ := b.buffer_.length - b.writerIndex_

def prependableBytes (b : Buffer) : ℕ := b.readerIndex_

/-- The `len` bytes at `peek()`. -/
def peek (b : Buffer) (len : ℕ) : Bytes :=
  slice b.buffer_ b.readerIndex_ (b.readerIndex_ + len)

/-- The `len` bytes at `beginWrite()`. -/
def beginWrite (b : Buffer) (len : ℕ) : Bytes :=
  slice b.buffer_ b.writerIndex_ (b.writerIndex_ + len)

/-- `lhs.swap(rhs)`: the new `lhs` and the new `rhs`. -/
def swap (lhs rhs : Buffer) : Buffer × Buffer :=
  (⟨rhs.buffer_, rhs.readerIndex_, rhs.writerIndex_⟩,
    ⟨lhs.buffer_, lhs.readerIndex_, lhs.writerIndex_⟩)

def retrieveAll (b : Buffer) : Buffer :=
  { b with readerIndex_ := kCheapPrepend, writerIndex_ := kCheapPrepend }

def retrieve (b : Buffer) (len : ℕ) : Outcome Buffer := do
  ensure (len ≤ b.readableBytes) .retrieve
  if len < b.readableBytes then pure { b with readerIndex_ := b.readerIndex_ + len }
  else pure b.retrieveAll

/-- `retrieveUntil(end)`, with `end` as an index into the storage. -/
def retrieveUntil (b : Buffer) (end_ : ℕ) : Outcome Buffer := do
  ensure (b.readerIndex_ ≤ end_) .retrieveUntil
  ensure (end_ ≤ b.writerIndex_) .retrieveUntil
  b.retrieve (end_ - b.readerIndex_)

def retrieveAsString (b : Buffer) : Bytes × Buffer := (b.peek b.readableBytes, b.retrieveAll)

def makeSpace (b : Buffer) (len : ℕ) : Outcome Buffer :=
  if b.writableBytes + b.prependableBytes < len + kCheapPrepend then
    pure { b with buffer_ := resize b.buffer_ (b.writerIndex_ + len) 0 }
  else do
    ensure (kCheapPrepend < b.readerIndex_) .makeSpace
    let readable := b.readableBytes
    -- `std::copy` runs upwards, and the target lies below the source
    pure
      { buffer_ := copyWithin b.buffer_ b.readerIndex_ kCheapPrepend
          (b.writerIndex_ - b.readerIndex_)
        readerIndex_ := kCheapPrepend
        writerIndex_ := kCheapPrepend + readable }

def ensureWritableBytes (b : Buffer) (len : ℕ) : Outcome Buffer :=
  if b.writableBytes < len then b.makeSpace len else pure b

def hasWritten (b : Buffer) (len : ℕ) : Buffer := { b with writerIndex_ := b.writerIndex_ + len }

/-- Bytes stored through the pointer `beginWrite()`. -/
def store (b : Buffer) (data : Bytes) : Buffer :=
  { b with buffer_ := blit b.buffer_ b.writerIndex_ data }

def append (b : Buffer) (data : Bytes) : Outcome Buffer := do
  let b ← b.ensureWritableBytes data.length
  pure ((b.store data).hasWritten data.length)

def prepend (b : Buffer) (data : Bytes) : Outcome Buffer := do
  ensure (data.length ≤ b.prependableBytes) .prepend
  let readerIndex_ := b.readerIndex_ - data.length
  pure { b with buffer_ := blit b.buffer_ readerIndex_ data, readerIndex_ }

/-- `readFd`, with the result of `readv`: the first `writableBytes()` bytes are scattered into the
buffer, the rest into `extrabuf`. -/
def readFd (b : Buffer) : ReadResult → Outcome Buffer
  | .failed => pure b
  | .received data =>
    let writable := b.writableBytes
    if data.length ≤ writable then pure ((b.store data).hasWritten data.length)
    else
      let b := b.store (data.take writable)
      append { b with writerIndex_ := b.buffer_.length } (data.drop writable)

/-! ## The readable bytes -/

/-- The bytes between the reader and the writer index. -/
def readable (b : Buffer) : Bytes := slice b.buffer_ b.readerIndex_ b.writerIndex_

/-- The class invariant; the storage never becomes smaller than its prepend area. -/
structure Wf (b : Buffer) : Prop where
  reader_le : b.readerIndex_ ≤ b.writerIndex_
  writer_le : b.writerIndex_ ≤ b.buffer_.length
  cheap_le : kCheapPrepend ≤ b.buffer_.length

/-- The operation with result `r` on `b` ends normally, keeps the class invariant and the prepend
area, and leaves the readable bytes `q`. -/
def Yields (b : Buffer) (r : Outcome Buffer) (q : Bytes) : Prop :=
  ∃ b', r = .ok b' ∧ b'.Wf ∧ b'.readable = q ∧
    (kCheapPrepend ≤ b.prependableBytes → kCheapPrepend ≤ b'.prependableBytes)

theorem wf_new : new.Wf where
  reader_le := le_rfl
  writer_le := by simp [new]
  cheap_le := by simp [new]

@[simp] theorem readable_new : new.readable = [] := by
  rw [readable, new, slice_self]

variable {b : Buffer}

theorem Wf.length_readable (h : b.Wf) : b.readable.length = b.readableBytes := by
  rw [readable, length_slice, readableBytes, Nat.min_eq_left h.writer_le]

theorem Wf.readable_eq_nil_iff (h : b.Wf) : b.readable = [] ↔ b.readableBytes = 0 := by
  rw [← h.length_readable, List.length_eq_zero_iff]

theorem peek_eq_take {len : ℕ} (h : b.Wf) (hl : len ≤ b.readableBytes) :
    b.peek len = b.readable.take len := by
  have := h.reader_le
  rw [readable, take_slice (by rw [readableBytes] at hl; omega), peek]

theorem peek_readableBytes (h : b.Wf) : b.peek b.readableBytes = b.readable := by
  rw [peek_eq_take h le_rfl, ← h.length_readable, List.take_length]

/-! ## Retrieving -/

theorem Wf.retrieveAll (h : b.Wf) : b.retrieveAll.Wf where
  reader_le := le_rfl
  writer_le := h.cheap_le
  cheap_le := h.cheap_le

@[simp] theorem readable_retrieveAll (b : Buffer) : b.retrieveAll.readable = [] := by
  rw [readable, Buffer.retrieveAll, slice_self]

theorem yields_retrieveAll (h : b.Wf) : Yields b (.ok b.retrieveAll) [] :=
  ⟨_, rfl, h.retrieveAll, readable_retrieveAll b, fun _ => le_rfl⟩

theorem yields_retrieve (h : b.Wf) {len : ℕ} (hl : len ≤ b.readableBytes) :
    Yields b (b.retrieve len) (b.readable.drop len) := by
  have hlen := h.length_readable
  rw [retrieve, ensure_bind_of hl]
  split_ifs with hlt
  · refine ⟨_, rfl, ⟨?_, h.writer_le, h.cheap_le⟩, ?_, fun hp => hp.trans (Nat.le_add_right _ _)⟩
    · simp only [readableBytes] at hlt ⊢; omega
    · rw [readable, readable, drop_slice]
  · rw [List.drop_eq_nil_of_le (by omega)]
    exact yields_retrieveAll h

theorem yields_retrieveUntil (h : b.Wf) {end_ : ℕ} (h1 : b.readerIndex_ ≤ end_)
    (h2 : end_ ≤ b.writerIndex_) :
    Yields b (b.retrieveUntil end_) (b.readable.drop (end_ - b.readerIndex_)) := by
  rw [retrieveUntil, ensure_bind_of h1, ensure_bind_of h2]
  exact yields_retrieve h (by rw [readableBytes]; omega)

/-! ## Making space -/

/-- The compacting branch of `makeSpace` is only taken when the reader index has moved. -/
theorem makeSpace_reader {len : ℕ} (hw : b.writableBytes < len)
    (hs : ¬ b.writableBytes + b.prependableBytes < len + kCheapPrepend) :
    kCheapPrepend < b.readerIndex_ := by
  rw [prependableBytes] at hs
  omega

theorem yields_makeSpace (h : b.Wf) {len : ℕ} (hw : b.writableBytes < len) :
    Yields b (b.makeSpace len) b.readable := by
  have h1 := h.reader_le
  have h2 := h.writer_le
  have h3 := h.cheap_le
  rw [writableBytes] at hw
  rw [makeSpace]
  split_ifs with hs
  · refine ⟨_, rfl, ⟨h1, ?_, ?_⟩, ?_, id⟩
    · simp only [length_resize]; omega
    · simp only [length_resize]; omega
    · exact slice_resize 0 h2 (Nat.le_add_right _ _)
  · have hr := makeSpace_reader (by rw [writableBytes]; omega) hs
    rw [ensure_bind_of hr]
    have hsrc : b.readerIndex_ + (b.writerIndex_ - b.readerIndex_) = b.writerIndex_ := by omega
    have hcopy := copyWithin_eq_blit (n := b.writerIndex_ - b.readerIndex_) hr.le
      (by omega : b.readerIndex_ + (b.writerIndex_ - b.readerIndex_) ≤ b.buffer_.length)
    rw [hsrc] at hcopy
    have hfit : kCheapPrepend + (slice b.buffer_ b.readerIndex_ b.writerIndex_).length ≤
        b.buffer_.length := by rw [length_slice]; omega
    refine ⟨_, rfl, ⟨Nat.le_add_right _ _, ?_, ?_⟩, ?_, fun _ => le_rfl⟩
    · simp only [length_copyWithin, readableBytes]; omega
    · simp only [length_copyWithin]; exact h3
    · have hlen : b.readableBytes = (slice b.buffer_ b.readerIndex_ b.writerIndex_).length := by
        rw [← h.length_readable, readable]
      simp only [readable, hcopy, hlen]
      exact slice_blit_self hfit

theorem makeSpace_writable (h : b.Wf) {len : ℕ} (hw : b.writableBytes < len) {b' : Buffer}
    (hb : b.makeSpace len = .ok b') : len ≤ b'.writableBytes := by
  have h1 := h.reader_le
  have h2 := h.writer_le
  rw [writableBytes] at hw
  rw [makeSpace] at hb
  split_ifs at hb with hs
  · cases hb
    simp only [writableBytes, length_resize]
    omega
  · have hr := makeSpace_reader (by rw [writableBytes]; omega) hs
    rw [ensure_bind_of hr] at hb
    cases hb
    simp only [writableBytes, prependableBytes, readableBytes, length_copyWithin] at hs ⊢
    omega

theorem yields_ensureWritableBytes (h : b.Wf) (len : ℕ) :
    Yields b (b.ensureWritableBytes len) b.readable := by
  rw [ensureWritableBytes]
  split_ifs with hw
  · exact yields_makeSpace h hw
  · exact ⟨b, rfl, h, rfl, id⟩

theorem ensureWritableBytes_writable (h : b.Wf) {len : ℕ} {b' : Buffer}
    (hb : b.ensureWritableBytes len = .ok b') : len ≤ b'.writableBytes := by
  rw [ensureWritableBytes] at hb
  split_ifs at hb with hw
  · exact makeSpace_writable h hw hb
  · cases hb; omega

/-! ## Writing -/

theorem length_store (h : b.Wf) {data : Bytes} (hd : data.length ≤ b.writableBytes) :
    (b.store data).buffer_.length = b.buffer_.length := by
  have h2 := h.writer_le
  rw [writableBytes] at hd
  exact length_blit (by omega)

theorem Wf.store (h : b.Wf) {data : Bytes} (hd : data.length ≤ b.writableBytes) :
    (b.store data).Wf where
  reader_le := h.reader_le
  writer_le := by rw [length_store h hd]; exact h.writer_le
  cheap_le := by rw [length_store h hd]; exact h.cheap_le

theorem readable_store (h : b.Wf) {data : Bytes} (hd : data.length ≤ b.writableBytes) :
    (b.store data).readable = b.readable := by
  have h2 := h.writer_le
  exact slice_blit_left (by rw [writableBytes] at hd; omega) le_rfl

theorem writableBytes_store (h : b.Wf) {data : Bytes} (hd : data.length ≤ b.writableBytes) :
    (b.store data).writableBytes = b.writableBytes := by
  rw [writableBytes, length_store h hd]
  rfl

theorem yields_hasWritten (h : b.Wf) {len : ℕ} (hl : len ≤ b.writableBytes) :
    Yields b (.ok (b.hasWritten len)) (b.readable ++ b.beginWrite len) := by
  have h1 := h.reader_le
  have h2 := h.writer_le
  rw [writableBytes] at hl
  refine ⟨_, rfl, ⟨?_, ?_, h.cheap_le⟩, ?_, id⟩
  · simp only [hasWritten]; omega
  · simp only [hasWritten]; omega
  · exact (slice_append_slice h1 (Nat.le_add_right _ _)).symm

theorem beginWrite_store (h : b.Wf) {data : Bytes} (hd : data.length ≤ b.writableBytes) :
    (b.store data).beginWrite data.length = data := by
  have h2 := h.writer_le
  exact slice_blit_self (by rw [writableBytes] at hd; omega)

theorem yields_write (h : b.Wf) {data : Bytes} (hd : data.length ≤ b.writableBytes) :
    Yields b (.ok ((b.store data).hasWritten data.length)) (b.readable ++ data) := by
  have hroom : data.length ≤ (b.store data).writableBytes := by
    rw [writableBytes_store h hd]; exact hd
  have hw := yields_hasWritten (h.store hd) hroom
  rwa [readable_store h hd, beginWrite_store h hd] at hw

/-- `readFd` fills the buffer to its end. -/
theorem fill_eq (h : b.Wf) {data : Bytes} (hd : b.writableBytes ≤ data.length) :
    { b.store (data.take b.writableBytes) with
      writerIndex_ := (b.store (data.take b.writableBytes)).buffer_.length } =
      (b.store (data.take b.writableBytes)).hasWritten (data.take b.writableBytes).length := by
  have h2 := h.writer_le
  have htake : (data.take b.writableBytes).length = b.writableBytes := by
    rw [List.length_take, Nat.min_eq_left hd]
  have hend : (b.store (data.take b.writableBytes)).buffer_.length =
      (b.store (data.take b.writableBytes)).writerIndex_ + b.writableBytes := by
    rw [length_store h htake.le]
    exact (Nat.add_sub_cancel' h2).symm
  rw [hend, hasWritten, htake]

theorem yields_append (h : b.Wf) (data : Bytes) :
    Yields b (b.append data) (b.readable ++ data) := by
  obtain ⟨b₁, hb, hwf, hread, hpre⟩ := yields_ensureWritableBytes h data.length
  have hspace := ensureWritableBytes_writable h hb
  obtain ⟨b₂, hok, hwf', hread', hpre'⟩ := yields_write hwf hspace
  refine ⟨b₂, ?_, hwf', by rw [hread', hread], hpre' ∘ hpre⟩
  rw [append, hb, ok_bind]
  exact hok

theorem yields_readFd_received (h : b.Wf) (data : Bytes) :
    Yields b (b.readFd (.received data)) (b.readable ++ data) := by
  rw [readFd]
  dsimp only
  split_ifs with hfit
  · exact yields_write h hfit
  · have htake : (data.take b.writableBytes).length ≤ b.writableBytes := List.length_take_le _ _
    have hsplit : b.readable ++ data =
        b.readable ++ data.take b.writableBytes ++ data.drop b.writableBytes := by
      rw [List.append_assoc, List.take_append_drop]
    -- the buffer is filled to its end, the rest is appended
    obtain ⟨b₁, hb₁, hwf, hread, hpre⟩ := yields_write h htake
    obtain rfl := Except.ok.inj hb₁
    rw [fill_eq h (not_le.mp hfit).le, hsplit, ← hread]
    obtain ⟨b₂, hb₂, hwf₂, hread₂, hpre₂⟩ := yields_append hwf (data.drop b.writableBytes)
    exact ⟨b₂, hb₂, hwf₂, hread₂, hpre₂ ∘ hpre⟩

theorem yields_readFd_failed (h : b.Wf) : Yields b (b.readFd .failed) b.readable :=
  ⟨b, rfl, h, rfl, id⟩

/-- `prepend` is the one operation that uses up the prepend area. -/
theorem prepend_eq (h : b.Wf) {data : Bytes} (hd : data.length ≤ b.prependableBytes) :
    ∃ b', b.prepend data = .ok b' ∧ b'.Wf ∧ b'.readable = data ++ b.readable := by
  have h1 := h.reader_le
  have h2 := h.writer_le
  have hr : data.length ≤ b.readerIndex_ := hd
  have hfit : b.readerIndex_ - data.length + data.length ≤ b.buffer_.length := by omega
  rw [prepend, ensure_bind_of hd]
  refine ⟨_, rfl, ⟨?_, ?_, ?_⟩, ?_⟩
  · dsimp only; omega
  · simp only [length_blit hfit]; exact h2
  · simp only [length_blit hfit]; exact h.cheap_le
  · change slice (blit b.buffer_ (b.readerIndex_ - data.length) data)
      (b.readerIndex_ - data.length) b.writerIndex_ = _
    have hself := slice_blit_self hfit
    rw [Nat.sub_add_cancel hr] at hself
    rw [← slice_append_slice (Nat.sub_le _ _) h1, hself,
      slice_blit_right (k := b.readerIndex_) hfit (by omega), readable]

end Buffer

end HighServer
