import HighServer.Lib.Unsigned
import HighServer.Net.Shrink

/-!
# Reserving space with `size_t` arithmetic

`ensureWritableBytes` and the operations that need new storage, with every sum taken modulo 2^64
and with a vector that refuses to grow beyond its `max_size()`, or for want of memory. The other
operations stay inside the vector, where no sum wraps around; they are those of `Buffer`.

* `MaxSize`, `Ended`, `vectorResize`: the vector, and how a call of a member function ends;
* `SizeT.ensureWritableBytes`, `SizeT.append`, `SizeT.readFd`, `SizeT.shrink`: the operations;
* `Reservable`: the bytes are writable already, or neither sum of `makeSpace` wraps around;
* `ensureWritableBytes_agrees`: such a call throws, or does what it does on unbounded numbers;
* `not_safe_of_resize`, `not_safe_of_compact`: what either wrap-around leads to; `safe_iff`;
* `sizedStep_cases`: what a step of a family of buffers can do;
* **`refines_unbounded`**: runs without a wrap-around lead to buffers that unbounded runs lead to;
* **`ensureWritableBytes_safe_iff`**: when the next call is safe, for the buffers of any such run.
-/

namespace HighServer

open Runs Storage Unsigned

namespace Buffer

/-- The number of values of `size_t`. -/
def sizeMod : ℕ := 2 ^ 64

/-- `max_size()` of a `std::vector<char>`: its `difference_type` can count the elements, and the
constructor of a buffer does not throw. -/
structure MaxSize where
  val : ℕ
  initial_le : kCheapPrepend + kInitialSize ≤ val
  lt : val < 2 ^ 63

/-- How a call ends: with the buffer it leaves, by returning or by an exception, or with the
process. -/
inductive Ended where
  | returns (b : Buffer)
  | throws (b : Buffer)
  | aborts (a : Abort)
  deriving DecidableEq, Repr

namespace Ended

def andThen : Ended → (Buffer → Ended) → Ended
  | .returns b, f => f b
  | .throws b, _ => .throws b
  | .aborts a, _ => .aborts a

def ofOutcome : Outcome Buffer → Ended
  | .ok b => .returns b
  | .error a => .aborts a

/-- The buffer that the caller has afterwards. -/
def buffer? : Ended → Option Buffer
  | .returns b => some b
  | .throws b => some b
  | .aborts _ => none

end Ended

/-- `buffer_.resize(n)`, where `granted` says that there is memory for a larger vector; `none` is an
exception, which leaves the vector as it is. -/
def vectorResize (m : MaxSize) (granted : Bool) (l : Bytes) (n : ℕ) : Option Bytes :=
  if n ≤ l.length ∨ n ≤ m.val ∧ granted = true then some (resize l n 0) else none

namespace SizeT

def readableBytes (b : Buffer) : ℕ := sub sizeMod b.writerIndex_ b.readerIndex_

def writableBytes (b : Buffer) : ℕ := sub sizeMod b.buffer_.length b.writerIndex_

def makeSpace (m : MaxSize) (granted : Bool) (b : Buffer) (len : ℕ) : Ended :=
  if add sizeMod (writableBytes b) b.prependableBytes < add sizeMod len kCheapPrepend then
    match vectorResize m granted b.buffer_ (add sizeMod b.writerIndex_ len) with
    | some buffer_ => .returns { b with buffer_ }
    | none => .throws b
  else if kCheapPrepend < b.readerIndex_ then
    let readable := readableBytes b
    .returns
      { buffer_ := copyWithin b.buffer_ b.readerIndex_ kCheapPrepend
          (b.writerIndex_ - b.readerIndex_)
        readerIndex_ := kCheapPrepend
        writerIndex_ := add sizeMod kCheapPrepend readable }
  else .aborts .makeSpace

def ensureWritableBytes (m : MaxSize) (granted : Bool) (b : Buffer) (len : ℕ) : Ended :=
  if writableBytes b < len then makeSpace m granted b len else .returns b

def append (m : MaxSize) (granted : Bool) (b : Buffer) (data : Bytes) : Ended :=
  (ensureWritableBytes m granted b data.length).andThen fun b =>
    .returns ((b.store data).hasWritten data.length)

def readFd (m : MaxSize) (granted : Bool) (b : Buffer) : ReadResult → Ended
  | .failed => .returns b
  | .received data =>
    let writable := writableBytes b
    if data.length ≤ writable then .returns ((b.store data).hasWritten data.length)
    else
      let b := b.store (data.take writable)
      append m granted { b with writerIndex_ := b.buffer_.length } (data.drop writable)

def shrink (m : MaxSize) (granted : Bool) (b : Buffer) (reserve : ℕ) : Ended :=
  let n := add sizeMod (add sizeMod kCheapPrepend (readableBytes b)) reserve
  if n ≤ m.val ∧ granted = true then
    let buf := List.replicate n 0
    -- what is copied behind the end is not in the vector
    .returns { b with buffer_ := (blit buf kCheapPrepend (b.peek (readableBytes b))).take n }
  else .throws b

/-- `Op.perform` with these operations. -/
def perform (m : MaxSize) (granted : Bool) (b : Buffer) : Op → Ended
  | .append data => append m granted b data
  | .ensureWritableBytes len => ensureWritableBytes m granted b len
  | .readFd r => readFd m granted b r
  | op => .ofOutcome (op.perform b)

end SizeT

/-- The `len` bytes are writable already, or neither `len + kCheapPrepend` nor
`writerIndex_ + len` wraps around. -/
def Reservable (b : Buffer) (len : ℕ) : Prop :=
  len ≤ b.writableBytes ∨ len + kCheapPrepend < sizeMod ∧ b.writerIndex_ + len < sizeMod

instance (b : Buffer) (len : ℕ) : Decidable (b.Reservable len) :=
  inferInstanceAs (Decidable (_ ∨ _ ∧ _))

/-- `ensureWritableBytes(len)` on `b` may end so: by an exception, with the indices and the readable
bytes unchanged; or by returning, with room for `len` bytes and all up to `writerIndex_` inside the
vector. -/
def Safe (b : Buffer) (len : ℕ) : Ended → Prop
  | .throws b' => b'.readerIndex_ = b.readerIndex_ ∧ b'.writerIndex_ = b.writerIndex_ ∧
      b'.readable = b.readable ∧ b'.writerIndex_ ≤ b'.buffer_.length
  | .returns b' => len ≤ SizeT.writableBytes b' ∧ b'.writerIndex_ ≤ b'.buffer_.length
  | .aborts _ => False

/-- The class invariant, and a vector within its bound. -/
structure Sized (m : MaxSize) (b : Buffer) : Prop where
  wf : b.Wf
  length_le : b.buffer_.length ≤ m.val

variable {m : MaxSize} {granted : Bool} {b : Buffer} {len : ℕ}

theorem sized_new (m : MaxSize) : Sized m new where
  wf := wf_new
  length_le := by
    rw [new, List.length_replicate]
    exact m.initial_le

/-! ## Below the bound no difference wraps around -/

theorem Sized.length_lt (h : Sized m b) : b.buffer_.length < 2 ^ 63 := h.length_le.trans_lt m.lt

theorem Sized.writableBytes_eq (h : Sized m b) : SizeT.writableBytes b = b.writableBytes := by
  have := h.length_lt
  exact sub_of_le (by unfold sizeMod; omega) h.wf.writer_le

theorem Sized.readableBytes_eq (h : Sized m b) : SizeT.readableBytes b = b.readableBytes := by
  have := h.length_lt
  have := h.wf.writer_le
  exact sub_of_le (by unfold sizeMod; omega) h.wf.reader_le

/-- The bytes before and behind the readable ones. -/
theorem Sized.room_eq (h : Sized m b) :
    add sizeMod (SizeT.writableBytes b) b.prependableBytes =
      b.writableBytes + b.prependableBytes := by
  have := h.length_lt
  have := h.wf.writer_le
  have := h.wf.reader_le
  rw [h.writableBytes_eq]
  apply add_of_lt
  unfold sizeMod writableBytes prependableBytes
  omega

/-! ## Without a wrap-around -/

theorem vectorResize_cases (m : MaxSize) (granted : Bool) (l : Bytes) (n : ℕ) :
    vectorResize m granted l n = none ∨
      vectorResize m granted l n = some (resize l n 0) ∧ n ≤ max l.length m.val := by
  unfold vectorResize
  split_ifs with hn
  · exact Or.inr ⟨rfl, le_max_iff.mpr (hn.imp_right And.left)⟩
  · exact Or.inl rfl

/-- The call with the end `r` has thrown and left `left`, or has done what it does on unbounded
numbers, where its outcome is `o`. -/
def Agrees (m : MaxSize) (left : Buffer) (r : Ended) (o : Outcome Buffer) : Prop :=
  r = .throws left ∨ ∃ b', r = .returns b' ∧ Sized m b' ∧ o = .ok b'

theorem Agrees.cases {left b' : Buffer} {r : Ended} {o : Outcome Buffer}
    (ha : Agrees m left r o) (hb : r.buffer? = some b') :
    b' = left ∨ Sized m b' ∧ o = .ok b' := by
  rcases ha with rfl | ⟨b₁, rfl, hs, ho⟩
  · exact Or.inl (Option.some.inj hb).symm
  · obtain rfl := Option.some.inj hb
    exact Or.inr ⟨hs, ho⟩

/-- A call without a wrap-around throws, and leaves the buffer as it is, or does what it does on
unbounded numbers. -/
theorem ensureWritableBytes_agrees (h : Sized m b) (hr : b.Reservable len) :
    Agrees m b (SizeT.ensureWritableBytes m granted b len) (b.ensureWritableBytes len) := by
  have hlt := h.length_lt
  have hle := h.length_le
  have h1 := h.wf.reader_le
  have h2 := h.wf.writer_le
  obtain ⟨b', hb, hwf, -⟩ := yields_ensureWritableBytes h.wf len
  suffices hs : SizeT.ensureWritableBytes m granted b len = .throws b ∨
      SizeT.ensureWritableBytes m granted b len = .returns b' ∧ b'.buffer_.length ≤ m.val from
    hs.imp_right fun hs => ⟨b', hs.1, ⟨hwf, hs.2⟩, hb⟩
  rw [Buffer.ensureWritableBytes] at hb
  rw [SizeT.ensureWritableBytes, h.writableBytes_eq]
  by_cases hw : b.writableBytes < len
  · obtain ⟨hcheap, hwriter⟩ := hr.resolve_left (not_le.mpr hw)
    rw [if_pos hw, makeSpace] at hb
    rw [if_pos hw, SizeT.makeSpace, h.room_eq, add_of_lt hcheap, add_of_lt hwriter]
    split_ifs at hb ⊢ with hroom hreader
    · obtain rfl := Except.ok.inj hb
      rcases vectorResize_cases m granted b.buffer_ (b.writerIndex_ + len) with hv | ⟨hv, hn⟩
      · rw [hv]
        exact Or.inl rfl
      · rw [hv]
        refine Or.inr ⟨rfl, ?_⟩
        rw [length_resize]
        omega
    · rw [ensure_bind_of hreader] at hb
      obtain rfl := Except.ok.inj hb
      have hsum : add sizeMod kCheapPrepend b.readableBytes =
          kCheapPrepend + b.readableBytes := by
        apply add_of_lt
        unfold sizeMod readableBytes kCheapPrepend
        omega
      refine Or.inr ⟨?_, ?_⟩
      · simp only [h.readableBytes_eq, hsum]
      · simpa only [length_copyWithin] using hle
    · exact absurd (makeSpace_reader hw hroom) hreader
  · rw [if_neg hw] at hb ⊢
    obtain rfl := Except.ok.inj hb
    exact Or.inr ⟨rfl, hle⟩

/-- Every block of bytes that exists in memory can be reserved. -/
theorem reservable_of_lt (h : Sized m b) (hlen : len < 2 ^ 63) : b.Reservable len := by
  have := h.length_lt
  have := h.wf.writer_le
  refine Or.inr ⟨?_, ?_⟩ <;> unfold sizeMod
  · unfold kCheapPrepend
    omega
  · omega

/-! ## With a wrap-around -/

/-- The sum `writerIndex_ + len` wraps around: the vector ends below the writer index. -/
theorem not_safe_of_resize (h : Sized m b) (hlen : len < sizeMod)
    (hroom : b.writableBytes + b.prependableBytes < add sizeMod len kCheapPrepend)
    (hwrap : sizeMod ≤ b.writerIndex_ + len) :
    ¬ Safe b len (SizeT.makeSpace m granted b len) := by
  have hlt := h.length_lt
  have h2 := h.wf.writer_le
  have hshrinks : add sizeMod b.writerIndex_ len < b.writerIndex_ :=
    (add_lt_left_iff (by unfold sizeMod; omega) hlen).mpr hwrap
  have hv : vectorResize m granted b.buffer_ (add sizeMod b.writerIndex_ len) =
      some (resize b.buffer_ (add sizeMod b.writerIndex_ len) 0) :=
    if_pos (Or.inl (by omega))
  rw [SizeT.makeSpace, h.room_eq, if_pos hroom, hv]
  rintro ⟨-, hle⟩
  simp only [length_resize] at hle
  omega

/-- The sum `len + kCheapPrepend` wraps around: the assertion fails, or the bytes before the
readable ones are too few. -/
theorem not_safe_of_compact (h : Sized m b)
    (hroom : ¬ b.writableBytes + b.prependableBytes < add sizeMod len kCheapPrepend)
    (hwrap : sizeMod ≤ len + kCheapPrepend) :
    ¬ Safe b len (SizeT.makeSpace m granted b len) := by
  have hlt := h.length_lt
  have h1 := h.wf.reader_le
  have h2 := h.wf.writer_le
  rw [SizeT.makeSpace, h.room_eq, if_neg hroom]
  split_ifs with hreader
  · rintro ⟨hspace, hle⟩
    rw [SizeT.writableBytes, sub_of_le _ hle] at hspace
    · simp only [length_copyWithin] at hspace
      unfold sizeMod kCheapPrepend at hwrap
      omega
    · rw [length_copyWithin]
      unfold sizeMod
      omega
  · exact id

/-- **One call.** On a buffer within its bound `ensureWritableBytes` is safe exactly when neither
sum wraps around, or the bytes are writable already. -/
theorem safe_iff (h : Sized m b) (hlen : len < sizeMod) :
    Safe b len (SizeT.ensureWritableBytes m granted b len) ↔ b.Reservable len := by
  have hlt := h.length_lt
  have h1 := h.wf.reader_le
  have h2 := h.wf.writer_le
  have h3 := h.wf.cheap_le
  constructor
  · intro hsafe
    refine or_iff_not_imp_left.mpr fun hw => ?_
    rw [not_le] at hw
    rw [SizeT.ensureWritableBytes, h.writableBytes_eq, if_pos hw] at hsafe
    by_contra hwrap
    rw [not_and_or, not_lt, not_lt] at hwrap
    by_cases hroom : b.writableBytes + b.prependableBytes < add sizeMod len kCheapPrepend
    · refine not_safe_of_resize h hlen hroom ?_ hsafe
      refine hwrap.elim (fun hcheap => ?_) id
      rw [add_of_le hlen (by decide) hcheap] at hroom
      unfold writableBytes prependableBytes at hroom
      omega
    · refine not_safe_of_compact h hroom ?_ hsafe
      refine hwrap.elim id fun hwriter => ?_
      by_contra hcheap
      rw [add_of_lt (not_le.mp hcheap)] at hroom
      unfold writableBytes prependableBytes sizeMod at *
      omega
  · intro hr
    rcases ensureWritableBytes_agrees h hr with ht | ⟨b', ht, hb', hb⟩
    · rw [ht]
      exact ⟨rfl, rfl, rfl, h2⟩
    · rw [ht]
      refine ⟨?_, hb'.wf.writer_le⟩
      rw [hb'.writableBytes_eq]
      exact ensureWritableBytes_writable h.wf hb

/-! ## The other operations -/

/-- `b'` is `b`, or what an allowed operation on unbounded numbers makes of it. -/
def Reaches (b b' : Buffer) : Prop := b' = b ∨ ∃ op : Op, op.Allowed b ∧ op.perform b = .ok b'

/-- An operation that leaves the vector alone. -/
theorem agrees_of_length {op : Op} (h : Sized m b) (ha : op.Allowed b)
    (hlen : ∀ b', op.perform b = .ok b' → b'.buffer_.length = b.buffer_.length) :
    Agrees m b (.ofOutcome (op.perform b)) (op.perform b) := by
  obtain ⟨b', hb, hwf, -⟩ := op.perform_spec h.wf ha
  have hle := h.length_le
  rw [← hlen b' hb] at hle
  rw [hb]
  exact Or.inr ⟨b', rfl, ⟨hwf, hle⟩, rfl⟩

theorem buffer_of_retrieve {b' : Buffer} (h : b.retrieve len = .ok b') :
    b'.buffer_ = b.buffer_ := by
  rw [retrieve, ensure_bind_eq_ok_iff] at h
  obtain ⟨-, h⟩ := h
  split_ifs at h
  · obtain rfl := Except.ok.inj h
    rfl
  · obtain rfl := Except.ok.inj h
    rfl

theorem buffer_of_retrieveUntil {b' : Buffer} {end_ : ℕ} (h : b.retrieveUntil end_ = .ok b') :
    b'.buffer_ = b.buffer_ := by
  rw [retrieveUntil, ensure_bind_eq_ok_iff, ensure_bind_eq_ok_iff] at h
  exact buffer_of_retrieve h.2.2

theorem length_of_prepend (h : b.Wf) {data : Bytes} {b' : Buffer} (hb : b.prepend data = .ok b') :
    b'.buffer_.length = b.buffer_.length := by
  have h1 := h.reader_le
  have h2 := h.writer_le
  rw [prepend, ensure_bind_eq_ok_iff] at hb
  obtain ⟨hd, hb⟩ := hb
  obtain rfl := Except.ok.inj hb
  rw [prependableBytes] at hd
  exact length_blit (by omega)

theorem sized_write (h : Sized m b) {data : Bytes} (hd : data.length ≤ b.writableBytes) :
    Sized m ((b.store data).hasWritten data.length) where
  wf := by
    obtain ⟨b', hb, hwf, -⟩ := yields_write h.wf hd
    obtain rfl := Except.ok.inj hb
    exact hwf
  length_le := by
    have hle := h.length_le
    rw [← length_store h.wf hd] at hle
    exact hle

theorem agrees_append (h : Sized m b) {data : Bytes} (hr : b.Reservable data.length) :
    Agrees m b (SizeT.append m granted b data) (b.append data) := by
  rw [SizeT.append]
  rcases ensureWritableBytes_agrees h hr with ht | ⟨b₁, ht, hs, hb⟩
  · rw [ht]
    exact Or.inl rfl
  · rw [ht, append, hb, ok_bind]
    exact Or.inr ⟨_, rfl, sized_write hs (ensureWritableBytes_writable h.wf hb), rfl⟩

/-- When `readFd` throws, the buffer has been filled to its end. -/
theorem agrees_readFd (h : Sized m b) {data : Bytes}
    (hd : data.length ≤ b.writableBytes + extrabufSize) :
    Agrees m ((b.store (data.take b.writableBytes)).hasWritten (data.take b.writableBytes).length)
      (SizeT.readFd m granted b (.received data)) (b.readFd (.received data)) := by
  rw [SizeT.readFd, readFd, h.writableBytes_eq]
  dsimp only
  split_ifs with hfit
  · exact Or.inr ⟨_, rfl, sized_write h hfit, rfl⟩
  · have hs := sized_write h (List.length_take_le b.writableBytes data)
    rw [fill_eq h.wf (not_le.mp hfit).le]
    refine agrees_append hs (reservable_of_lt hs ?_)
    rw [List.length_drop]
    unfold extrabufSize at hd
    omega

theorem agrees_shrink (h : Sized m b) {reserve : ℕ}
    (hr : b.readerIndex_ ≤ kCheapPrepend + reserve)
    (hfit : kCheapPrepend + b.readableBytes + reserve < sizeMod) :
    Agrees m b (SizeT.shrink m granted b reserve) (.ok (b.shrink reserve)) := by
  rw [SizeT.shrink, h.readableBytes_eq, add_of_lt (a := kCheapPrepend) (by omega), add_of_lt hfit]
  dsimp only
  split_ifs with hmem
  · have htake : (blit (List.replicate (kCheapPrepend + b.readableBytes + reserve) 0) kCheapPrepend
        (b.peek b.readableBytes)).take (kCheapPrepend + b.readableBytes + reserve) =
        (b.shrink reserve).buffer_ := List.take_of_length_le (length_shrink h.wf reserve).le
    rw [htake]
    refine Or.inr ⟨b.shrink reserve, rfl, ⟨h.wf.shrink_of_le hr, ?_⟩, rfl⟩
    rw [length_shrink h.wf]
    exact hmem.1
  · exact Or.inl rfl

/-- The bytes that the operation reserves come without a wrap-around. -/
def Op.Unwrapped (b : Buffer) : Op → Prop
  | .append data => b.Reservable data.length
  | .ensureWritableBytes len => b.Reservable len
  | _ => True

instance (b : Buffer) (op : Op) : Decidable (op.Unwrapped b) :=
  match op with
  | .append data => inferInstanceAs (Decidable (b.Reservable data.length))
  | .ensureWritableBytes len => inferInstanceAs (Decidable (b.Reservable len))
  | .prepend _ | .retrieve _ | .retrieveUntil _ | .retrieveAll | .retrieveAsString | .store _
  | .hasWritten _ | .readFd _ => .isTrue trivial

/-- Every operation but `readFd` leaves the buffer as it is when it throws. -/
theorem perform_agrees (h : Sized m b) {op : Op} (ha : op.Allowed b) (hu : op.Unwrapped b) :
    ∃ left, Sized m left ∧ Reaches b left ∧
      Agrees m left (SizeT.perform m granted b op) (op.perform b) := by
  cases op with
  | readFd r =>
    cases r with
    | failed => exact ⟨b, h, Or.inl rfl, Or.inr ⟨b, rfl, h, rfl⟩⟩
    | received data =>
      have htake := List.length_take_le b.writableBytes data
      refine ⟨_, sized_write h htake, Or.inr ⟨.readFd (.received (data.take b.writableBytes)),
        htake.trans (Nat.le_add_right _ _), ?_⟩, agrees_readFd h ha⟩
      exact if_pos htake
  | append data => exact ⟨b, h, Or.inl rfl, agrees_append h hu⟩
  | ensureWritableBytes len => exact ⟨b, h, Or.inl rfl, ensureWritableBytes_agrees h hu⟩
  | prepend data =>
    exact ⟨b, h, Or.inl rfl, agrees_of_length h ha fun b' hb => length_of_prepend h.wf hb⟩
  | retrieve len =>
    exact ⟨b, h, Or.inl rfl, agrees_of_length h ha fun b' hb =>
      congrArg List.length (buffer_of_retrieve hb)⟩
  | retrieveUntil end_ =>
    exact ⟨b, h, Or.inl rfl, agrees_of_length h ha fun b' hb =>
      congrArg List.length (buffer_of_retrieveUntil hb)⟩
  | store data =>
    exact ⟨b, h, Or.inl rfl, agrees_of_length h ha fun b' hb =>
      Except.ok.inj hb ▸ length_store h.wf ha⟩
  | retrieveAll | retrieveAsString | hasWritten len =>
    exact ⟨b, h, Or.inl rfl, agrees_of_length h ha fun b' hb => Except.ok.inj hb ▸ rfl⟩

theorem perform_reaches (h : Sized m b) {op : Op} (ha : op.Allowed b) (hu : op.Unwrapped b)
    {b' : Buffer} (hb : (SizeT.perform m granted b op).buffer? = some b') :
    Sized m b' ∧ Reaches b b' := by
  obtain ⟨left, hs, hreach, hagrees⟩ := perform_agrees h ha hu
  rcases hagrees.cases hb with rfl | ⟨hs', ho⟩
  · exact ⟨hs, hreach⟩
  · exact ⟨hs', Or.inr ⟨op, ha, ho⟩⟩

/-! ## Runs -/

section Family

variable {ι : Type} [DecidableEq ι]

variable (ι) in
/-- An operation on the buffer `i`, `i.shrink(reserve)`, or `i.swap(j)`. -/
inductive SizedEvent where
  | on (i : ι) (op : Op) (granted : Bool)
  | shrink (i : ι) (reserve : ℕ) (granted : Bool)
  | swap (i j : ι)

/-- The caller goes on after an exception, with the buffer it has then. -/
def sizedStep (m : MaxSize) (t : ι → Buffer) : SizedEvent ι → Option (ι → Buffer)
  | .on i op granted =>
    if op.Allowed (t i) then
      (SizeT.perform m granted (t i) op).buffer?.map (Function.update t i)
    else none
  | .shrink i reserve granted =>
    (SizeT.shrink m granted (t i) reserve).buffer?.map (Function.update t i)
  | .swap i j =>
    let r := (t i).swap (t j)
    some (Function.update (Function.update t i r.1) j r.2)

/-- No sum of the event wraps around, and a call of `shrink` does not end below the writer index. -/
def Unwrapped (t : ι → Buffer) : SizedEvent ι → Prop
  | .on i op _ => op.Unwrapped (t i)
  | .shrink i reserve _ =>
    (t i).readerIndex_ ≤ kCheapPrepend + reserve ∧
      kCheapPrepend + (t i).readableBytes + reserve < sizeMod
  | .swap _ _ => True

instance (t : ι → Buffer) (e : SizedEvent ι) : Decidable (Unwrapped t e) :=
  match e with
  | .on i op _ => inferInstanceAs (Decidable (op.Unwrapped (t i)))
  | .shrink _ _ _ => inferInstanceAs (Decidable (_ ∧ _))
  | .swap _ _ => .isTrue trivial

theorem sized_update {t : ι → Buffer} (h : ∀ i, Sized m (t i)) {i : ι} (hb : Sized m b) (k : ι) :
    Sized m (Function.update t i b k) := by
  rw [Function.update_apply]
  split_ifs
  · exact hb
  · exact h k

/-- What a step without a wrap-around makes of the buffers. -/
theorem sizedStep_cases {t t' : ι → Buffer} {e : SizedEvent ι} (h : ∀ i, Sized m (t i))
    (hu : Unwrapped t e) (hs : sizedStep m t e = some t') :
    (∃ i b, t' = Function.update t i b ∧ Sized m b ∧
      (Reaches (t i) b ∨ ∃ reserve granted, e = .shrink i reserve granted ∧
        b = (t i).shrink reserve)) ∨
    ∃ i j, t' = Function.update (Function.update t i (t j)) j (t i) := by
  cases e with
  | on i op granted =>
    simp only [sizedStep] at hs
    split_ifs at hs with ha
    obtain ⟨b', hb, rfl⟩ := Option.map_eq_some_iff.mp hs
    obtain ⟨hsized, hreach⟩ := perform_reaches (h i) ha hu hb
    exact Or.inl ⟨i, b', rfl, hsized, Or.inl hreach⟩
  | shrink i reserve granted =>
    obtain ⟨b', hb, rfl⟩ := Option.map_eq_some_iff.mp hs
    refine Or.inl ⟨i, b', rfl, ?_⟩
    rcases (agrees_shrink (h i) hu.1 hu.2).cases hb with rfl | ⟨hsized, ho⟩
    · exact ⟨h i, Or.inl (Or.inl rfl)⟩
    · exact ⟨hsized, Or.inr ⟨reserve, granted, rfl, (Except.ok.inj ho).symm⟩⟩
  | swap i j => exact Or.inr ⟨i, j, (Option.some.inj hs).symm⟩

theorem sizedStep_inv (t : ι → Buffer) (e : SizedEvent ι) (t' : ι → Buffer)
    (h : ∀ i, Sized m (t i)) (hu : Unwrapped t e) (hs : sizedStep m t e = some t') :
    ∀ i, Sized m (t' i) := by
  rcases sizedStep_cases h hu hs with ⟨i, b, rfl, hb, -⟩ | ⟨i, j, rfl⟩
  · exact sized_update h hb
  · exact sized_update (sized_update h (h j)) (h i)

theorem step_on {u : Family ι} {i : ι} {op : Op} (ha : op.Allowed (u.bufs i))
    (hb : op.perform (u.bufs i) = .ok b) :
    ∃ u', step u (.on i op) = some u' ∧ u'.bufs = Function.update u.bufs i b := by
  rw [step, if_pos ha, hb]
  exact ⟨_, rfl, rfl⟩

/-- A call of `shrink` keeps its buffer. -/
def Keeping (t : ι → Buffer) : SizedEvent ι → Prop
  | .shrink i _ _ => (t i).Shrinkable
  | _ => True

/-- A family on unbounded numbers follows a step without a wrap-around. -/
theorem sizedStep_simulated (t : ι → Buffer) (e : SizedEvent ι) (t' : ι → Buffer) (u : Family ι)
    (h : u.bufs = t ∧ ∀ i, Sized m (t i)) (hu : Unwrapped t e ∧ Keeping t e)
    (hs : sizedStep m t e = some t') :
    (u.bufs = t' ∧ ∀ i, Sized m (t' i)) ∨ ∃ d u', shrinkStep u d = some u' ∧ Proper u d ∧
      u'.bufs = t' ∧ ∀ i, Sized m (t' i) := by
  have hinv := sizedStep_inv t e t' h.2 hu.1 hs
  obtain ⟨rfl, h⟩ := h
  rcases sizedStep_cases h hu.1 hs with ⟨i, b, rfl, -, hb⟩ | ⟨i, j, rfl⟩
  · rcases hb with (rfl | ⟨op, ha, hb⟩) | ⟨reserve, granted, rfl, rfl⟩
    · exact Or.inl ⟨(Function.update_eq_self i u.bufs).symm, hinv⟩
    · obtain ⟨u', hstep, hbufs⟩ := step_on ha hb
      exact Or.inr ⟨.event (.on i op), u', hstep, trivial, hbufs, hinv⟩
    · exact Or.inr ⟨.shrink i reserve, _, rfl, hu.2, rfl, hinv⟩
  · exact Or.inr ⟨.event (.swap i j), _, rfl, trivial, rfl, hinv⟩

/-- **Refinement.** The buffers that a run without a wrap-around reaches, with whatever exceptions
on the way, are those of a run on unbounded numbers, and so they are byte queues, where every call
of `shrink` keeps its buffer. -/
theorem refines_unbounded {es : List (SizedEvent ι)} {t : ι → Buffer}
    (h : Run (sizedStep m) (fun _ => new) es t)
    (hu : Along (sizedStep m) Unwrapped (fun _ => new) es)
    (hk : Along (sizedStep m) Keeping (fun _ => new) es) :
    ∃ ds u, Run shrinkStep (Family.fresh ι) ds u ∧ Along shrinkStep Proper (Family.fresh ι) ds ∧
      u.bufs = t ∧ ByteQueues u := by
  obtain ⟨ds, u, hrun, halong, hbufs, -⟩ :=
    h.simulate (R := fun t (u : Family ι) => u.bufs = t ∧ ∀ i, Sized m (t i))
      (t := Family.fresh ι) sizedStep_simulated (hu.and hk) ⟨rfl, fun _ => sized_new m⟩
  exact ⟨ds, u, hrun, halong, hbufs, (hrun.inv_of shrinkStep_inv halong inv_fresh).byteQueues⟩

/-- **Reserving space.** In every state that a run of buffers reaches, with whatever exceptions on
the way, `ensureWritableBytes(len)` is safe exactly when the bytes are writable already or neither
sum of `makeSpace` wraps around. -/
theorem ensureWritableBytes_safe_iff {es : List (SizedEvent ι)} {t : ι → Buffer}
    (h : Run (sizedStep m) (fun _ => new) es t)
    (hu : Along (sizedStep m) Unwrapped (fun _ => new) es) (i : ι) (granted : Bool) {len : ℕ}
    (hlen : len < sizeMod) :
    Safe (t i) len (SizeT.ensureWritableBytes m granted (t i) len) ↔ (t i).Reservable len := by
  have hinv : ∀ i, Sized m (t i) := h.inv_of sizedStep_inv hu fun _ => sized_new m
  exact safe_iff (hinv i) hlen

/-- `PTRDIFF_MAX`, the bound of the usual libraries. -/
def ptrdiffMax : MaxSize where
  val := 2 ^ 63 - 1
  initial_le := by decide
  lt := by decide

/-- Two bytes, a reservation beyond `max_size()`, a call of `shrink`, one byte taken and another put
in its place. -/
def reserveRun : List (SizedEvent Unit) :=
  [.on () (.append [1, 2]) true, .on () (.ensureWritableBytes (2 ^ 63)) true, .shrink () 5 true,
    .on () (.retrieve 1) true, .on () (.prepend [9]) true]

/-- There are five bytes of room, and 2^64 - 11 is the greatest length that may be asked for. -/
theorem reserveRun_safe : ∃ t : Unit → Buffer,
    Run (sizedStep ptrdiffMax) (fun _ => new) reserveRun t ∧ (t ()).readable = [9, 2] ∧
      Safe (t ()) (2 ^ 64 - 11)
        (SizeT.ensureWritableBytes ptrdiffMax true (t ()) (2 ^ 64 - 11)) ∧
      ¬ Safe (t ()) (2 ^ 64 - 10)
        (SizeT.ensureWritableBytes ptrdiffMax true (t ()) (2 ^ 64 - 10)) := by
  have h : (reserveRun.foldlM (sizedStep ptrdiffMax) (fun _ => new)).map (fun t =>
      ((t ()).readable, decide ((t ()).Reservable (2 ^ 64 - 11)),
        decide ((t ()).Reservable (2 ^ 64 - 10)))) = some ([9, 2], true, false) := by
    decide +kernel
  obtain ⟨t, ht, hq⟩ := Option.map_eq_some_iff.mp h
  obtain ⟨hread, hq⟩ := Prod.mk.inj hq
  obtain ⟨hfits, hwraps⟩ := Prod.mk.inj hq
  have hu : Along (sizedStep ptrdiffMax) Unwrapped (fun _ => new) reserveRun :=
    along_of_check (by decide +kernel)
  refine ⟨t, ht, hread, ?_, fun hsafe => ?_⟩
  · exact (ensureWritableBytes_safe_iff ht hu () true (by decide)).mpr (of_decide_eq_true hfits)
  · exact of_decide_eq_false hwraps
      ((ensureWritableBytes_safe_iff ht hu () true (by decide)).mp hsafe)

/-- The assertion fails on a new buffer; one byte later the vector is emptied below the writer
index; and a buffer that has been read from comes back with 1023 bytes of room for 2^64 - 8. -/
theorem wrapped_not_safe :
    (∃ t : Unit → Buffer, Run (sizedStep ptrdiffMax) (fun _ => new) [] t ∧
      SizeT.ensureWritableBytes ptrdiffMax true (t ()) (2 ^ 64 - 1) = .aborts .makeSpace) ∧
    (∃ t : Unit → Buffer, Run (sizedStep ptrdiffMax) (fun _ => new)
      [.on () (.append [1]) true] t ∧
      SizeT.ensureWritableBytes ptrdiffMax true (t ()) (2 ^ 64 - 9) = .returns ⟨[], 8, 9⟩) ∧
    (∃ t : Unit → Buffer, Run (sizedStep ptrdiffMax) (fun _ => new)
      [.on () (.append [1, 2]) true, .on () (.retrieve 1) true] t ∧
      SizeT.ensureWritableBytes ptrdiffMax true (t ()) (2 ^ 64 - 8) =
        .returns ⟨List.replicate 8 0 ++ [2, 2] ++ List.replicate 1022 0, 8, 9⟩) ∧
    ¬ ∀ (es : List (SizedEvent Unit)) (t : Unit → Buffer),
      Run (sizedStep ptrdiffMax) (fun _ => new) es t → ∀ len < sizeMod,
        Safe (t ()) len (SizeT.ensureWritableBytes ptrdiffMax true (t ()) len) := by
  have habort : ∃ t : Unit → Buffer, Run (sizedStep ptrdiffMax) (fun _ => new) [] t ∧
      SizeT.ensureWritableBytes ptrdiffMax true (t ()) (2 ^ 64 - 1) = .aborts .makeSpace :=
    Option.map_eq_some_iff.mp (by decide +kernel)
  refine ⟨habort, ?_, ?_, fun hsafe => ?_⟩
  · exact Option.map_eq_some_iff.mp (by decide +kernel)
  · exact Option.map_eq_some_iff.mp (by decide +kernel)
  · obtain ⟨t, ht, hend⟩ := habort
    have hlt : 2 ^ 64 - 1 < sizeMod := by decide
    have hnew := hsafe [] t ht (2 ^ 64 - 1) hlt
    rw [hend] at hnew
    exact hnew

end Family

end Buffer

end HighServer
