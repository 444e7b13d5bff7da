import HighServer.Net.ByteQueue

/-!
# Shrinking a buffer

`shrink` copies the readable bytes behind the prepend area of a new vector and swaps the vectors.
The two indices still describe the old layout. Here the size of the new vector is an unbounded
number.

* `shrink`, `readable_shrink`: what stands between the indices afterwards;
* `Shrinkable`: the reader index is where the bytes have been copied to, or the difference does not
  show; `keeps_shrink_iff`: `shrink` keeps the buffer exactly then;
* `shrinkStep_inv`: families of byte queues that are shrunk so.
-/

namespace HighServer

open Runs Storage

namespace Buffer

/-- `shrink`, where the sum does not wrap around and there is memory for the vector. -/
def shrink (b : Buffer) (reserve : ℕ) : Buffer :=
  let buf := List.replicate (kCheapPrepend + b.readableBytes + reserve) 0
  let buf := blit buf kCheapPrepend (b.peek b.readableBytes)
  { b with buffer_ := buf }

/-- The reader index is `kCheapPrepend`; or it lies below, after a `prepend`, and all readable
bytes are 0, like the bytes that are read in their place. -/
def Shrinkable (b : Buffer) : Prop :=
  b.readerIndex_ = kCheapPrepend ∨ b.readerIndex_ < kCheapPrepend ∧ ∀ x ∈ b.readable, x = 0

instance (b : Buffer) : Decidable b.Shrinkable := inferInstanceAs (Decidable (_ ∨ _ ∧ _))

/-- `b'` has the readable bytes of `b`, its indices in order, and room for `reserve` bytes. -/
structure Keeps (b b' : Buffer) (reserve : ℕ) : Prop where
  readable : b'.readable = b.readable
  reader_le : b'.readerIndex_ ≤ b'.writerIndex_
  writer_le : b'.writerIndex_ ≤ b'.buffer_.length
  room : reserve ≤ b'.writableBytes

variable {b : Buffer} {reserve : ℕ}

/-! ## The new storage -/

theorem buffer_shrink (h : b.Wf) (reserve : ℕ) : (b.shrink reserve).buffer_ =
    List.replicate kCheapPrepend 0 ++ (b.readable ++ List.replicate reserve 0) := by
  have hlen := h.length_readable
  have hrest : kCheapPrepend + b.readableBytes + reserve -
      (kCheapPrepend + b.readable.length) = reserve := by omega
  rw [shrink, peek_readableBytes h]
  dsimp only
  rw [blit, List.take_replicate, List.drop_replicate, hrest, List.append_assoc,
    Nat.min_eq_left (by omega)]

theorem length_shrink (h : b.Wf) (reserve : ℕ) :
    (b.shrink reserve).buffer_.length = kCheapPrepend + b.readableBytes + reserve := by
  rw [buffer_shrink h]
  simp only [List.length_append, List.length_replicate, h.length_readable]
  omega

/-- The readable bytes of a buffer that has been shrunk: the old ones, behind the zeros between the
reader index and `kCheapPrepend`. -/
theorem readable_shrink (h : b.Wf) (hr : b.readerIndex_ ≤ kCheapPrepend) (reserve : ℕ) :
    (b.shrink reserve).readable =
      (List.replicate (kCheapPrepend - b.readerIndex_) 0 ++ b.readable).take b.readable.length := by
  have hreader : (b.shrink reserve).readerIndex_ = b.readerIndex_ := rfl
  have hwriter : (b.shrink reserve).writerIndex_ = b.writerIndex_ := rfl
  have hlen : b.readable.length = b.writerIndex_ - b.readerIndex_ := h.length_readable
  rw [readable, hreader, hwriter, buffer_shrink h, slice, List.drop_take,
    List.drop_append_of_le_length (by rw [List.length_replicate]; exact hr),
    List.drop_replicate, ← List.append_assoc, List.take_append_of_le_length, hlen]
  rw [List.length_append, hlen]
  omega

/-- **`shrink` keeps the buffer** exactly when the reader index fits the new layout. -/
theorem keeps_shrink_iff (h : b.Wf) (reserve : ℕ) :
    b.Keeps (b.shrink reserve) reserve ↔ b.Shrinkable := by
  have hle := h.reader_le
  have hlen := length_shrink h reserve
  have hreader : (b.shrink reserve).readerIndex_ = b.readerIndex_ := rfl
  have hwriter : (b.shrink reserve).writerIndex_ = b.writerIndex_ := rfl
  have hbytes : b.readableBytes = b.writerIndex_ - b.readerIndex_ := rfl
  constructor
  · intro hk
    have hwl := hk.writer_le
    have hroom := hk.room
    rw [writableBytes] at hroom
    have hr : b.readerIndex_ ≤ kCheapPrepend := by omega
    have hread := hk.readable
    rw [readable_shrink h hr, take_replicate_append_eq_iff] at hread
    rcases hread with hz | hz
    · exact Or.inl (by omega)
    · rcases Nat.eq_or_lt_of_le hr with heq | hlt
      · exact Or.inl heq
      · exact Or.inr ⟨hlt, hz⟩
  · intro hs
    have hr : b.readerIndex_ ≤ kCheapPrepend := hs.elim le_of_eq fun hlt => hlt.1.le
    refine ⟨?_, hle, by omega, ?_⟩
    · rw [readable_shrink h hr, take_replicate_append_eq_iff]
      exact hs.imp (fun heq => by omega) And.right
    · rw [writableBytes]
      omega

/-- The indices stay in order when the new vector reaches up to the writer index. -/
theorem Wf.shrink_of_le (h : b.Wf) (hr : b.readerIndex_ ≤ kCheapPrepend + reserve) :
    (b.shrink reserve).Wf where
  reader_le := h.reader_le
  writer_le := by
    have hw : (b.shrink reserve).writerIndex_ = b.writerIndex_ := rfl
    rw [length_shrink h, hw, readableBytes]
    omega
  cheap_le := by
    rw [length_shrink h]
    omega

theorem Wf.shrink (h : b.Wf) (hs : b.Shrinkable) (reserve : ℕ) : (b.shrink reserve).Wf := by
  have hr : b.readerIndex_ ≤ kCheapPrepend := hs.elim le_of_eq fun hlt => hlt.1.le
  exact h.shrink_of_le (hr.trans (Nat.le_add_right _ _))

/-! ## Families -/

section Family

variable {ι : Type} [DecidableEq ι]

variable (ι) in
/-- An event of a family, or `i.shrink(reserve)`. -/
inductive ShrinkEvent where
  | event (e : Event ι)
  | shrink (i : ι) (reserve : ℕ)

/-- The family after `i.shrink(reserve)`; the byte queues do not change. -/
def Family.shrunk (t : Family ι) (i : ι) (reserve : ℕ) : Family ι :=
  { t with bufs := Function.update t.bufs i ((t.bufs i).shrink reserve) }

def shrinkStep (t : Family ι) : ShrinkEvent ι → Option (Family ι)
  | .event e => step t e
  | .shrink i reserve => some (t.shrunk i reserve)

/-- A call of `shrink` that keeps its buffer. -/
def Proper (t : Family ι) : ShrinkEvent ι → Prop
  | .event _ => True
  | .shrink i _ => (t.bufs i).Shrinkable

instance (t : Family ι) (e : ShrinkEvent ι) : Decidable (Proper t e) :=
  match e with
  | .event _ => .isTrue trivial
  | .shrink i _ => inferInstanceAs (Decidable (t.bufs i).Shrinkable)

/-- Every buffer is a byte queue, and stays one under its next operation. -/
def ByteQueues (t : Family ι) : Prop :=
  ∀ i, (t.bufs i).readable = t.queue i ∧ (t.bufs i).readerIndex_ ≤ (t.bufs i).writerIndex_ ∧
    (t.bufs i).writerIndex_ ≤ (t.bufs i).buffer_.length ∧
    ∀ op, Op.Allowed (t.bufs i) op → ∃ b', op.perform (t.bufs i) = .ok b' ∧
      b'.readable = op.effect (t.bufs i) (t.queue i)

omit [DecidableEq ι] in
theorem Inv.byteQueues {t : Family ι} (h : Inv t) : ByteQueues t := by
  intro i
  refine ⟨(h i).readable, (h i).wf.reader_le, (h i).wf.writer_le, fun op ha => ?_⟩
  obtain ⟨b', hb, -, hread, -⟩ := op.perform_spec (h i).wf ha
  exact ⟨b', hb, by rw [hread, (h i).readable]⟩

theorem inv_shrunk {t : Family ι} (h : Inv t) {i : ι} (hs : (t.bufs i).Shrinkable)
    (reserve : ℕ) : Inv (t.shrunk i reserve) := by
  have hread : ((t.bufs i).shrink reserve).readable = t.queue i := by
    rw [((keeps_shrink_iff (h i).wf reserve).mpr hs).readable, (h i).readable]
  have hinv := h.update (i := i) ((h i).wf.shrink hs reserve) hread (h i).cheap
  rwa [Function.update_eq_self, Function.update_eq_self] at hinv

theorem shrinkStep_inv (t : Family ι) (e : ShrinkEvent ι) (t' : Family ι) (h : Inv t)
    (hp : Proper t e) (hs : shrinkStep t e = some t') : Inv t' := by
  cases e with
  | event e => exact step_inv t e t' h hs
  | shrink i reserve =>
    obtain rfl := Option.some.inj hs
    exact inv_shrunk h hp reserve

end Family

end Buffer

end HighServer
