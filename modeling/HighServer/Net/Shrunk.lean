import HighServer.Net.Reserve

/-!
# Shrinking with `size_t` arithmetic

The size of the new vector is a sum modulo 2^64, and its constructor throws beyond `max_size()` or
for want of memory. A sum that wraps around gives a vector that is too small for what is copied.

* `newSize`, `Fitting`: the size that is asked for, and when a call of `shrink` does no harm;
* `shrink_fitting`, `shrink_not_fitting`: one call;
* `Op.kept`, `perform_queue`: what an operation does to a byte queue, also when it throws;
* `Queued`, `QueueInv`, `queuedStep_inv`: families of buffers next to byte queues;
* **`shrink_preserves_iff`**: `shrink` preserves the buffers of any run, for all that comes later,
  exactly when it fits.
-/

namespace HighServer

open Runs Storage Unsigned

namespace Buffer

/-- `kCheapPrepend + readableBytes() + reserve` -/
def newSize (b : Buffer) (reserve : ℕ) : ℕ :=
  add sizeMod (add sizeMod kCheapPrepend (SizeT.readableBytes b)) reserve

/-- The constructor of the new vector throws; or the sum does not wrap around, and the indices fit
the new layout. -/
def Fitting (m : MaxSize) (granted : Bool) (b : Buffer) (reserve : ℕ) : Prop :=
  ¬ (b.newSize reserve ≤ m.val ∧ granted = true) ∨
    kCheapPrepend + b.readableBytes + reserve < sizeMod ∧ b.Shrinkable

instance (m : MaxSize) (granted : Bool) (b : Buffer) (reserve : ℕ) :
    Decidable (Fitting m granted b reserve) :=
  inferInstanceAs (Decidable (_ ∨ _ ∧ _))

variable {m : MaxSize} {granted : Bool} {b b' : Buffer} {reserve : ℕ}

/-! ## One call -/

theorem shrink_throws (h : ¬ (b.newSize reserve ≤ m.val ∧ granted = true)) :
    SizeT.shrink m granted b reserve = .throws b := if_neg h

/-- **A call that fits** throws and leaves the buffer as it is, or keeps it. -/
theorem shrink_fitting (h : Sized m b) (hf : Fitting m granted b reserve) :
    SizeT.shrink m granted b reserve = .throws b ∨
      ∃ b', SizeT.shrink m granted b reserve = .returns b' ∧ b.Keeps b' reserve ∧ Sized m b' := by
  rcases hf with hthrow | ⟨hsum, hs⟩
  · exact Or.inl (shrink_throws hthrow)
  · have hr : b.readerIndex_ ≤ kCheapPrepend + reserve :=
      (hs.elim le_of_eq fun hlt => hlt.1.le).trans (Nat.le_add_right _ _)
    refine (agrees_shrink h hr hsum).imp id ?_
    rintro ⟨b', hb, hsized, ho⟩
    obtain rfl := Except.ok.inj ho
    exact ⟨b.shrink reserve, hb, (keeps_shrink_iff h.wf reserve).mpr hs, hsized⟩

/-- A sum that wraps around is below the reserve. -/
theorem newSize_lt (h : Sized m b) (hres : reserve < sizeMod)
    (hwrap : sizeMod ≤ kCheapPrepend + b.readableBytes + reserve) :
    b.newSize reserve < reserve := by
  have hlt := h.length_lt
  have hle := h.wf.writer_le
  have hsum : kCheapPrepend + b.readableBytes < sizeMod := by
    unfold sizeMod kCheapPrepend readableBytes
    omega
  rw [newSize, h.readableBytes_eq, add_of_lt hsum, add_of_le hsum hres hwrap]
  omega

/-- **Any other call** returns, and does not keep the buffer. -/
theorem shrink_not_fitting (h : Sized m b) (hres : reserve < sizeMod)
    (hf : ¬ Fitting m granted b reserve) :
    ∃ b', SizeT.shrink m granted b reserve = .returns b' ∧ ¬ b.Keeps b' reserve := by
  obtain ⟨hmem, hnot⟩ := not_or.mp hf
  have hmem := not_not.mp hmem
  by_cases hsum : kCheapPrepend + b.readableBytes + reserve < sizeMod
  · have hs : ¬ b.Shrinkable := fun hs => hnot ⟨hsum, hs⟩
    refine ⟨b.shrink reserve, ?_, fun hk => hs ((keeps_shrink_iff h.wf reserve).mp hk)⟩
    have hsize : b.newSize reserve = kCheapPrepend + b.readableBytes + reserve := by
      rw [newSize, h.readableBytes_eq, add_of_lt (a := kCheapPrepend) (by omega), add_of_lt hsum]
    refine (if_pos hmem).trans (congrArg Ended.returns ?_)
    have htake : (b.shrink reserve).buffer_.take (b.newSize reserve) =
        (b.shrink reserve).buffer_ := by
      rw [hsize]
      exact List.take_of_length_le (length_shrink h.wf reserve).le
    have hbuf : blit (List.replicate (b.newSize reserve) 0) kCheapPrepend
        (b.peek (SizeT.readableBytes b)) = (b.shrink reserve).buffer_ := by
      rw [hsize, h.readableBytes_eq]
      rfl
    show Buffer.mk ((blit (List.replicate (b.newSize reserve) 0) kCheapPrepend
      (b.peek (SizeT.readableBytes b))).take (b.newSize reserve)) _ _ = _
    rw [hbuf, htake]
    rfl
  · -- the vector is smaller than the reserve
    refine ⟨_, if_pos hmem, fun hk => ?_⟩
    have hlt := newSize_lt h hres (not_lt.mp hsum)
    have hroom := hk.room
    have hlen := List.length_take_le (b.newSize reserve)
      (blit (List.replicate (b.newSize reserve) 0) kCheapPrepend
        (b.peek (SizeT.readableBytes b)))
    have hle : reserve ≤ ((blit (List.replicate (b.newSize reserve) 0) kCheapPrepend
        (b.peek (SizeT.readableBytes b))).take (b.newSize reserve)).length :=
      hroom.trans (Nat.sub_le _ _)
    omega

/-! ## Byte queues -/

/-- A byte queue after an exception: `readFd` has filled the vector before it throws. -/
def Op.kept (b : Buffer) (q : Bytes) : Op → Bytes
  | .readFd (.received data) => q ++ data.take b.writableBytes
  | _ => q

theorem readable_write (h : Sized m b) {data : Bytes} (hd : data.length ≤ b.writableBytes) :
    ((b.store data).hasWritten data.length).readable = b.readable ++ data := by
  obtain ⟨b', hb, -, hread, -⟩ := yields_write h.wf hd
  obtain rfl := Except.ok.inj hb
  exact hread

variable (granted) in
/-- **One operation** without a wrap-around does to the readable bytes what it does to a queue, or
throws. -/
theorem perform_queue (h : Sized m b) {op : Op} (ha : op.Allowed b) (hu : op.Unwrapped b) :
    (∃ b', SizeT.perform m granted b op = .returns b' ∧ Sized m b' ∧
        b'.readable = op.effect b b.readable) ∨
      ∃ b', SizeT.perform m granted b op = .throws b' ∧ Sized m b' ∧
        b'.readable = op.kept b b.readable := by
  obtain ⟨b₁, hb₁, -, hread, -⟩ := op.perform_spec h.wf ha
  have done : ∀ {left : Buffer}, Sized m left → left.readable = op.kept b b.readable →
      Agrees m left (SizeT.perform m granted b op) (op.perform b) →
      (∃ b', SizeT.perform m granted b op = .returns b' ∧ Sized m b' ∧
          b'.readable = op.effect b b.readable) ∨
        ∃ b', SizeT.perform m granted b op = .throws b' ∧ Sized m b' ∧
          b'.readable = op.kept b b.readable := by
    rintro left hleft hkept (ht | ⟨b', ht, hs, ho⟩)
    · exact Or.inr ⟨left, ht, hleft, hkept⟩
    · obtain rfl := Except.ok.inj (ho.symm.trans hb₁)
      exact Or.inl ⟨b', ht, hs, hread⟩
  cases op with
  | readFd r =>
    cases r with
    | failed => exact done h rfl (Or.inr ⟨b, rfl, h, rfl⟩)
    | received data =>
      have htake := List.length_take_le b.writableBytes data
      exact done (sized_write h htake) (readable_write h htake) (agrees_readFd h ha)
  | append data => exact done h rfl (agrees_append h hu)
  | ensureWritableBytes len => exact done h rfl (ensureWritableBytes_agrees h hu)
  | prepend data =>
    exact done h rfl (agrees_of_length h ha fun b' hb => length_of_prepend h.wf hb)
  | retrieve len =>
    exact done h rfl (agrees_of_length h ha fun b' hb =>
      congrArg List.length (buffer_of_retrieve hb))
  | retrieveUntil end_ =>
    exact done h rfl (agrees_of_length h ha fun b' hb =>
      congrArg List.length (buffer_of_retrieveUntil hb))
  | store data =>
    exact done h rfl (agrees_of_length h ha fun b' hb =>
      Except.ok.inj hb ▸ length_store h.wf ha)
  | retrieveAll | retrieveAsString | hasWritten len =>
    exact done h rfl (agrees_of_length h ha fun b' hb => Except.ok.inj hb ▸ rfl)

/-! ## Families -/

section Family

variable {ι : Type} [DecidableEq ι]

variable (ι) in
/-- A family of buffers, and the byte queues that run next to them. -/
structure Queued where
  bufs : ι → Buffer
  queue : ι → Bytes

variable (ι) in
def Queued.fresh : Queued ι where
  bufs := fun _ => new
  queue := fun _ => []

/-- What the operation makes of a byte queue when it ends so. -/
def Op.queue (op : Op) (b : Buffer) (q : Bytes) : Ended → Bytes
  | .returns _ => op.effect b q
  | .throws _ => op.kept b q
  | .aborts _ => q

/-- The byte queues after an event; `shrink` is not seen. -/
def queueStep (m : MaxSize) (t : Queued ι) : SizedEvent ι → ι → Bytes
  | .on i op granted =>
    Function.update t.queue i
      (op.queue (t.bufs i) (t.queue i) (SizeT.perform m granted (t.bufs i) op))
  | .shrink _ _ _ => t.queue
  | .swap i j => exchange t.queue i j

def queuedStep (m : MaxSize) (t : Queued ι) (e : SizedEvent ι) : Option (Queued ι) :=
  (sizedStep m t.bufs e).map fun bufs => { bufs, queue := queueStep m t e }

/-- No sum of an operation wraps around, and a call of `shrink` fits. -/
def Harmless (m : MaxSize) (t : Queued ι) : SizedEvent ι → Prop
  | .on i op _ => op.Unwrapped (t.bufs i)
  | .shrink i reserve granted => Fitting m granted (t.bufs i) reserve
  | .swap _ _ => True

instance (m : MaxSize) (t : Queued ι) (e : SizedEvent ι) : Decidable (Harmless m t e) :=
  match e with
  | .on i op _ => inferInstanceAs (Decidable (op.Unwrapped (t.bufs i)))
  | .shrink i reserve granted => inferInstanceAs (Decidable (Fitting m granted (t.bufs i) reserve))
  | .swap _ _ => .isTrue trivial

/-- The call has the same effect on the buffer and on the byte queue, whether it returns or throws;
it does not end the process. -/
def Op.InStep (op : Op) (b : Buffer) (q : Bytes) (r : Ended) : Prop :=
  ∃ b', r.buffer? = some b' ∧ b'.readable = op.queue b q r

/-- Every buffer is a byte queue, and stays one under its next operation. -/
def ByteQueued (m : MaxSize) (t : Queued ι) : Prop :=
  ∀ i, (t.bufs i).readable = t.queue i ∧ (t.bufs i).readerIndex_ ≤ (t.bufs i).writerIndex_ ∧
    (t.bufs i).writerIndex_ ≤ (t.bufs i).buffer_.length ∧
    ∀ op granted, Op.Allowed (t.bufs i) op → op.Unwrapped (t.bufs i) →
      op.InStep (t.bufs i) (t.queue i) (SizeT.perform m granted (t.bufs i) op)

/-- The family after `i.shrink(reserve)` has left `b` in the place of `i`. -/
def Queued.shrunk (t : Queued ι) (i : ι) (b : Buffer) : Queued ι :=
  { t with bufs := Function.update t.bufs i b }

/-- `i.shrink(reserve)` throws and leaves the buffer as it is, or returns and keeps it; and from
then on the buffers are byte queues. -/
def Preserved (m : MaxSize) (granted : Bool) (t : Queued ι) (i : ι) (reserve : ℕ) : Prop :=
  ∃ b', (SizeT.shrink m granted (t.bufs i) reserve = .throws b' ∧ b' = t.bufs i ∨
      SizeT.shrink m granted (t.bufs i) reserve = .returns b' ∧ (t.bufs i).Keeps b' reserve) ∧
    ∀ fs u, Run (queuedStep m) (t.shrunk i b') fs u →
      Along (queuedStep m) (Harmless m) (t.shrunk i b') fs → ByteQueued m u

/-- What holds of every buffer of a family. -/
def QueueInv (m : MaxSize) (t : Queued ι) : Prop :=
  ∀ i, Sized m (t.bufs i) ∧ (t.bufs i).readable = t.queue i

omit [DecidableEq ι] in
theorem queueInv_fresh : QueueInv m (Queued.fresh ι) := fun _ => ⟨sized_new m, readable_new⟩

theorem QueueInv.update {t : Queued ι} (h : QueueInv m t) {i : ι} {q : Bytes} (hs : Sized m b)
    (hq : b.readable = q) :
    QueueInv m ⟨Function.update t.bufs i b, Function.update t.queue i q⟩ := by
  intro k
  dsimp only
  rcases eq_or_ne k i with rfl | hk
  · rw [Function.update_self, Function.update_self]
    exact ⟨hs, hq⟩
  · rw [Function.update_of_ne hk, Function.update_of_ne hk]
    exact h k

theorem QueueInv.shrunk {t : Queued ι} (h : QueueInv m t) {i : ι} (hs : Sized m b)
    (hq : b.readable = t.queue i) : QueueInv m (t.shrunk i b) := by
  have hinv := h.update (i := i) hs hq
  rwa [Function.update_eq_self] at hinv

omit [DecidableEq ι] in
/-- **One operation** that is used as it may be, on a buffer and on its byte queue. -/
theorem inStep_of_unwrapped {t : Queued ι} (h : QueueInv m t) {i : ι} {op : Op}
    (ha : op.Allowed (t.bufs i)) (hu : op.Unwrapped (t.bufs i)) (granted : Bool) :
    ∃ b', (SizeT.perform m granted (t.bufs i) op).buffer? = some b' ∧ Sized m b' ∧
      b'.readable = op.queue (t.bufs i) (t.queue i) (SizeT.perform m granted (t.bufs i) op) := by
  rw [← (h i).2]
  rcases perform_queue granted (h i).1 ha hu with
    ⟨b', hb, hs, hread⟩ | ⟨b', hb, hs, hread⟩
  · rw [hb]
    exact ⟨b', rfl, hs, hread⟩
  · rw [hb]
    exact ⟨b', rfl, hs, hread⟩

omit [DecidableEq ι] in
theorem QueueInv.byteQueued {t : Queued ι} (h : QueueInv m t) : ByteQueued m t := by
  intro i
  obtain ⟨hs, hread⟩ := h i
  refine ⟨hread, hs.wf.reader_le, hs.wf.writer_le, fun op granted ha hu => ?_⟩
  obtain ⟨b', hb, -, hq⟩ := inStep_of_unwrapped h ha hu granted
  exact ⟨b', hb, hq⟩

/-- What a call that fits leaves in the place of its buffer. -/
theorem queueInv_shrink {t : Queued ι} (h : QueueInv m t) {i : ι}
    (hf : Fitting m granted (t.bufs i) reserve)
    (hb : (SizeT.shrink m granted (t.bufs i) reserve).buffer? = some b) :
    QueueInv m (t.shrunk i b) := by
  rcases shrink_fitting (h i).1 hf with ht | ⟨b', ht, hk, hs⟩
  · rw [ht] at hb
    obtain rfl := Option.some.inj hb
    exact h.shrunk (h i).1 (h i).2
  · rw [ht] at hb
    obtain rfl := Option.some.inj hb
    exact h.shrunk hs (hk.readable.trans (h i).2)

theorem queuedStep_inv (t : Queued ι) (e : SizedEvent ι) (t' : Queued ι) (h : QueueInv m t)
    (hh : Harmless m t e) (hs : queuedStep m t e = some t') : QueueInv m t' := by
  obtain ⟨bufs, hbufs, rfl⟩ := Option.map_eq_some_iff.mp hs
  cases e with
  | on i op granted =>
    simp only [sizedStep] at hbufs
    split_ifs at hbufs with ha
    obtain ⟨b', hb, hsized, hq⟩ := inStep_of_unwrapped h ha hh granted
    rw [hb] at hbufs
    obtain rfl := Option.some.inj hbufs
    exact h.update hsized hq
  | shrink i reserve granted =>
    obtain ⟨b', hb, rfl⟩ := Option.map_eq_some_iff.mp hbufs
    exact queueInv_shrink h hh hb
  | swap i j =>
    obtain rfl := Option.some.inj hbufs
    exact (h.update (i := i) (h j).1 (h j).2).update (h i).1 (h i).2

/-- A preserved buffer, where the call returns. -/
theorem Preserved.of_returns {t : Queued ι} {i : ι} (hp : Preserved m granted t i reserve)
    (hb : SizeT.shrink m granted (t.bufs i) reserve = .returns b) :
    (t.bufs i).Keeps b reserve := by
  obtain ⟨b', hend, -⟩ := hp
  rcases hend with ⟨ht, -⟩ | ⟨ht, hk⟩
  · exact Ended.noConfusion (hb.symm.trans ht)
  · obtain rfl := Ended.returns.inj (hb.symm.trans ht)
    exact hk

/-- **Shrinking.** In every state that a run of buffers reaches, with whatever exceptions on the
way, `shrink` preserves a buffer, for all that comes later, exactly when it fits. -/
theorem shrink_preserves_iff {es : List (SizedEvent ι)} {t : Queued ι}
    (h : Run (queuedStep m) (Queued.fresh ι) es t)
    (hh : Along (queuedStep m) (Harmless m) (Queued.fresh ι) es) (i : ι) (granted : Bool)
    {reserve : ℕ} (hres : reserve < sizeMod) :
    Preserved m granted t i reserve ↔ Fitting m granted (t.bufs i) reserve := by
  have hinv : QueueInv m t := h.inv_of queuedStep_inv hh queueInv_fresh
  constructor
  · intro hp
    by_contra hf
    obtain ⟨b', hb, hnot⟩ := shrink_not_fitting (hinv i).1 hres hf
    exact hnot (hp.of_returns hb)
  · intro hf
    rcases shrink_fitting (hinv i).1 hf with ht | ⟨b', ht, hk, -⟩
    · refine ⟨t.bufs i, Or.inl ⟨ht, rfl⟩, fun fs u hu hfs => ?_⟩
      exact (hu.inv_of queuedStep_inv hfs
        (queueInv_shrink hinv hf (by rw [ht]; rfl))).byteQueued
    · refine ⟨b', Or.inr ⟨ht, hk⟩, fun fs u hu hfs => ?_⟩
      exact (hu.inv_of queuedStep_inv hfs
        (queueInv_shrink hinv hf (by rw [ht]; rfl))).byteQueued

/-- A buffer that is shrunk, once in vain, prepended to, and shrunk again with a 0 in front. -/
def shrinkRun : List (SizedEvent Unit) :=
  [.on () (.append [1, 2]) true, .shrink () 5 true, .shrink () (2 ^ 63) true,
    .on () .retrieveAll true, .on () (.append [0]) true, .on () (.prepend [0, 0]) true]

theorem shrinkRun_preserved : ∃ t : Queued Unit,
    Run (queuedStep ptrdiffMax) (Queued.fresh Unit) shrinkRun t ∧ (t.bufs ()).readerIndex_ = 6 ∧
      Preserved ptrdiffMax true t () 3 := by
  have h : (shrinkRun.foldlM (queuedStep ptrdiffMax) (Queued.fresh Unit)).map (fun t =>
      ((t.bufs ()).readerIndex_, decide (Fitting ptrdiffMax true (t.bufs ()) 3))) =
      some (6, true) := by decide +kernel
  obtain ⟨t, ht, hq⟩ := Option.map_eq_some_iff.mp h
  obtain ⟨hr, hf⟩ := Prod.mk.inj hq
  exact ⟨t, ht, hr, (shrink_preserves_iff ht (along_of_check (by decide +kernel)) () true
    (by decide)).mpr (of_decide_eq_true hf)⟩

/-- Three bytes, one of them taken. -/
def retrieveRun : List (SizedEvent Unit) :=
  [.on () (.append [1, 2, 3]) true, .on () (.retrieve 1) true]

/-- With a reserve other bytes are readable, without one the writer index is behind the storage. On
a new buffer the sum for 2^64 - 8 wraps around to 0, and the vector ends below the writer index. -/
theorem retrieveRun_not_preserved :
    (∃ t : Queued Unit, Run (queuedStep ptrdiffMax) (Queued.fresh Unit) retrieveRun t ∧
      (t.bufs ()).readable = [2, 3] ∧
      SizeT.shrink ptrdiffMax true (t.bufs ()) 4 =
        .returns ⟨List.replicate 8 0 ++ [2, 3] ++ List.replicate 4 0, 9, 11⟩ ∧
      SizeT.shrink ptrdiffMax true (t.bufs ()) 0 =
        .returns ⟨List.replicate 8 0 ++ [2, 3], 9, 11⟩ ∧
      ¬ Preserved ptrdiffMax true t () 4 ∧ ¬ Preserved ptrdiffMax true t () 0) ∧
    SizeT.shrink ptrdiffMax true ((Queued.fresh Unit).bufs ()) (2 ^ 64 - 8) =
      .returns ⟨[], 8, 8⟩ ∧
    ¬ Preserved ptrdiffMax true (Queued.fresh Unit) () (2 ^ 64 - 8) := by
  have hwrap : SizeT.shrink ptrdiffMax true ((Queued.fresh Unit).bufs ()) (2 ^ 64 - 8) =
      .returns ⟨[], 8, 8⟩ := by decide +kernel
  have h : (retrieveRun.foldlM (queuedStep ptrdiffMax) (Queued.fresh Unit)).map (fun t =>
      ((t.bufs ()).readable, SizeT.shrink ptrdiffMax true (t.bufs ()) 4,
        SizeT.shrink ptrdiffMax true (t.bufs ()) 0)) =
      some ([2, 3], .returns ⟨List.replicate 8 0 ++ [2, 3] ++ List.replicate 4 0, 9, 11⟩,
        .returns ⟨List.replicate 8 0 ++ [2, 3], 9, 11⟩) := by decide +kernel
  obtain ⟨t, ht, hq⟩ := Option.map_eq_some_iff.mp h
  obtain ⟨hread, hq⟩ := Prod.mk.inj hq
  obtain ⟨hfour, hzero⟩ := Prod.mk.inj hq
  refine ⟨⟨t, ht, hread, hfour, hzero, fun hp => ?_, fun hp => ?_⟩, hwrap, fun hp => ?_⟩
  · exact absurd ((hp.of_returns hfour).readable.trans hread) (by decide)
  · exact absurd (hp.of_returns hzero).writer_le (by decide)
  · exact absurd (hp.of_returns hwrap).writer_le (by decide)

end Family

end Buffer

end HighServer
