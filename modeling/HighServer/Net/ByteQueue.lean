import HighServer.Lib.Runs
import HighServer.Net.Buffer

/-!
# A buffer is a byte queue

A family of buffers, indexed by `ι`, under any sequence of the public operations of `Buffer`
except `shrink`. Next to each buffer runs a plain byte queue.

* `Op`, `Op.Allowed`, `Op.perform`: one operation on one buffer, and when a caller may use it;
* `Op.effect`: what the operation does to a byte queue;
* `Op.perform_spec`: one operation does to the readable bytes what it does to the queue;
* `Inv`, `step_inv`: the invariant of a family;
* **`refines_byteQueue`**: every run keeps the buffers and the queues in step.
-/

namespace HighServer

open Runs

namespace Buffer

/-- A public operation on one buffer. -/
inductive Op where
  | append (data : Bytes)
  | prepend (data : Bytes)
  | retrieve (len : ℕ)
  | retrieveUntil (end_ : ℕ)
  | retrieveAll
  | retrieveAsString
  | ensureWritableBytes (len : ℕ)
  /-- bytes stored by the caller through `beginWrite()` -/
  | store (data : Bytes)
  | hasWritten (len : ℕ)
  | readFd (r : ReadResult)
  deriving DecidableEq, Repr

/-- What the caller of an operation has to see to; `readv` cannot deliver more than it was given
room for. -/
def Op.Allowed (b : Buffer) : Op → Prop
  | .prepend data => data.length ≤ b.prependableBytes
  | .retrieve len => len ≤ b.readableBytes
  | .retrieveUntil end_ => b.readerIndex_ ≤ end_ ∧ end_ ≤ b.writerIndex_
  | .store data => data.length ≤ b.writableBytes
  | .hasWritten len => len ≤ b.writableBytes
  | .readFd (.received data) => data.length ≤ b.writableBytes + extrabufSize
  | _ => True

instance (b : Buffer) (op : Op) : Decidable (op.Allowed b) := by
  unfold Op.Allowed
  split <;> infer_instance

def Op.perform (b : Buffer) : Op → Outcome Buffer
  | .append data => b.append data
  | .prepend data => b.prepend data
  | .retrieve len => b.retrieve len
  | .retrieveUntil end_ => b.retrieveUntil end_
  | .retrieveAll => pure b.retrieveAll
  | .retrieveAsString => pure b.retrieveAsString.2
  | .ensureWritableBytes len => b.ensureWritableBytes len
  | .store data => pure (b.store data)
  | .hasWritten len => pure (b.hasWritten len)
  | .readFd r => b.readFd r

/-- The operation on a byte queue `q`. The queue does not know what lies behind the writer index
or how far an end pointer is from the reader, so these two are taken from the buffer. -/
def Op.effect (b : Buffer) (q : Bytes) : Op → Bytes
  | .append data => q ++ data
  | .prepend data => data ++ q
  | .retrieve len => q.drop len
  | .retrieveUntil end_ => q.drop (end_ - b.readerIndex_)
  | .retrieveAll => []
  | .retrieveAsString => []
  | .ensureWritableBytes _ => q
  | .store _ => q
  | .hasWritten len => q ++ b.beginWrite len
  | .readFd (.received data) => q ++ data
  | .readFd .failed => q

def Op.isPrepend : Op → Bool
  | .prepend _ => true
  | _ => false

variable {b : Buffer}

theorem Op.perform_yields (h : b.Wf) {op : Op} (ha : op.Allowed b) (hp : op.isPrepend = false) :
    Yields b (op.perform b) (op.effect b b.readable) := by
  cases op with
  | append data => exact yields_append h data
  | prepend data => simp [isPrepend] at hp
  | retrieve len => exact yields_retrieve h ha
  | retrieveUntil end_ => exact yields_retrieveUntil h ha.1 ha.2
  | retrieveAll => exact yields_retrieveAll h
  | retrieveAsString => exact yields_retrieveAll h
  | ensureWritableBytes len => exact yields_ensureWritableBytes h len
  | store data => exact ⟨_, rfl, h.store ha, readable_store h ha, id⟩
  | hasWritten len => exact yields_hasWritten h ha
  | readFd r =>
    cases r with
    | received data => exact yields_readFd_received h data
    | failed => exact yields_readFd_failed h

/-- **One operation.** -/
theorem Op.perform_spec (h : b.Wf) {op : Op} (ha : op.Allowed b) :
    ∃ b', op.perform b = .ok b' ∧ b'.Wf ∧ b'.readable = op.effect b b.readable ∧
      (op.isPrepend = false → kCheapPrepend ≤ b.prependableBytes →
        kCheapPrepend ≤ b'.prependableBytes) := by
  by_cases hp : op.isPrepend = true
  · cases op with
    | prepend data =>
      obtain ⟨b', hb, hwf, hread⟩ := prepend_eq h ha
      exact ⟨b', hb, hwf, hread, fun hf => absurd hp (by rw [hf]; decide)⟩
    | _ => simp [isPrepend] at hp
  · obtain ⟨b', hb, hwf, hread, hpre⟩ := perform_yields h ha (by simpa using hp)
    exact ⟨b', hb, hwf, hread, fun _ => hpre⟩

/-! ## Families of buffers -/

section Family

variable {ι : Type} [DecidableEq ι]

variable (ι) in
/-- An operation on the buffer `i`, or `i.swap(j)`. -/
inductive Event where
  | on (i : ι) (op : Op)
  | swap (i j : ι)

variable (ι) in
/-- The buffers, the byte queues they stand for, and which of them have been prepended to. -/
structure Family where
  bufs : ι → Buffer
  queue : ι → Bytes
  prepended : ι → Bool

variable (ι) in
def Family.fresh : Family ι where
  bufs _ := Buffer.new
  queue _ := []
  prepended _ := false

/-- Exchange two entries. -/
def exchange {α : Type} (f : ι → α) (i j : ι) : ι → α :=
  Function.update (Function.update f i (f j)) j (f i)

def step (t : Family ι) : Event ι → Option (Family ι)
  | .on i op =>
    if op.Allowed (t.bufs i) then
      (op.perform (t.bufs i)).toOption.map fun b =>
        { bufs := Function.update t.bufs i b
          queue := Function.update t.queue i (op.effect (t.bufs i) (t.queue i))
          prepended := Function.update t.prepended i (t.prepended i || op.isPrepend) }
    else none
  | .swap i j =>
    let r := (t.bufs i).swap (t.bufs j)
    some
      { bufs := Function.update (Function.update t.bufs i r.1) j r.2
        queue := exchange t.queue i j
        prepended := exchange t.prepended i j }

/-- What holds of every buffer of a family. -/
structure Good (t : Family ι) (i : ι) : Prop where
  wf : (t.bufs i).Wf
  readable : (t.bufs i).readable = t.queue i
  cheap : t.prepended i = false → kCheapPrepend ≤ (t.bufs i).prependableBytes

def Inv (t : Family ι) : Prop := ∀ i, Good t i

omit [DecidableEq ι] in
theorem inv_fresh : Inv (Family.fresh ι) := fun _ => ⟨wf_new, readable_new, fun _ => le_rfl⟩

omit [DecidableEq ι] in
/-- `Good` reads one entry of each function. -/
theorem Good.of_eq {t t' : Family ι} {i : ι} (h : Good t i) (hbuf : t'.bufs i = t.bufs i)
    (hqueue : t'.queue i = t.queue i) (hprep : t'.prepended i = t.prepended i) : Good t' i where
  wf := hbuf ▸ h.wf
  readable := by rw [hbuf, hqueue]; exact h.readable
  cheap := by rw [hbuf, hprep]; exact h.cheap

/-- One buffer is replaced, with its queue. -/
theorem Inv.update {t : Family ι} (h : Inv t) {i : ι} {q : Bytes} {p : Bool} (hwf : b.Wf)
    (hread : b.readable = q) (hcheap : p = false → kCheapPrepend ≤ b.prependableBytes) :
    Inv ⟨Function.update t.bufs i b, Function.update t.queue i q,
      Function.update t.prepended i p⟩ := by
  intro k
  by_cases hk : k = i
  · subst hk
    refine ⟨?_, ?_, ?_⟩ <;> simp only [Function.update_self]
    · exact hwf
    · exact hread
    · exact hcheap
  · exact (h k).of_eq (Function.update_of_ne hk _ _) (Function.update_of_ne hk _ _)
      (Function.update_of_ne hk _ _)

theorem swap_inv {t : Family ι} (h : Inv t) (i j : ι) {t' : Family ι}
    (hs : step t (.swap i j) = some t') : Inv t' := by
  obtain rfl := Option.some.inj hs
  have hi := h.update (i := i) (h j).wf (h j).readable (h j).cheap
  exact hi.update (i := j) (h i).wf (h i).readable (h i).cheap

theorem step_inv (t : Family ι) (e : Event ι) (t' : Family ι) (h : Inv t)
    (hs : step t e = some t') : Inv t' := by
  cases e with
  | swap i j => exact swap_inv h i j hs
  | on i op =>
    simp only [step] at hs
    split_ifs at hs with ha
    obtain ⟨b', hb, hwf, hread, hpre⟩ := op.perform_spec (h i).wf ha
    rw [hb] at hs
    obtain rfl := Option.some.inj hs
    refine h.update hwf (by rw [hread, (h i).readable]) fun hp => ?_
    obtain ⟨hp1, hp2⟩ := Bool.or_eq_false_iff.mp hp
    exact hpre hp2 ((h i).cheap hp1)

/-- Without a prepend no buffer is marked as prepended to. -/
theorem prepended_of_run {es : List (Event ι)} {t : Family ι} (h : Run step (Family.fresh ι) es t) :
    (∀ i data, Event.on i (.prepend data) ∉ es) → ∀ i, t.prepended i = false := by
  refine Run.history (P := fun es t => (∀ i data, Event.on i (.prepend data) ∉ es) →
    ∀ i, t.prepended i = false) ?_ h (fun _ _ => rfl)
  intro es t e t' ih hs hno k
  have ih := ih fun i data hm => hno i data (List.mem_append_left _ hm)
  cases e with
  | swap i j =>
    obtain rfl := Option.some.inj hs
    simp only [exchange, Function.update_apply, ih, ite_self]
  | on i op =>
    have hop : op.isPrepend = false := by
      cases op with
      | prepend data =>
        exact absurd (List.mem_append_right _ (List.mem_singleton_self _)) (hno i data)
      | _ => rfl
    simp only [step] at hs
    split_ifs at hs
    obtain ⟨b', -, rfl⟩ := Option.map_eq_some_iff.mp hs
    simp only [Function.update_apply, ih, hop, Bool.or_self, ite_self]

/-- **A buffer refines a byte queue.** In every run of a family of buffers: the indices are in
order; the readable bytes are those of the queue; no allowed operation meets a failing assertion;
`ensureWritableBytes` makes the room it promises; and a buffer keeps its prepend area until it is
prepended to. -/
theorem refines_byteQueue {es : List (Event ι)} {t : Family ι}
    (h : Run step (Family.fresh ι) es t) :
    (∀ i, (t.bufs i).readerIndex_ ≤ (t.bufs i).writerIndex_ ∧
      (t.bufs i).writerIndex_ ≤ (t.bufs i).buffer_.length) ∧
    (∀ i, (t.bufs i).readable = t.queue i) ∧
    (∀ i op, Op.Allowed (t.bufs i) op → ∃ b', op.perform (t.bufs i) = .ok b') ∧
    (∀ i len, ∃ b', (t.bufs i).ensureWritableBytes len = .ok b' ∧ len ≤ b'.writableBytes) ∧
    (∀ i, t.prepended i = false → kCheapPrepend ≤ (t.bufs i).prependableBytes) ∧
    ((∀ i data, Event.on i (.prepend data) ∉ es) →
      ∀ i, kCheapPrepend ≤ (t.bufs i).prependableBytes) := by
  have hinv : Inv t := h.inv step_inv inv_fresh
  refine ⟨fun i => ⟨(hinv i).wf.reader_le, (hinv i).wf.writer_le⟩, fun i => (hinv i).readable,
    fun i op ha => ?_, fun i len => ?_, fun i => (hinv i).cheap,
    fun hno i => (hinv i).cheap (prepended_of_run h hno i)⟩
  · obtain ⟨b', hb, -⟩ := op.perform_spec (hinv i).wf ha
    exact ⟨b', hb⟩
  · obtain ⟨b', hb, -⟩ := yields_ensureWritableBytes (hinv i).wf len
    exact ⟨b', hb, ensureWritableBytes_writable (hinv i).wf hb⟩

/-- Data and a prepended header in one of two buffers, then an exchange and a read. -/
def headerRun : List (Event Bool) :=
  [.on true (.append [1, 2, 3]), .on true (.prepend [9]), .swap true false,
    .on false (.retrieve 2), .on false (.readFd (.received [7]))]

theorem headerRun_readable : ∃ t : Family Bool,
    Run step (Family.fresh Bool) headerRun t ∧ (t.bufs false).readable = [2, 3, 7] := by
  have h : (headerRun.foldlM step (Family.fresh Bool)).map (fun t => t.queue false) =
      some [2, 3, 7] := by decide +kernel
  obtain ⟨t, ht, hq⟩ := Option.map_eq_some_iff.mp h
  exact ⟨t, ht, ((refines_byteQueue ht).2.1 false).trans hq⟩

end Family

end Buffer

end HighServer
