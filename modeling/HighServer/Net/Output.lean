import HighServer.Lib.Runs
import HighServer.Net.TcpConnection

/-!
# The output side of a connection

Any sequence of `sendInLoop`, `handleWrite` and `shutdown` on an established connection, with any
result of each `::write`.

* `OutputStep.perform_streams`: one step keeps the output stream;
* `OutputStep.written`, `accepted_of_run`: the bytes accepted are those that the calls of `::write`
  in the run report;
* **`output_conserved`**: nothing is lost, duplicated or reordered, and nothing stalls.
-/

namespace HighServer.TcpConnection

open Runs

/-- A step on the output side. -/
inductive OutputStep where
  | sendInLoop (message : Bytes) (w : WriteResult)
  | handleWrite (w : WriteResult)
  | shutdown
  deriving DecidableEq, Repr

/-- The bytes a step hands over to the connection. -/
def OutputStep.message : OutputStep → Bytes
  | .sendInLoop message _ => message
  | .handleWrite _ => []
  | .shutdown => []

/-- `::write` reports at most what it was asked to write. -/
def OutputStep.Allowed (t : TcpConnection) : OutputStep → Prop
  | .sendInLoop message w => w.Within message.length
  | .handleWrite w => w.Within t.outputBuffer_.readableBytes
  | .shutdown => True

instance (t : TcpConnection) (e : OutputStep) : Decidable (e.Allowed t) := by
  unfold OutputStep.Allowed
  split <;> infer_instance

def OutputStep.perform (t : TcpConnection) : OutputStep → Outcome TcpConnection
  | .sendInLoop message w => t.sendInLoop message w
  | .handleWrite w => t.handleWrite w
  | .shutdown => pure t.shutdown

def outputStep (t : TcpConnection) (e : OutputStep) : Option TcpConnection :=
  if e.Allowed t then (e.perform t).toOption else none

variable {t : TcpConnection} {sent : Bytes}

theorem shutdown_streams (h : t.Streams sent) : t.shutdown.Streams sent := by
  have hs : ∀ (s : StateE) (k : ℕ), Streams { t with state_ := s, halfCloses := k } sent :=
    fun s k => ⟨⟨h.isOpen.agrees, h.isOpen.added, h.isOpen.reads⟩, h.wf, h.conserved, h.writing⟩
  unfold shutdown shutdownInLoop
  split_ifs
  · exact hs .kDisconnected t.halfCloses
  · exact hs .kDisconnected (t.halfCloses + 1)
  · exact h

/-- **One step.** -/
theorem OutputStep.perform_streams (h : t.Streams sent) {e : OutputStep} (ha : e.Allowed t) :
    ∃ t', e.perform t = .ok t' ∧ t'.Streams (sent ++ e.message) := by
  cases e with
  | sendInLoop message w =>
    obtain ⟨t', ht, hs, -⟩ := sendInLoop_streams h message w
    exact ⟨t', ht, hs⟩
  | handleWrite w =>
    obtain ⟨t', ht, hs, -⟩ := handleWrite_streams h ha
    exact ⟨t', ht, by rw [OutputStep.message, List.append_nil]; exact hs⟩
  | shutdown =>
    exact ⟨_, rfl, by rw [OutputStep.message, List.append_nil]; exact shutdown_streams h⟩

theorem streams_of_run {s : TcpConnection} (hs : s.Streams []) {es : List OutputStep}
    (h : Run outputStep s es t) : t.Streams (es.map OutputStep.message).flatten := by
  refine Run.history (P := fun es t => Streams t (es.map OutputStep.message).flatten) ?_ h hs
  intro es t e t' ht he
  unfold outputStep at he
  split_ifs at he with ha
  obtain ⟨t'', hp, hst⟩ := OutputStep.perform_streams ht ha
  rw [hp] at he
  obtain rfl := Option.some.inj he
  simpa using hst

/-! ## The bytes accepted -/

/-- What a step offers to `::write`, if it calls it. -/
def OutputStep.offered (t : TcpConnection) : OutputStep → Option Bytes
  | .sendInLoop message _ =>
    if ¬ t.channel_.isWriting ∧ t.outputBuffer_.readableBytes = 0 then some message else none
  | .handleWrite _ =>
    if t.channel_.isWriting then some (t.outputBuffer_.peek t.outputBuffer_.readableBytes)
    else none
  | .shutdown => none

/-- The number of bytes that `::write` reports. -/
def OutputStep.reported : OutputStep → ℕ
  | .sendInLoop _ (.wrote n) => n
  | .handleWrite (.wrote n) => n
  | _ => 0

/-- The bytes that the kernel accepts in a step: the first ones it is offered, as many as `::write`
reports. -/
def OutputStep.written (t : TcpConnection) (e : OutputStep) : Bytes :=
  ((e.offered t).getD []).take e.reported

/-- The bytes that the kernel accepts in the steps of a run. -/
def writtenBy (t : TcpConnection) : List OutputStep → Bytes
  | [] => []
  | e :: es => e.written t ++ (outputStep t e).elim [] fun t' => writtenBy t' es

/-- A call of `::write` accepts as many bytes as it reports. -/
theorem OutputStep.length_written (h : t.outputBuffer_.Wf) {e : OutputStep} (ha : e.Allowed t)
    (ho : e.offered t ≠ none) : (e.written t).length = e.reported := by
  have htake : ∀ {l : Bytes} {n : ℕ}, n ≤ l.length → (l.take n).length = n := fun hn =>
    List.length_take_of_le hn
  cases e with
  | sendInLoop message w =>
    rw [offered] at ho
    split_ifs at ho with hd
    · rw [written, offered, if_pos hd, Option.getD_some]
      cases w with
      | wrote n => exact htake ha
      | wouldBlock | failed => rfl
    · exact absurd rfl ho
  | handleWrite w =>
    rw [offered] at ho
    split_ifs at ho with hd
    · rw [written, offered, if_pos hd, Option.getD_some, Buffer.peek_readableBytes h]
      cases w with
      | wrote n => exact htake (h.length_readable ▸ ha)
      | wouldBlock | failed => rfl
    · exact absurd rfl ho
  | shutdown => exact absurd rfl ho

theorem onChannel_accepted {t' : TcpConnection}
    {f : EPoller → Channel → Outcome (EPoller × Channel)} (h : t.onChannel f = .ok t') :
    t'.accepted = t.accepted := by
  obtain ⟨r, -, h⟩ := except_bind_eq_ok_iff.mp h
  obtain rfl := Except.ok.inj h
  rfl

theorem OutputStep.written_of_none {e : OutputStep} (h : e.offered t = none) :
    e.written t = [] := by
  rw [written, h]
  exact List.take_nil

theorem writeDirect_accepted (t : TcpConnection) (message : Bytes) (w : WriteResult) :
    (t.writeDirect message w).1.accepted =
      t.accepted ++ (OutputStep.sendInLoop message w).written t := by
  by_cases hd : ¬ t.channel_.isWriting ∧ t.outputBuffer_.readableBytes = 0
  · unfold writeDirect
    rw [if_pos hd, OutputStep.written, OutputStep.offered, if_pos hd]
    cases w with
    | wrote n =>
      dsimp only [OutputStep.reported, Option.getD_some]
      split_ifs
      · rfl
      · unfold queueWriteComplete
        split_ifs <;> rfl
    | wouldBlock | failed => exact (List.append_nil _).symm
  · unfold writeDirect
    rw [if_neg hd, OutputStep.written_of_none (e := .sendInLoop message w) (if_neg hd),
      List.append_nil]

theorem sendInLoop_accepted {t' : TcpConnection} {message : Bytes} {w : WriteResult}
    (h : t.sendInLoop message w = .ok t') :
    t'.accepted = t.accepted ++ (OutputStep.sendInLoop message w).written t := by
  rw [← writeDirect_accepted]
  unfold sendInLoop at h
  generalize t.writeDirect message w = r at h ⊢
  obtain ⟨t₁, nwrote⟩ := r
  dsimp only at h ⊢
  by_cases hn : nwrote < message.length
  · obtain ⟨outputBuffer_, -, h⟩ := except_bind_eq_ok_iff.mp ((if_pos hn).symm.trans h)
    split_ifs at h
    · obtain rfl := Except.ok.inj h
      rfl
    · have hacc := onChannel_accepted h
      exact hacc
  · obtain rfl := Except.ok.inj ((if_neg hn).symm.trans h)
    rfl

theorem shutdownInLoop_accepted (t : TcpConnection) : t.shutdownInLoop.accepted = t.accepted := by
  unfold shutdownInLoop
  split_ifs <;> rfl

theorem shutdown_accepted (t : TcpConnection) : t.shutdown.accepted = t.accepted := by
  unfold shutdown
  split_ifs
  · exact shutdownInLoop_accepted _
  · rfl

theorem handleWrite_accepted {t' : TcpConnection} {w : WriteResult}
    (h : t.handleWrite w = .ok t') :
    t'.accepted = t.accepted ++ (OutputStep.handleWrite w).written t := by
  have same : (.ok t : Outcome TcpConnection) = .ok t' → t'.accepted = t.accepted ++ [] :=
    fun h => Except.ok.inj h ▸ (List.append_nil _).symm
  unfold handleWrite at h
  by_cases hw : t.channel_.isWriting
  · rw [if_pos hw] at h
    rw [OutputStep.written, OutputStep.offered, if_pos hw]
    cases w with
    | wrote n =>
      dsimp only [OutputStep.reported, Option.getD_some] at h ⊢
      by_cases hn : 0 < n
      · obtain ⟨outputBuffer_, -, h⟩ := except_bind_eq_ok_iff.mp ((if_pos hn).symm.trans h)
        by_cases hz : outputBuffer_.readableBytes = 0
        · obtain ⟨t₁, ht, h⟩ := except_bind_eq_ok_iff.mp ((if_pos hz).symm.trans h)
          have hacc := onChannel_accepted ht
          split_ifs at h <;> obtain rfl := Except.ok.inj h
          · exact (shutdownInLoop_accepted t₁).trans hacc
          · exact hacc
        · obtain rfl := Except.ok.inj ((if_neg hz).symm.trans h)
          rfl
      · rw [if_neg hn] at h
        rw [Nat.eq_zero_of_not_pos hn]
        exact same h
    | wouldBlock | failed => exact same h
  · rw [if_neg hw] at h
    rw [OutputStep.written_of_none (e := .handleWrite w) (if_neg hw)]
    exact same h

/-- **One step**: `accepted` grows by what the kernel accepts. -/
theorem step_accepted {t' : TcpConnection} {e : OutputStep} (h : outputStep t e = some t') :
    t'.accepted = t.accepted ++ e.written t := by
  obtain ⟨-, h⟩ := ite_toOption_eq_some_iff.mp h
  cases e with
  | sendInLoop message w => exact sendInLoop_accepted h
  | handleWrite w => exact handleWrite_accepted h
  | shutdown =>
    obtain rfl := Except.ok.inj h
    exact (shutdown_accepted t).trans (List.append_nil _).symm

theorem accepted_of_run {s : TcpConnection} {es : List OutputStep} (h : Run outputStep s es t) :
    t.accepted = s.accepted ++ writtenBy s es := by
  induction es generalizing s with
  | nil => exact run_nil_iff.mp h ▸ (List.append_nil _).symm
  | cons e es ih =>
    obtain ⟨t₁, ht, hrest⟩ := run_cons_iff.mp h
    rw [writtenBy, ht, ih hrest, step_accepted ht, List.append_assoc]
    rfl

/-! ## Runs -/

/-- Pending data has write interest in the interest list itself. -/
theorem Streams.interest (h : t.Streams sent) (hne : t.outputBuffer_.readable ≠ []) :
    ∃ m, t.poller t.channel_.fd_ = some ⟨m, t.channel_.self⟩ ∧ m &&& EPOLLOUT ≠ 0 := by
  refine ⟨t.channel_.events_, ?_, ?_⟩
  · rw [h.isOpen.agrees, Channel.registration, h.isOpen.added]
  · rw [h.isOpen.events_of_writing (h.writing.mpr hne)]
    decide

/-- **The output side loses, duplicates and reorders nothing, and never stalls**: what the kernel
has accepted and what the output buffer holds are the messages in call order; write interest
stands for pending data, in the channel and in the interest list; and no step aborts. -/
theorem output_conserved {poller : EPoller} {self fd : ℕ} {cb : Bool} {es : List OutputStep}
    (h : Run outputStep (established poller self fd cb) es t) :
    t.accepted ++ t.outputBuffer_.readable = (es.map OutputStep.message).flatten ∧
    (t.channel_.isWriting = true ↔ t.outputBuffer_.readable ≠ []) ∧
    (t.outputBuffer_.readable ≠ [] →
      ∃ m, t.poller t.channel_.fd_ = some ⟨m, t.channel_.self⟩ ∧ m &&& EPOLLOUT ≠ 0) ∧
    ∀ e : OutputStep, e.Allowed t → ∃ t', e.perform t = .ok t' := by
  have hs := streams_of_run (streams_established poller self fd cb) h
  refine ⟨hs.conserved, hs.writing, hs.interest, fun e ha => ?_⟩
  obtain ⟨t', ht, -⟩ := OutputStep.perform_streams hs ha
  exact ⟨t', ht⟩

/-- A short direct write, a second message behind the rest, and a partial `handleWrite`. -/
def shortWrites : List OutputStep :=
  [.sendInLoop [1, 2, 3] (.wrote 1), .sendInLoop [4] .wouldBlock, .sendInLoop [] (.wrote 0),
    .handleWrite (.wrote 2)]

theorem shortWrites_conserved : ∃ t,
    Run outputStep (established (fun _ => none) 0 5 false) shortWrites t ∧
    t.accepted ++ t.outputBuffer_.readable = [1, 2, 3, 4] ∧ t.channel_.isWriting = true := by
  have h : (shortWrites.foldlM outputStep (established (fun _ => none) 0 5 false)).map
      (fun t => t.outputBuffer_.readable) = some [4] := by decide +kernel
  obtain ⟨t, ht, hr⟩ := Option.map_eq_some_iff.mp h
  obtain ⟨hc, hw, -⟩ := output_conserved ht
  exact ⟨t, ht, hc, hw.mpr (by rw [hr]; decide)⟩

end HighServer.TcpConnection
