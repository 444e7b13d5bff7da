import HighServer.Net.WriteComplete

/-!
# Graceful shutdown

`send`, `shutdown` and `handleWrite` on an established connection, in the loop thread.
`shutdownInLoop` half-closes at once if the channel does not ask for write events; otherwise the
`handleWrite` that empties the output buffer calls it again.

* `SenderStep`, `senderStep`: the steps, with the results of `::write`;
* `IssuesWrite`: the step calls `::write`; `perform_of_not_issuesWrite`: without a call its result
  makes no difference;
* `sentBefore`: the messages whose `send` came before the first `shutdown`;
* `HalfClosing`: half-closed, once, exactly when `shutdown` was called and nothing is left;
* **`halfClose_graceful`**.
-/

namespace HighServer.TcpConnection

open Runs

inductive SenderStep where
  | send (message : Bytes) (w : WriteResult)
  | handleWrite (w : WriteResult)
  | shutdown
  deriving DecidableEq, Repr

namespace SenderStep

def perform (t : TcpConnection) : SenderStep → Outcome TcpConnection
  | .send message w => t.send message w
  | .handleWrite w => t.handleWrite w
  | .shutdown => pure t.shutdown

/-- `::write` reports at most what it was asked to write. -/
def Allowed (t : TcpConnection) : SenderStep → Prop
  | .send message w => w.Within message.length
  | .handleWrite w => w.Within t.outputBuffer_.readableBytes
  | .shutdown => True

instance (t : TcpConnection) (e : SenderStep) : Decidable (e.Allowed t) :=
  match e with
  | .send message w => inferInstanceAs (Decidable (w.Within message.length))
  | .handleWrite w => inferInstanceAs (Decidable (w.Within t.outputBuffer_.readableBytes))
  | .shutdown => .isTrue trivial

/-- The step calls `::write`. -/
def IssuesWrite (t : TcpConnection) : SenderStep → Prop
  | .send _ _ => t.state_ = .kConnected ∧ ¬ t.channel_.isWriting ∧
      t.outputBuffer_.readableBytes = 0
  | .handleWrite _ => t.channel_.isWriting = true
  | .shutdown => False

/-- The step with another result of `::write`. -/
def withResult (w : WriteResult) : SenderStep → SenderStep
  | .send message _ => .send message w
  | .handleWrite _ => .handleWrite w
  | .shutdown => .shutdown

end SenderStep

def senderStep (t : TcpConnection) (e : SenderStep) : Option TcpConnection :=
  if e.Allowed t then (e.perform t).toOption else none

theorem senderStep_eq_some_iff {t t' : TcpConnection} {e : SenderStep} :
    senderStep t e = some t' ↔ e.Allowed t ∧ e.perform t = .ok t' :=
  ite_toOption_eq_some_iff

variable {t t' : TcpConnection} {sent : Bytes}

theorem writeDirect_idle {message : Bytes} {w : WriteResult}
    (h : ¬ (¬ t.channel_.isWriting ∧ t.outputBuffer_.readableBytes = 0)) :
    t.writeDirect message w = (t, 0) := by
  unfold writeDirect
  exact if_neg h

theorem handleWrite_idle {w : WriteResult} (h : ¬ t.channel_.isWriting = true) :
    t.handleWrite w = .ok t := by
  unfold handleWrite
  exact if_neg h

/-- A step that does not call `::write` does not depend on its result. -/
theorem perform_of_not_issuesWrite {e : SenderStep} (h : ¬ e.IssuesWrite t) (w : WriteResult) :
    (e.withResult w).perform t = e.perform t := by
  cases e with
  | send message w' =>
    change t.send message w = t.send message w'
    rw [send, send]
    split_ifs with hst
    · have hidle := fun hd => h ⟨hst, hd⟩
      rw [sendInLoop, sendInLoop, writeDirect_idle hidle, writeDirect_idle hidle]
    · rfl
  | handleWrite w' =>
    have hw : ¬ t.channel_.isWriting = true := h
    change t.handleWrite w = t.handleWrite w'
    rw [handleWrite_idle hw, handleWrite_idle hw]
  | shutdown => rfl

/-! ## Half-closes of a step -/

theorem sendInLoop_halfCloses {message : Bytes} {w : WriteResult}
    (h : t.sendInLoop message w = .ok t') : t'.halfCloses = t.halfCloses := by
  obtain ⟨n, k, hk, -⟩ := writeDirect_spec t message w
  rw [sendInLoop, hk] at h
  dsimp only at h
  split_ifs at h with hn hw
  · obtain ⟨b, -, h⟩ := bind_eq_ok_iff.mp h
    obtain rfl := Except.ok.inj h
    rfl
  · obtain ⟨b, -, h⟩ := bind_eq_ok_iff.mp h
    obtain ⟨p, c, rfl⟩ := onChannel_eq_ok h
    rfl
  · obtain rfl := Except.ok.inj h
    rfl

/-- `shutdownInLoop` half-closes when nothing is left to be written. -/
theorem shutdownInLoop_halfCloses (h : t.Streams sent) : t.shutdownInLoop.halfCloses =
    t.halfCloses + if t.outputBuffer_.readable = [] then 1 else 0 := by
  have hw := h.writing
  unfold shutdownInLoop
  by_cases hnil : t.outputBuffer_.readable = []
  · rw [if_pos fun h => hw.mp h hnil, if_pos hnil]
  · rw [if_neg (not_not.mpr (hw.mpr hnil)), if_neg hnil]
    rfl

/-- **`handleWrite`** half-closes when it empties the output buffer after a `shutdown`. -/
theorem handleWrite_halfCloses (hs : t.Streams sent) {w : WriteResult}
    (hw : w.Within t.outputBuffer_.readableBytes) (h : t.handleWrite w = .ok t') :
    t'.halfCloses = t.halfCloses +
      if t.state_ = .kDisconnected ∧ t.outputBuffer_.readable ≠ [] ∧ t'.outputBuffer_.readable = []
      then 1 else 0 := by
  have same : t'.outputBuffer_ = t.outputBuffer_ → t'.halfCloses = t.halfCloses →
      t'.halfCloses = t.halfCloses + if t.state_ = .kDisconnected ∧
        t.outputBuffer_.readable ≠ [] ∧ t'.outputBuffer_.readable = [] then 1 else 0 := by
    intro hbuf hh
    rw [hbuf, if_neg fun hc => hc.2.1 hc.2.2, hh, Nat.add_zero]
  unfold handleWrite at h
  split_ifs at h with hwr
  · have hne := hs.writing.mp hwr
    cases w with
    | wouldBlock =>
      obtain rfl := Except.ok.inj h
      exact same rfl rfl
    | failed =>
      obtain rfl := Except.ok.inj h
      exact same rfl rfl
    | wrote n =>
      dsimp only at h
      split_ifs at h with hn
      · obtain ⟨b, hb, hwf, -⟩ := Buffer.yields_retrieve hs.wf hw
        have hnil := hwf.readable_eq_nil_iff
        rw [hb, ok_bind] at h
        split_ifs at h with hz
        · -- the buffer is empty, and the channel stops asking for write events
          have ho : Open { t with
              accepted := t.accepted ++
                (t.outputBuffer_.peek t.outputBuffer_.readableBytes).take n
              outputBuffer_ := b } :=
            ⟨hs.isOpen.agrees, hs.isOpen.added, hs.isOpen.reads⟩
          obtain ⟨p, c, hpc, -, hnw⟩ := ho.disableWriting hwr
          rw [hpc, ok_bind] at h
          dsimp only at h
          split_ifs at h with hd
          · obtain rfl := Except.ok.inj h
            rw [shutdownInLoop, if_pos (by simp [hnw])]
            rw [if_pos ⟨hd, hne, hnil.mpr hz⟩]
          · obtain rfl := Except.ok.inj h
            rw [if_neg fun hc => hd hc.1]
            rfl
        · obtain rfl := Except.ok.inj h
          rw [if_neg fun hc => hz (hnil.mp hc.2.2)]
          rfl
      · obtain rfl := Except.ok.inj h
        exact same rfl rfl
  · obtain rfl := Except.ok.inj h
    exact same rfl rfl

theorem shutdown_halfCloses (h : t.Streams sent) : t.shutdown.halfCloses =
    t.halfCloses +
      if t.state_ = .kConnected ∧ t.outputBuffer_.readable = [] then 1 else 0 := by
  unfold shutdown
  by_cases hst : t.state_ = .kConnected
  · have hs : Streams { t with state_ := .kDisconnected } sent :=
      ⟨⟨h.isOpen.agrees, h.isOpen.added, h.isOpen.reads⟩, h.wf, h.conserved, h.writing⟩
    rw [if_pos hst, shutdownInLoop_halfCloses hs]
    simp [hst]
  · rw [if_neg hst, if_neg fun hc => hst hc.1]
    rfl

theorem state_shutdown (h : t.state_ ≠ .kConnecting) : t.shutdown.state_ = .kDisconnected := by
  unfold shutdown shutdownInLoop
  cases hst : t.state_ with
  | kConnecting => exact absurd hst h
  | kConnected =>
    rw [if_pos rfl]
    split_ifs <;> rfl
  | kDisconnected =>
    rw [if_neg (by decide)]
    exact hst

theorem outputBuffer_shutdown (t : TcpConnection) :
    t.shutdown.outputBuffer_ = t.outputBuffer_ := by
  unfold shutdown shutdownInLoop
  split_ifs <;> rfl

/-! ## Runs -/

/-- The bytes of the messages whose `send` comes before the first `shutdown`. -/
def sentBefore : List SenderStep → Bytes
  | [] => []
  | .send message _ :: es => message ++ sentBefore es
  | .handleWrite _ :: es => sentBefore es
  | .shutdown :: _ => []

/-- What a step adds to them. -/
def SenderStep.message : SenderStep → Bytes
  | .send message _ => message
  | .handleWrite _ => []
  | .shutdown => []

theorem sentBefore_snoc (es : List SenderStep) (e : SenderStep) :
    sentBefore (es ++ [e]) = sentBefore es ++ if .shutdown ∈ es then [] else e.message := by
  induction es with
  | nil => cases e <;> simp [sentBefore, SenderStep.message]
  | cons d es ih =>
    cases d with
    | send message w => simp [sentBefore, ih]
    | handleWrite w => simp [sentBefore, ih]
    | shutdown => simp [sentBefore]

/-- Before the first `shutdown` the connection is open for messages; after it the socket is
half-closed, once, when nothing is left to be written. -/
structure HalfClosing (es : List SenderStep) (t : TcpConnection) : Prop where
  streams : t.Streams (sentBefore es)
  state : t.state_ = if .shutdown ∈ es then .kDisconnected else .kConnected
  halfCloses : t.halfCloses =
    if .shutdown ∈ es ∧ t.outputBuffer_.readable = [] then 1 else 0

theorem halfClosing_established (poller : EPoller) (self fd : ℕ) (cb : Bool) :
    HalfClosing [] (established poller self fd cb) where
  streams := streams_established poller self fd cb
  state := rfl
  halfCloses := rfl

variable {es : List SenderStep}

/-- A message after `shutdown` is dropped; any other is taken. -/
theorem HalfClosing.send (h : HalfClosing es t) (message : Bytes) (w : WriteResult) :
    ∃ t', t.send message w = .ok t' ∧ HalfClosing (es ++ [.send message w]) t' := by
  have hst := h.state
  have hh := h.halfCloses
  by_cases hmem : .shutdown ∈ es
  · rw [if_pos hmem] at hst
    refine ⟨t, ?_, ⟨?_, ?_, ?_⟩⟩
    · rw [TcpConnection.send, hst, if_neg (by decide)]
      rfl
    · rw [sentBefore_snoc, if_pos hmem, List.append_nil]
      exact h.streams
    · simp [hst, hmem]
    · rw [hh]
      simp [hmem]
  · rw [if_neg hmem] at hst
    rw [if_neg fun hc => hmem hc.1] at hh
    obtain ⟨t', ht, hs, hst', -, -⟩ := sendInLoop_streams h.streams message w
    refine ⟨t', ?_, ⟨?_, ?_, ?_⟩⟩
    · rw [TcpConnection.send, if_pos hst]
      exact ht
    · rw [sentBefore_snoc, if_neg hmem]
      exact hs
    · simp [hst', hst, hmem]
    · rw [sendInLoop_halfCloses ht, hh]
      simp [hmem]

theorem HalfClosing.handleWrite (h : HalfClosing es t) {w : WriteResult}
    (ha : w.Within t.outputBuffer_.readableBytes) :
    ∃ t', t.handleWrite w = .ok t' ∧ HalfClosing (es ++ [.handleWrite w]) t' := by
  have hst := h.state
  have hh := h.halfCloses
  obtain ⟨t', ht, hs, hst', -, -⟩ := handleWrite_streams h.streams ha
  refine ⟨t', ht, ⟨?_, ?_, ?_⟩⟩
  · rw [sentBefore_snoc, SenderStep.message, ite_self, List.append_nil]
    exact hs
  · simp [hst', hst]
  · rw [handleWrite_halfCloses h.streams ha ht, hh, hst]
    by_cases hmem : .shutdown ∈ es
    · by_cases hnil : t.outputBuffer_.readable = []
      · -- nothing was left, so the channel does not ask for write events
        have hidle := handleWrite_idle (w := w) fun hw => h.streams.writing.mp hw hnil
        obtain rfl := Except.ok.inj (ht.symm.trans hidle)
        simp [hmem, hnil]
      · simp [hmem, hnil]
    · simp [hmem]

theorem HalfClosing.shutdown (h : HalfClosing es t) :
    HalfClosing (es ++ [.shutdown]) t.shutdown where
  streams := by
    rw [sentBefore_snoc, SenderStep.message, ite_self, List.append_nil]
    exact shutdown_streams h.streams
  state := by
    rw [state_shutdown (by rw [h.state]; split_ifs <;> decide)]
    simp
  halfCloses := by
    rw [shutdown_halfCloses h.streams, h.halfCloses, h.state, outputBuffer_shutdown]
    by_cases hmem : .shutdown ∈ es <;> simp [hmem]

theorem perform_halfClosing (h : HalfClosing es t) {e : SenderStep} (ha : e.Allowed t) :
    ∃ t', e.perform t = .ok t' ∧ HalfClosing (es ++ [e]) t' := by
  cases e with
  | send message w => exact h.send message w
  | handleWrite w => exact h.handleWrite ha
  | shutdown => exact ⟨t.shutdown, rfl, h.shutdown⟩

theorem halfClosing_of_run {s : TcpConnection} (hs : HalfClosing [] s)
    (h : Run senderStep s es t) : HalfClosing es t := by
  refine Run.history (P := HalfClosing) (fun es s e s' hp he => ?_) h hs
  obtain ⟨ha, he⟩ := senderStep_eq_some_iff.mp he
  obtain ⟨t', ht, hh⟩ := perform_halfClosing hp ha
  obtain rfl := Except.ok.inj (he.symm.trans ht)
  exact hh

/-- **Graceful shutdown.** After every run: `shutdownWrite` was called at most once; if it was,
`shutdown` had been called, the output buffer is empty and the kernel has accepted every message
whose `send` came before, and no step issues a `::write` any more; it was called if `shutdown` was
and the output buffer is empty; and no step aborts. -/
theorem halfClose_graceful {poller : EPoller} {self fd : ℕ} {cb : Bool} {es : List SenderStep}
    (h : Run senderStep (established poller self fd cb) es t) :
    t.halfCloses ≤ 1 ∧
    (0 < t.halfCloses → .shutdown ∈ es ∧ t.outputBuffer_.readableBytes = 0 ∧
      t.accepted = sentBefore es ∧ ∀ e : SenderStep, ¬ e.IssuesWrite t ∧
        ∀ w, (e.withResult w).perform t = e.perform t) ∧
    (.shutdown ∈ es → t.outputBuffer_.readableBytes = 0 → t.halfCloses = 1) ∧
    ∀ e : SenderStep, e.Allowed t → ∃ t', e.perform t = .ok t' := by
  have hc := halfClosing_of_run (halfClosing_established poller self fd cb) h
  have hh := hc.halfCloses
  have hnil := hc.streams.wf.readable_eq_nil_iff
  refine ⟨?_, fun hpos => ?_, fun hmem hz => ?_, fun e ha => ?_⟩
  · rw [hh]
    split_ifs <;> omega
  · obtain ⟨hmem, hempty⟩ : .shutdown ∈ es ∧ t.outputBuffer_.readable = [] := by
      by_contra hnot
      rw [if_neg hnot] at hh
      omega
    have hst := hc.state
    rw [if_pos hmem] at hst
    have hquiet : ∀ e : SenderStep, ¬ e.IssuesWrite t := by
      intro e he
      cases e with
      | send message w =>
        have := hst.symm.trans he.1
        cases this
      | handleWrite w => exact hc.streams.writing.mp he hempty
      | shutdown => exact he
    refine ⟨hmem, hnil.mp hempty, ?_,
      fun e => ⟨hquiet e, perform_of_not_issuesWrite (hquiet e)⟩⟩
    have hcons := hc.streams.conserved
    rwa [hempty, List.append_nil] at hcons
  · rw [hh, if_pos ⟨hmem, hnil.mpr hz⟩]
  · obtain ⟨t', ht, -⟩ := perform_halfClosing hc ha
    exact ⟨t', ht⟩

/-- A short write, a `shutdown` while a rest is left, a late message, and two write events. -/
def lateShutdown : List SenderStep :=
  [.send [1, 2, 3] (.wrote 1), .shutdown, .send [4] .failed, .handleWrite (.wrote 1), .shutdown,
    .handleWrite (.wrote 1)]

theorem lateShutdown_graceful : ∃ t,
    Run senderStep (established (fun _ => none) 0 5 false) lateShutdown t ∧
      t.halfCloses = 1 ∧ t.accepted = [1, 2, 3] ∧ ∀ e : SenderStep, ¬ e.IssuesWrite t := by
  have h : (lateShutdown.foldlM senderStep (established (fun _ => none) 0 5 false)).map
      (fun t => t.halfCloses) = some 1 := by decide +kernel
  obtain ⟨t, ht, hr⟩ := Option.map_eq_some_iff.mp h
  obtain ⟨-, hclosed, -⟩ := halfClose_graceful ht
  obtain ⟨-, -, hacc, hquiet⟩ := hclosed (by omega)
  exact ⟨t, ht, hr, hacc, fun e => (hquiet e).1⟩

end HighServer.TcpConnection
