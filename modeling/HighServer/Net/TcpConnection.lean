import HighServer.Net.Buffer
import HighServer.Net.Channel

/-!
# A TCP connection in its loop

`TcpConnection` holds the members of the class that its functions read and write, and what they
do to the outside: the bytes accepted by the kernel, the interest list, the callbacks.

* `sendInLoop`, `handleRead`, `handleWrite`, `handleClose`, `shutdown`, `connectDestroyed`, …:
  the member functions, run in the loop thread. The results of `::write` and `readv` are inputs;
* `established`: the connection after `connectEstablished`;
* `Streams t sent`: the kernel has accepted a prefix of the bytes `sent`, the output buffer holds
  the rest, and the channel asks for write events exactly when there is a rest;
* **`sendInLoop_streams`**, **`handleWrite_streams`**: both functions keep it.
-/

namespace HighServer

inductive StateE where
  | kConnecting
  | kConnected
  | kDisconnected
  deriving DecidableEq, Repr

/-- The result of `::write`: a count, or -1 with `EWOULDBLOCK` or another `errno`. -/
inductive WriteResult where
  | wrote (n : ℕ)
  | wouldBlock
  | failed
  deriving DecidableEq, Repr

/-- `::write` never reports more than it was asked to write. -/
def WriteResult.Within (len : ℕ) : WriteResult → Prop
  | .wrote n => n ≤ len
  | _ => True

instance (len : ℕ) (w : WriteResult) : Decidable (w.Within len) := by
  unfold WriteResult.Within
  split <;> infer_instance

structure TcpConnection where
  state_ : StateE
  channel_ : Channel
  inputBuffer_ : Buffer
  outputBuffer_ : Buffer
  /-- whether `writeCompleteCallback_` is set -/
  writeCompleteCallback_ : Bool
  /-- the interest list of the loop's `EPoller` -/
  poller : EPoller
  /-- the bytes `::write` has accepted -/
  accepted : Bytes
  /-- write-complete callbacks queued on the loop -/
  completions : ℕ
  /-- calls of `closeCallback_` -/
  closes : ℕ
  /-- calls of `Socket::shutdownWrite` -/
  halfCloses : ℕ

namespace TcpConnection

/-- The constructor. -/
def new (poller : EPoller) (self fd : ℕ) (writeCompleteCallback_ : Bool) : TcpConnection where
  state_ := .kConnecting
  channel_ := Channel.new self fd
  inputBuffer_ := Buffer.new
  outputBuffer_ := Buffer.new
  writeCompleteCallback_
  poller
  accepted := []
  completions := 0
  closes := 0
  halfCloses := 0

/-- A channel operation on `channel_`. -/
def onChannel (t : TcpConnection) (f : EPoller → Channel → Outcome (EPoller × Channel)) :
    Outcome TcpConnection := do
  let (poller, channel_) ← f t.poller t.channel_
  pure { t with poller, channel_ }

/-! ## Sending -/

/-- `loop_->queueInLoop(std::bind(writeCompleteCallback_, …))`, if the callback is set. -/
def queueWriteComplete (t : TcpConnection) : TcpConnection :=
  if t.writeCompleteCallback_ then { t with completions := t.completions + 1 } else t

/-- The direct write of `sendInLoop`, with `nwrote`. -/
def writeDirect (t : TcpConnection) (message : Bytes) (w : WriteResult) : TcpConnection × ℕ :=
  if ¬ t.channel_.isWriting ∧ t.outputBuffer_.readableBytes = 0 then
    match w with
    | .wrote nwrote =>
      let t := { t with accepted := t.accepted ++ message.take nwrote }
      if nwrote < message.length then (t, nwrote) else (t.queueWriteComplete, nwrote)
    | .wouldBlock => (t, 0)
    | .failed => (t, 0)
  else (t, 0)

def sendInLoop (t : TcpConnection) (message : Bytes) (w : WriteResult) :
    Outcome TcpConnection := do
  let (t, nwrote) := t.writeDirect message w
  if nwrote < message.length then
    let outputBuffer_ ← t.outputBuffer_.append (message.drop nwrote)
    let t := { t with outputBuffer_ }
    if ¬ t.channel_.isWriting then t.onChannel EPoller.enableWriting else pure t
  else pure t

/-- `send`, called in the loop thread. -/
def send (t : TcpConnection) (message : Bytes) (w : WriteResult) : Outcome TcpConnection :=
  if t.state_ = .kConnected then t.sendInLoop message w else pure t

/-! ## Closing -/

def shutdownInLoop (t : TcpConnection) : TcpConnection :=
  if ¬ t.channel_.isWriting then { t with halfCloses := t.halfCloses + 1 } else t

/-- `shutdown`, called in the loop thread. -/
def shutdown (t : TcpConnection) : TcpConnection :=
  if t.state_ = .kConnected then shutdownInLoop { t with state_ := .kDisconnected } else t

/-- `closeCallback_`, which is `TcpServer::removeConnection`: it takes the connection out of the
server's map, and `erase` finds nothing on a second call. -/
def closeCallback (t : TcpConnection) : Outcome TcpConnection := do
  ensure (t.closes = 0) .removeConnection
  pure { t with closes := t.closes + 1 }

def handleClose (t : TcpConnection) : Outcome TcpConnection := do
  ensure (t.state_ = .kConnected) .handleClose
  let t ← t.onChannel EPoller.disableAll
  t.closeCallback

/-! ## Events -/

/-- `handleRead`; `handleError` reads `SO_ERROR` and logs it. -/
def handleRead (messageCallback_ : TcpConnection → Outcome TcpConnection) (t : TcpConnection)
    (r : ReadResult) : Outcome TcpConnection := do
  let inputBuffer_ ← t.inputBuffer_.readFd r
  let t := { t with inputBuffer_ }
  match r with
  | .received data => if 0 < data.length then messageCallback_ t else t.handleClose
  | .failed => pure t

def handleWrite (t : TcpConnection) (w : WriteResult) : Outcome TcpConnection :=
  if t.channel_.isWriting then
    match w with
    | .wrote n =>
      if 0 < n then do
        let written := (t.outputBuffer_.peek t.outputBuffer_.readableBytes).take n
        let outputBuffer_ ← t.outputBuffer_.retrieve n
        let t := { t with accepted := t.accepted ++ written, outputBuffer_ }
        if t.outputBuffer_.readableBytes = 0 then
          let t ← t.onChannel EPoller.disableWriting
          -- the functor bound to `writeCompleteCallback_` here is dropped, not queued
          if t.state_ = .kDisconnected then pure t.shutdownInLoop else pure t
        else pure t
      else pure t
    | .wouldBlock => pure t
    | .failed => pure t
  else pure t

/-! ## Opening and destroying -/

def connectEstablished (connectionCallback_ : TcpConnection → Outcome TcpConnection)
    (t : TcpConnection) : Outcome TcpConnection := do
  ensure (t.state_ = .kConnecting) .connectEstablished
  let t ← { t with state_ := .kConnected }.onChannel EPoller.enableReading
  connectionCallback_ t

def connectDestroyed (connectionCallback_ : TcpConnection → Outcome TcpConnection)
    (t : TcpConnection) : Outcome TcpConnection := do
  ensure (t.state_ = .kConnected) .connectDestroyed
  let t ← { t with state_ := .kDisconnected }.onChannel EPoller.disableAll
  let t ← connectionCallback_ t
  t.onChannel EPoller.removeChannel

/-- A connection as `connectEstablished` leaves it, before the connection callback. -/
def established (poller : EPoller) (self fd : ℕ) (writeCompleteCallback_ : Bool) :
    TcpConnection :=
  { new poller self fd writeCompleteCallback_ with
    state_ := .kConnected
    channel_ := { Channel.new self fd with events_ := Channel.kReadEvent, index_ := .kAdded }
    poller := Function.update poller fd (some ⟨Channel.kReadEvent, self⟩) }

theorem connectEstablished_new {poller : EPoller} {fd : ℕ} (h : poller fd = none) (self : ℕ)
    (cb : Bool) :
    connectEstablished pure (new poller self fd cb) = .ok (established poller self fd cb) := by
  simp [connectEstablished, new, ensure, onChannel, EPoller.enableReading, Channel.new,
    EPoller.updateChannel, EPoller.update, epollCtl, h, established, Channel.kNoneEvent,
    Channel.kReadEvent, pure, Except.pure]

/-! ## Open channels -/

/-- The channel is registered and reads, as it is from `connectEstablished` to `handleClose`. -/
structure Open (t : TcpConnection) : Prop where
  agrees : Agrees t.poller t.channel_
  added : t.channel_.index_ = .kAdded
  reads : t.channel_.events_ = Channel.kReadEvent ∨
    t.channel_.events_ = Channel.kReadEvent ||| Channel.kWriteEvent

variable {t : TcpConnection}

theorem Open.events_of_writing (h : t.Open) (hw : t.channel_.isWriting = true) :
    t.channel_.events_ = Channel.kReadEvent ||| Channel.kWriteEvent := by
  refine h.reads.resolve_left fun hr => ?_
  rw [Channel.isWriting_of_read hr] at hw
  exact Bool.noConfusion hw

theorem Open.events_of_not_writing (h : t.Open) (hw : ¬ t.channel_.isWriting = true) :
    t.channel_.events_ = Channel.kReadEvent := by
  exact h.reads.resolve_right fun hr => hw (Channel.isWriting_of_write hr)

/-- A channel operation that leaves a mask with read events on an open channel. -/
theorem Open.update (h : t.Open) {events : Mask} (he : events = Channel.kReadEvent ∨
    events = Channel.kReadEvent ||| Channel.kWriteEvent) :
    ∃ p, t.poller.updateChannel { t.channel_ with events_ := events } =
        .ok (p, { t.channel_ with events_ := events }) ∧
      Agrees p { t.channel_ with events_ := events } := by
  have hl : Listed t.poller { t.channel_ with events_ := events } := h.agrees.listed
  have hn : Channel.nextIndex { t.channel_ with events_ := events } = t.channel_.index_ := by
    have hne : events ≠ Channel.kNoneEvent := by rcases he with rfl | rfl <;> decide
    simp [Channel.nextIndex, Channel.isNoneEvent, hne, h.added]
  obtain ⟨p, hp, ha, -⟩ := updateChannel_of_listed hl
  rw [hn] at hp ha
  exact ⟨p, hp, ha⟩

theorem Open.enableWriting (h : t.Open) (hw : ¬ t.channel_.isWriting = true) :
    ∃ p c, t.onChannel EPoller.enableWriting = .ok { t with poller := p, channel_ := c } ∧
      Open { t with poller := p, channel_ := c } ∧ c.isWriting = true := by
  have he := h.events_of_not_writing hw
  obtain ⟨p, hp, ha⟩ := h.update (Or.inr rfl)
  refine ⟨p, { t.channel_ with events_ := _ }, ?_, ⟨ha, h.added, Or.inr rfl⟩,
    Channel.isWriting_of_write rfl⟩
  rw [onChannel, EPoller.enableWriting, he, hp]
  rfl

theorem Open.disableWriting (h : t.Open) (hw : t.channel_.isWriting = true) :
    ∃ p c, t.onChannel EPoller.disableWriting = .ok { t with poller := p, channel_ := c } ∧
      Open { t with poller := p, channel_ := c } ∧ c.isWriting = false := by
  have he := h.events_of_writing hw
  obtain ⟨p, hp, ha⟩ := h.update (Or.inl rfl)
  refine ⟨p, { t.channel_ with events_ := _ }, ?_, ⟨ha, h.added, Or.inl rfl⟩,
    Channel.isWriting_of_read rfl⟩
  rw [onChannel, EPoller.disableWriting, he,
    show (Channel.kReadEvent ||| Channel.kWriteEvent) &&& ~~~Channel.kWriteEvent =
      Channel.kReadEvent by decide, hp]
  rfl

/-! ## The output stream -/

/-- The messages sent so far make up `sent`: the kernel has a prefix, the output buffer the rest,
and write interest stands for a rest. -/
structure Streams (t : TcpConnection) (sent : Bytes) : Prop where
  isOpen : t.Open
  wf : t.outputBuffer_.Wf
  conserved : t.accepted ++ t.outputBuffer_.readable = sent
  writing : t.channel_.isWriting = true ↔ t.outputBuffer_.readable ≠ []

variable {sent : Bytes}

theorem open_established (poller : EPoller) (self fd : ℕ) (cb : Bool) :
    (established poller self fd cb).Open where
  agrees := by simp [Agrees, established, Channel.registration, Channel.new]
  added := rfl
  reads := Or.inl rfl

theorem streams_established (poller : EPoller) (self fd : ℕ) (cb : Bool) :
    (established poller self fd cb).Streams [] where
  isOpen := open_established poller self fd cb
  wf := Buffer.wf_new
  conserved := Buffer.readable_new
  writing := by
    have h1 : (established poller self fd cb).channel_.isWriting = false :=
      Channel.isWriting_of_read rfl
    have h2 : (established poller self fd cb).outputBuffer_.readable = [] := Buffer.readable_new
    rw [h1, h2]
    simp

/-- What the direct write leaves to be done: the channel, the buffers and the state are as
before, `nwrote` bytes are with the kernel, and none are if there was a rest already. -/
theorem writeDirect_spec (t : TcpConnection) (message : Bytes) (w : WriteResult) :
    ∃ n completions, t.writeDirect message w =
        ({ t with accepted := t.accepted ++ message.take n, completions }, n) ∧
      (t.channel_.isWriting = true → n = 0) := by
  have none : ∃ n completions, (t, 0) =
        ({ t with accepted := t.accepted ++ message.take n, completions }, n) ∧
      (t.channel_.isWriting = true → n = 0) :=
    ⟨0, t.completions, by simp, fun _ => rfl⟩
  unfold writeDirect
  split_ifs with hd
  · cases w with
    | wrote n =>
      dsimp only
      split_ifs with hn
      · exact ⟨n, t.completions, rfl, fun h => absurd h hd.1⟩
      · refine ⟨n, t.completions + if t.writeCompleteCallback_ then 1 else 0, ?_,
          fun h => absurd h hd.1⟩
        simp only [queueWriteComplete]
        split_ifs <;> rfl
    | wouldBlock => exact none
    | failed => exact none
  · exact none

/-- **`sendInLoop` on a streaming connection.** -/
theorem sendInLoop_streams (h : t.Streams sent) (message : Bytes) (w : WriteResult) :
    ∃ t', t.sendInLoop message w = .ok t' ∧ t'.Streams (sent ++ message) ∧
      t'.state_ = t.state_ ∧ t'.inputBuffer_ = t.inputBuffer_ ∧ t.accepted <+: t'.accepted := by
  obtain ⟨n, k, hk, hrest⟩ := writeDirect_spec t message w
  have hmsg : message.take n ++ message.drop n = message := List.take_append_drop n message
  rw [sendInLoop, hk]
  dsimp only
  split_ifs with hn hw
  · -- a rest behind data that waits for a write event already
    obtain ⟨b, hb, hwf, hread, -⟩ := Buffer.yields_append h.wf (message.drop n)
    have hn0 : n = 0 := hrest hw
    subst hn0
    rw [hb, ok_bind]
    refine ⟨_, rfl, ⟨⟨h.isOpen.agrees, h.isOpen.added, h.isOpen.reads⟩, hwf, ?_, ?_⟩,
      rfl, rfl, List.prefix_append _ _⟩
    · simp only [List.take_zero, List.append_nil, List.drop_zero] at hread ⊢
      rw [hread, ← List.append_assoc, h.conserved]
    · simp only [hw, true_iff, hread, ne_eq, List.append_eq_nil_iff, not_and]
      exact fun hnil => absurd hnil (h.writing.mp hw)
  · -- the first rest: the channel starts to ask for write events
    obtain ⟨b, hb, hwf, hread, -⟩ := Buffer.yields_append h.wf (message.drop n)
    have hempty : t.outputBuffer_.readable = [] := by
      by_contra hne; exact hw (h.writing.mpr hne)
    have ho : Open { t with accepted := t.accepted ++ message.take n, completions := k,
                            outputBuffer_ := b } :=
      ⟨h.isOpen.agrees, h.isOpen.added, h.isOpen.reads⟩
    obtain ⟨p, c, hpc, ho', hwr⟩ := ho.enableWriting hw
    rw [hb, ok_bind]
    refine ⟨_, hpc, ⟨ho', hwf, ?_, ?_⟩, rfl, rfl, List.prefix_append _ _⟩
    · have hc := h.conserved
      rw [hempty, List.append_nil] at hc
      simp only
      rw [hread, hempty, List.nil_append, List.append_assoc, hmsg, hc]
    · simp only [hwr, true_iff, hread, hempty, List.nil_append]
      intro hnil
      have := congrArg List.length hnil
      simp only [List.length_drop, List.length_nil] at this
      omega
  · have hfull : message.take n = message := List.take_of_length_le (by omega)
    refine ⟨_, rfl, ⟨⟨h.isOpen.agrees, h.isOpen.added, h.isOpen.reads⟩, h.wf, ?_, h.writing⟩,
      rfl, rfl, List.prefix_append _ _⟩
    simp only [hfull]
    by_cases hm : message = []
    · rw [hm, List.append_nil, List.append_nil, h.conserved]
    · -- a message with bytes went out whole, so nothing was waiting
      have hpos : n ≠ 0 := by
        rintro rfl
        exact hm (List.length_eq_zero_iff.mp (by omega))
      have hempty : t.outputBuffer_.readable = [] := by
        by_contra hne
        exact hpos (hrest (h.writing.mpr hne))
      have hc := h.conserved
      rw [hempty, List.append_nil] at hc ⊢
      rw [hc]

/-- **`handleWrite` on a streaming connection.** -/
theorem handleWrite_streams (h : t.Streams sent) {w : WriteResult}
    (hw : w.Within t.outputBuffer_.readableBytes) :
    ∃ t', t.handleWrite w = .ok t' ∧ t'.Streams sent ∧ t'.state_ = t.state_ ∧
      t'.inputBuffer_ = t.inputBuffer_ ∧ t.accepted <+: t'.accepted := by
  have same : ∃ t', (.ok t : Outcome TcpConnection) = .ok t' ∧ t'.Streams sent ∧
      t'.state_ = t.state_ ∧ t'.inputBuffer_ = t.inputBuffer_ ∧ t.accepted <+: t'.accepted :=
    ⟨t, rfl, h, rfl, rfl, List.prefix_rfl⟩
  unfold handleWrite
  split_ifs with hwr
  · cases w with
    | wouldBlock => exact same
    | failed => exact same
    | wrote n =>
      dsimp only
      split_ifs with hn
      · obtain ⟨b, hb, hwf, hread, -⟩ := Buffer.yields_retrieve h.wf hw
        have hc : t.accepted ++ t.outputBuffer_.readable.take n ++ b.readable = sent := by
          rw [hread, List.append_assoc, List.take_append_drop, h.conserved]
        rw [hb, ok_bind, Buffer.peek_readableBytes h.wf]
        split_ifs with hz
        · -- the buffer is empty: write interest ends
          have hnil : b.readable = [] := (hwf.readable_eq_nil_iff).mpr hz
          have ho : Open { t with accepted := t.accepted ++ t.outputBuffer_.readable.take n,
                                  outputBuffer_ := b } :=
            ⟨h.isOpen.agrees, h.isOpen.added, h.isOpen.reads⟩
          obtain ⟨p, c, hpc, ho', hnw⟩ := ho.disableWriting hwr
          have hst : ∀ k, Streams { t with
              accepted := t.accepted ++ t.outputBuffer_.readable.take n, outputBuffer_ := b,
              poller := p, channel_ := c, halfCloses := k } sent := fun k =>
            ⟨⟨ho'.agrees, ho'.added, ho'.reads⟩, hwf, hc, by simp [hnw, hnil]⟩
          rw [hpc, ok_bind]
          dsimp only
          split_ifs with hd
          · refine ⟨_, rfl, ?_⟩
            simp only [shutdownInLoop, hnw, Bool.false_eq_true, not_false_eq_true, if_true]
            exact ⟨hst _, trivial, trivial, List.prefix_append _ _⟩
          · exact ⟨_, rfl, hst t.halfCloses, rfl, rfl, List.prefix_append _ _⟩
        · have hne : b.readable ≠ [] := fun hnil => hz ((hwf.readable_eq_nil_iff).mp hnil)
          exact ⟨_, rfl, ⟨⟨h.isOpen.agrees, h.isOpen.added, h.isOpen.reads⟩, hwf, hc,
            by simp [hwr, hne]⟩, rfl, rfl, List.prefix_append _ _⟩
      · exact same
  · exact same

end TcpConnection

end HighServer
