import HighServer.Lib.Runs
import HighServer.Net.TcpConnection

/-!
# Runs of a connection in its loop

An established connection under everything that its loop thread can do to it: calls of `send` and
`shutdown`, the callbacks of dispatched event sets, one by one, and the `connectDestroyed` that
the close callback queues. What user callbacks do to the connection are steps of their own.

* `Event.Enabled`, `Event.perform`, `step`: the transition system;
* `Sound`: the buffers are well formed and `index_` agrees with the interest list. Under it
  `sendInLoop_sound`, `handleWrite_sound`, `handleRead_sound`, `handleClose_sound`,
  `connectDestroyed_sound` say how each member function ends;
* `runCallback_closing`, `runCallback_other`: the same for one callback of `handleEvent`.
-/

namespace HighServer.TcpConnection

open Runs

/-- What user code does to a connection inside a callback. -/
inductive Act where
  | send (message : Bytes) (w : WriteResult)
  | shutdown
  deriving DecidableEq, Repr

def Act.perform (t : TcpConnection) : Act → Outcome TcpConnection
  | .send message w => t.send message w
  | .shutdown => pure t.shutdown

/-- A connection callback that acts on the connection. -/
def runActs (acts : List Act) (t : TcpConnection) : Outcome TcpConnection :=
  acts.foldlM Act.perform t

/-- The connection, the callbacks that its dispatched event set still has to run, and whether
`connectDestroyed` has run. -/
structure InLoop where
  conn : TcpConnection
  todo : List Channel.Callback
  destroyed : Bool

namespace InLoop

inductive Event where
  | send (message : Bytes) (w : WriteResult)
  | shutdown
  /-- `epoll_wait` returns the channel with `revents` -/
  | poll (revents : Mask)
  /-- the next callback of `handleEvent`; the results of its `readv` and `::write` -/
  | callback (r : ReadResult) (w : WriteResult)
  /-- the queued functor; `acts` is what the connection callback does -/
  | connectDestroyed (acts : List Act)
  deriving DecidableEq, Repr

/-- The channel's entry in the interest list. -/
def registered (s : InLoop) : Option EpollEvent := s.conn.poller s.conn.channel_.fd_

/-- epoll reports what was asked for, and errors and hang-ups always. A queued functor runs
outside of `handleEvent`. -/
def Event.Enabled (s : InLoop) : Event → Prop
  | .send message w => w.Within message.length
  | .shutdown => True
  | .poll revents => s.todo = [] ∧ ∃ e ∈ s.registered,
      revents &&& ~~~(e.events ||| EPOLLERR ||| EPOLLHUP) = 0
  | .callback _ w => s.todo ≠ [] ∧ w.Within s.conn.outputBuffer_.readableBytes
  | .connectDestroyed _ => s.todo = [] ∧ 0 < s.conn.closes ∧ s.destroyed = false

instance (s : InLoop) (e : Event) : Decidable (e.Enabled s) := by
  unfold Event.Enabled
  split <;> infer_instance

/-- One callback of `handleEvent`. -/
def runCallback (t : TcpConnection) (r : ReadResult) (w : WriteResult) :
    Channel.Callback → Outcome TcpConnection
  | .close => t.handleClose
  | .error => pure t
  | .read => t.handleRead pure r
  | .write => t.handleWrite w

def Event.perform (s : InLoop) : Event → Outcome InLoop
  | .send message w => do pure { s with conn := ← s.conn.send message w }
  | .shutdown => pure { s with conn := s.conn.shutdown }
  | .poll revents => pure { s with todo := Channel.callbacks revents }
  | .callback r w =>
    match s.todo with
    | [] => pure s
    | c :: todo => do pure { s with conn := ← runCallback s.conn r w c, todo }
  | .connectDestroyed acts => do
    pure { s with conn := ← s.conn.connectDestroyed (runActs acts), destroyed := true }

def step (s : InLoop) (e : Event) : Option InLoop :=
  if e.Enabled s then (e.perform s).toOption else none

/-- After `connectEstablished`. -/
def established (poller : EPoller) (self fd : ℕ) (cb : Bool) : InLoop where
  conn := TcpConnection.established poller self fd cb
  todo := []
  destroyed := false

theorem step_eq_some_iff {s s' : InLoop} {e : Event} :
    step s e = some s' ↔ e.Enabled s ∧ e.perform s = .ok s' :=
  ite_toOption_eq_some_iff

end InLoop

/-! ## Sound connections -/

/-- The buffers are well formed, and the interest list knows the channel as it knows itself. -/
structure Sound (t : TcpConnection) : Prop where
  input : t.inputBuffer_.Wf
  output : t.outputBuffer_.Wf
  agrees : Agrees t.poller t.channel_

/-- Nothing that the life cycle depends on has changed. -/
structure SameLife (t t' : TcpConnection) : Prop where
  state_ : t'.state_ = t.state_
  closes : t'.closes = t.closes
  fd_ : t'.channel_.fd_ = t.channel_.fd_

/-- Nothing but the input buffer has changed. -/
structure SameOutput (t t' : TcpConnection) : Prop where
  state_ : t'.state_ = t.state_
  closes : t'.closes = t.closes
  channel_ : t'.channel_ = t.channel_
  poller : t'.poller = t.poller
  outputBuffer_ : t'.outputBuffer_ = t.outputBuffer_

variable {t t' : TcpConnection}

theorem SameLife.refl (t : TcpConnection) : SameLife t t := ⟨rfl, rfl, rfl⟩

theorem SameOutput.refl (t : TcpConnection) : SameOutput t t := ⟨rfl, rfl, rfl, rfl, rfl⟩

theorem SameOutput.life (h : SameOutput t t') : SameLife t t' :=
  ⟨h.state_, h.closes, by rw [h.channel_]⟩

theorem sound_established (poller : EPoller) (self fd : ℕ) (cb : Bool) :
    (established poller self fd cb).Sound :=
  ⟨Buffer.wf_new, Buffer.wf_new, (open_established poller self fd cb).agrees⟩

theorem Sound.update (h : t.Sound) (m : Mask) :
    ∃ p i, t.poller.updateChannel { t.channel_ with events_ := m } =
        .ok (p, { t.channel_ with events_ := m, index_ := i }) ∧
      Agrees p { t.channel_ with events_ := m, index_ := i } ∧
      i = Channel.nextIndex { t.channel_ with events_ := m } := by
  have hl : Listed t.poller { t.channel_ with events_ := m } := h.agrees.listed
  obtain ⟨p, hp, ha, -⟩ := updateChannel_of_listed hl
  exact ⟨p, _, hp, ha, rfl⟩

theorem sendInLoop_sound (h : t.Sound) (message : Bytes) (w : WriteResult) :
    ∃ t', t.sendInLoop message w = .ok t' ∧ t'.Sound ∧ SameLife t t' := by
  obtain ⟨n, k, hk, -⟩ := writeDirect_spec t message w
  rw [sendInLoop, hk]
  dsimp only
  split_ifs with hn hw
  · obtain ⟨b, hb, hwf, -⟩ := Buffer.yields_append h.output (message.drop n)
    rw [hb]
    exact ⟨_, rfl, ⟨h.input, hwf, h.agrees⟩, rfl, rfl, rfl⟩
  · obtain ⟨b, hb, hwf, -⟩ := Buffer.yields_append h.output (message.drop n)
    obtain ⟨p, i, hp, ha, -⟩ := h.update (t.channel_.events_ ||| Channel.kWriteEvent)
    rw [hb, ok_bind, onChannel, EPoller.enableWriting, hp]
    exact ⟨_, rfl, ⟨h.input, hwf, ha⟩, rfl, rfl, rfl⟩
  · exact ⟨_, rfl, ⟨h.input, h.output, h.agrees⟩, rfl, rfl, rfl⟩

theorem send_sound (h : t.Sound) (message : Bytes) (w : WriteResult) :
    ∃ t', t.send message w = .ok t' ∧ t'.Sound ∧ SameLife t t' := by
  unfold send
  split_ifs
  · exact sendInLoop_sound h message w
  · exact ⟨t, rfl, h, SameLife.refl t⟩

theorem handleWrite_sound (h : t.Sound) {w : WriteResult}
    (hw : w.Within t.outputBuffer_.readableBytes) :
    ∃ t', t.handleWrite w = .ok t' ∧ t'.Sound ∧ SameLife t t' := by
  have same : ∃ t', (.ok t : Outcome TcpConnection) = .ok t' ∧ t'.Sound ∧ SameLife t t' :=
    ⟨t, rfl, h, SameLife.refl t⟩
  unfold handleWrite
  split_ifs
  · cases w with
    | wouldBlock => exact same
    | failed => exact same
    | wrote n =>
      dsimp only
      split_ifs
      · obtain ⟨b, hb, hwf, -⟩ := Buffer.yields_retrieve h.output hw
        rw [hb, ok_bind]
        split_ifs
        · obtain ⟨p, i, hp, ha, -⟩ := h.update (t.channel_.events_ &&& ~~~Channel.kWriteEvent)
          rw [onChannel, EPoller.disableWriting, hp, ok_bind]
          dsimp only
          rw [pure_bind]
          split_ifs
          · unfold shutdownInLoop
            split_ifs
            · exact ⟨_, rfl, ⟨h.input, hwf, ha⟩, rfl, rfl, rfl⟩
            · exact ⟨_, rfl, ⟨h.input, hwf, ha⟩, rfl, rfl, rfl⟩
          · exact ⟨_, rfl, ⟨h.input, hwf, ha⟩, rfl, rfl, rfl⟩
        · exact ⟨_, rfl, ⟨h.input, hwf, h.agrees⟩, rfl, rfl, rfl⟩
      · exact same
  · exact same

theorem shutdown_sound (h : t.Sound) :
    t.shutdown.Sound ∧ t.shutdown.closes = t.closes ∧
      t.shutdown.channel_ = t.channel_ ∧ t.shutdown.poller = t.poller := by
  unfold shutdown shutdownInLoop
  split_ifs
  · exact ⟨⟨h.input, h.output, h.agrees⟩, rfl, rfl, rfl⟩
  · exact ⟨⟨h.input, h.output, h.agrees⟩, rfl, rfl, rfl⟩
  · exact ⟨h, rfl, rfl, rfl⟩

/-- A read that is not an end of stream only adds to the input buffer. -/
theorem handleRead_sound (h : t.Sound) {r : ReadResult} (hr : r ≠ .received []) :
    ∃ t', t.handleRead pure r = .ok t' ∧ t'.Sound ∧ SameOutput t t' := by
  cases r with
  | failed => exact ⟨t, rfl, h, SameOutput.refl t⟩
  | received data =>
    obtain ⟨b, hb, hwf, -⟩ := Buffer.yields_readFd_received h.input data
    have hd : 0 < data.length := List.length_pos_iff.mpr fun hn => hr (by rw [hn])
    rw [handleRead, hb, ok_bind]
    dsimp only
    rw [if_pos hd]
    exact ⟨_, rfl, ⟨hwf, h.output, h.agrees⟩, rfl, rfl, rfl, rfl, rfl⟩

/-- An end of stream is a close. -/
theorem handleRead_eof (h : t.Sound) :
    ∃ t₀, t.handleRead pure (.received []) = t₀.handleClose ∧ t₀.Sound ∧ SameOutput t t₀ := by
  obtain ⟨b, hb, hwf, -⟩ := Buffer.yields_readFd_received h.input []
  rw [handleRead, hb, ok_bind]
  exact ⟨_, rfl, ⟨hwf, h.output, h.agrees⟩, rfl, rfl, rfl, rfl, rfl⟩

theorem handleClose_of_ne (hs : t.state_ ≠ .kConnected) : t.handleClose = .error .handleClose := by
  rw [handleClose, ensure_bind_of_not hs]

/-- `handleClose` on a connected connection: the mask is emptied, and the close callback runs,
which must not have run before. -/
theorem handleClose_sound (h : t.Sound) (hs : t.state_ = .kConnected) :
    (t.closes = 0 ∧ ∃ t', t.handleClose = .ok t' ∧ t'.Sound ∧ t'.state_ = .kConnected ∧
        t'.closes = 1 ∧ t'.outputBuffer_ = t.outputBuffer_ ∧
        t'.channel_ = { t.channel_ with
          events_ := Channel.kNoneEvent
          index_ := Channel.nextIndex { t.channel_ with events_ := Channel.kNoneEvent } }) ∨
      (t.closes ≠ 0 ∧ t.handleClose = .error .removeConnection) := by
  obtain ⟨p, i, hp, ha, hi⟩ := h.update Channel.kNoneEvent
  rw [handleClose, ensure_bind_of hs, onChannel, EPoller.disableAll, hp, ok_bind]
  dsimp only
  rw [pure_bind, closeCallback]
  by_cases hc : t.closes = 0
  · left
    rw [ensure_bind_of hc]
    exact ⟨hc, _, rfl, ⟨h.input, h.output, ha⟩, hs, by simp [hc], rfl, by rw [hi]⟩
  · right
    exact ⟨hc, ensure_bind_of_not hc _ _⟩

/-- After `kDisconnected` no act of user code changes the connection. -/
theorem runActs_of_disconnected (hs : t.state_ = .kDisconnected) (acts : List Act) :
    runActs acts t = .ok t := by
  induction acts with
  | nil => rfl
  | cons a acts ih =>
    have ha : a.perform t = .ok t := by
      cases a with
      | send message w => simp [Act.perform, send, hs, pure, Except.pure]
      | shutdown => simp [Act.perform, shutdown, hs, pure, Except.pure]
    rw [runActs, List.foldlM_cons, ha]
    exact ih

theorem connectDestroyed_of_ne (hs : t.state_ ≠ .kConnected) (acts : List Act) :
    t.connectDestroyed (runActs acts) = .error .connectDestroyed := by
  rw [connectDestroyed, ensure_bind_of_not hs]

/-- `connectDestroyed` on a connected connection removes the channel, if `disableAll` has left it
in the interest list; it does so only for a channel that was not there. -/
theorem connectDestroyed_sound (h : t.Sound) (hs : t.state_ = .kConnected) (acts : List Act) :
    (t.channel_.index_ = .kNew ∧ ∃ t', t.connectDestroyed (runActs acts) = .ok t' ∧ t'.Sound ∧
        t'.state_ = .kDisconnected ∧ t'.closes = t.closes ∧
        t'.poller t'.channel_.fd_ = none) ∨
      (t.channel_.index_ = .kAdded ∧
        t.connectDestroyed (runActs acts) = .error .removeChannelIndex) := by
  obtain ⟨p, i, hp, ha, hi⟩ := h.update Channel.kNoneEvent
  have hrun := runActs_of_disconnected (t := { t with
    state_ := .kDisconnected, poller := p
    channel_ := { t.channel_ with events_ := Channel.kNoneEvent, index_ := i } }) rfl acts
  have hn : Channel.isNoneEvent { t.channel_ with events_ := Channel.kNoneEvent, index_ := i } =
      true := by simp [Channel.isNoneEvent]
  rw [connectDestroyed, ensure_bind_of hs, onChannel, EPoller.disableAll, hp, ok_bind]
  dsimp only
  rw [pure_bind, hrun, ok_bind, onChannel]
  cases hx : t.channel_.index_ with
  | kNew =>
    have hia : i = .kAdded := by rw [hi]; simp [Channel.nextIndex, hx]
    left
    rw [removeChannel_of_listed ha.listed hn hia]
    refine ⟨rfl, _, rfl, ⟨h.input, h.output, ?_⟩, rfl, rfl, ?_⟩
    · simp [Agrees, Channel.registration]
    · simp
  | kAdded =>
    have hin : i = .kNew := by rw [hi]; simp [Channel.nextIndex, hx, Channel.isNoneEvent]
    right
    rw [removeChannel_of_new hn hin]
    exact ⟨rfl, rfl⟩

namespace InLoop

/-! ## The callbacks of a dispatched event set -/

/-- The next callback runs `handleClose`: it is the close callback, or a read of end of stream. -/
def RunsClose (todo : List Channel.Callback) (r : ReadResult) : Prop :=
  todo.head? = some .close ∨ todo.head? = some .read ∧ r = .received []

variable {s : InLoop}

/-- A callback that runs `handleClose` does little before it. -/
theorem runCallback_closing (h : s.conn.Sound) {c : Channel.Callback}
    {todo : List Channel.Callback} (ht : s.todo = c :: todo) {r : ReadResult}
    (hr : RunsClose s.todo r) (w : WriteResult) :
    ∃ t₀, runCallback s.conn r w c = t₀.handleClose ∧ t₀.Sound ∧ SameOutput s.conn t₀ := by
  rw [RunsClose, ht] at hr
  rcases hr with hc | ⟨hc, rfl⟩
  · obtain rfl := Option.some.inj hc
    exact ⟨s.conn, rfl, h, SameOutput.refl _⟩
  · obtain rfl := Option.some.inj hc
    exact handleRead_eof h

/-- How every other callback ends. -/
theorem runCallback_other (h : s.conn.Sound) {c : Channel.Callback}
    {todo : List Channel.Callback} (ht : s.todo = c :: todo) {r : ReadResult}
    (hr : ¬ RunsClose s.todo r) {w : WriteResult}
    (hw : w.Within s.conn.outputBuffer_.readableBytes) :
    ∃ t', runCallback s.conn r w c = .ok t' ∧ t'.Sound ∧ SameLife s.conn t' := by
  rw [RunsClose, ht] at hr
  push Not at hr
  cases c with
  | close => exact absurd rfl hr.1
  | error => exact ⟨s.conn, rfl, h, SameLife.refl _⟩
  | read =>
    obtain ⟨t', ht', hs, hl⟩ := handleRead_sound h (hr.2 rfl)
    exact ⟨t', ht', hs, hl.life⟩
  | write => exact handleWrite_sound h hw

theorem not_registered_poll (h : s.registered = none) (revents : Mask) :
    ¬ Event.Enabled s (.poll revents) := by
  rintro ⟨-, e, he, -⟩
  rw [h] at he
  exact absurd he (by simp)

end InLoop

end HighServer.TcpConnection
