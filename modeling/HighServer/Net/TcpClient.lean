import HighServer.Net.SocketDiscipline
import HighServer.Net.TcpConnection

/-!
# The client

`TcpClient` with its `Connector` and the state of its connection, in the loop thread. Users may call
anything at any time; `destroy` is the destructor, and `removeConnector` the end of the timer that
it leaves behind.

* `connect`, `disconnect`, `stop`, `newConnection`, `removeConnection`, `destroy`: the members;
* `step`: the transition system;
* `Sane`: what holds in every run; `step_sane`;
* `MayConnect`: the client has no connection, no attempt in progress and no retry timer;
* **`connect_asserts_iff`**: the assertion of `startInLoop` holds at a `connect()` exactly when no
  attempt has succeeded since the last `restart()`; `connect_after_close` is a run without.
-/

namespace HighServer

/-- `~Connector` -/
def Connector.destruct (c : Connector) : Outcome Connector := do
  let c := c.cancel
  ensure (c.channel_ = none) .destructConnector
  pure c

/-- Who holds the connector. -/
inductive Life where
  /-- the client -/
  | alive
  /-- the client is destroyed, and the timer that calls `removeConnector` holds it -/
  | removing
  | gone
  deriving DecidableEq, Repr

structure TcpClient where
  connector_ : Connector
  retry_ : Bool
  connect_ : Bool
  /-- the state of `connection_` -/
  connection_ : Option StateE
  /-- whether it was made in this iteration of the loop -/
  fresh : Bool
  life : Life
  /-- whether an attempt has succeeded since the last `restart()` -/
  succeeded : Bool
  deriving DecidableEq, Repr

namespace TcpClient

open Runs

/-- The constructor. -/
def new : TcpClient where
  connector_ := Connector.new
  retry_ := false
  connect_ := false
  connection_ := none
  fresh := false
  life := .alive
  succeeded := false

def connect (t : TcpClient) (savedErrno : ConnectErrno) : Outcome TcpClient := do
  let connector_ ← t.connector_.start savedErrno
  pure { t with connect_ := true, connector_ }

/-- The part of `TcpConnection::shutdown` that concerns `state_` -/
def shutdown (state_ : StateE) : StateE :=
  if state_ = .kConnected then .kDisconnected else state_

def disconnect (t : TcpClient) : TcpClient :=
  { t with connect_ := false, connection_ := t.connection_.map shutdown }

def stop (t : TcpClient) : TcpClient :=
  { t with connect_ := false, connector_ := t.connector_.stop }

/-- `newConnection`, up to `connectEstablished` -/
def newConnection (t : TcpClient) : TcpClient :=
  { t with connection_ := some .kConnected, fresh := true }

def removeConnection (t : TcpClient) (savedErrno : ConnectErrno) : Outcome TcpClient :=
  let t := { t with connection_ := none }
  if t.retry_ ∧ t.connect_ then do
    let connector_ ← t.connector_.restart savedErrno
    pure { t with connector_, succeeded := false }
  else pure t

/-- `TcpConnection::handleClose` of `connection_` -/
def handleClose (t : TcpClient) (savedErrno : ConnectErrno) : Outcome TcpClient := do
  ensure (t.connection_ = some .kConnected) .handleClose
  t.removeConnection savedErrno

/-- `~TcpClient`: with a connection, the connector goes with the client. -/
def destroy (t : TcpClient) : Outcome TcpClient :=
  if t.connection_ ≠ none then do
    let connector_ ← t.connector_.destruct
    pure { t with connector_, life := .gone }
  else pure { t with connector_ := t.connector_.stop, life := .removing }

/-- The timer of `removeConnector` is over, and its functor gone. -/
def removeConnector (t : TcpClient) : Outcome TcpClient := do
  let connector_ ← t.connector_.destruct
  pure { t with connector_, life := .gone }

inductive Event where
  | connect (savedErrno : ConnectErrno)
  | disconnect
  | stop
  | enableRetry
  /-- `epoll_wait`, behind all the functors of the iteration before -/
  | poll
  /-- the channel of an attempt is dispatched -/
  | dispatch (revents_ : Mask) (err : ℕ) (self : Bool)
  /-- the connection reads the end of the stream; `savedErrno` is for a `restart()` -/
  | peerClose (savedErrno : ConnectErrno)
  | expire (id : ℕ)
  | fire (savedErrno : ConnectErrno)
  | resetChannel
  | destroy
  | removeConnector
  deriving DecidableEq, Repr

def Event.Enabled (t : TcpClient) : Event → Prop
  | .connect _ => t.life = .alive
  | .disconnect => t.life = .alive
  | .stop => t.life = .alive
  | .enableRetry => t.life = .alive
  | .poll => t.life ≠ .gone ∧ t.connector_.resets = 0
  | .dispatch _ _ _ => t.life ≠ .gone ∧ t.connector_.attempt ≠ none
  | .peerClose _ => t.life = .alive ∧ t.connection_ ≠ none ∧ t.fresh = false
  | .expire id => t.life ≠ .gone ∧ id ∈ t.connector_.waiting
  | .fire _ => t.life ≠ .gone ∧ t.connector_.due ≠ []
  | .resetChannel => t.life ≠ .gone ∧ 0 < t.connector_.resets
  | .destroy => t.life = .alive
  | .removeConnector => t.life = .removing ∧ t.connector_.due = []

instance (t : TcpClient) (e : Event) : Decidable (e.Enabled t) := by
  unfold Event.Enabled
  split <;> infer_instance

/-- A dispatch of the connector; `newConnectionCallback_` is `newConnection`. -/
def dispatch (t : TcpClient) (revents_ : Mask) (err : ℕ) (self : Bool) : Outcome TcpClient := do
  let connector_ ← t.connector_.handleEvent revents_ err self
  let t' := { t with
    connector_
    succeeded := t.succeeded || Connector.verdict revents_ err self = .succeeded }
  if connector_.passed = t.connector_.passed then pure t' else pure t'.newConnection

def Event.perform (t : TcpClient) : Event → Outcome TcpClient
  | .connect savedErrno => t.connect savedErrno
  | .disconnect => pure t.disconnect
  | .stop => pure t.stop
  | .enableRetry => pure { t with retry_ := true }
  | .poll => pure { t with fresh := false }
  | .dispatch revents_ err self => t.dispatch revents_ err self
  | .peerClose savedErrno => t.handleClose savedErrno
  | .expire id => pure { t with connector_ := t.connector_.expire id }
  | .fire savedErrno => do
    let connector_ ← t.connector_.fire savedErrno
    pure { t with connector_ }
  | .resetChannel => pure { t with connector_ := t.connector_.runReset }
  | .destroy => t.destroy
  | .removeConnector => t.removeConnector

def step (t : TcpClient) (e : Event) : Option TcpClient :=
  if e.Enabled t then (e.perform t).toOption else none

theorem step_eq_some_iff {t t' : TcpClient} {e : Event} :
    step t e = some t' ↔ e.Enabled t ∧ e.perform t = .ok t' :=
  ite_toOption_eq_some_iff

/-! ## What holds in every run -/

structure Sane (t : TcpClient) : Prop where
  shape : t.connector_.Shape
  accounted : t.connector_.Accounted
  succeeded : t.connector_.state_ = .kConnected ↔ t.succeeded = true
  connected : t.connection_ ≠ none → t.connector_.state_ = .kConnected

variable {t t' : TcpClient} {c c' : Connector}

theorem sane_new : new.Sane where
  shape := Connector.shape_new
  accounted := Connector.accounted_new
  succeeded := by simp [new, Connector.new]
  connected h := absurd rfl h

/-- An attempt that begins has not succeeded. -/
theorem state_startInLoop {e : ConnectErrno} (h : c.startInLoop e = .ok c') :
    c.state_ = .kDisconnected ∧ c'.state_ ≠ .kConnected := by
  obtain ⟨hst, hc⟩ := Connector.startInLoop_eq_ok_iff.mp h
  refine ⟨hst, ?_⟩
  split_ifs at hc
  · rcases Connector.connect_cases c e with heq | heq | heq
    · rw [heq] at hc
      obtain ⟨-, rfl⟩ := Connector.connecting_eq_ok_iff.mp hc
      simp
    · obtain rfl := Except.ok.inj (heq.symm.trans hc)
      rw [Connector.state_retry]
      decide
    · obtain rfl := Except.ok.inj (heq.symm.trans hc)
      rw [show (c.createSocket.close c.created).state_ = c.state_ from rfl, hst]
      decide
  · obtain rfl := Except.ok.inj hc
    rw [hst]
    decide

/-- A step that begins an attempt or does not, from `kDisconnected`. -/
theorem Sane.startInLoop (h : t.Sane) (hsh : c.Shape) (hac : c.Accounted)
    (hst : c.state_ = t.connector_.state_) {e : ConnectErrno} (hc : c.startInLoop e = .ok c')
    (hconn : t'.connection_ = t.connection_) (hs : t'.succeeded = t.succeeded)
    (hc' : t'.connector_ = c') : t'.Sane := by
  subst hc'
  obtain ⟨hdis, hne⟩ := state_startInLoop hc
  have hnot : t.connector_.state_ ≠ .kConnected := by rw [← hst, hdis]; decide
  refine ⟨hsh.startInLoop hc, hac.startInLoop hc, ?_, fun hn => ?_⟩
  · rw [hs, ← h.succeeded]
    exact iff_of_false hne hnot
  · rw [hconn] at hn
    exact absurd (h.connected hn) hnot

/-- A step that leaves `state_`, the connection and the verdict alone. -/
theorem Sane.of_connector (h : t.Sane) (hsh : c.Shape) (hac : c.Accounted)
    (hst : c.state_ = t.connector_.state_) (hconn : t'.connection_ = none ∨
      (t.connection_ = none → t'.connection_ = none)) (hs : t'.succeeded = t.succeeded)
    (hc : t'.connector_ = c) : t'.Sane := by
  subst hc
  refine ⟨hsh, hac, by rw [hst, hs]; exact h.succeeded, fun hn => ?_⟩
  rw [hst]
  rcases hconn with hnone | hkeep
  · exact absurd hnone hn
  · exact h.connected fun h => hn (hkeep h)

theorem Sane.stop (h : t.Sane) (hconn : t'.connection_ = t.connection_)
    (hs : t'.succeeded = t.succeeded) (hc : t'.connector_ = t.connector_.stop) : t'.Sane := by
  obtain ⟨waiting, -, heq⟩ := Connector.stop_eq t.connector_
  refine h.of_connector h.shape.stop ?_ ?_ (Or.inr fun hn => hconn.trans hn) hs hc
  · rw [heq]
    exact h.accounted.of_eq rfl rfl rfl rfl
  · rw [heq]

theorem Sane.dispatch (h : t.Sane) {revents_ : Mask} {err : ℕ} {self : Bool}
    (hat : t.connector_.attempt ≠ none) (hp : t.dispatch revents_ err self = .ok t') :
    t'.Sane := by
  obtain ⟨k, hk⟩ := Option.ne_none_iff_exists'.mp hat
  obtain ⟨hch, -, hst⟩ := h.shape.of_attempt hk
  have hnot : t.connector_.state_ ≠ .kConnected := by rw [hst]; decide
  have hsucc : t.succeeded = false := by
    rw [← Bool.not_eq_true, ← h.succeeded]
    exact hnot
  have hnone : t.connection_ = none := by
    by_contra hne
    exact hnot (h.connected hne)
  rw [TcpClient.dispatch, Connector.handleEvent_eq hst hch, ok_bind] at hp
  generalize hv : Connector.verdict revents_ err self = v at hp
  have hstate : (t.connector_.settle k v).state_ = .kConnected ↔ v = .succeeded := by
    cases v with
    | goesOn => exact iff_of_false hnot (by decide)
    | failed => rw [Connector.settle, Connector.state_retry]; decide
    | succeeded => rw [Connector.settle, Connector.state_succeed]; decide
  have hiff : (t.connector_.settle k v).state_ = .kConnected ↔
      (t.succeeded || decide (v = .succeeded)) = true := by
    rw [hsucc, Bool.false_or, decide_eq_true_iff]
    exact hstate
  split_ifs at hp with hpass
  · obtain rfl := Except.ok.inj hp
    exact ⟨h.shape.settle hch v, h.accounted.settle hk v, hiff, fun hn => absurd hnone hn⟩
  · obtain rfl := Except.ok.inj hp
    have hcon := ((ConnectorLoop.settle_passed t.connector_ k v).resolve_left hpass).1
    exact ⟨h.shape.settle hch v, h.accounted.settle hk v, hiff, fun _ => hcon⟩

theorem Sane.peerClose (h : t.Sane) {savedErrno : ConnectErrno}
    (hp : t.handleClose savedErrno = .ok t') : t'.Sane := by
  obtain ⟨u, hens, hp⟩ := bind_eq_ok_iff.mp hp
  have hst : t.connector_.state_ = .kConnected := by
    refine h.connected fun hn => ?_
    simp [ensure, hn] at hens
  rw [removeConnection] at hp
  split_ifs at hp
  · obtain ⟨c', hc, hp⟩ := bind_eq_ok_iff.mp hp
    obtain rfl := Except.ok.inj hp
    have hat : t.connector_.attempt = none := by
      rw [h.shape.attempt_eq_none_iff, hst]
      decide
    refine ⟨h.shape.restart hat hc, ?_, ?_, fun hn => absurd rfl hn⟩
    · have hac : Connector.Accounted { t.connector_ with
          state_ := .kDisconnected, retryDelayMs_ := Connector.kInitRetryDelayMs,
          connect_ := true } := h.accounted.of_eq rfl rfl rfl rfl
      exact hac.startInLoop hc
    · exact iff_of_false (state_startInLoop hc).2 (by simp)
  · obtain rfl := Except.ok.inj hp
    exact h.of_connector h.shape h.accounted rfl (Or.inl rfl) rfl rfl

theorem Sane.destruct (h : t.Sane) (hc : t.connector_.destruct = .ok c)
    (hconn : t'.connection_ = t.connection_) (hs : t'.succeeded = t.succeeded)
    (hc' : t'.connector_ = c) : t'.Sane := by
  obtain ⟨waiting, -, heq⟩ := Connector.cancel_eq t.connector_
  rw [Connector.destruct, heq] at hc
  obtain ⟨-, -, hc⟩ := bind_eq_ok_iff.mp hc
  obtain rfl := Except.ok.inj hc
  exact h.of_connector (c := { t.connector_ with waiting })
    (h.shape.of_eq rfl rfl Iff.rfl rfl rfl) (h.accounted.of_eq rfl rfl rfl rfl) rfl
    (Or.inr fun hn => hconn.trans hn) hs hc'

/-- **One step.** -/
theorem step_sane {e : Event} (h : t.Sane) (hs : step t e = some t') : t'.Sane := by
  obtain ⟨hen, hp⟩ := step_eq_some_iff.mp hs
  cases e with
  | connect savedErrno =>
    obtain ⟨c', hc, hp⟩ := bind_eq_ok_iff.mp hp
    obtain rfl := Except.ok.inj hp
    have hsh : Connector.Shape { t.connector_ with connect_ := true } :=
      h.shape.of_eq rfl rfl Iff.rfl rfl rfl
    exact h.startInLoop hsh (h.accounted.of_eq rfl rfl rfl rfl) rfl hc rfl rfl rfl
  | disconnect =>
    obtain rfl := Except.ok.inj hp
    refine h.of_connector h.shape h.accounted rfl (Or.inr fun hn => ?_) rfl rfl
    rw [TcpClient.disconnect, hn]
    rfl
  | stop =>
    obtain rfl := Except.ok.inj hp
    exact h.stop rfl rfl rfl
  | enableRetry => obtain rfl := Except.ok.inj hp; exact ⟨h.1, h.2, h.3, h.4⟩
  | poll => obtain rfl := Except.ok.inj hp; exact ⟨h.1, h.2, h.3, h.4⟩
  | dispatch revents_ err self => exact h.dispatch hen.2 hp
  | peerClose savedErrno => exact h.peerClose hp
  | expire i =>
    obtain rfl := Except.ok.inj hp
    exact h.of_connector (c := t.connector_.expire i) (h.shape.of_eq rfl rfl Iff.rfl rfl rfl)
      (h.accounted.of_eq rfl rfl rfl rfl) rfl (Or.inr id) rfl rfl
  | fire savedErrno =>
    obtain ⟨c', hc, hp⟩ := bind_eq_ok_iff.mp hp
    obtain rfl := Except.ok.inj hp
    have hsh : Connector.Shape { t.connector_ with due := t.connector_.due.tail } :=
      h.shape.of_eq rfl rfl Iff.rfl rfl rfl
    exact h.startInLoop hsh (h.accounted.of_eq rfl rfl rfl rfl) rfl hc rfl rfl rfl
  | resetChannel =>
    obtain rfl := Except.ok.inj hp
    exact h.of_connector (h.shape.runReset hen.2) (h.accounted.runReset h.shape hen.2) rfl
      (Or.inr id) rfl rfl
  | destroy =>
    simp only [Event.perform, destroy] at hp
    split_ifs at hp
    · obtain ⟨c', hc, hp⟩ := bind_eq_ok_iff.mp hp
      obtain rfl := Except.ok.inj hp
      exact h.destruct hc rfl rfl rfl
    · obtain rfl := Except.ok.inj hp
      exact h.stop rfl rfl rfl
  | removeConnector =>
    obtain ⟨c', hc, hp⟩ := bind_eq_ok_iff.mp hp
    obtain rfl := Except.ok.inj hp
    exact h.destruct hc rfl rfl rfl

theorem sane_of_run {es : List Event} (h : Run step new es t) : t.Sane :=
  h.inv (P := Sane) (fun _ _ _ ht hs => step_sane ht hs) sane_new

/-! ## Connecting again -/

/-- The client has no connection, no attempt in progress and no retry timer pending. -/
def MayConnect (t : TcpClient) : Prop :=
  t.life = .alive ∧ t.connection_ = none ∧ t.connector_.attempt = none ∧
    t.connector_.waiting = [] ∧ t.connector_.due = []

theorem connect_ne_error (c : Connector) (e : ConnectErrno) :
    c.connect e ≠ .error .startInLoop := by
  rcases Connector.connect_cases c e with heq | heq | heq
  · rw [heq, Connector.connecting, ensure]
    split_ifs <;> simp [pure, Except.pure]
  · simp [heq]
  · simp [heq]

/-- The assertion of `startInLoop` is the first one on the way of `connect`. -/
theorem connect_error_iff {e : ConnectErrno} :
    t.connect e = .error .startInLoop ↔ t.connector_.state_ ≠ .kDisconnected := by
  have hpass : t.connect e = .error .startInLoop ↔ t.connector_.start e = .error .startInLoop := by
    rw [connect]
    cases t.connector_.start e with
    | ok c => simp [pure, Except.pure]
    | error a => simp
  rw [hpass, Connector.start]
  by_cases hst : t.connector_.state_ = .kDisconnected
  · rw [Connector.startInLoop_of_connect (by exact hst) rfl]
    exact iff_of_false (connect_ne_error _ e) (not_not.mpr hst)
  · rw [Connector.startInLoop, ensure_bind_of_not (by exact hst)]
    exact iff_of_true rfl hst

/-- **Connecting again.** After every history, at a `connect()` of a client without connection,
attempt and retry timer, the assertion `state_ == kDisconnected` holds exactly when no attempt has
succeeded since the last `restart()`. -/
theorem connect_asserts_iff {es : List Event} (h : Run step new es t) (hm : t.MayConnect)
    (savedErrno : ConnectErrno) :
    (Event.connect savedErrno).perform t ≠ .error .startInLoop ↔ t.succeeded = false := by
  have hs := sane_of_run h
  have hne := hs.shape.attempt_eq_none_iff.mp hm.2.2.1
  rw [Event.perform, ne_eq, connect_error_iff, not_not, ← Bool.not_eq_true, ← hs.succeeded]
  constructor
  · intro hst
    rw [hst]
    decide
  · intro hst
    cases hc : t.connector_.state_ with
    | kDisconnected => rfl
    | kConnecting => exact absurd hc hne
    | kConnected => exact absurd hc hst

/-- A refused attempt, and a `stop()` before its retry. -/
def refused : List Event :=
  [.connect .EINPROGRESS, .poll, .dispatch (EPOLLERR ||| EPOLLHUP) 111 false, .stop, .resetChannel]

theorem refused_connects : ∃ t, Run step new refused t ∧
    (Event.connect .EINPROGRESS).perform t ≠ .error .startInLoop := by
  have h : (refused.foldlM step new).map (fun t => (t.life, t.connection_, t.connector_.attempt)) =
      some (.alive, none, none) := by decide +kernel
  obtain ⟨t, ht, hq⟩ := Option.map_eq_some_iff.mp h
  simp only [Prod.mk.injEq] at hq
  have h' : (refused.foldlM step new).map (fun t =>
      (t.connector_.waiting, t.connector_.due, t.succeeded)) = some ([], [], false) := by
    decide +kernel
  obtain ⟨t', ht', hq'⟩ := Option.map_eq_some_iff.mp h'
  obtain rfl := Option.some.inj (ht.symm.trans ht')
  simp only [Prod.mk.injEq] at hq'
  exact ⟨t, ht, (connect_asserts_iff ht ⟨hq.1, hq.2.1, hq.2.2, hq'.1, hq'.2.1⟩ _).mpr hq'.2.2⟩

/-- A connection that the peer closes, without `enableRetry()`. -/
def connectAndClose : List Event :=
  [.connect .EINPROGRESS, .poll, .dispatch EPOLLOUT 0 false, .resetChannel, .poll, .peerClose .ok]

theorem connect_after_close : ¬ ∀ t, Run step new connectAndClose t → t.MayConnect →
    (Event.connect .EINPROGRESS).perform t ≠ .error .startInLoop := by
  intro hall
  have h : (connectAndClose.foldlM step new).map (fun t =>
      (t.life, t.connection_, t.connector_.attempt)) = some (.alive, none, none) := by
    decide +kernel
  obtain ⟨t, ht, hq⟩ := Option.map_eq_some_iff.mp h
  simp only [Prod.mk.injEq] at hq
  have h' : (connectAndClose.foldlM step new).map (fun t =>
      (t.connector_.waiting, t.connector_.due, t.connector_.state_)) =
        some ([], [], .kConnected) := by
    decide +kernel
  obtain ⟨t', ht', hq'⟩ := Option.map_eq_some_iff.mp h'
  obtain rfl := Option.some.inj (ht.symm.trans ht')
  simp only [Prod.mk.injEq] at hq'
  refine hall t ht ⟨hq.1, hq.2.1, hq.2.2, hq'.1, hq'.2.1⟩ (connect_error_iff.mpr ?_)
  rw [hq'.2.2]
  decide

end TcpClient

end HighServer
