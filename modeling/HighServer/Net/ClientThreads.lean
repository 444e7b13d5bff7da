import HighServer.Net.TcpClient

/-!
# A client and its two threads

The members of `TcpClient` are called in a thread of the user, and so is the destructor, while the
loop thread runs the callbacks that are bound to the client. Here the handlers of the loop thread
are cut where they read or write what the other thread does, and a functor may run whenever no
handler does. What hangs on the memory of a destroyed client is not looked at: the loop goes on as
if it were still there.

* `ClientThreads`, `step`: the loop thread and the thread of the client;
* `call_eq`, `run_eq`: what a functor does;
* `Sane`: the state of the connector is that of the connections; `step_sane`;
* `Once`: the destructor replaces one close callback at most; `step_once`.
-/

namespace HighServer

/-- Where the loop thread is. -/
inductive Handler where
  /-- in no handler of the client or its connector -/
  | idle
  /-- in `handleWrite`, behind the test of `connect_` -/
  | calling
  /-- in `newConnection`, before the store of `connection_` -/
  | entered
  /-- in `removeConnection`, before the reset of `connection_` -/
  | removing (conn : ℕ)
  /-- before the test of `retry_ && connect_` -/
  | removed
  /-- before `restart` -/
  | restart
  /-- in `startInLoop`, before the test of `connect_` -/
  | startInLoop
  /-- behind it -/
  | connect
  deriving DecidableEq, Repr

namespace Handler

/-- On the way into `newConnection` or `restart`, or in `newConnection`. -/
def goesOn : Handler → Bool
  | .calling | .entered | .restart => true
  | _ => false

/-- Before the test of `retry_ && connect_`. -/
def mayRestart : Handler → Bool
  | .removing _ | .removed => true
  | _ => false

/-- Behind an attempt that has succeeded, or a close. -/
def inClient (h : Handler) : Bool := h.goesOn || h.mayRestart

end Handler

/-- What other threads have put into `pendingFunctors_`. -/
inductive ClientFunctor where
  | startInLoop
  | setCloseCallback (conn : ℕ)
  | cancelInLoop (timerId : Option ℕ)
  /-- of the timer of `removeConnector` -/
  | addTimerInLoop
  deriving DecidableEq, Repr

/-- The connection whose close callback it replaces. -/
def ClientFunctor.conn : ClientFunctor → Option ℕ
  | .setCloseCallback conn => some conn
  | _ => none

/-- Where `~TcpClient` is. -/
inductive ClientDestructor where
  | notCalled
  /-- it has found a connection -/
  | found (conn : ℕ)
  /-- in `~Connector`, which has nobody else to hold it, before the cancel and the assertion -/
  | destroying
  | asserting
  /-- it has found none, and is before the store and the cancel of `Connector::stop` -/
  | stopping
  | cancelling
  /-- before `runAfter` -/
  | adding
  | leaving
  | returned
  deriving DecidableEq, Repr

namespace ClientDestructor

/-- Behind `setCloseCallback`, if it came to it. -/
def replaces : ClientDestructor → Bool
  | .destroying | .asserting | .leaving | .returned => true
  | _ => false

end ClientDestructor

/-- A client with the two threads. Connections are numbered in the order of `newConnection`. -/
structure ClientThreads where
  connector_ : Connector
  retry_ : Bool
  connect_ : Bool
  connection_ : Option ℕ
  /-- how many connections were made -/
  made : ℕ
  /-- those with `state_ == kConnected` that have not closed -/
  connected : List ℕ
  /-- those whose close callback is no longer that of the client -/
  replaced : List ℕ
  pendingFunctors_ : List ClientFunctor
  handler : Handler
  destructor : ClientDestructor
  deriving DecidableEq, Repr

namespace ClientThreads

open Runs

def new : ClientThreads where
  connector_ := Connector.new
  retry_ := false
  connect_ := false
  connection_ := none
  made := 0
  connected := []
  replaced := []
  pendingFunctors_ := []
  handler := .idle
  destructor := .notCalled

inductive Event where
  /-- calls of the user, in the thread of the client -/
  | callConnect
  | callDisconnect
  | callStop
  | callEnableRetry
  /-- the steps of the destructor -/
  | read
  | setCloseCallback (conn : ℕ)
  | stop
  | cancel
  | assertChannel
  | addTimer
  | return_
  /-- the steps of the loop thread -/
  | dispatch (revents_ : Mask) (err : ℕ) (self : Bool)
  | enter
  | install
  | peerClose (conn : ℕ)
  | reset (conn : ℕ)
  | testRetry
  | restart
  | startInLoop
  | connect (savedErrno : ConnectErrno)
  | expire (id : ℕ)
  | fire
  | resetChannel
  | run
  deriving DecidableEq, Repr

/-- A connection closes in a later iteration than that in which it was made. -/
def Event.Enabled (s : ClientThreads) : Event → Prop
  | .callConnect | .callDisconnect | .callStop | .callEnableRetry | .read =>
    s.destructor = .notCalled
  | .setCloseCallback conn => s.destructor = .found conn
  | .stop => s.destructor = .stopping
  | .cancel => s.destructor = .cancelling ∨ s.destructor = .destroying
  | .assertChannel => s.destructor = .asserting
  | .addTimer => s.destructor = .adding
  | .return_ => s.destructor = .leaving
  | .dispatch _ _ _ => s.handler = .idle ∧ s.connector_.attempt ≠ none
  | .enter => s.handler = .calling
  | .install => s.handler = .entered
  | .peerClose conn => s.handler = .idle ∧ conn ∈ s.connected ∧ s.connector_.resets = 0
  | .reset conn => s.handler = .removing conn ∧ s.connection_ = some conn
  | .testRetry => s.handler = .removed
  | .restart => s.handler = .restart
  | .startInLoop => s.handler = .startInLoop
  | .connect _ => s.handler = .connect
  | .expire id => s.handler = .idle ∧ id ∈ s.connector_.waiting
  | .fire => s.handler = .idle ∧ s.connector_.due ≠ []
  | .resetChannel => s.handler = .idle ∧ 0 < s.connector_.resets
  | .run => s.handler = .idle ∧ s.pendingFunctors_ ≠ []

instance (s : ClientThreads) (e : Event) : Decidable (e.Enabled s) :=
  match e with
  | .callConnect | .callDisconnect | .callStop | .callEnableRetry | .read | .setCloseCallback _
  | .stop | .assertChannel | .addTimer | .return_ | .enter | .install | .testRetry | .restart
  | .startInLoop | .connect _ => inferInstanceAs (Decidable (_ = _))
  | .cancel => inferInstanceAs (Decidable (_ ∨ _))
  | .dispatch _ _ _ | .peerClose _ | .reset _ | .expire _ | .fire | .resetChannel | .run =>
    inferInstanceAs (Decidable (_ ∧ _))

def queueInLoop (s : ClientThreads) (cb : ClientFunctor) : ClientThreads :=
  { s with pendingFunctors_ := s.pendingFunctors_ ++ [cb] }

/-- A functor is called. -/
def call (s : ClientThreads) : ClientFunctor → ClientThreads
  | .startInLoop => { s with handler := .startInLoop }
  | .setCloseCallback conn => { s with replaced := conn :: s.replaced }
  | .cancelInLoop none => s
  | .cancelInLoop (some id) =>
    { s with connector_ := { s.connector_ with
        waiting := s.connector_.waiting.filter (· ≠ id) } }
  | .addTimerInLoop => s

def Event.perform (s : ClientThreads) : Event → Outcome ClientThreads
  | .callConnect => pure (queueInLoop
      { s with connect_ := true, connector_ := { s.connector_ with connect_ := true } }
      .startInLoop)
  | .callDisconnect => pure { s with
      connect_ := false
      connected := s.connected.filter fun conn => s.connection_ ≠ some conn }
  | .callStop => pure (queueInLoop
      { s with connect_ := false, connector_ := { s.connector_ with connect_ := false } }
      (.cancelInLoop s.connector_.timerId_))
  | .callEnableRetry => pure { s with retry_ := true }
  | .read => pure { s with
      destructor := match s.connection_ with
        | some conn => .found conn
        | none => .stopping }
  | .setCloseCallback conn => pure { s.queueInLoop (.setCloseCallback conn) with
      destructor := .destroying }
  | .stop => pure { s with
      connector_ := { s.connector_ with connect_ := false }
      destructor := .cancelling }
  | .cancel => pure { s.queueInLoop (.cancelInLoop s.connector_.timerId_) with
      destructor := if s.destructor = .cancelling then .adding else .asserting }
  | .assertChannel => do
    ensure (s.connector_.channel_ = none) .destructConnector
    pure { s with destructor := .leaving }
  | .addTimer => pure { s.queueInLoop .addTimerInLoop with destructor := .leaving }
  | .return_ => pure { s with destructor := .returned }
  | .dispatch revents_ err self => do
    let c ← s.connector_.handleEvent revents_ err self
    pure { s with
      connector_ := c
      handler := if c.passed = s.connector_.passed then .idle else .calling }
  | .enter => pure { s with handler := .entered }
  | .install => pure { s with
      connection_ := some s.made
      made := s.made + 1
      connected := s.connected ++ [s.made]
      handler := .idle }
  | .peerClose conn => pure { s with
      connected := s.connected.erase conn
      handler := if conn ∈ s.replaced then .idle else .removing conn }
  | .reset _ => pure { s with connection_ := none, handler := .removed }
  | .testRetry => pure { s with handler := if s.retry_ && s.connect_ then .restart else .idle }
  | .restart => pure { s with
      connector_ := { s.connector_ with
        state_ := .kDisconnected
        retryDelayMs_ := Connector.kInitRetryDelayMs
        connect_ := true }
      handler := .startInLoop }
  | .startInLoop => do
    ensure (s.connector_.state_ = .kDisconnected) .startInLoop
    pure { s with handler := if s.connector_.connect_ then .connect else .idle }
  | .connect savedErrno => do
    let c ← s.connector_.connect savedErrno
    pure { s with connector_ := c, handler := .idle }
  | .expire id => pure { s with connector_ := s.connector_.expire id }
  | .fire => pure { s with
      connector_ := { s.connector_ with due := s.connector_.due.tail }
      handler := .startInLoop }
  | .resetChannel => pure { s with connector_ := s.connector_.runReset }
  | .run =>
    match s.pendingFunctors_ with
    | [] => pure s
    | cb :: rest => pure (call { s with pendingFunctors_ := rest } cb)

def step (s : ClientThreads) (e : Event) : Option ClientThreads :=
  if e.Enabled s then (e.perform s).toOption else none

theorem step_eq_some_iff {s s' : ClientThreads} {e : Event} :
    step s e = some s' ↔ e.Enabled s ∧ e.perform s = .ok s' :=
  ite_toOption_eq_some_iff

/-! ## What holds in every run -/

/-- The connections whose close callback is replaced, or going to be. -/
def callbacks (s : ClientThreads) : List ℕ :=
  s.replaced ++ s.pendingFunctors_.filterMap ClientFunctor.conn

/-- The connector's state is that of the connections; there is one at most, and none while one is
made or removed. -/
structure Sane (s : ClientThreads) : Prop where
  shape : s.connector_.Shape
  connecting : s.handler = .connect → s.connector_.state_ = .kDisconnected
  state : s.connected ≠ [] ∨ s.handler.inClient = true → s.connector_.state_ = .kConnected
  single : s.connected.length ≤ 1
  alone : s.handler.inClient = true → s.connected = []
  current : ∀ conn, conn ∈ s.connected ∨ s.handler = .removing conn → s.connection_ = some conn

variable {s s' : ClientThreads} {e : Event}

theorem sane_new : new.Sane where
  shape := Connector.shape_new
  connecting h := by cases h
  state h := h.elim (absurd rfl) fun h => by cases h
  single := Nat.zero_le _
  alone _ := rfl
  current conn h := h.elim (fun h => by cases h) fun h => by cases h

/-- A step that leaves `state_`, `connection_` and the loop thread alone. -/
theorem Sane.of_eq (h : s.Sane) (hc : s'.connector_.Shape)
    (hst : s'.connector_.state_ = s.connector_.state_) (hcon : s'.connected.Sublist s.connected)
    (hconn : s'.connection_ = s.connection_) (hh : s'.handler = s.handler) : s'.Sane := by
  refine ⟨hc, ?_, fun hs => ?_, hcon.length_le.trans h.single, fun hs => ?_, fun conn hs => ?_⟩
  · rw [hh, hst]
    exact h.connecting
  · rw [hh] at hs
    rw [hst]
    exact h.state (hs.imp_left fun hne hnil => hne (List.sublist_nil.mp (hnil ▸ hcon)))
  · rw [hh] at hs
    exact List.sublist_nil.mp (h.alone hs ▸ hcon)
  · rw [hh] at hs
    rw [hconn]
    exact h.current conn (hs.imp_left fun hm => hcon.subset hm)

/-- A step of the loop thread that leaves the client alone. -/
theorem Sane.of_handler (h : s.Sane) (hh : s'.handler.inClient = false)
    (hst : s'.connected ≠ [] → s'.connector_.state_ = .kConnected)
    (hct : s'.handler = .connect → s'.connector_.state_ = .kDisconnected)
    (hc : s'.connector_.Shape) (hcon : s'.connected = s.connected)
    (hconn : s'.connection_ = s.connection_) : s'.Sane := by
  refine ⟨hc, hct, fun hs => hs.elim hst fun ht => ?_, hcon ▸ h.single, fun ht => ?_,
    fun conn hs => ?_⟩
  · rw [hh] at ht
    cases ht
  · rw [hh] at ht
    cases ht
  · rw [hcon] at hs
    rw [hconn]
    refine h.current conn (hs.imp_right fun hr => ?_)
    rw [hr] at hh
    cases hh

theorem Sane.connected_eq_nil (h : s.Sane) (hst : s.connector_.state_ ≠ .kConnected) :
    s.connected = [] :=
  by_contra fun hne => hst (h.state (Or.inl hne))

theorem Sane.dispatch (h : s.Sane) {revents_ : Mask} {err : ℕ} {self : Bool}
    (hen : (Event.dispatch revents_ err self).Enabled s)
    (hp : (Event.dispatch revents_ err self).perform s = .ok s') : s'.Sane := by
  obtain ⟨hidle, hat⟩ := hen
  obtain ⟨k, hk⟩ := Option.ne_none_iff_exists'.mp hat
  obtain ⟨hch, -, hst⟩ := h.shape.of_attempt hk
  have hnone := h.connected_eq_nil (by rw [hst]; decide)
  simp only [Event.perform, Connector.handleEvent_eq hst hch, ok_bind] at hp
  generalize Connector.verdict revents_ err self = v at hp
  obtain rfl := Except.ok.inj hp
  by_cases hpass : (s.connector_.settle k v).passed = s.connector_.passed
  · have hh : (if (s.connector_.settle k v).passed = s.connector_.passed then Handler.idle
        else .calling) = .idle := if_pos hpass
    exact h.of_handler (by rw [hh]; rfl) (fun hne => absurd hnone hne)
      (fun hc => by rw [hh] at hc; cases hc) (h.shape.settle hch v) rfl rfl
  · have hh : (if (s.connector_.settle k v).passed = s.connector_.passed then Handler.idle
        else .calling) = .calling := if_neg hpass
    have hcon := ((ConnectorLoop.settle_passed s.connector_ k v).resolve_left hpass).1
    refine ⟨h.shape.settle hch v, fun hc => ?_, fun _ => hcon, h.single, fun _ => hnone,
      fun conn hc => ?_⟩
    · rw [hh] at hc
      cases hc
    · rcases hc with hc | hc
      · rw [hnone] at hc
        cases hc
      · rw [hh] at hc
        cases hc

/-- What a functor does. -/
theorem call_eq (s : ClientThreads) (cb : ClientFunctor) : ∃ waiting,
    waiting.Sublist s.connector_.waiting ∧ s.call cb =
      { s with
        connector_ := { s.connector_ with waiting }
        replaced := cb.conn.toList ++ s.replaced
        handler := if cb = .startInLoop then .startInLoop else s.handler } := by
  cases cb with
  | startInLoop => exact ⟨_, List.Sublist.refl _, rfl⟩
  | setCloseCallback conn => exact ⟨_, List.Sublist.refl _, rfl⟩
  | cancelInLoop timerId =>
    cases timerId with
    | none => exact ⟨_, List.Sublist.refl _, rfl⟩
    | some id => exact ⟨_, List.filter_sublist, rfl⟩
  | addTimerInLoop => exact ⟨_, List.Sublist.refl _, rfl⟩

/-- The first functor is called. -/
theorem run_eq (hen : Event.run.Enabled s) (hp : Event.run.perform s = .ok s') :
    ∃ cb rest waiting, s.pendingFunctors_ = cb :: rest ∧ waiting.Sublist s.connector_.waiting ∧
      s' = { s with
        connector_ := { s.connector_ with waiting }
        replaced := cb.conn.toList ++ s.replaced
        pendingFunctors_ := rest
        handler := if cb = .startInLoop then .startInLoop else .idle } := by
  obtain ⟨cb, rest, hcb⟩ := List.exists_cons_of_ne_nil hen.2
  simp only [Event.perform, hcb] at hp
  obtain rfl := Except.ok.inj hp
  obtain ⟨waiting, hsub, heq⟩ := call_eq { s with pendingFunctors_ := rest } cb
  refine ⟨cb, rest, waiting, hcb, hsub, heq.trans ?_⟩
  dsimp only
  rw [hen.1]

theorem Sane.peerClose (h : s.Sane) {conn : ℕ} (hen : (Event.peerClose conn).Enabled s)
    (hp : (Event.peerClose conn).perform s = .ok s') : s'.Sane := by
  obtain rfl := Except.ok.inj hp
  have hst := h.state (Or.inl (List.ne_nil_of_mem hen.2.1))
  have hnil : s.connected.erase conn = [] := by
    have hlen := List.length_erase_of_mem hen.2.1
    have := h.single
    exact List.eq_nil_of_length_eq_zero (by omega)
  refine ⟨h.shape, fun hc => ?_, fun _ => hst, ?_, fun _ => hnil, fun c hc => ?_⟩
  · dsimp only at hc
    split_ifs at hc
  · dsimp only
    rw [hnil]
    exact Nat.zero_le _
  · dsimp only at hc ⊢
    rw [hnil] at hc
    have hr := hc.resolve_left (List.not_mem_nil)
    split_ifs at hr
    obtain rfl := Handler.removing.inj hr
    exact h.current _ (Or.inl hen.2.1)

theorem Sane.run (h : s.Sane) (hen : Event.run.Enabled s) (hp : Event.run.perform s = .ok s') :
    s'.Sane := by
  obtain ⟨cb, rest, waiting, -, -, rfl⟩ := run_eq hen hp
  refine h.of_handler ?_ (fun hne => h.state (Or.inl hne)) (fun hc => ?_)
    (h.shape.of_eq rfl rfl Iff.rfl rfl rfl) rfl rfl
  · dsimp only
    split_ifs
    · rfl
    · rfl
  · dsimp only at hc
    split_ifs at hc

/-- **One step.** -/
theorem step_sane (h : s.Sane) (hs : step s e = some s') : s'.Sane := by
  obtain ⟨hen, hp⟩ := step_eq_some_iff.mp hs
  cases e with
  | callConnect | callStop | stop =>
    obtain rfl := Except.ok.inj hp
    exact h.of_eq (h.shape.of_eq rfl rfl Iff.rfl rfl rfl) rfl (List.Sublist.refl _) rfl rfl
  | callDisconnect =>
    obtain rfl := Except.ok.inj hp
    exact h.of_eq h.shape rfl List.filter_sublist rfl rfl
  | callEnableRetry | read | setCloseCallback | cancel | addTimer | return_ =>
    obtain rfl := Except.ok.inj hp
    exact h.of_eq h.shape rfl (List.Sublist.refl _) rfl rfl
  | assertChannel =>
    obtain ⟨-, hp⟩ := ensure_bind_eq_ok_iff.mp hp
    obtain rfl := Except.ok.inj hp
    exact h.of_eq h.shape rfl (List.Sublist.refl _) rfl rfl
  | dispatch revents_ err self => exact h.dispatch hen hp
  | enter =>
    obtain rfl := Except.ok.inj hp
    have hin : s.handler.inClient = true := by rw [show s.handler = .calling from hen]; rfl
    exact ⟨h.shape, fun hc => (by cases hc), fun _ => h.state (Or.inr hin), h.single,
      fun _ => h.alone hin, fun conn hc => h.current conn (hc.imp_right fun hr => (by cases hr))⟩
  | install =>
    obtain rfl := Except.ok.inj hp
    have hin : s.handler.inClient = true := by rw [show s.handler = .entered from hen]; rfl
    refine ⟨h.shape, fun hc => (by cases hc), fun _ => h.state (Or.inr hin), ?_,
      fun hc => (by cases hc), fun conn hc => ?_⟩
    · dsimp only
      rw [h.alone hin]
      exact le_rfl
    · dsimp only at hc ⊢
      rw [h.alone hin, List.nil_append, List.mem_singleton] at hc
      rw [hc.resolve_right fun hr => by cases hr]
  | peerClose conn => exact h.peerClose hen hp
  | reset conn =>
    obtain rfl := Except.ok.inj hp
    have hin : s.handler.inClient = true := by rw [hen.1]; rfl
    refine ⟨h.shape, fun hc => (by cases hc), fun _ => h.state (Or.inr hin), h.single,
      fun _ => h.alone hin, fun c hc => ?_⟩
    dsimp only at hc
    rw [h.alone hin] at hc
    rcases hc with hc | hc
    · cases hc
    · cases hc
  | testRetry =>
    obtain rfl := Except.ok.inj hp
    have hin : s.handler.inClient = true := by rw [show s.handler = .removed from hen]; rfl
    refine ⟨h.shape, fun hc => ?_, fun _ => h.state (Or.inr hin), h.single, fun _ => h.alone hin,
      fun c hc => h.current c (hc.imp_right fun hr => ?_)⟩
    · dsimp only at hc
      split_ifs at hc
    · dsimp only at hr
      split_ifs at hr
  | restart =>
    obtain rfl := Except.ok.inj hp
    have hin : s.handler.inClient = true := by rw [show s.handler = .restart from hen]; rfl
    have hst := h.state (Or.inr hin)
    refine h.of_handler rfl (fun hne => absurd (h.alone hin) hne) (fun _ => rfl) ?_ rfl rfl
    exact h.shape.of_eq rfl rfl (iff_of_false (by simp) (by rw [hst]; decide)) rfl rfl
  | startInLoop =>
    obtain ⟨hst, hp⟩ := ensure_bind_eq_ok_iff.mp hp
    obtain rfl := Except.ok.inj hp
    refine h.of_handler ?_ (fun hne => h.state (Or.inl hne)) (fun _ => hst) h.shape rfl rfl
    dsimp only
    split_ifs
    · rfl
    · rfl
  | connect savedErrno =>
    obtain ⟨c, hc, hp⟩ := bind_eq_ok_iff.mp hp
    obtain rfl := Except.ok.inj hp
    have hst := h.connecting hen
    have hnone := h.connected_eq_nil (by rw [hst]; decide)
    exact h.of_handler rfl (fun hne => absurd hnone hne) (fun hc => by cases hc)
      (h.shape.connect (by rw [hst]; decide) hc) rfl rfl
  | expire id =>
    obtain rfl := Except.ok.inj hp
    exact h.of_eq (h.shape.of_eq rfl rfl Iff.rfl rfl rfl) rfl (List.Sublist.refl _) rfl rfl
  | fire =>
    obtain rfl := Except.ok.inj hp
    exact h.of_handler rfl (fun hne => h.state (Or.inl hne)) (fun hc => by cases hc)
      (h.shape.of_eq rfl rfl Iff.rfl rfl rfl) rfl rfl
  | resetChannel =>
    obtain rfl := Except.ok.inj hp
    exact h.of_eq (h.shape.runReset hen.2) rfl (List.Sublist.refl _) rfl rfl
  | run => exact h.run hen hp

theorem sane_of_run {es : List Event} (h : Run step new es s) : s.Sane :=
  h.inv (P := Sane) (fun _ _ _ ht hs => step_sane ht hs) sane_new

/-- One close callback is replaced at most, and only by the destructor. -/
structure Once (s : ClientThreads) : Prop where
  known : ∀ conn, s.connection_ = some conn ∨ s.destructor = .found conn ∨ conn ∈ s.callbacks →
    conn < s.made
  single : s.callbacks.length ≤ 1
  before : s.destructor.replaces = false → s.callbacks = []

theorem once_new : new.Once where
  known conn h := h.elim (fun h => by cases h) fun h => h.elim (fun h => by cases h)
    fun h => by cases h
  single := Nat.zero_le _
  before _ := rfl

/-- A step that replaces no callback. -/
theorem Once.of_perm (h : s.Once) (hm : s.made ≤ s'.made)
    (hconn : ∀ conn, s'.connection_ = some conn → s.connection_ = some conn ∨ conn < s'.made)
    (hd : s'.destructor = s.destructor ∨ ∀ conn, s'.destructor = .found conn →
      s.connection_ = some conn)
    (hr : s'.destructor.replaces = false → s.destructor.replaces = false)
    (hcb : s'.callbacks.Perm s.callbacks) : s'.Once := by
  refine ⟨fun conn hk => ?_, hcb.length_eq ▸ h.single, fun hb => ?_⟩
  · rcases hk with hk | hk | hk
    · rcases hconn conn hk with hk | hk
      · exact (h.known conn (Or.inl hk)).trans_le hm
      · exact hk
    · rcases hd with hd | hd
      · exact (h.known conn (Or.inr (Or.inl (hd.symm.trans hk)))).trans_le hm
      · exact (h.known conn (Or.inl (hd conn hk))).trans_le hm
    · exact (h.known conn (Or.inr (Or.inr (hcb.mem_iff.mp hk)))).trans_le hm
  · exact List.perm_nil.mp (h.before (hr hb) ▸ hcb)

theorem callbacks_queueInLoop (s : ClientThreads) (cb : ClientFunctor) :
    (s.queueInLoop cb).callbacks = s.callbacks ++ cb.conn.toList := by
  rw [callbacks, queueInLoop, List.filterMap_append, ← List.append_assoc]
  cases cb <;> rfl

/-- **One step.** -/
theorem step_once (h : s.Once) (hs : step s e = some s') : s'.Once := by
  obtain ⟨hen, hp⟩ := step_eq_some_iff.mp hs
  cases e with
  | callConnect | callStop =>
    obtain rfl := Except.ok.inj hp
    refine h.of_perm le_rfl (fun _ => Or.inl) (Or.inl rfl) id ?_
    rw [callbacks_queueInLoop]
    exact List.Perm.of_eq (List.append_nil _)
  | read =>
    obtain rfl := Except.ok.inj hp
    refine h.of_perm le_rfl (fun _ => Or.inl) (Or.inr fun conn hc => ?_) (fun _ => ?_)
      (List.Perm.refl _)
    · dsimp only at hc
      split at hc
      · next c hconn => rw [hconn, ClientDestructor.found.inj hc]
      · cases hc
    · rw [show s.destructor = .notCalled from hen]
      rfl
  | setCloseCallback conn =>
    obtain rfl := Except.ok.inj hp
    have hnil : s.callbacks = [] := h.before (by rw [show s.destructor = .found conn from hen]; rfl)
    have hcb : (s.queueInLoop (.setCloseCallback conn)).callbacks = [conn] := by
      rw [callbacks_queueInLoop, hnil]
      rfl
    refine ⟨fun c hk => ?_, hcb ▸ le_rfl, fun hb => by cases hb⟩
    rcases hk with hk | hk | hk
    · exact h.known c (Or.inl hk)
    · cases hk
    · obtain rfl := List.mem_singleton.mp (hcb ▸ hk : c ∈ [conn])
      exact h.known c (Or.inr (Or.inl hen))
  | stop =>
    obtain rfl := Except.ok.inj hp
    refine h.of_perm le_rfl (fun _ => Or.inl) (Or.inr fun conn hc => by cases hc) (fun _ => ?_)
      (List.Perm.refl _)
    rw [show s.destructor = .stopping from hen]
    rfl
  | cancel =>
    obtain rfl := Except.ok.inj hp
    refine h.of_perm le_rfl (fun _ => Or.inl) (Or.inr fun conn hc => ?_) (fun hb => ?_) ?_
    · dsimp only at hc
      split_ifs at hc
    · dsimp only at hb
      split_ifs at hb with hcan
      · rw [hcan]
        rfl
      · cases hb
    · exact List.Perm.of_eq ((callbacks_queueInLoop s _).trans (List.append_nil _))
  | assertChannel =>
    obtain ⟨-, hp⟩ := ensure_bind_eq_ok_iff.mp hp
    obtain rfl := Except.ok.inj hp
    exact h.of_perm le_rfl (fun _ => Or.inl) (Or.inr fun conn hc => by cases hc)
      (fun hb => by cases hb) (List.Perm.refl _)
  | addTimer =>
    obtain rfl := Except.ok.inj hp
    refine h.of_perm le_rfl (fun _ => Or.inl) (Or.inr fun conn hc => by cases hc)
      (fun hb => by cases hb) ?_
    exact List.Perm.of_eq ((callbacks_queueInLoop s _).trans (List.append_nil _))
  | return_ =>
    obtain rfl := Except.ok.inj hp
    exact h.of_perm le_rfl (fun _ => Or.inl) (Or.inr fun conn hc => by cases hc)
      (fun hb => by cases hb) (List.Perm.refl _)
  | dispatch | startInLoop | connect =>
    obtain ⟨_, -, hp⟩ := bind_eq_ok_iff.mp hp
    obtain rfl := Except.ok.inj hp
    exact h.of_perm le_rfl (fun _ => Or.inl) (Or.inl rfl) id (List.Perm.refl _)
  | install =>
    obtain rfl := Except.ok.inj hp
    refine h.of_perm (Nat.le_succ _) (fun conn hc => Or.inr ?_) (Or.inl rfl) id (List.Perm.refl _)
    obtain rfl := Option.some.inj hc
    exact Nat.lt_succ_self _
  | reset =>
    obtain rfl := Except.ok.inj hp
    exact h.of_perm le_rfl (fun conn hc => by cases hc) (Or.inl rfl) id (List.Perm.refl _)
  | callDisconnect | callEnableRetry | enter | peerClose | testRetry | restart | expire | fire
  | resetChannel =>
    obtain rfl := Except.ok.inj hp
    exact h.of_perm le_rfl (fun _ => Or.inl) (Or.inl rfl) id (List.Perm.refl _)
  | run =>
    obtain ⟨cb, rest, waiting, hcb, -, rfl⟩ := run_eq hen hp
    refine h.of_perm le_rfl (fun _ => Or.inl) (Or.inl rfl) id ?_
    rw [callbacks, callbacks, hcb]
    cases cb with
    | setCloseCallback conn => exact List.perm_middle.symm
    | _ => exact List.Perm.refl _

theorem once_of_run {es : List Event} (h : Run step new es s) : s.Once :=
  h.inv (P := Once) (fun _ _ _ ht hs => step_once ht hs) once_new

end ClientThreads

end HighServer
