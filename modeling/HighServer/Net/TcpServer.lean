import HighServer.Net.FunctorQueue
import HighServer.Net.InLoop
import HighServer.Net.Wakeup

/-!
# The server and its loops

A `TcpServer` with its base loop, `n` I/O loops (none of them: the base loop does their work) and
application threads `T` that hold copies of the pointers to its connections. A connection is named
by the `nextConnId_` that it was made with; a handler or a functor of one loop runs in one step, up
to a `wakeup` of another loop, which is a step of its own.

* `newConnection`, `removeConnection`, `removeConnectionInLoop`: the members of `TcpServer`;
* `handleClose`, `handleRead`, `connectEstablished`, `connectDestroyed`: those of `TcpConnection`,
  each in a loop; `call`: what a functor does;
* `Owned`: some `shared_ptr` holds the connection;
* `act`, `step`: the transition system;
* `queue`: the functors that a loop has still to call. `queue_queueInLoop`, `queue_turn`,
  `queue_run` say how the steps change it;
* `act_poll_eq_some`, …: what each event does, when it can happen.
-/

namespace HighServer

/-- The base loop is `none`. -/
abbrev LoopId (n : ℕ) := Option (Fin n)

/-- `EventLoopThreadPool`, started with `n` threads. -/
structure EventLoopThreadPool (n : ℕ) where
  next_ : ℕ
  next_lt : 0 < n → next_ < n

def EventLoopThreadPool.new (n : ℕ) : EventLoopThreadPool n := ⟨0, id⟩

/-- The next I/O loop in turn, or the base loop if there is none. -/
def EventLoopThreadPool.getNextLoop {n : ℕ} (p : EventLoopThreadPool n) :
    LoopId n × EventLoopThreadPool n :=
  if h : 0 < n then
    (some ⟨p.next_, p.next_lt h⟩, ⟨(p.next_ + 1) % n, fun h => Nat.mod_lt _ h⟩)
  else (none, p)

/-- A functor in a loop. The first four are bound to a `shared_ptr`, the last two to a raw `this`;
`late` says whether `connectDestroyed` had been queued before. -/
inductive ConnFunctor where
  | connectEstablished (c : ℕ)
  | removeConnectionInLoop (c : ℕ)
  | connectDestroyed (c : ℕ)
  | writeComplete (c : ℕ)
  | sendInLoop (c : ℕ) (message : Bytes) (late : Bool)
  | shutdownInLoop (c : ℕ) (late : Bool)
  deriving DecidableEq, Repr

/-- The functor is bound to a `shared_ptr` to the connection. -/
def ConnFunctor.holds (c : ℕ) : ConnFunctor → Bool
  | .connectEstablished d => d = c
  | .removeConnectionInLoop d => d = c
  | .connectDestroyed d => d = c
  | .writeComplete d => d = c
  | .sendInLoop _ _ _ => false
  | .shutdownInLoop _ _ => false

/-- The connection that a functor with a raw `this` is bound to, and whether it is late. -/
def ConnFunctor.raw : ConnFunctor → Option (ℕ × Bool)
  | .sendInLoop c _ late => some (c, late)
  | .shutdownInLoop c late => some (c, late)
  | _ => none

/-- A connection of the server. The `poller` of `tcp` is its own part of the interest list of
`loop_`, since the descriptors of live connections are distinct. -/
structure Conn (n : ℕ) where
  name_ : String
  loop_ : LoopId n
  tcp : TcpConnection
  /-- how often `connectEstablished`, `removeConnectionInLoop` and `connectDestroyed` have run -/
  established : ℕ
  removed : ℕ
  destroyed : ℕ

/-- A channel of `activeChannels_`, with the callbacks that are left of its event set. -/
structure Dispatch where
  conn : ℕ
  todo : List Channel.Callback
  /-- whether `handleClose` was among those that have run -/
  reported : Bool
  deriving DecidableEq, Repr

/-- What an application thread is doing. -/
inductive App where
  | idle
  /-- it holds a copy of a pointer -/
  | holding (c : ℕ)
  /-- in `send`, which has found `kConnected` -/
  | sending (c : ℕ) (message : Bytes)
  /-- in `shutdown`, which has found `kConnected` -/
  | stopping (c : ℕ)
  /-- in `shutdown`, which has stored `kDisconnected` -/
  | stopped (c : ℕ)
  deriving DecidableEq, Repr

def App.conn : App → Option ℕ
  | .idle => none
  | .holding c => some c
  | .sending c _ => some c
  | .stopping c => some c
  | .stopped c => some c

structure TcpServer (n : ℕ) (T : Type) where
  name_ : String
  /-- whether `writeCompleteCallback_` is set -/
  writeCompleteCallback_ : Bool
  threadPool_ : EventLoopThreadPool n
  nextConnId_ : ℕ
  connections_ : List (String × ℕ)
  conns : ℕ → Conn n
  loops : LoopId n → EventLoop (LoopId n ⊕ T) ConnFunctor
  /-- the vectors `functions` of `doPendingFunctors`, which live until it returns -/
  functions : LoopId n → List ConnFunctor
  /-- the rest of `activeChannels_`, that being handled first -/
  active : LoopId n → List Dispatch
  apps : T → App

namespace EventLoop

variable {T F : Type} [DecidableEq T]

/-- `queueInLoop` of another thread, up to the end of the critical section. -/
def queueInLoopFrom (l : EventLoop T F) (t : T) (cb : F) : EventLoop T F :=
  { l.pushBack cb with callers := Function.update l.callers t .pushed }

end EventLoop

namespace TcpServer

open Runs

variable {n : ℕ} {T : Type}

/-- The constructor, and `start` with `n` threads. -/
def new (n : ℕ) (T : Type) (name_ : String) (writeCompleteCallback_ : Bool) : TcpServer n T where
  name_
  writeCompleteCallback_
  threadPool_ := .new n
  nextConnId_ := 1
  connections_ := []
  conns c := ⟨"", none, TcpConnection.new (fun _ => none) c 0 false, 0, 0, 0⟩
  loops _ := EventLoop.new
  functions _ := []
  active _ := []
  apps _ := .idle

/-- The connection has been made. -/
def Accepted (s : TcpServer n T) (c : ℕ) : Prop := 1 ≤ c ∧ c < s.nextConnId_

instance (s : TcpServer n T) (c : ℕ) : Decidable (s.Accepted c) :=
  inferInstanceAs (Decidable (_ ∧ _))

def setConn (s : TcpServer n T) (c : ℕ) (k : Conn n) : TcpServer n T :=
  { s with conns := Function.update s.conns c k }

def setLoop (s : TcpServer n T) (ℓ : LoopId n) (l : EventLoop (LoopId n ⊕ T) ConnFunctor) :
    TcpServer n T :=
  { s with loops := Function.update s.loops ℓ l }

/-- An operation on a connection. -/
def onTcp (s : TcpServer n T) (c : ℕ) (f : TcpConnection → Outcome TcpConnection) :
    Outcome (TcpServer n T) := do
  let tcp ← f (s.conns c).tcp
  pure (s.setConn c { s.conns c with tcp })

variable [DecidableEq T]

/-- `queueInLoop` of the loop `ℓ`, called in the thread `t`. -/
def queueInLoop (s : TcpServer n T) (t : LoopId n ⊕ T) (ℓ : LoopId n) (cb : ConnFunctor) :
    TcpServer n T :=
  s.setLoop ℓ (if t = .inl ℓ then (s.loops ℓ).queueInLoop cb else (s.loops ℓ).queueInLoopFrom t cb)

/-- `runInLoop` of the loop `ℓ`, called in the thread of the loop `t`; `body` is what `cb` does. -/
def runInLoop (s : TcpServer n T) (t ℓ : LoopId n) (cb : ConnFunctor)
    (body : TcpServer n T → Outcome (TcpServer n T)) : Outcome (TcpServer n T) :=
  if t = ℓ then body s else pure (s.queueInLoop (.inl t) ℓ cb)

/-! ## Opening -/

def connectEstablished (s : TcpServer n T) (ℓ : LoopId n) (c : ℕ) : Outcome (TcpServer n T) := do
  ensure (ℓ = (s.conns c).loop_) .assertInLoopThread
  let tcp ← (s.conns c).tcp.connectEstablished pure
  pure (s.setConn c { s.conns c with tcp, established := (s.conns c).established + 1 })

/-- The name of a new connection. -/
def connName (s : TcpServer n T) (c : ℕ) : String := s.name_ ++ ("#" ++ toString c)

/-- `newConnection` up to `runInLoop`: the connection is made and put into the map. -/
def insert (s : TcpServer n T) (sockfd : ℕ) : TcpServer n T :=
  { s with
    nextConnId_ := s.nextConnId_ + 1
    threadPool_ := s.threadPool_.getNextLoop.2
    connections_ := (s.connName s.nextConnId_, s.nextConnId_) ::
      s.connections_.filter (·.1 ≠ s.connName s.nextConnId_)
    conns := Function.update s.conns s.nextConnId_
      { name_ := s.connName s.nextConnId_
        loop_ := s.threadPool_.getNextLoop.1
        tcp := TcpConnection.new (fun _ => none) s.nextConnId_ sockfd s.writeCompleteCallback_
        established := 0
        removed := 0
        destroyed := 0 } }

def newConnection (s : TcpServer n T) (sockfd : ℕ) : Outcome (TcpServer n T) :=
  (s.insert sockfd).runInLoop none s.threadPool_.getNextLoop.1 (.connectEstablished s.nextConnId_)
    fun s' => s'.connectEstablished none s.nextConnId_

/-! ## Closing -/

def connectDestroyed (s : TcpServer n T) (ℓ : LoopId n) (c : ℕ) : Outcome (TcpServer n T) := do
  ensure (ℓ = (s.conns c).loop_) .assertInLoopThread
  let tcp ← (s.conns c).tcp.connectDestroyed pure
  pure (s.setConn c { s.conns c with tcp, destroyed := (s.conns c).destroyed + 1 })

/-- `connections_.erase(name)` -/
def erase (s : TcpServer n T) (name : String) : List (String × ℕ) × ℕ :=
  (s.connections_.filter (·.1 ≠ name), (s.connections_.filter (·.1 = name)).length)

/-- The connection is taken out of the map. -/
def takeOut (s : TcpServer n T) (c : ℕ) : TcpServer n T :=
  { s with
    connections_ := (s.erase (s.conns c).name_).1
    conns := Function.update s.conns c { s.conns c with removed := (s.conns c).removed + 1 } }

def removeConnectionInLoop (s : TcpServer n T) (ℓ : LoopId n) (c : ℕ) :
    Outcome (TcpServer n T) := do
  ensure (ℓ = none) .assertInLoopThread
  ensure ((s.erase (s.conns c).name_).2 = 1) .removeConnection
  pure ((s.takeOut c).queueInLoop (.inl ℓ) (s.conns c).loop_ (.connectDestroyed c))

def removeConnection (s : TcpServer n T) (ℓ : LoopId n) (c : ℕ) : Outcome (TcpServer n T) :=
  s.runInLoop ℓ none (.removeConnectionInLoop c) fun s => s.removeConnectionInLoop ℓ c

/-- `TcpConnection::handleClose`; `closeCallback_` is `removeConnection`. -/
def handleClose (s : TcpServer n T) (ℓ : LoopId n) (c : ℕ) : Outcome (TcpServer n T) := do
  ensure (ℓ = (s.conns c).loop_) .assertInLoopThread
  ensure ((s.conns c).tcp.state_ = .kConnected) .handleClose
  let tcp ← (s.conns c).tcp.onChannel EPoller.disableAll
  let s := s.setConn c { s.conns c with tcp := { tcp with closes := tcp.closes + 1 } }
  s.removeConnection ℓ c

/-- `TcpConnection::handleRead`; the message callback leaves the connection alone. -/
def handleRead (s : TcpServer n T) (ℓ : LoopId n) (c : ℕ) (r : ReadResult) :
    Outcome (TcpServer n T) := do
  let inputBuffer_ ← (s.conns c).tcp.inputBuffer_.readFd r
  let s := s.setConn c { s.conns c with tcp := { (s.conns c).tcp with inputBuffer_ } }
  match r with
  | .received data => if 0 < data.length then pure s else s.handleClose ℓ c
  | .failed => pure s

/-! ## Callbacks and functors -/

/-- A callback of `handleEvent` -/
def callback (s : TcpServer n T) (ℓ : LoopId n) (c : ℕ) (r : ReadResult) (w : WriteResult) :
    Channel.Callback → Outcome (TcpServer n T)
  | .close => s.handleClose ℓ c
  | .error => pure s
  | .read => s.handleRead ℓ c r
  | .write => s.onTcp c (·.handleWrite w)

/-- `TcpConnection::sendInLoop`; a message that is written whole queues `writeCompleteCallback_`. -/
def sendInLoop (s : TcpServer n T) (ℓ : LoopId n) (c : ℕ) (message : Bytes) (w : WriteResult) :
    Outcome (TcpServer n T) := do
  ensure (ℓ = (s.conns c).loop_) .assertInLoopThread
  let s' ← s.onTcp c (·.sendInLoop message w)
  if (s'.conns c).tcp.completions = (s.conns c).tcp.completions then pure s'
  else pure (s'.queueInLoop (.inl ℓ) ℓ (.writeComplete c))

def shutdownInLoop (s : TcpServer n T) (ℓ : LoopId n) (c : ℕ) : Outcome (TcpServer n T) := do
  ensure (ℓ = (s.conns c).loop_) .assertInLoopThread
  s.onTcp c fun t => pure t.shutdownInLoop

/-- What a functor does in the loop `ℓ`; `w` is the result of a `::write`. -/
def call (s : TcpServer n T) (ℓ : LoopId n) (w : WriteResult) :
    ConnFunctor → Outcome (TcpServer n T)
  | .connectEstablished c => s.connectEstablished ℓ c
  | .removeConnectionInLoop c => s.removeConnectionInLoop ℓ c
  | .connectDestroyed c => s.connectDestroyed ℓ c
  | .writeComplete _ => pure s
  | .sendInLoop c message _ => s.sendInLoop ℓ c message w
  | .shutdownInLoop c _ => s.shutdownInLoop ℓ c

/-! ## Ownership -/

omit [DecidableEq T] in
/-- Some `shared_ptr` holds the connection: an entry of the map, a functor that is queued or in a
vector of `doPendingFunctors`, or a copy of an application thread. A loop thread's own pointers go
with these. -/
def Owned (s : TcpServer n T) (c : ℕ) : Prop :=
  c ∈ s.connections_.map (·.2) ∨
    (∃ ℓ, ∃ f ∈ (s.loops ℓ).pendingFunctors_ ++ s.functions ℓ, f.holds c = true) ∨
      ∃ t, (s.apps t).conn = some c

instance [Fintype T] (s : TcpServer n T) (c : ℕ) : Decidable (s.Owned c) :=
  inferInstanceAs (Decidable (_ ∨ _ ∨ _))

omit [DecidableEq T] in
/-- The thread is in no `queueInLoop`. -/
def Free (s : TcpServer n T) (t : LoopId n ⊕ T) : Prop := ∀ ℓ, (s.loops ℓ).callers t = .idle

instance (s : TcpServer n T) (t : LoopId n ⊕ T) : Decidable (s.Free t) :=
  inferInstanceAs (Decidable (∀ _, _))

/-! ## The transition system -/

inductive Event (n : ℕ) (T : Type) where
  /-- `loop()` is entered -/
  | loop (ℓ : LoopId n)
  | test (ℓ : LoopId n)
  /-- `epoll_wait` returns the channels of some connections, each with its `revents` -/
  | poll (ℓ : LoopId n) (woken : Bool) (revents : List (ℕ × Mask))
  /-- the handler of `wakeupChannel_` -/
  | wakeupRead (ℓ : LoopId n)
  /-- the acceptor's channel is handled -/
  | newConnection (sockfd : ℕ)
  /-- the next callback of the channel being handled; the results of its `readv` and `::write` -/
  | callback (ℓ : LoopId n) (r : ReadResult) (w : WriteResult)
  /-- `handleEvent` returns -/
  | handled (ℓ : LoopId n)
  | swap (ℓ : LoopId n)
  /-- the next functor is called -/
  | run (ℓ : LoopId n) (w : WriteResult)
  | finish (ℓ : LoopId n)
  /-- the `wakeup` of a `queueInLoop` from another thread -/
  | wakeup (t : LoopId n ⊕ T) (ℓ : LoopId n)
  /-- an application thread copies a pointer -/
  | copy (t : T) (c : ℕ)
  /-- and drops it -/
  | drop (t : T)
  /-- the test of `state_` in `send` -/
  | send (t : T) (message : Bytes)
  /-- the test of `state_` in `shutdown` -/
  | shutdown (t : T)
  /-- the store of `state_` in `shutdown` -/
  | store (t : T)
  /-- `runInLoop` of `send` or `shutdown`, up to the `wakeup` -/
  | enqueue (t : T)
  deriving DecidableEq, Repr

/-- The thread that takes the step. A `wakeup` is the end of its thread's step before. -/
def Event.thread : Event n T → Option (LoopId n ⊕ T)
  | .loop ℓ => some (.inl ℓ)
  | .test ℓ => some (.inl ℓ)
  | .poll ℓ _ _ => some (.inl ℓ)
  | .wakeupRead ℓ => some (.inl ℓ)
  | .newConnection _ => some (.inl none)
  | .callback ℓ _ _ => some (.inl ℓ)
  | .handled ℓ => some (.inl ℓ)
  | .swap ℓ => some (.inl ℓ)
  | .run ℓ _ => some (.inl ℓ)
  | .finish ℓ => some (.inl ℓ)
  | .wakeup _ _ => none
  | .copy t _ => some (.inr t)
  | .drop t => some (.inr t)
  | .send t _ => some (.inr t)
  | .shutdown t => some (.inr t)
  | .store t => some (.inr t)
  | .enqueue t => some (.inr t)

/-- The loop handles its active channels. -/
def Handling (s : TcpServer n T) (ℓ : LoopId n) : Prop :=
  (s.loops ℓ).phase = .handling true ∨ (s.loops ℓ).phase = .handling false

instance (s : TcpServer n T) (ℓ : LoopId n) : Decidable (s.Handling ℓ) :=
  inferInstanceAs (Decidable (_ ∨ _))

/-- epoll can report `revents` for the connection: it is registered, which it is no longer when
its descriptor has been closed, and asks for them. -/
def Ready (s : TcpServer n T) (ℓ : LoopId n) (c : ℕ) (revents : Mask) : Prop :=
  s.Owned c ∧ (s.conns c).loop_ = ℓ ∧
    ∃ e ∈ (s.conns c).tcp.poller (s.conns c).tcp.channel_.fd_,
      revents &&& ~~~(e.events ||| EPOLLERR ||| EPOLLHUP) = 0

instance [Fintype T] (s : TcpServer n T) (ℓ : LoopId n) (c : ℕ) (revents : Mask) :
    Decidable (s.Ready ℓ c revents) :=
  inferInstanceAs (Decidable (_ ∧ _ ∧ _))

/-- The callback runs `handleClose`: it is the close callback, or a read of end of stream. -/
def RunsClose (cb : Channel.Callback) (r : ReadResult) : Prop :=
  cb = .close ∨ cb = .read ∧ r = .received []

instance (cb : Channel.Callback) (r : ReadResult) : Decidable (RunsClose cb r) :=
  inferInstanceAs (Decidable (_ ∨ _))

/-- The functor that the loop calls next. -/
def next (s : TcpServer n T) (ℓ : LoopId n) : Option ConnFunctor := (s.loops ℓ).restOfBatch.head?

/-- A step of the loop alone. -/
def turn (s : TcpServer n T) (ℓ : LoopId n) (e : EventLoop.Event (LoopId n ⊕ T) ConnFunctor) :
    Option (TcpServer n T) :=
  ((s.loops ℓ).step e).map (s.setLoop ℓ)

variable [Fintype T]

/-- What an event does, if it can happen. A functor with a raw `this` of a connection that nobody
owns has no defined behaviour. -/
def act (s : TcpServer n T) : Event n T → Option (Outcome (TcpServer n T))
  | .loop ℓ => (s.turn ℓ .loop).map pure
  | .test ℓ => (s.turn ℓ .test).map pure
  | .poll ℓ woken revents =>
    if (∀ p ∈ revents, s.Ready ℓ p.1 p.2) ∧ (revents.map (·.1)).Nodup then
      (s.turn ℓ (.poll woken)).map fun s' => pure { s' with
        active := Function.update s.active ℓ
          (revents.map fun p => ⟨p.1, Channel.callbacks p.2, false⟩) }
    else none
  | .wakeupRead ℓ => (s.turn ℓ .handleRead).map pure
  | .newConnection sockfd => if s.Handling none then some (s.newConnection sockfd) else none
  | .callback ℓ r w =>
    match s.active ℓ with
    | ⟨c, cb :: todo, reported⟩ :: rest =>
      if w.Within (s.conns c).tcp.outputBuffer_.readableBytes then
        some do
          let s' ← s.callback ℓ c r w cb
          let reported := reported || decide (RunsClose cb r)
          pure { s' with active := Function.update s'.active ℓ (⟨c, todo, reported⟩ :: rest) }
      else none
    | _ => none
  | .handled ℓ =>
    match s.active ℓ with
    | ⟨_, [], _⟩ :: rest => some (pure { s with active := Function.update s.active ℓ rest })
    | _ => none
  | .swap ℓ =>
    if s.active ℓ = [] then
      (s.turn ℓ .swap).map fun s' => pure { s' with
        functions := Function.update s.functions ℓ (s.loops ℓ).pendingFunctors_ }
    else none
  | .run ℓ w =>
    match s.next ℓ with
    | none => none
    | some f =>
      if ∀ p ∈ f.raw, s.Owned p.1 then (s.turn ℓ .run).map fun s' => s'.call ℓ w f else none
  | .finish ℓ =>
    (s.turn ℓ .finish).map fun s' => pure { s' with functions := Function.update s.functions ℓ [] }
  | .wakeup t ℓ => (s.turn ℓ (.wakeup t)).map pure
  | .copy t c =>
    if s.apps t = .idle ∧ s.Owned c then
      some (pure { s with apps := Function.update s.apps t (.holding c) })
    else none
  | .drop t =>
    match s.apps t with
    | .holding _ => some (pure { s with apps := Function.update s.apps t .idle })
    | _ => none
  | .send t message =>
    match s.apps t with
    | .holding c =>
      some (pure (if (s.conns c).tcp.state_ = .kConnected then
        { s with apps := Function.update s.apps t (.sending c message) } else s))
    | _ => none
  | .shutdown t =>
    match s.apps t with
    | .holding c =>
      some (pure (if (s.conns c).tcp.state_ = .kConnected then
        { s with apps := Function.update s.apps t (.stopping c) } else s))
    | _ => none
  | .store t =>
    match s.apps t with
    | .stopping c =>
      let s' := { s with apps := Function.update s.apps t (.stopped c) }
      some (s'.onTcp c fun tcp => pure { tcp with state_ := .kDisconnected })
    | _ => none
  | .enqueue t =>
    match s.apps t with
    | .sending c message =>
      let s' := { s with apps := Function.update s.apps t (.holding c) }
      some (pure (s'.queueInLoop (.inr t) (s.conns c).loop_
        (.sendInLoop c message (0 < (s.conns c).removed))))
    | .stopped c =>
      let s' := { s with apps := Function.update s.apps t (.holding c) }
      some (pure (s'.queueInLoop (.inr t) (s.conns c).loop_
        (.shutdownInLoop c (0 < (s.conns c).removed))))
    | _ => none

/-- A thread that is in `queueInLoop` first comes to the end of it. -/
def perform (s : TcpServer n T) (e : Event n T) : Option (Outcome (TcpServer n T)) :=
  if ∀ t ∈ e.thread, s.Free t then s.act e else none

def step (s : TcpServer n T) (e : Event n T) : Option (TcpServer n T) :=
  (s.perform e).bind Except.toOption

theorem step_eq_some_iff {s s' : TcpServer n T} {e : Event n T} :
    step s e = some s' ↔ s.perform e = some (.ok s') := by
  rw [step]
  cases s.perform e with
  | none => simp
  | some o => cases o <;> simp [Except.toOption]

theorem perform_eq_some_iff {s : TcpServer n T} {e : Event n T} {o : Outcome (TcpServer n T)} :
    s.perform e = some o ↔ (∀ t ∈ e.thread, s.Free t) ∧ s.act e = some o := by
  rw [perform]
  split_ifs with h
  · exact (and_iff_right h).symm
  · exact iff_of_false (by simp) fun ho => h ho.1

/-! ## The queues -/

omit [DecidableEq T] [Fintype T]

/-- The functors that a loop has still to call, in the order of their calls. -/
def queue (s : TcpServer n T) (ℓ : LoopId n) : List ConnFunctor := (s.loops ℓ).uncalled

theorem queue_eq (s : TcpServer n T) (ℓ : LoopId n) :
    s.queue ℓ = (s.loops ℓ).restOfBatch ++ (s.loops ℓ).pendingFunctors_ :=
  EventLoop.uncalled_eq _

theorem next_eq_some_iff {s : TcpServer n T} {ℓ : LoopId n} {f : ConnFunctor} :
    s.next ℓ = some f ↔ ∃ rest, (s.loops ℓ).restOfBatch = f :: rest :=
  List.head?_eq_some_iff

variable {s s' : TcpServer n T} {ℓ : LoopId n}

theorem setConn_conns (s : TcpServer n T) (c d : ℕ) (k : Conn n) :
    (s.setConn c k).conns d = if d = c then k else s.conns d :=
  Function.update_apply _ _ _ _

theorem setConn_self_conns (s : TcpServer n T) (c : ℕ) (k : Conn n) :
    (s.setConn c k).conns c = k :=
  Function.update_self _ _ _

theorem setConn_self (s : TcpServer n T) (c : ℕ) : s.setConn c (s.conns c) = s := by
  rw [setConn, Function.update_eq_self]

theorem onTcp_ok {c : ℕ} {g : TcpConnection → Outcome TcpConnection}
    (h : s.onTcp c g = .ok s') :
    ∃ tcp, g (s.conns c).tcp = .ok tcp ∧ s' = s.setConn c { s.conns c with tcp } := by
  obtain ⟨tcp, ht, h⟩ := bind_eq_ok_iff.mp h
  exact ⟨tcp, ht, (Except.ok.inj h).symm⟩

theorem setLoop_loops (s : TcpServer n T) (ℓ ℓ' : LoopId n)
    (l : EventLoop (LoopId n ⊕ T) ConnFunctor) :
    (s.setLoop ℓ l).loops ℓ' = if ℓ' = ℓ then l else s.loops ℓ' :=
  Function.update_apply _ _ _ _

/-- What a turn leaves alone is the same in every loop. -/
theorem setLoop_congr {β : Sort*} {ℓ : LoopId n} {l : EventLoop (LoopId n ⊕ T) ConnFunctor}
    (g : EventLoop (LoopId n ⊕ T) ConnFunctor → β) (hg : g l = g (s.loops ℓ)) (ℓ' : LoopId n) :
    g ((s.setLoop ℓ l).loops ℓ') = g (s.loops ℓ') := by
  rw [setLoop_loops]
  split_ifs with hℓ
  · rw [hg, hℓ]
  · rfl

section

variable [DecidableEq T]

/-- A `queueInLoop` of any thread: the functor goes behind those that are pending. -/
theorem queueInLoop_pending (s : TcpServer n T) (t : LoopId n ⊕ T) (ℓ ℓ' : LoopId n)
    (cb : ConnFunctor) :
    ((s.queueInLoop t ℓ cb).loops ℓ').restOfBatch = (s.loops ℓ').restOfBatch ∧
      ((s.queueInLoop t ℓ cb).loops ℓ').pendingFunctors_ =
        (s.loops ℓ').pendingFunctors_ ++ (if ℓ' = ℓ then [cb] else []) := by
  rw [queueInLoop, setLoop_loops]
  split_ifs with hℓ ht
  · subst hℓ
    rw [EventLoop.queueInLoop]
    split_ifs
    · exact ⟨EventLoop.restOfBatch_wakeup _, EventLoop.pendingFunctors_wakeup _⟩
    · exact ⟨rfl, rfl⟩
  · subst hℓ
    exact ⟨rfl, rfl⟩
  · exact ⟨rfl, (List.append_nil _).symm⟩

theorem queue_queueInLoop (s : TcpServer n T) (t : LoopId n ⊕ T) (ℓ ℓ' : LoopId n)
    (cb : ConnFunctor) :
    (s.queueInLoop t ℓ cb).queue ℓ' = s.queue ℓ' ++ (if ℓ' = ℓ then [cb] else []) := by
  obtain ⟨hr, hp⟩ := queueInLoop_pending s t ℓ ℓ' cb
  rw [queue_eq, queue_eq, hr, hp, List.append_assoc]

theorem mem_queue_queueInLoop {t : LoopId n ⊕ T} {ℓ' : LoopId n} {cb f : ConnFunctor} :
    f ∈ (s.queueInLoop t ℓ cb).queue ℓ' ↔ f ∈ s.queue ℓ' ∨ f = cb ∧ ℓ' = ℓ := by
  rw [queue_queueInLoop, List.mem_append]
  split_ifs with hℓ <;> simp [hℓ]

/-- The functors that a loop keeps alive. -/
theorem mem_held_queueInLoop {t : LoopId n ⊕ T} {ℓ' : LoopId n} {cb f : ConnFunctor}
    (h : f ∈ ((s.queueInLoop t ℓ cb).loops ℓ').pendingFunctors_ ++ s.functions ℓ') :
    f ∈ (s.loops ℓ').pendingFunctors_ ++ s.functions ℓ' ∨ f = cb := by
  rw [(queueInLoop_pending s t ℓ ℓ' cb).2, List.mem_append, List.mem_append] at h
  rw [List.mem_append]
  rcases h with (h | h) | h
  · exact Or.inl (Or.inl h)
  · split_ifs at h
    · exact Or.inr (List.mem_singleton.mp h)
    · cases h
  · exact Or.inl (Or.inr h)

theorem turn_eq_some_iff {e : EventLoop.Event (LoopId n ⊕ T) ConnFunctor} :
    s.turn ℓ e = some s' ↔ ∃ l, (s.loops ℓ).step e = some l ∧ s.setLoop ℓ l = s' :=
  Option.map_eq_some_iff

/-- A turn that neither calls a functor nor queues one. -/
theorem queue_turn {l : EventLoop (LoopId n ⊕ T) ConnFunctor}
    {e : EventLoop.Event (LoopId n ⊕ T) ConnFunctor} (hl : (s.loops ℓ).step e = some l)
    (hr : e ≠ .run) (hq : e.queued = []) (ℓ' : LoopId n) :
    (s.setLoop ℓ l).queue ℓ' = s.queue ℓ' := by
  rw [queue, queue, setLoop_loops]
  split_ifs with hℓ
  · rw [EventLoop.step_uncalled hl hr, hq, List.append_nil, hℓ]
  · rfl

/-- A turn of a loop, with what else the event does. -/
theorem map_turn_eq_some {e : EventLoop.Event (LoopId n ⊕ T) ConnFunctor}
    {g : TcpServer n T → Outcome (TcpServer n T)} {o : Outcome (TcpServer n T)}
    (h : (s.turn ℓ e).map g = some o) :
    ∃ l, (s.loops ℓ).step e = some l ∧ g (s.setLoop ℓ l) = o := by
  obtain ⟨s₁, hs₁, h⟩ := Option.map_eq_some_iff.mp h
  obtain ⟨l, hl, rfl⟩ := turn_eq_some_iff.mp hs₁
  exact ⟨l, hl, h⟩

/-- A call takes the first functor of the vector. -/
theorem restOfBatch_run {l : EventLoop (LoopId n ⊕ T) ConnFunctor} {f : ConnFunctor}
    (hl : (s.loops ℓ).step .run = some l) (hf : s.next ℓ = some f) :
    (s.loops ℓ).restOfBatch = f :: l.restOfBatch ∧
      l.pendingFunctors_ = (s.loops ℓ).pendingFunctors_ := by
  obtain ⟨rest, hrest⟩ := next_eq_some_iff.mp hf
  obtain ⟨hpop, hpend⟩ := EventLoop.run_rest hl
  rw [EventLoop.called, hrest] at hpop
  refine ⟨?_, hpend⟩
  rw [hrest, hpop]
  rfl

theorem queue_run {l : EventLoop (LoopId n ⊕ T) ConnFunctor} {f : ConnFunctor}
    (hl : (s.loops ℓ).step .run = some l) (hf : s.next ℓ = some f) (ℓ' : LoopId n) :
    s.queue ℓ' = (if ℓ' = ℓ then [f] else []) ++ (s.setLoop ℓ l).queue ℓ' := by
  obtain ⟨hrest, hpend⟩ := restOfBatch_run hl hf
  rw [queue_eq, queue_eq, setLoop_loops]
  split_ifs with hℓ
  · subst hℓ
    rw [hrest, hpend]
    rfl
  · rfl

end

/-! ## What an event does -/

section

variable [DecidableEq T] [Fintype T] {o : Outcome (TcpServer n T)} {r : ReadResult}
  {w : WriteResult} {t : T}

theorem act_poll_eq_some {woken : Bool} {revents : List (ℕ × Mask)}
    (h : s.act (.poll ℓ woken revents) = some o) :
    (∀ p ∈ revents, s.Ready ℓ p.1 p.2) ∧ (revents.map (·.1)).Nodup ∧
      ∃ l, (s.loops ℓ).step (.poll woken) = some l ∧ .ok { s.setLoop ℓ l with
        active := Function.update s.active ℓ
          (revents.map fun p => ⟨p.1, Channel.callbacks p.2, false⟩) } = o := by
  rw [act] at h
  split_ifs at h with hready
  obtain ⟨l, hl, h⟩ := map_turn_eq_some h
  exact ⟨hready.1, hready.2, l, hl, h⟩

theorem act_newConnection_eq_some {sockfd : ℕ} (h : s.act (.newConnection sockfd) = some o) :
    s.Handling none ∧ s.newConnection sockfd = o := by
  rw [act] at h
  split_ifs at h with hp
  exact ⟨hp, Option.some.inj h⟩

/-- A callback that is due for the first of the active channels. -/
theorem act_callback_eq_some (h : s.act (.callback ℓ r w) = some o) :
    ∃ c cb todo reported rest, s.active ℓ = ⟨c, cb :: todo, reported⟩ :: rest ∧
      (s.callback ℓ c r w cb >>= fun s' => .ok { s' with
        active := Function.update s'.active ℓ
          (⟨c, todo, reported || decide (RunsClose cb r)⟩ :: rest) }) = o := by
  rw [act] at h
  split at h
  · rename_i c cb todo reported rest hact
    split_ifs at h
    exact ⟨c, cb, todo, reported, rest, hact, Option.some.inj h⟩
  · cases h

theorem act_callback_eq_ok (h : s.act (.callback ℓ r w) = some (.ok s')) :
    ∃ c cb todo reported rest s₁, s.active ℓ = ⟨c, cb :: todo, reported⟩ :: rest ∧
      s.callback ℓ c r w cb = .ok s₁ ∧ { s₁ with
        active := Function.update s₁.active ℓ
          (⟨c, todo, reported || decide (RunsClose cb r)⟩ :: rest) } = s' := by
  obtain ⟨c, cb, todo, reported, rest, hact, h⟩ := act_callback_eq_some h
  obtain ⟨s₁, hs₁, h⟩ := bind_eq_ok_iff.mp h
  exact ⟨c, cb, todo, reported, rest, s₁, hact, hs₁, Except.ok.inj h⟩

/-- Nothing is left to be done for the first of the active channels. -/
theorem act_handled_eq_some (h : s.act (.handled ℓ) = some o) :
    ∃ c reported rest, s.active ℓ = ⟨c, [], reported⟩ :: rest ∧
      .ok { s with active := Function.update s.active ℓ rest } = o := by
  rw [act] at h
  split at h
  · rename_i c reported rest hact
    exact ⟨c, reported, rest, hact, Option.some.inj h⟩
  · cases h

theorem act_swap_eq_some (h : s.act (.swap ℓ) = some o) :
    s.active ℓ = [] ∧ ∃ l, (s.loops ℓ).step .swap = some l ∧ .ok { s.setLoop ℓ l with
      functions := Function.update s.functions ℓ (s.loops ℓ).pendingFunctors_ } = o := by
  rw [act] at h
  split_ifs at h with hact
  exact ⟨hact, map_turn_eq_some h⟩

theorem act_run_eq_some (h : s.act (.run ℓ w) = some o) :
    ∃ f l, s.next ℓ = some f ∧ (s.loops ℓ).step .run = some l ∧
      (s.setLoop ℓ l).call ℓ w f = o := by
  rw [act] at h
  split at h
  · cases h
  · rename_i f hf
    split_ifs at h
    obtain ⟨l, hl, h⟩ := map_turn_eq_some h
    exact ⟨f, l, hf, hl, h⟩

theorem act_finish_eq_some (h : s.act (.finish ℓ) = some o) :
    ∃ l, (s.loops ℓ).step .finish = some l ∧
      .ok { s.setLoop ℓ l with functions := Function.update s.functions ℓ [] } = o :=
  map_turn_eq_some h

theorem act_copy_eq_some {c : ℕ} (h : s.act (.copy t c) = some o) :
    s.Owned c ∧ .ok { s with apps := Function.update s.apps t (.holding c) } = o := by
  rw [act] at h
  split_ifs at h with hc
  exact ⟨hc.2, Option.some.inj h⟩

theorem act_drop_eq_some (h : s.act (.drop t) = some o) :
    .ok { s with apps := Function.update s.apps t .idle } = o := by
  rw [act] at h
  split at h
  · exact Option.some.inj h
  · cases h

/-- `send` and `shutdown` look at the state first. -/
theorem act_send_eq_some {message : Bytes} (h : s.act (.send t message) = some o) :
    ∃ c, s.apps t = .holding c ∧ .ok (if (s.conns c).tcp.state_ = .kConnected then
      { s with apps := Function.update s.apps t (.sending c message) } else s) = o := by
  rw [act] at h
  split at h
  · rename_i c happ
    exact ⟨c, happ, Option.some.inj h⟩
  · cases h

theorem act_shutdown_eq_some (h : s.act (.shutdown t) = some o) :
    ∃ c, s.apps t = .holding c ∧ .ok (if (s.conns c).tcp.state_ = .kConnected then
      { s with apps := Function.update s.apps t (.stopping c) } else s) = o := by
  rw [act] at h
  split at h
  · rename_i c happ
    exact ⟨c, happ, Option.some.inj h⟩
  · cases h

theorem act_store_eq_some (h : s.act (.store t) = some o) :
    ∃ c, s.apps t = .stopping c ∧
      onTcp { s with apps := Function.update s.apps t (.stopped c) } c
        (fun tcp => pure { tcp with state_ := .kDisconnected }) = o := by
  rw [act] at h
  split at h
  · rename_i c happ
    exact ⟨c, happ, Option.some.inj h⟩
  · cases h

theorem act_store_eq_ok (h : s.act (.store t) = some (.ok s')) :
    ∃ c tcp, s.apps t = .stopping c ∧
      setConn { s with apps := Function.update s.apps t (.stopped c) } c
        { s.conns c with tcp } = s' := by
  obtain ⟨c, happ, h⟩ := act_store_eq_some h
  obtain ⟨tcp, -, h⟩ := onTcp_ok h
  exact ⟨c, tcp, happ, h.symm⟩

/-- `send` and `shutdown` queue a functor with the raw pointer that they were called on. -/
theorem act_enqueue_eq_some (h : s.act (.enqueue t) = some o) :
    ∃ c f, ((∃ message, s.apps t = .sending c message ∧
        f = .sendInLoop c message (0 < (s.conns c).removed)) ∨
      s.apps t = .stopped c ∧ f = .shutdownInLoop c (0 < (s.conns c).removed)) ∧
      .ok (queueInLoop { s with apps := Function.update s.apps t (.holding c) } (.inr t)
        (s.conns c).loop_ f) = o := by
  rw [act] at h
  split at h
  · rename_i c message happ
    exact ⟨c, _, Or.inl ⟨message, happ, rfl⟩, Option.some.inj h⟩
  · rename_i c happ
    exact ⟨c, _, Or.inr ⟨happ, rfl⟩, Option.some.inj h⟩
  · cases h

end

end TcpServer

end HighServer
