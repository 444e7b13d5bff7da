import HighServer.Chat.Codec
import HighServer.Lib.Runs
import HighServer.Net.EventLoop

/-!
# Messages from end to end

A connection in its event loop, to which any threads send through the codec, the bytes on their
way, and the connection of the peer, which reads them with the codec. Any thread may call
`Codec::send` at any time; the functors that it queues run in between functors of any other kind.

* `Link`, `Link.fire`, `Link.step`: the system. `calls` and `ran` record the calls of
  `Codec::send` and of `sendInLoop`, each with its thread;
* `Link.Inv`: the frames of `ran` are what the connection streams, the functor queue holds the
  calls that have not run, and the peer has parsed what it has received;
* `fire_inv`: one step keeps it;
* **`delivered_in_order`**: the peer delivers the messages in the order of their `sendInLoop`.
-/

namespace HighServer

open Runs Framing

/-- A call of `Codec::send`: the thread, `none` for the loop's own, and the message. -/
abbrev Call (T : Type) := Option T × Bytes

/-- A functor on the loop of the sender. -/
inductive LinkFunctor (T : Type) where
  /-- `sendInLoop`, bound to the string `s` that the thread `t` made of the message -/
  | sendInLoop (s : Bytes) (t : T) (message : Bytes)
  /-- any other -/
  | other
  deriving DecidableEq, Repr

def LinkFunctor.call? {T : Type} : LinkFunctor T → Option (Call T)
  | .sendInLoop _ t message => some (some t, message)
  | .other => none

/-- The bytes that a `readv` brought. -/
def ReadResult.data : ReadResult → Bytes
  | .received data => data
  | .failed => []

structure Link (T : Type) where
  loop : EventLoop T (LinkFunctor T)
  conn : TcpConnection
  peer : TcpConnection
  /-- the bytes that the peer has read -/
  received : Bytes
  /-- the messages that the peer's message callback was called with -/
  delivered : List Bytes
  calls : List (Call T)
  ran : List (Call T)

namespace Link

variable {T : Type}

/-- Two connections before anything is sent. -/
def start (conn peer : TcpConnection) : Link T where
  loop := EventLoop.new
  conn
  peer
  received := []
  delivered := []
  calls := []
  ran := []

/-- The bytes that the kernel has accepted and the peer has not read. -/
def wire (s : Link T) : Bytes := s.conn.accepted.drop s.received.length

/-- The calls whose `sendInLoop` is still to run. -/
def queued (s : Link T) : List (Call T) := s.loop.uncalled.filterMap LinkFunctor.call?

inductive Event (T : Type) where
  /-- an event of the loop that does not concern the connection -/
  | loop (e : EventLoop.Event T (LinkFunctor T))
  /-- another thread calls `Codec::send` -/
  | send (t : T) (message : Bytes)
  /-- user code in the loop thread calls `Codec::send` -/
  | sendHere (message : Bytes) (w : WriteResult)
  /-- the next functor is called; `w` is for its `::write` -/
  | run (w : WriteResult)
  /-- the channel's write event -/
  | handleWrite (w : WriteResult)
  /-- a read event of the peer -/
  | read (r : ReadResult)
  deriving DecidableEq, Repr

/-- The events of the loop that neither queue nor call a `sendInLoop` of the connection. -/
def Foreign : EventLoop.Event T (LinkFunctor T) → Prop
  | .run => False
  | .queueInLoop cb => cb = .other
  | .push _ cb => cb = .other
  | _ => True

/-- What `readv` can report to the peer while the connection stays open: some of the bytes on
their way, as many as it has room for, or an error. -/
def Readable (s : Link T) : ReadResult → Prop
  | .received data => data ≠ [] ∧ data <+: s.wire ∧
      data.length ≤ s.peer.inputBuffer_.writableBytes + extrabufSize
  | .failed => True

instance (s : Link T) (r : ReadResult) : Decidable (s.Readable r) := by
  unfold Readable
  split <;> infer_instance

variable [DecidableEq T]

instance (e : EventLoop.Event T (LinkFunctor T)) : Decidable (Foreign e) := by
  unfold Foreign
  split <;> infer_instance

/-- Another thread calls `Codec::send`. -/
def send (s : Link T) (t : T) (message : Bytes) : Option (Outcome (Link T)) :=
  match Codec.encode message with
  | .error a => some (.error a)
  | .ok str =>
    if s.conn.state_ = .kConnected then
      (EventLoop.step s.loop (.push t (.sendInLoop str t message))).map fun loop =>
        pure { s with loop, calls := s.calls ++ [(some t, message)] }
    else some (pure { s with calls := s.calls ++ [(some t, message)] })

/-- User code in the loop thread calls `Codec::send`. -/
def sendHere (s : Link T) (message : Bytes) (w : WriteResult) : Option (Outcome (Link T)) :=
  if s.loop.InUserCode then some do
    let conn ← Codec.send s.conn message w
    pure
      { s with
        conn
        calls := s.calls ++ [(none, message)]
        ran := if s.conn.state_ = .kConnected then s.ran ++ [(none, message)] else s.ran }
  else none

/-- What the functor that the loop has just begun to run does. -/
def runFunctor (s : Link T) (w : WriteResult) : Outcome (Link T) :=
  match s.loop.phase with
  | .running (some (.sendInLoop str t message)) _ => do
    let conn ← s.conn.sendInLoop str w
    pure { s with conn, ran := s.ran ++ [(some t, message)] }
  | _ => pure s

def handleWrite (s : Link T) (w : WriteResult) : Option (Outcome (Link T)) :=
  match s.loop.phase with
  | .handling _ =>
    if w.Within s.conn.outputBuffer_.readableBytes then some do
      let conn ← s.conn.handleWrite w
      pure { s with conn }
    else none
  | _ => none

/-- A read event of the peer. -/
def read (s : Link T) (r : ReadResult) : Option (Outcome (Link T)) :=
  if s.Readable r then some do
    let (peer, messages) ← Codec.handleRead s.peer r
    pure { s with peer, received := s.received ++ r.data, delivered := s.delivered ++ messages }
  else none

/-- One event: `none` when it cannot happen, else how it ends. -/
def fire (s : Link T) : Event T → Option (Outcome (Link T))
  | .loop e =>
    if Foreign e then (EventLoop.step s.loop e).map fun loop => pure { s with loop } else none
  | .send t message => s.send t message
  | .sendHere message w => s.sendHere message w
  | .run w => (EventLoop.step s.loop .run).map fun loop => runFunctor { s with loop } w
  | .handleWrite w => s.handleWrite w
  | .read r => s.read r

def step (s : Link T) (e : Event T) : Option (Link T) := (s.fire e).bind Except.toOption

/-! ## The invariant -/

/-- The calls of one thread. -/
def ofThread (t : Option T) (cs : List (Call T)) : List (Call T) := cs.filter fun c => c.1 = t

structure Inv (s : Link T) : Prop where
  connected : s.conn.state_ = .kConnected
  streams : s.conn.Streams ((s.ran.map Prod.snd).map Codec.frame).flatten
  bound : ∀ str t message, .sendInLoop str t message ∈ s.loop.uncalled → str = Codec.frame message
  order : ∀ t, ofThread t (s.ran ++ s.queued) = ofThread t s.calls
  wf : s.peer.inputBuffer_.Wf
  received : s.received <+: s.conn.accepted
  rest : s.peer.inputBuffer_.readable = (Codec.framer.parse s.received).rest
  delivered : s.delivered = (Codec.framer.parse s.received).messages

theorem ofThread_append (t : Option T) (cs ds : List (Call T)) :
    ofThread t (cs ++ ds) = ofThread t cs ++ ofThread t ds := List.filter_append ..

theorem ofThread_sublist (t : Option T) (cs : List (Call T)) : (ofThread t cs).Sublist cs :=
  List.filter_sublist

/-- The loop thread does not queue its own calls. -/
theorem ofThread_none_queued (s : Link T) : ofThread none s.queued = [] := by
  rw [ofThread, List.filter_eq_nil_iff]
  intro c hc
  obtain ⟨f, -, hf⟩ := List.mem_filterMap.mp hc
  cases f with
  | sendInLoop str t message =>
    obtain rfl := Option.some.inj hf
    simp
  | other => exact absurd hf (by simp [LinkFunctor.call?])

theorem inv_start {conn peer : TcpConnection} (hc : conn.state_ = .kConnected)
    (hs : conn.Streams []) (hp : peer.inputBuffer_ = Buffer.new) :
    (start conn peer : Link T).Inv where
  connected := hc
  streams := hs
  bound := by intro str t message h; simp [start, EventLoop.new, EventLoop.uncalled] at h
  order _ := rfl
  wf := by rw [start, hp]; exact Buffer.wf_new
  received := List.nil_prefix
  rest := by rw [start, hp, Buffer.readable_new, Framer.parse_nil]
  delivered := by rw [start, Framer.parse_nil]

variable {s s' : Link T}

/-- A step of the loop that queues `fs`. -/
theorem queued_of_step {l : EventLoop T (LinkFunctor T)}
    {e : EventLoop.Event T (LinkFunctor T)} (hl : EventLoop.step s.loop e = some l)
    (he : e ≠ .run) :
    queued { s with loop := l } = s.queued ++ e.queued.filterMap LinkFunctor.call? := by
  rw [queued, EventLoop.step_uncalled hl he, List.filterMap_append]
  rfl

omit [DecidableEq T] in
theorem Foreign.other {e : EventLoop.Event T (LinkFunctor T)} (h : Foreign e) :
    e ≠ .run ∧ ∀ f ∈ e.queued, f = .other := by
  cases e <;> simp_all [Foreign, EventLoop.Event.queued]

theorem Inv.loop (h : s.Inv) {e : EventLoop.Event T (LinkFunctor T)} (hf : Foreign e)
    {l : EventLoop T (LinkFunctor T)} (hl : EventLoop.step s.loop e = some l) :
    Inv { s with loop := l } := by
  obtain ⟨hrun, hother⟩ := hf.other
  have hq : queued { s with loop := l } = s.queued := by
    have hnil : e.queued.filterMap LinkFunctor.call? = [] := by
      rw [List.filterMap_eq_nil_iff]
      intro f hf
      rw [hother f hf]
      rfl
    rw [queued_of_step hl hrun, hnil, List.append_nil]
  refine ⟨h.connected, h.streams, ?_, ?_, h.wf, h.received, h.rest, h.delivered⟩
  · intro str t message hm
    simp only [EventLoop.step_uncalled hl hrun, List.mem_append] at hm
    exact hm.elim (h.bound str t message) fun hm => absurd (hother _ hm) (by simp)
  · intro t
    rw [hq]
    exact h.order t

theorem Inv.send (h : s.Inv) (t : T) (message : Bytes) {l : EventLoop T (LinkFunctor T)}
    (hl : EventLoop.step s.loop (.push t (.sendInLoop (Codec.frame message) t message)) = some l) :
    Inv { s with loop := l, calls := s.calls ++ [(some t, message)] } := by
  have hq : queued { s with loop := l } = s.queued ++ [(some t, message)] :=
    queued_of_step hl (by simp)
  refine ⟨h.connected, h.streams, ?_, ?_, h.wf, h.received, h.rest, h.delivered⟩
  · intro str t' message' hm
    simp only [EventLoop.step_uncalled hl (by simp), EventLoop.Event.queued, List.mem_append,
      List.mem_singleton] at hm
    rcases hm with hm | hm
    · exact h.bound str t' message' hm
    · obtain ⟨rfl, -, rfl⟩ := LinkFunctor.sendInLoop.inj hm
      rfl
  · intro t'
    change ofThread t' (s.ran ++ queued { s with loop := l }) = _
    rw [hq, ← List.append_assoc, ofThread_append, h.order, ← ofThread_append]

/-- A `sendInLoop` with the frame of `message`. -/
theorem Inv.streams_sendInLoop (h : s.Inv) (c : Call T) (w : WriteResult) :
    ∃ conn, s.conn.sendInLoop (Codec.frame c.2) w = .ok conn ∧ conn.state_ = .kConnected ∧
      conn.Streams (((s.ran ++ [c]).map Prod.snd).map Codec.frame).flatten ∧
      s.received <+: conn.accepted := by
  obtain ⟨conn, hok, hst, hstate, -, hacc⟩ :=
    TcpConnection.sendInLoop_streams h.streams (Codec.frame c.2) w
  refine ⟨conn, hok, hstate.trans h.connected, ?_, h.received.trans hacc⟩
  rwa [List.map_append, List.map_append, List.flatten_append, List.map_singleton,
    List.map_singleton, List.flatten_singleton]

theorem Inv.sendHere (h : s.Inv) (message : Bytes) (w : WriteResult) :
    ∃ conn, Codec.send s.conn message w = .ok conn ∧
      Inv { s with
        conn
        calls := s.calls ++ [(none, message)]
        ran := s.ran ++ [(none, message)] } := by
  obtain ⟨conn, hok, hstate, hst, hrec⟩ := h.streams_sendInLoop (none, message) w
  refine ⟨conn, ?_, hstate, hst, h.bound, ?_, h.wf, hrec, h.rest, h.delivered⟩
  · rw [Codec.send, Codec.encode_eq, ok_bind, TcpConnection.send, if_pos h.connected, hok]
  · intro t
    change ofThread t (s.ran ++ [(none, message)] ++ s.queued) = _
    have ho := h.order t
    rw [ofThread_append] at ho
    rw [ofThread_append, ofThread_append, ofThread_append, ← ho]
    -- the call overtakes the calls that are queued, all of other threads
    by_cases ht : t = none
    · subst ht
      rw [ofThread_none_queued, List.append_nil, List.append_nil]
    · have hnil : ofThread t [((none, message) : Call T)] = [] := by
        simp [ofThread, Ne.symm ht]
      rw [hnil, List.append_nil, List.append_nil]

theorem Inv.run (h : s.Inv) (w : WriteResult) {l : EventLoop T (LinkFunctor T)}
    (hl : EventLoop.step s.loop .run = some l) :
    ∃ s', runFunctor { s with loop := l } w = .ok s' ∧ s'.Inv := by
  obtain ⟨f, functions, hp, hu⟩ := EventLoop.run_uncalled hl
  have hbound : ∀ str t message, .sendInLoop str t message ∈ l.uncalled →
      str = Codec.frame message := fun str t message hm =>
    h.bound str t message (hu ▸ List.mem_cons_of_mem f hm)
  have hq : s.queued = f.call?.toList ++ queued { s with loop := l } := by
    rw [queued, hu, queued]
    cases f <;> rfl
  unfold runFunctor
  dsimp only
  rw [hp]
  cases f with
  | sendInLoop str t message =>
    obtain rfl := h.bound str t message (hu ▸ List.mem_cons_self)
    obtain ⟨conn, hok, hstate, hst, hrec⟩ := h.streams_sendInLoop (some t, message) w
    dsimp only
    rw [hok, ok_bind]
    refine ⟨_, rfl, hstate, hst, hbound, ?_, h.wf, hrec, h.rest, h.delivered⟩
    intro t'
    rw [← h.order t', hq, ← List.append_assoc]
    rfl
  | other =>
    refine ⟨_, rfl, h.connected, h.streams, hbound, ?_, h.wf, h.received, h.rest, h.delivered⟩
    intro t'
    rw [← h.order t', hq]
    rfl

theorem Inv.handleWrite (h : s.Inv) {w : WriteResult}
    (hw : w.Within s.conn.outputBuffer_.readableBytes) :
    ∃ conn, s.conn.handleWrite w = .ok conn ∧ Inv { s with conn } := by
  obtain ⟨conn, hok, hst, hstate, -, hacc⟩ := TcpConnection.handleWrite_streams h.streams hw
  exact ⟨conn, hok, hstate.trans h.connected, hst, h.bound, h.order, h.wf,
    h.received.trans hacc, h.rest, h.delivered⟩

/-- What the peer reads continues the stream it has parsed. -/
theorem Inv.read (h : s.Inv) {data : Bytes} (hd : data ≠ []) (hw : data <+: s.wire) :
    ∃ peer messages, Codec.handleRead s.peer (.received data) = .ok (peer, messages) ∧
      Inv { s with
        peer
        received := s.received ++ data
        delivered := s.delivered ++ messages } := by
  obtain ⟨buf, hwf, hread, hok⟩ := Codec.handleRead_received h.wf hd
  have hin : ∀ bad, (Codec.settle s.peer bad buf).inputBuffer_ = buf := by
    intro bad
    unfold Codec.settle TcpConnection.shutdown TcpConnection.shutdownInLoop
    split_ifs <;> rfl
  have hparse := Framer.parse_append (p := Codec.framer) s.received data
  rw [← h.rest, ← h.delivered] at hparse
  refine ⟨_, _, hok, h.connected, h.streams, h.bound, h.order, ?_, ?_, ?_, ?_⟩
  · rw [hin]
    exact hwf
  · obtain ⟨rest, hrest⟩ := h.received
    rw [wire, ← hrest, List.drop_left] at hw
    rw [← hrest]
    exact (List.prefix_append_right_inj _).mpr hw
  · rw [hin, hread, hparse]
  · rw [hparse]

/-- **One event** that can happen comes to its end and keeps the invariant. -/
theorem fire_inv (h : s.Inv) {e : Event T} {r : Outcome (Link T)} (hr : s.fire e = some r) :
    ∃ s', r = .ok s' ∧ s'.Inv := by
  cases e with
  | loop e =>
    rw [fire] at hr
    split_ifs at hr with hf
    obtain ⟨l, hl, rfl⟩ := Option.map_eq_some_iff.mp hr
    exact ⟨_, rfl, h.loop hf hl⟩
  | send t message =>
    rw [fire] at hr
    unfold send at hr
    rw [Codec.encode_eq] at hr
    dsimp only at hr
    rw [if_pos h.connected] at hr
    obtain ⟨l, hl, rfl⟩ := Option.map_eq_some_iff.mp hr
    exact ⟨_, rfl, h.send t message hl⟩
  | sendHere message w =>
    simp only [fire, sendHere, if_pos h.connected] at hr
    split_ifs at hr
    obtain rfl := Option.some.inj hr
    obtain ⟨conn, hok, hinv⟩ := h.sendHere message w
    exact ⟨_, by rw [hok, ok_bind]; rfl, hinv⟩
  | run w =>
    obtain ⟨l, hl, rfl⟩ := Option.map_eq_some_iff.mp hr
    exact h.run w hl
  | handleWrite w =>
    simp only [fire, Link.handleWrite] at hr
    split at hr
    · split_ifs at hr with hw
      obtain rfl := Option.some.inj hr
      obtain ⟨conn, hok, hinv⟩ := h.handleWrite hw
      exact ⟨_, by rw [hok, ok_bind]; rfl, hinv⟩
    · exact absurd hr (by simp)
  | read r =>
    simp only [fire, Link.read] at hr
    split_ifs at hr with hok
    obtain rfl := Option.some.inj hr
    cases r with
    | failed =>
      refine ⟨s, ?_, h⟩
      simp [Codec.handleRead, Buffer.readFd, ReadResult.data, pure, Except.pure]
    | received data =>
      obtain ⟨peer, messages, hp, hinv⟩ := h.read hok.1 hok.2.1
      exact ⟨_, by rw [hp, ok_bind]; rfl, hinv⟩

theorem step_inv (s : Link T) (e : Event T) (s' : Link T) (h : s.Inv)
    (hs : step s e = some s') : s'.Inv := by
  obtain ⟨r, hr, hok⟩ := Option.bind_eq_some_iff.mp hs
  obtain ⟨s'', rfl, hinv⟩ := fire_inv h hr
  obtain rfl := Option.some.inj hok
  exact hinv

/-! ## Delivery -/

/-- Every byte handed to the connection has reached the peer. -/
def Transferred (s : Link T) : Prop := s.conn.outputBuffer_.readable = [] ∧ s.wire = []

theorem Inv.ran_prefix (h : s.Inv) (t : Option T) : ofThread t s.ran <+: ofThread t s.calls := by
  rw [← h.order t, ofThread_append]
  exact List.prefix_append _ _

theorem Inv.mem_calls (h : s.Inv) {c : Call T} (hc : c ∈ s.ran) : c ∈ s.calls := by
  have hm : c ∈ ofThread c.1 s.ran := List.mem_filter.mpr ⟨hc, by simp⟩
  exact (ofThread_sublist _ _).mem ((h.ran_prefix c.1).mem hm)

/-- With nothing left in the queue, `ran` is a rearrangement of `calls`. -/
theorem Inv.ran_perm (h : s.Inv) (hq : s.queued = []) : s.ran.Perm s.calls := by
  rw [List.perm_iff_count]
  intro c
  have ho := h.order c.1
  rw [hq, List.append_nil] at ho
  have hkey : decide (c.1 = c.1) = true := by simp
  rw [← List.count_filter (p := fun d : Call T => d.1 = c.1) hkey,
    ← List.count_filter (p := fun d : Call T => d.1 = c.1) (l := s.calls) hkey]
  exact congrArg (List.count c) ho

/-- The stream that the peer has received is a prefix of the frames of `ran`. -/
theorem Inv.received_prefix (h : s.Inv) :
    s.received <+: ((s.ran.map Prod.snd).map Codec.frame).flatten := by
  rw [← h.streams.conserved]
  exact h.received.trans (List.prefix_append _ _)

theorem Inv.received_of_transferred (h : s.Inv) (ht : s.Transferred) :
    s.received = ((s.ran.map Prod.snd).map Codec.frame).flatten := by
  obtain ⟨hout, hwire⟩ := ht
  obtain ⟨rest, hrest⟩ := h.received
  rw [wire, ← hrest, List.drop_left] at hwire
  rw [← h.streams.conserved, hout, List.append_nil, ← hrest, hwire, List.append_nil]

/-- **Messages arrive whole, once and in order.** Whatever the threads do, whatever each `::write`
reports and however the stream is cut into reads: the peer has delivered a prefix of the messages
in the order in which their `sendInLoop` ran, and the messages of one thread are among them in the
order of its calls; all of them once every byte has been transferred, and then the calls of every
thread when the queue is empty; and no step aborts. -/
theorem delivered_in_order {poller poller' : EPoller} {self self' fd fd' : ℕ} {cb cb' : Bool}
    {es : List (Event T)}
    (h : Run step (start (.established poller self fd cb) (.established poller' self' fd' cb'))
      es s)
    (hlen : ∀ c ∈ s.calls, c.2.length ≤ 65536) :
    (∃ done, done <+: s.ran ∧ s.delivered = done.map Prod.snd ∧
      ∀ t, ofThread t done <+: ofThread t s.calls) ∧
    (s.Transferred → s.delivered = s.ran.map Prod.snd) ∧
    (s.Transferred → s.queued = [] → s.ran.Perm s.calls ∧
      ∀ t, ofThread t s.ran = ofThread t s.calls) ∧
    ∀ e r, s.fire e = some r → ∃ s', r = .ok s' := by
  have hinv : s.Inv := h.inv step_inv (inv_start rfl
    (TcpConnection.streams_established poller self fd cb) rfl)
  have hframe : ∀ m ∈ s.ran.map Prod.snd,
      Codec.framer.front (Codec.frame m) = .frame m (Codec.frame m).length := by
    intro m hm
    obtain ⟨c, hc, rfl⟩ := List.mem_map.mp hm
    have hle := hlen c (hinv.mem_calls hc)
    exact Codec.front_frame (by rw [Codec.maxLen]; omega)
  obtain ⟨hpre, -, hall⟩ := Framer.parse_of_prefix hframe hinv.received_prefix
  rw [← hinv.delivered] at hpre hall
  refine ⟨?_, fun ht => (hall (hinv.received_of_transferred ht)).1,
    fun _ hq => ⟨hinv.ran_perm hq, fun t => ?_⟩, fun e r hr => ?_⟩
  · obtain ⟨k, hk⟩ : ∃ k, s.delivered = (s.ran.map Prod.snd).take k :=
      ⟨_, List.prefix_iff_eq_take.mp hpre⟩
    refine ⟨s.ran.take k, List.take_prefix _ _, by rw [hk, List.map_take], fun t => ?_⟩
    exact ((List.take_prefix k s.ran).filter _).trans (hinv.ran_prefix t)
  · rw [← hinv.order t, hq, List.append_nil]
  · obtain ⟨s', hok, -⟩ := fire_inv hinv hr
    exact ⟨s', hok⟩

/-- An empty message from another thread, overtaken by one of the loop thread; a cut inside the
header, and short writes. -/
def twoMessages : List (Event Unit) :=
  [.send () [], .loop (.wakeup ()), .sendHere [1, 2] (.wrote 3), .read (.received [0]),
    .loop .loop, .loop .test, .loop (.poll true), .loop .handleRead, .handleWrite (.wrote 1),
    .loop .swap, .run .wouldBlock, .loop .finish, .read (.received [0, 0, 2]), .loop .test,
    .loop (.poll false), .handleWrite (.wrote 6), .read (.received [1, 2, 0, 0]),
    .read (.received [0, 0])]

theorem twoMessages_delivered : ∃ s : Link Unit,
    Run step (start (.established (fun _ => none) 0 5 false)
      (.established (fun _ => none) 1 6 false)) twoMessages s ∧
    s.delivered = [[1, 2], []] := by
  have h : (twoMessages.foldlM step (start (.established (fun _ => none) 0 5 false)
      (.established (fun _ => none) 1 6 false))).map
      (fun s => (s.ran, s.calls, s.conn.outputBuffer_.readable ++ s.wire)) =
      some ([(none, [1, 2]), (some (), [])], [(some (), []), (none, [1, 2])], []) := by
    decide +kernel
  obtain ⟨s, hs, hq⟩ := Option.map_eq_some_iff.mp h
  simp only [Prod.mk.injEq] at hq
  obtain ⟨hran, hcalls, hbytes⟩ := hq
  have hall := (delivered_in_order hs (by rw [hcalls]; decide)).2.1
    (List.append_eq_nil_iff.mp hbytes)
  exact ⟨s, hs, by rw [hall, hran]; rfl⟩

end Link

end HighServer
