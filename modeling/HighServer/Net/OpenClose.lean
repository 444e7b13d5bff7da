import HighServer.Net.Handover

/-!
# The open/close protocol of the server

The life of a connection without `send` and `shutdown`: `connectEstablished`, `handleClose`,
`removeConnectionInLoop` and `connectDestroyed`, each handed to the loop that it runs in.

* `Stage`: how far a connection has come, and what its channel looks like there;
* `Due`: the functors that have to be queued in that stage; `Holds`: just these are, once each;
* `Protocol`: the invariant; `perform_protocol`: every event that can happen comes to its end, so
  no assertion fails on its way, and keeps the protocol;
* **`open_close`**: the protocol over all runs, with any number of loops and connections.
-/

namespace HighServer

/-! ## The connection -/

namespace TcpConnection

variable {t : TcpConnection}

/-- The channel is registered and reads. -/
structure Reading (t : TcpConnection) : Prop where
  state_ : t.state_ = .kConnected
  events_ : t.channel_.events_ = Channel.kReadEvent
  index_ : t.channel_.index_ = .kAdded

/-- The channel is out of the interest list, and its mask empty. -/
structure Silent (t : TcpConnection) : Prop where
  events_ : t.channel_.events_ = Channel.kNoneEvent
  index_ : t.channel_.index_ = .kNew

theorem Silent.unregistered (h : t.Silent) (hs : t.Sound) : t.poller t.channel_.fd_ = none := by
  rw [show t.poller t.channel_.fd_ = _ from hs.agrees, Channel.registration, h.index_]

theorem connectEstablished_sound (h : t.Sound) (hs : t.state_ = .kConnecting) (hq : t.Silent) :
    ∃ t', t.connectEstablished pure = .ok t' ∧ t'.Sound ∧ t'.Reading ∧ t'.closes = t.closes := by
  obtain ⟨p, i, hp, ha, hi⟩ := h.update (t.channel_.events_ ||| Channel.kReadEvent)
  have hev : t.channel_.events_ ||| Channel.kReadEvent = Channel.kReadEvent := by
    rw [hq.events_]
    decide
  have hia : i = .kAdded := by rw [hi]; simp [Channel.nextIndex, hq.index_]
  rw [connectEstablished, ensure_bind_of hs, onChannel, EPoller.enableReading, hp]
  exact ⟨_, rfl, ⟨h.input, h.output, ha⟩, ⟨rfl, hev, hia⟩, rfl⟩

/-- The `disableAll` of `handleClose`. -/
theorem disableAll_sound (h : t.Sound) (hr : t.Reading) :
    ∃ t', t.onChannel EPoller.disableAll = .ok t' ∧ t'.Sound ∧ t'.Silent ∧
      t'.state_ = .kConnected ∧ t'.closes = t.closes := by
  obtain ⟨p, i, hp, ha, hi⟩ := h.update Channel.kNoneEvent
  have hin : i = .kNew := by rw [hi]; simp [Channel.nextIndex, hr.index_, Channel.isNoneEvent]
  rw [onChannel, EPoller.disableAll, hp]
  exact ⟨_, rfl, ⟨h.input, h.output, ha⟩, ⟨rfl, hin⟩, hr.state_, rfl⟩

theorem connectDestroyed_silent (h : t.Sound) (hs : t.state_ = .kConnected) (hq : t.Silent) :
    ∃ t', t.connectDestroyed pure = .ok t' ∧ t'.Sound ∧ t'.closes = t.closes ∧
      t'.poller t'.channel_.fd_ = none := by
  rcases connectDestroyed_sound h hs [] with ⟨-, t', ht, hs', -, hc, hn⟩ | ⟨hi, -⟩
  · exact ⟨t', ht, hs', hc, hn⟩
  · rw [hq.index_] at hi
    cases hi

/-- A `handleWrite` without write interest. -/
theorem handleWrite_of_not_writing (h : t.channel_.isWriting = false) (w : WriteResult) :
    t.handleWrite w = .ok t := by
  simp [handleWrite, h, pure, Except.pure]

end TcpConnection

open TcpConnection

/-- How far a connection has come. -/
structure Conn.Stage {n : ℕ} (k : Conn n) : Prop where
  destroyed_le : k.destroyed ≤ k.removed
  removed_le : k.removed ≤ k.tcp.closes
  closes_le : k.tcp.closes ≤ k.established
  established_le : k.established ≤ 1
  sound : k.tcp.Sound
  opening : k.established = 0 → k.tcp.state_ = .kConnecting ∧ k.tcp.Silent
  opened : k.established = 1 → k.tcp.closes = 0 → k.tcp.Reading
  closed : k.tcp.closes = 1 → k.destroyed = 0 → k.tcp.state_ = .kConnected ∧ k.tcp.Silent
  gone : k.destroyed = 1 → k.tcp.poller k.tcp.channel_.fd_ = none

namespace Conn

variable {n : ℕ} {k : Conn n}

theorem stage_new (name_ : String) (loop_ : LoopId n) (self fd : ℕ) (cb : Bool) :
    Stage ⟨name_, loop_, TcpConnection.new (fun _ => none) self fd cb, 0, 0, 0⟩ where
  destroyed_le := le_rfl
  removed_le := le_rfl
  closes_le := le_rfl
  established_le := Nat.zero_le 1
  sound := ⟨Buffer.wf_new, Buffer.wf_new, rfl⟩
  opening _ := ⟨rfl, rfl, rfl⟩
  opened h := absurd h Nat.zero_ne_one
  closed h := absurd h Nat.zero_ne_one
  gone h := absurd h Nat.zero_ne_one

/-- Only an open connection is registered. -/
theorem Stage.open_of_registered (h : k.Stage) (hr : k.tcp.poller k.tcp.channel_.fd_ ≠ none) :
    k.established = 1 ∧ k.tcp.closes = 0 := by
  have h1 := h.destroyed_le
  have h2 := h.removed_le
  have h3 := h.closes_le
  have h4 := h.established_le
  by_cases he : k.established = 0
  · exact absurd ((h.opening he).2.unregistered h.sound) hr
  by_cases hc : k.tcp.closes = 0
  · exact ⟨by omega, hc⟩
  by_cases hd : k.destroyed = 0
  · exact absurd ((h.closed (by omega) hd).2.unregistered h.sound) hr
  · exact absurd (h.gone (by omega)) hr

theorem Stage.establish (h : k.Stage) (he : k.established = 0) :
    ∃ tcp, k.tcp.connectEstablished pure = .ok tcp ∧
      Stage { k with tcp, established := k.established + 1 } ∧ tcp.closes = 0 := by
  have h1 := h.destroyed_le
  have h2 := h.removed_le
  have h3 := h.closes_le
  obtain ⟨hs, hq⟩ := h.opening he
  obtain ⟨tcp, ht, hsound, hread, hcl⟩ := connectEstablished_sound h.sound hs hq
  refine ⟨tcp, ht, ⟨h1, ?_, ?_, ?_, hsound, ?_, fun _ _ => hread, fun hc => ?_, fun hd => ?_⟩, ?_⟩
  · simp only [hcl]; exact h2
  · simp only [hcl]; omega
  · simp only [he]; exact le_rfl
  · simp [he]
  · simp only [hcl] at hc; omega
  · simp only at hd; omega
  · omega

/-- The part of `handleClose` that concerns the connection. -/
theorem Stage.close (h : k.Stage) (he : k.established = 1) (hc : k.tcp.closes = 0) :
    ∃ tcp, k.tcp.onChannel EPoller.disableAll = .ok tcp ∧
      Stage { k with tcp := { tcp with closes := tcp.closes + 1 } } ∧ tcp.closes = 0 := by
  have h1 := h.destroyed_le
  have h2 := h.removed_le
  obtain ⟨tcp, ht, hsound, hq, hs, hcl⟩ := disableAll_sound h.sound (h.opened he hc)
  refine ⟨tcp, ht, ⟨h1, ?_, ?_, he.le, ⟨hsound.input, hsound.output, hsound.agrees⟩, fun h0 => ?_,
    fun _ h0 => ?_, fun _ _ => ⟨hs, hq.1, hq.2⟩, fun hd => ?_⟩, hcl.trans hc⟩
  · simp only; omega
  · simp only; omega
  · simp only at h0; omega
  · simp only at h0; omega
  · simp only at hd; omega

theorem Stage.remove (h : k.Stage) (hc : k.tcp.closes = 1) (hr : k.removed = 0) :
    Stage { k with removed := k.removed + 1 } := by
  refine ⟨?_, ?_, h.closes_le, h.established_le, h.sound, h.opening, h.opened, h.closed, h.gone⟩
  · have := h.destroyed_le
    simp only; omega
  · simp only; omega

theorem Stage.destroy (h : k.Stage) (hr : k.removed = 1) (hd : k.destroyed = 0) :
    ∃ tcp, k.tcp.connectDestroyed pure = .ok tcp ∧
      Stage { k with tcp, destroyed := k.destroyed + 1 } ∧ tcp.closes = k.tcp.closes := by
  have h2 := h.removed_le
  have h3 := h.closes_le
  have h4 := h.established_le
  obtain ⟨hs, hq⟩ := h.closed (by omega) hd
  obtain ⟨tcp, ht, hsound, hcl, hn⟩ := connectDestroyed_silent h.sound hs hq
  refine ⟨tcp, ht, ⟨?_, ?_, ?_, h4, hsound, fun h0 => ?_, fun _ h0 => ?_, fun _ h0 => ?_,
    fun _ => hn⟩, hcl⟩
  · simp only; omega
  · simp only; omega
  · simp only; omega
  · simp only at h0; omega
  · simp only at h0; omega
  · simp only at h0; omega

/-- A step that changes nothing but the input buffer. -/
theorem Stage.of_same (h : k.Stage) {tcp : TcpConnection} (hs : tcp.Sound)
    (ho : SameOutput k.tcp tcp) : Stage { k with tcp } where
  destroyed_le := h.destroyed_le
  removed_le := by simp only [ho.closes]; exact h.removed_le
  closes_le := by simp only [ho.closes]; exact h.closes_le
  established_le := h.established_le
  sound := hs
  opening he := by
    obtain ⟨h1, h2, h3⟩ := h.opening he
    exact ⟨ho.state_.trans h1, by rw [ho.channel_]; exact h2, by rw [ho.channel_]; exact h3⟩
  opened he hc := by
    obtain ⟨h1, h2, h3⟩ := h.opened he (ho.closes ▸ hc)
    exact ⟨ho.state_.trans h1, by rw [ho.channel_]; exact h2, by rw [ho.channel_]; exact h3⟩
  closed hc hd := by
    obtain ⟨h1, h2, h3⟩ := h.closed (ho.closes ▸ hc) hd
    exact ⟨ho.state_.trans h1, by rw [ho.channel_]; exact h2, by rw [ho.channel_]; exact h3⟩
  gone hd := by
    simp only [ho.poller, ho.channel_]
    exact h.gone hd

/-- Without `send` there is no write interest. -/
theorem Stage.not_writing (h : k.Stage) (he : k.established = 1) (hd : k.destroyed = 0) :
    k.tcp.channel_.isWriting = false := by
  by_cases hc : k.tcp.closes = 0
  · exact Channel.isWriting_of_read (h.opened he hc).events_
  · have h3 := h.closes_le
    rw [Channel.isWriting, (h.closed (by omega) hd).2.events_]
    decide

end Conn

/-- The thread is in `send` or `shutdown`. -/
def App.calling : App → Bool
  | .idle => false
  | .holding _ => false
  | .sending _ _ => true
  | .stopping _ => true
  | .stopped _ => true

namespace TcpServer

open Runs Conn

variable {n : ℕ} {T : Type}

/-! ## The functors that are due -/

/-- The functor of the connection has to be queued in the loop `ℓ`. -/
def DueFor (k : Conn n) (ℓ : LoopId n) : ConnFunctor → Prop
  | .connectEstablished _ => k.loop_ = ℓ ∧ k.established = 0
  | .removeConnectionInLoop _ => ℓ = none ∧ k.tcp.closes = 1 ∧ k.removed = 0
  | .connectDestroyed _ => k.loop_ = ℓ ∧ k.removed = 1 ∧ k.destroyed = 0
  | .writeComplete _ => False
  | .sendInLoop _ _ _ => False
  | .shutdownInLoop _ _ => False

def Due (s : TcpServer n T) (ℓ : LoopId n) (f : ConnFunctor) : Prop :=
  s.Accepted f.conn ∧ DueFor (s.conns f.conn) ℓ f

/-- The loops have these functors still to call, each of them once. -/
def Holds (s : TcpServer n T) (Q : LoopId n → ConnFunctor → Prop) : Prop :=
  ∀ ℓ, (s.queue ℓ).Nodup ∧ ∀ f, f ∈ s.queue ℓ ↔ Q ℓ f

variable {s s' : TcpServer n T} {ℓ : LoopId n} {c : ℕ} {f : ConnFunctor}
  {Q Q' : LoopId n → ConnFunctor → Prop}

theorem Holds.congr (h : s.Holds Q) (hq : ∀ ℓ, s'.queue ℓ = s.queue ℓ)
    (hQ : ∀ ℓ f, Q' ℓ f ↔ Q ℓ f) : s'.Holds Q' := by
  intro ℓ
  rw [hq]
  exact ⟨(h ℓ).1, fun f => ((h ℓ).2 f).trans (hQ ℓ f).symm⟩

theorem Holds.push [DecidableEq T] (h : s.Holds Q) (t : LoopId n ⊕ T) (hf : ¬ Q ℓ f)
    (hQ : ∀ ℓ' g, Q' ℓ' g ↔ Q ℓ' g ∨ g = f ∧ ℓ' = ℓ) : (s.queueInLoop t ℓ f).Holds Q' := by
  intro ℓ'
  refine ⟨?_, fun g => ?_⟩
  · rw [queue_queueInLoop]
    split_ifs with hℓ
    · subst hℓ
      refine (List.nodup_append_comm.mp ?_)
      exact List.nodup_cons.mpr ⟨fun hm => hf (((h ℓ').2 f).mp hm), (h ℓ').1⟩
    · rw [List.append_nil]
      exact (h ℓ').1
  · rw [mem_queue_queueInLoop, (h ℓ').2, hQ]

theorem Holds.pop [DecidableEq T] (h : s.Holds Q)
    {l : EventLoop (LoopId n ⊕ T) ConnFunctor} (hl : (s.loops ℓ).step .run = some l)
    (hf : s.next ℓ = some f) (hqueue : ∀ ℓ', s'.queue ℓ' = (s.setLoop ℓ l).queue ℓ')
    (hQ : ∀ ℓ' g, Q' ℓ' g ↔ Q ℓ' g ∧ ¬ (g = f ∧ ℓ' = ℓ)) : s'.Holds Q' := by
  intro ℓ'
  obtain ⟨hnodup, hmem⟩ := h ℓ'
  rw [hqueue]
  rw [queue_run hl hf ℓ'] at hnodup hmem
  split_ifs at hnodup hmem with hℓ
  · obtain ⟨hnot, hnodup⟩ := List.nodup_cons.mp hnodup
    refine ⟨hnodup, fun g => ?_⟩
    rw [hQ, ← hmem, List.singleton_append, List.mem_cons]
    constructor
    · intro hg
      exact ⟨Or.inr hg, fun heq => hnot (heq.1 ▸ hg)⟩
    · rintro ⟨hg, hne⟩
      exact hg.resolve_left fun heq => hne ⟨heq, hℓ⟩
  · refine ⟨hnodup, fun g => ?_⟩
    rw [hQ, ← hmem, List.nil_append]
    exact ⟨fun hg => ⟨hg, fun heq => hℓ heq.2⟩, And.left⟩

/-- A functor that is called was due. -/
theorem Holds.of_next [DecidableEq T] (h : s.Holds Q)
    {l : EventLoop (LoopId n ⊕ T) ConnFunctor} (hl : (s.loops ℓ).step .run = some l)
    (hf : s.next ℓ = some f) : Q ℓ f := by
  rw [← (h ℓ).2, queue_run hl hf, if_pos rfl]
  exact List.mem_cons_self

/-! ## The invariant -/

/-- A channel that is being handled belongs to an open connection, or to one that its own event set
has closed. -/
structure Dispatched (s : TcpServer n T) (ℓ : LoopId n) (d : Dispatch) : Prop where
  accepted : s.Accepted d.conn
  loop_ : (s.conns d.conn).loop_ = ℓ
  established : (s.conns d.conn).established = 1
  destroyed : (s.conns d.conn).destroyed = 0
  closes : (s.conns d.conn).tcp.closes = if d.reported then 1 else 0

structure Protocol (s : TcpServer n T) : Prop where
  stage : ∀ c, s.Accepted c → (s.conns c).Stage
  holds : s.Holds s.Due
  channels : ∀ ℓ, ((s.active ℓ).map (·.conn)).Nodup
  active : ∀ ℓ, ∀ d ∈ s.active ℓ, s.Dispatched ℓ d
  handling : ∀ ℓ, s.active ℓ ≠ [] → s.Handling ℓ
  apps : ∀ t, (s.apps t).calling = false

theorem protocol_new (name_ : String) (cb : Bool) : (new n T name_ cb).Protocol where
  stage c _ := stage_new _ _ _ _ _
  holds ℓ := by
    refine ⟨List.nodup_nil, fun f => iff_of_false List.not_mem_nil fun h => ?_⟩
    obtain ⟨h1, h2⟩ := h.1
    exact absurd (h1.trans_lt h2) (lt_irrefl 1)
  channels _ := List.nodup_nil
  active ℓ d hd := by cases hd
  handling ℓ h := absurd rfl h
  apps _ := rfl

/-- Only the connection `c` and the queues may have changed. -/
structure Only (c : ℕ) (s s' : TcpServer n T) : Prop where
  nextConnId_ : s'.nextConnId_ = s.nextConnId_
  conns : ∀ d, d ≠ c → s'.conns d = s.conns d
  active : s'.active = s.active
  phase : ∀ ℓ, (s'.loops ℓ).phase = (s.loops ℓ).phase
  apps : s'.apps = s.apps

theorem Only.trans {s₁ s₂ s₃ : TcpServer n T} (h : Only c s₁ s₂) (h' : Only c s₂ s₃) :
    Only c s₁ s₃ where
  nextConnId_ := h'.nextConnId_.trans h.nextConnId_
  conns d hd := (h'.conns d hd).trans (h.conns d hd)
  active := h'.active.trans h.active
  phase ℓ := (h'.phase ℓ).trans (h.phase ℓ)
  apps := h'.apps.trans h.apps

theorem only_setConn (s : TcpServer n T) (c : ℕ) (k : Conn n) : Only c s (s.setConn c k) where
  nextConnId_ := rfl
  conns d hd := by rw [setConn_conns, if_neg hd]
  active := rfl
  phase _ := rfl
  apps := rfl

theorem only_queueInLoop [DecidableEq T] (c : ℕ) (s : TcpServer n T) (t : LoopId n ⊕ T)
    (ℓ : LoopId n) (f : ConnFunctor) : Only c s (s.queueInLoop t ℓ f) where
  nextConnId_ := rfl
  conns _ _ := rfl
  active := rfl
  phase ℓ' := by
    rw [TcpServer.queueInLoop, setLoop_loops]
    split_ifs with hℓ
    · subst hℓ
      exact EventLoop.phase_queueInLoop _ _
    · subst hℓ
      rfl
    · rfl
  apps := rfl

theorem only_takeOut (s : TcpServer n T) (c : ℕ) : Only c s (s.takeOut c) where
  nextConnId_ := rfl
  conns _ hd := Function.update_of_ne hd _ _
  active := rfl
  phase _ := rfl
  apps := rfl

theorem Only.accepted (h : Only c s s') (d : ℕ) : s'.Accepted d ↔ s.Accepted d := by
  rw [Accepted, Accepted, h.nextConnId_]

theorem Only.due (h : Only c s s') (hf : f.conn ≠ c) : s'.Due ℓ f ↔ s.Due ℓ f := by
  rw [Due, Due, h.accepted, h.conns _ hf]

/-- A dispatch concerns its own connection only. -/
theorem Dispatched.congr {d : Dispatch} (h : s.Dispatched ℓ d) (hacc : s'.Accepted d.conn)
    (hconn : s'.conns d.conn = s.conns d.conn) : s'.Dispatched ℓ d := by
  obtain ⟨-, hloop, he, hd, hcl⟩ := h
  rw [← hconn] at hloop he hd hcl
  exact ⟨hacc, hloop, he, hd, hcl⟩

theorem Only.dispatched (h : Only c s s') {d : Dispatch} (hd : d.conn ≠ c)
    (hdis : s.Dispatched ℓ d) : s'.Dispatched ℓ d :=
  hdis.congr ((h.accepted _).mpr hdis.accepted) (h.conns _ hd)

theorem Only.handling (h : Only c s s') (hh : s.Handling ℓ) : s'.Handling ℓ := by
  rw [Handling, h.phase]
  exact hh

theorem Only.stage (h : Only c s s') (hst : ∀ d, s.Accepted d → (s.conns d).Stage)
    (hc : (s'.conns c).Stage) (d : ℕ) (hd : s'.Accepted d) : (s'.conns d).Stage := by
  by_cases hdc : d = c
  · exact hdc ▸ hc
  · rw [h.conns d hdc]
    exact hst d ((h.accepted d).mp hd)

/-- A callback of the channel being handled. -/
theorem Protocol.advance (h : s.Protocol) {cb : Channel.Callback} {todo : List Channel.Callback}
    {reported reported' : Bool} {rest : List Dispatch}
    (hact : s.active ℓ = ⟨c, cb :: todo, reported⟩ :: rest) (ho : Only c s s')
    (hst : (s'.conns c).Stage) (hholds : s'.Holds s'.Due)
    (hdis : s'.Dispatched ℓ ⟨c, todo, reported'⟩) :
    Protocol { s' with active := Function.update s'.active ℓ (⟨c, todo, reported'⟩ :: rest) } := by
  have hchan := h.channels ℓ
  rw [hact, List.map_cons, List.nodup_cons] at hchan
  have hhead := h.active ℓ _ (by rw [hact]; exact List.mem_cons_self)
  refine ⟨ho.stage h.stage hst, hholds, fun ℓ' => ?_, fun ℓ' d hd => ?_, fun ℓ' hne => ?_,
    fun t => by rw [show s'.apps = _ from ho.apps]; exact h.apps t⟩
  · dsimp only
    rw [Function.update_apply]
    split_ifs
    · rw [List.map_cons, List.nodup_cons]
      exact hchan
    · rw [ho.active]
      exact h.channels ℓ'
  · suffices hd' : s'.Dispatched ℓ' d from hd'.congr hd'.accepted rfl
    dsimp only at hd
    rw [Function.update_apply] at hd
    split_ifs at hd with hℓ
    · subst hℓ
      rcases List.mem_cons.mp hd with rfl | hd
      · exact hdis
      · refine ho.dispatched (fun heq => hchan.1 ?_) ?_
        · exact List.mem_map.mpr ⟨d, hd, heq⟩
        · exact h.active ℓ' d (by rw [hact]; exact List.mem_cons_of_mem _ hd)
    · rw [ho.active] at hd
      have hd' := h.active ℓ' d hd
      refine ho.dispatched (fun heq => hℓ ?_) hd'
      rw [← hd'.loop_, heq]
      exact hhead.loop_
  · refine ho.handling (h.handling ℓ' ?_)
    by_cases hℓ : ℓ' = ℓ
    · rw [hℓ, hact]
      simp
    · dsimp only at hne
      rwa [Function.update_of_ne hℓ, ho.active] at hne

/-- A functor becomes due. -/
theorem Only.due_push (h : Only c s s') (hc : s.Accepted c) (hf : f.conn = c)
    (hk : ∀ ℓ' g, g.conn = c →
      (DueFor (s'.conns c) ℓ' g ↔ DueFor (s.conns c) ℓ' g ∨ g = f ∧ ℓ' = ℓ))
    (ℓ' : LoopId n) (g : ConnFunctor) : s'.Due ℓ' g ↔ s.Due ℓ' g ∨ g = f ∧ ℓ' = ℓ := by
  by_cases hg : g.conn = c
  · rw [Due, Due, h.accepted, hg, hk ℓ' g hg]
    simp only [hc, true_and]
  · rw [h.due hg]
    refine (or_iff_left ?_).symm
    rintro ⟨rfl, -⟩
    exact hg hf

/-- A functor is due no longer. -/
theorem Only.due_pop (h : Only c s s') (hf : f.conn = c)
    (hk : ∀ ℓ' g, g.conn = c →
      (DueFor (s'.conns c) ℓ' g ↔ DueFor (s.conns c) ℓ' g ∧ ¬ (g = f ∧ ℓ' = ℓ)))
    (ℓ' : LoopId n) (g : ConnFunctor) : s'.Due ℓ' g ↔ s.Due ℓ' g ∧ ¬ (g = f ∧ ℓ' = ℓ) := by
  by_cases hg : g.conn = c
  · rw [Due, Due, h.accepted, hg, hk ℓ' g hg, and_assoc]
  · rw [h.due hg]
    refine (and_iff_left ?_).symm
    rintro ⟨rfl, -⟩
    exact hg hf

/-- Nothing that a functor depends on has changed. -/
theorem Only.due_same (h : Only c s s') (hloop : (s'.conns c).loop_ = (s.conns c).loop_)
    (he : (s'.conns c).established = (s.conns c).established)
    (hcl : (s'.conns c).tcp.closes = (s.conns c).tcp.closes)
    (hr : (s'.conns c).removed = (s.conns c).removed)
    (hd : (s'.conns c).destroyed = (s.conns c).destroyed) (ℓ' : LoopId n) (g : ConnFunctor) :
    s'.Due ℓ' g ↔ s.Due ℓ' g := by
  by_cases hg : g.conn = c
  · rw [Due, Due, h.accepted, hg]
    cases g <;> simp only [DueFor, hloop, he, hcl, hr, hd]
  · exact h.due hg

/-! ## Closing -/

section

variable [DecidableEq T]

theorem removeConnectionInLoop_eq (h : s.Handover) (hc : s.Accepted c)
    (hr : (s.conns c).removed = 0) : s.removeConnectionInLoop none c =
      .ok ((s.takeOut c).queueInLoop (.inl none) (s.conns c).loop_ (.connectDestroyed c)) := by
  rw [TcpServer.removeConnectionInLoop, ensure_bind_of rfl,
    ensure_bind_of ((h.erase_eq_one_iff hc).mpr hr)]
  rfl

omit [DecidableEq T] in
theorem dueFor_remove {k : Conn n} (hr : k.removed = 0) (hd : k.destroyed = 0) (hf : f.conn = c) :
    DueFor { k with removed := k.removed + 1 } ℓ f ↔
      DueFor k ℓ f ∧ ¬ (f = .removeConnectionInLoop c ∧ ℓ = none) ∨
        f = .connectDestroyed c ∧ ℓ = k.loop_ := by
  cases f <;> simp only [ConnFunctor.conn] at hf <;> subst hf <;>
    simp +contextual [DueFor, hr, hd, eq_comm]

/-- `removeConnectionInLoop` of a connection that has closed, called by its functor or inline. -/
theorem removeConnectionInLoop_protocol (h : s.Handover) (hc : s.Accepted c)
    (hst : (s.conns c).Stage) (hcl : (s.conns c).tcp.closes = 1) (hr : (s.conns c).removed = 0)
    (hholds : s.Holds fun ℓ f => s.Due ℓ f ∧ ¬ (f = .removeConnectionInLoop c ∧ ℓ = none)) :
    ∃ s', s.removeConnectionInLoop none c = .ok s' ∧ Only c s s' ∧ (s'.conns c).Stage ∧
      s'.Holds s'.Due ∧
      s'.conns c = { s.conns c with removed := (s.conns c).removed + 1 } := by
  have hself : (s.takeOut c).conns c = { s.conns c with removed := (s.conns c).removed + 1 } :=
    Function.update_self _ _ _
  have ho := only_takeOut s c
  have hd : (s.conns c).destroyed = 0 := by
    have := hst.destroyed_le
    omega
  refine ⟨_, removeConnectionInLoop_eq h hc hr, ho.trans (only_queueInLoop c _ _ _ _), ?_, ?_,
    hself⟩
  · change ((s.takeOut c).conns c).Stage
    rw [hself]
    exact hst.remove hcl hr
  · refine Holds.push (Q := fun ℓ f => s.Due ℓ f ∧ ¬ (f = .removeConnectionInLoop c ∧ ℓ = none))
      hholds _ (fun hdue => ?_) fun ℓ' g => ?_
    · have := hdue.1.2
      simp only [DueFor, ConnFunctor.conn, hr] at this
      omega
    · change (s.takeOut c).Due ℓ' g ↔ _
      by_cases hg : g.conn = c
      · rw [Due, Due, ho.accepted, hg, hself]
        rw [dueFor_remove hr hd hg]
        simp only [hc, true_and]
      · rw [ho.due hg]
        have h1 : g ≠ .removeConnectionInLoop c := fun heq => hg (by rw [heq]; rfl)
        have h2 : g ≠ .connectDestroyed c := fun heq => hg (by rw [heq]; rfl)
        simp [h1, h2]

/-- `handleClose` of an open connection, in its loop. -/
theorem handleClose_protocol (h : s.Handover) (hholds : s.Holds s.Due) (hc : s.Accepted c)
    (hst : (s.conns c).Stage) (hloop : (s.conns c).loop_ = ℓ)
    (he : (s.conns c).established = 1) (hcl : (s.conns c).tcp.closes = 0) :
    ∃ s', s.handleClose ℓ c = .ok s' ∧ Only c s s' ∧ (s'.conns c).Stage ∧ s'.Holds s'.Due ∧
      (s'.conns c).loop_ = ℓ ∧ (s'.conns c).established = 1 ∧ (s'.conns c).destroyed = 0 ∧
      (s'.conns c).tcp.closes = 1 := by
  have hr : (s.conns c).removed = 0 := Nat.le_zero.mp (hcl ▸ hst.removed_le)
  have hd : (s.conns c).destroyed = 0 := Nat.le_zero.mp (hr ▸ hst.destroyed_le)
  obtain ⟨tcp, htcp, hst₁, hcl₁⟩ := hst.close he hcl
  have ho := only_setConn s c { s.conns c with tcp := { tcp with closes := tcp.closes + 1 } }
  have hH := h.setTcp c { tcp with closes := tcp.closes + 1 }
  have hself := setConn_self_conns s c
    { s.conns c with tcp := { tcp with closes := tcp.closes + 1 } }
  have hclose : s.handleClose ℓ c =
      (s.setConn c { s.conns c with
        tcp := { tcp with closes := tcp.closes + 1 } }).removeConnection ℓ c := by
    rw [TcpServer.handleClose, ensure_bind_of hloop.symm, ensure_bind_of (hst.opened he hcl).state_,
      htcp]
    rfl
  have hq : ∀ ℓ, (s.setConn c { s.conns c with
      tcp := { tcp with closes := tcp.closes + 1 } }).queue ℓ = s.queue ℓ := fun _ => rfl
  generalize s.setConn c { s.conns c with tcp := { tcp with closes := tcp.closes + 1 } } = s₁
    at ho hH hself hclose hq
  have hc₁ : s₁.Accepted c := (ho.accepted c).mpr hc
  -- what is due now, is due already or is `removeConnectionInLoop`
  have hdue : ∀ ℓ' g, s₁.Due ℓ' g ↔ s.Due ℓ' g ∨ g = .removeConnectionInLoop c ∧ ℓ' = none := by
    refine ho.due_push hc rfl fun ℓ' g hg => ?_
    rw [hself]
    cases g <;> simp only [ConnFunctor.conn] at hg <;> subst hg <;> simp [DueFor, hcl, hcl₁, hr]
  have hnot : ¬ s.Due none (.removeConnectionInLoop c) := fun hdue => by
    have := hdue.2.2.1
    simp only [ConnFunctor.conn] at this
    omega
  rw [hclose, TcpServer.removeConnection, runInLoop]
  split_ifs with hℓ
  · have hholds₁ : s₁.Holds fun ℓ f => s₁.Due ℓ f ∧ ¬ (f = .removeConnectionInLoop c ∧ ℓ = none) :=
      hholds.congr hq fun ℓ' g => by
        rw [hdue]
        constructor
        · rintro ⟨hg, hne⟩
          exact hg.resolve_right hne
        · intro hg
          refine ⟨Or.inl hg, ?_⟩
          rintro ⟨rfl, rfl⟩
          exact hnot hg
    obtain ⟨s', hs', ho', hst', hholds', hconn⟩ :=
      removeConnectionInLoop_protocol hH hc₁ (hself ▸ hst₁) (by rw [hself]; simp [hcl₁])
        (by rw [hself]; exact hr) hholds₁
    refine ⟨s', by rw [hℓ]; exact hs', ho.trans ho', hst', hholds', ?_⟩
    rw [hconn, hself]
    exact ⟨hloop, he, hd, by simp [hcl₁]⟩
  · refine ⟨_, rfl, ho.trans (only_queueInLoop c _ _ _ _), hself ▸ hst₁, ?_, ?_⟩
    · exact Holds.push (hholds.congr hq fun _ _ => Iff.rfl) _ hnot hdue
    · change (s₁.conns c).loop_ = ℓ ∧ (s₁.conns c).established = 1 ∧ (s₁.conns c).destroyed = 0 ∧
        (s₁.conns c).tcp.closes = 1
      rw [hself]
      exact ⟨hloop, he, hd, by simp [hcl₁]⟩

/-! ## Callbacks -/

/-- The event set reports the end of the stream once. -/
def ReportsOnce (s : TcpServer n T) : Event n T → Prop
  | .callback ℓ r _ => ∀ d ∈ (s.active ℓ).head?, ∀ cb ∈ d.todo.head?, RunsClose cb r →
      d.reported = false
  | _ => True

instance (s : TcpServer n T) (e : Event n T) : Decidable (ReportsOnce s e) :=
  match e with
  | .callback _ _ _ => inferInstanceAs (Decidable (∀ _ ∈ _, _))
  | .loop _ | .test _ | .poll _ _ _ | .wakeupRead _ | .newConnection _ | .handled _ | .swap _
  | .run _ _ | .finish _ | .wakeup _ _ | .copy _ _ | .drop _ | .send _ _ | .shutdown _ | .store _
  | .enqueue _ => .isTrue trivial

/-- A callback that runs `handleClose` does little before it. -/
theorem callback_closing (ℓ : LoopId n) (hst : (s.conns c).Stage) {r : ReadResult}
    {cb : Channel.Callback} (hr : RunsClose cb r) (w : WriteResult) :
    ∃ tcp, s.callback ℓ c r w cb =
        (s.setConn c { s.conns c with tcp }).handleClose ℓ c ∧ tcp.Sound ∧
      SameOutput (s.conns c).tcp tcp := by
  rcases hr with rfl | ⟨rfl, rfl⟩
  · exact ⟨(s.conns c).tcp, congrArg (·.handleClose ℓ c) (setConn_self s c).symm, hst.sound,
      .refl _⟩
  · obtain ⟨b, hb, hwf, -⟩ := Buffer.yields_readFd_received hst.sound.input []
    refine ⟨{ (s.conns c).tcp with inputBuffer_ := b }, ?_,
      ⟨hwf, hst.sound.output, hst.sound.agrees⟩, rfl, rfl, rfl, rfl, rfl⟩
    rw [TcpServer.callback, TcpServer.handleRead, hb]
    rfl

/-- Any other changes nothing but the input buffer. -/
theorem callback_other (ℓ : LoopId n) (hst : (s.conns c).Stage) (he : (s.conns c).established = 1)
    (hd : (s.conns c).destroyed = 0) {r : ReadResult} {cb : Channel.Callback}
    (hr : ¬ RunsClose cb r) (w : WriteResult) :
    ∃ tcp, s.callback ℓ c r w cb = .ok (s.setConn c { s.conns c with tcp }) ∧ tcp.Sound ∧
      SameOutput (s.conns c).tcp tcp := by
  cases cb with
  | close => exact absurd (Or.inl rfl) hr
  | error =>
    exact ⟨(s.conns c).tcp, congrArg Except.ok (setConn_self s c).symm, hst.sound, .refl _⟩
  | read =>
    cases r with
    | failed => exact ⟨(s.conns c).tcp, rfl, hst.sound, .refl _⟩
    | received data =>
      obtain ⟨b, hb, hwf, -⟩ := Buffer.yields_readFd_received hst.sound.input data
      have hpos : 0 < data.length := List.length_pos_iff.mpr fun hn => hr (Or.inr ⟨rfl, by rw [hn]⟩)
      refine ⟨{ (s.conns c).tcp with inputBuffer_ := b }, ?_,
        ⟨hwf, hst.sound.output, hst.sound.agrees⟩, rfl, rfl, rfl, rfl, rfl⟩
      rw [TcpServer.callback, TcpServer.handleRead, hb, ok_bind]
      dsimp only
      rw [if_pos hpos]
      rfl
  | write =>
    rw [TcpServer.callback, TcpServer.onTcp, handleWrite_of_not_writing (hst.not_writing he hd)]
    exact ⟨(s.conns c).tcp, rfl, hst.sound, .refl _⟩

/-- **A callback** of a channel that is being handled. -/
theorem callback_protocol (hH : s.Handover) (h : s.Protocol) {cb : Channel.Callback}
    {todo : List Channel.Callback} {reported : Bool} {rest : List Dispatch}
    (hact : s.active ℓ = ⟨c, cb :: todo, reported⟩ :: rest) {r : ReadResult}
    (honce : RunsClose cb r → reported = false) (w : WriteResult) :
    ∃ s', s.callback ℓ c r w cb = .ok s' ∧ Protocol { s' with
      active := Function.update s'.active ℓ
        (⟨c, todo, reported || decide (RunsClose cb r)⟩ :: rest) } := by
  obtain ⟨hc, hloop, he, hd, hcl⟩ := h.active ℓ _ (by rw [hact]; exact List.mem_cons_self)
  dsimp only at hc hloop he hd hcl
  have hst := h.stage c hc
  have hself : ∀ tcp, (s.setConn c { s.conns c with tcp }).conns c = { s.conns c with tcp } :=
    fun tcp => by rw [setConn_conns, if_pos rfl]
  -- the input buffer is no concern of the protocol
  have hsame : ∀ {tcp : TcpConnection}, tcp.Sound → SameOutput (s.conns c).tcp tcp →
      ((s.setConn c { s.conns c with tcp }).conns c).Stage ∧
        (s.setConn c { s.conns c with tcp }).Holds (s.setConn c { s.conns c with tcp }).Due := by
    intro tcp hsound hsame
    refine ⟨by rw [hself]; exact hst.of_same hsound hsame, ?_⟩
    refine h.holds.congr (fun _ => rfl) ((only_setConn s c _).due_same ?_ ?_ ?_ ?_ ?_) <;>
      rw [hself]
    exact hsame.closes
  by_cases hr : RunsClose cb r
  · obtain ⟨tcp, heq, hsound, hout⟩ := callback_closing ℓ hst hr w
    obtain ⟨hst₁, hholds₁⟩ := hsame hsound hout
    have hrep := honce hr
    rw [hrep, if_neg (by decide)] at hcl
    obtain ⟨s', hs', ho, hst', hholds', hloop', he', hd', hcl'⟩ :=
      handleClose_protocol (hH.setTcp c tcp) hholds₁ hc hst₁ (show _ = ℓ by rw [hself]; exact hloop)
        (by rw [hself]; exact he) (by rw [hself]; exact hout.closes.trans hcl)
    have ho' := (only_setConn s c _).trans ho
    refine ⟨s', heq.trans hs', h.advance hact ho' hst' hholds'
      ⟨(ho'.accepted c).mpr hc, hloop', he', hd', ?_⟩⟩
    rw [decide_eq_true hr, Bool.or_true]
    exact hcl'
  · obtain ⟨tcp, heq, hsound, hout⟩ := callback_other ℓ hst he hd hr w
    obtain ⟨hst₁, hholds₁⟩ := hsame hsound hout
    refine ⟨_, heq, h.advance hact (only_setConn s c _) hst₁ hholds₁ ⟨hc, ?_, ?_, ?_, ?_⟩⟩ <;>
      dsimp only <;> rw [hself]
    · exact hloop
    · exact he
    · exact hd
    · rw [decide_eq_false hr, Bool.or_false]
      exact hout.closes.trans hcl

/-! ## Functors -/

omit [DecidableEq T] in
theorem connectEstablished_eq {tcp : TcpConnection} (hloop : ℓ = (s.conns c).loop_)
    (h : (s.conns c).tcp.connectEstablished pure = .ok tcp) : s.connectEstablished ℓ c =
      .ok (s.setConn c { s.conns c with tcp, established := (s.conns c).established + 1 }) := by
  rw [TcpServer.connectEstablished, ensure_bind_of hloop, h]
  rfl

omit [DecidableEq T] in
theorem connectDestroyed_eq {tcp : TcpConnection} (hloop : ℓ = (s.conns c).loop_)
    (h : (s.conns c).tcp.connectDestroyed pure = .ok tcp) : s.connectDestroyed ℓ c =
      .ok (s.setConn c { s.conns c with tcp, destroyed := (s.conns c).destroyed + 1 }) := by
  rw [TcpServer.connectDestroyed, ensure_bind_of hloop, h]
  rfl

omit [DecidableEq T] in
/-- A loop that calls its functors handles no channel. -/
theorem Protocol.active_eq_nil (h : s.Protocol) (hp : ¬ s.Handling ℓ) : s.active ℓ = [] := by
  by_contra hne
  exact hp (h.handling ℓ hne)

/-- A functor of the connection `c` is called. -/
theorem Protocol.called (h : s.Protocol) {l : EventLoop (LoopId n ⊕ T) ConnFunctor}
    (hl : (s.loops ℓ).step .run = some l) (ho : Only c (s.setLoop ℓ l) s')
    (hst : (s'.conns c).Stage) (hholds : s'.Holds s'.Due)
    (hdis : ∀ ℓ', ℓ' ≠ ℓ → ∀ d, s.Dispatched ℓ' d → d.conn = c → s'.Dispatched ℓ' d) :
    s'.Protocol := by
  have hnil : s.active ℓ = [] := by
    obtain ⟨current, f, functions, hp, -⟩ := EventLoop.step_run_iff.mp hl
    exact h.active_eq_nil fun hh => by simp [Handling, hp] at hh
  refine ⟨ho.stage h.stage hst, hholds, fun ℓ' => ?_, fun ℓ' d hd => ?_, fun ℓ' hne => ?_,
    fun t => by rw [ho.apps]; exact h.apps t⟩
  · rw [ho.active]
    exact h.channels ℓ'
  · rw [ho.active] at hd
    have hℓ : ℓ' ≠ ℓ := by
      rintro rfl
      exact absurd (show d ∈ s.active ℓ' from hd) (by rw [hnil]; simp)
    have hd' := h.active ℓ' d hd
    by_cases hdc : d.conn = c
    · exact hdis ℓ' hℓ d hd' hdc
    · exact ho.dispatched hdc (hd'.congr hd'.accepted rfl)
  · rw [ho.active] at hne
    have hℓ : ℓ' ≠ ℓ := by
      rintro rfl
      exact hne hnil
    refine ho.handling ?_
    rw [Handling, setLoop_loops, if_neg hℓ]
    exact h.handling ℓ' hne

omit [DecidableEq T] in
theorem dueFor_establish {k : Conn n} {tcp : TcpConnection} (he : k.established = 0)
    (hcl : k.tcp.closes = 0) (hcl' : tcp.closes = 0) (hf : f.conn = c) :
    DueFor { k with tcp, established := k.established + 1 } ℓ f ↔
      DueFor k ℓ f ∧ ¬ (f = .connectEstablished c ∧ ℓ = k.loop_) := by
  cases f <;> simp only [ConnFunctor.conn] at hf <;> subst hf <;>
    simp +contextual [DueFor, he, hcl, hcl', eq_comm]

omit [DecidableEq T] in
theorem dueFor_destroy {k : Conn n} {tcp : TcpConnection} (hr : k.removed = 1)
    (hd : k.destroyed = 0) (hf : f.conn = c) :
    DueFor { k with tcp, destroyed := k.destroyed + 1 } ℓ f ↔
      DueFor k ℓ f ∧ ¬ (f = .connectDestroyed c ∧ ℓ = k.loop_) := by
  cases f <;> simp only [ConnFunctor.conn] at hf <;> subst hf <;>
    simp +contextual [DueFor, hr, hd, eq_comm]

/-- **A call** comes to its end. -/
theorem call_protocol (hH : s.Handover) (h : s.Protocol)
    {l : EventLoop (LoopId n ⊕ T) ConnFunctor} (hl : (s.loops ℓ).step .run = some l)
    (hf : s.next ℓ = some f) (w : WriteResult) :
    ∃ s', (s.setLoop ℓ l).call ℓ w f = .ok s' ∧ s'.Protocol := by
  obtain ⟨hc, hdue⟩ := h.holds.of_next hl hf
  have hst := h.stage _ hc
  cases f with
  | connectEstablished c =>
    obtain ⟨hloop, he⟩ := hdue
    dsimp only [ConnFunctor.conn] at hc hst hloop he
    obtain ⟨tcp, htcp, hst', hcl'⟩ := hst.establish he
    have hcl : (s.conns c).tcp.closes = 0 := Nat.le_zero.mp (he ▸ hst.closes_le)
    have ho := only_setConn (s.setLoop ℓ l) c
      { s.conns c with tcp, established := (s.conns c).established + 1 }
    have hself := setConn_self_conns (s.setLoop ℓ l) c
      { s.conns c with tcp, established := (s.conns c).established + 1 }
    suffices hp : ((s.setLoop ℓ l).setConn c
        { s.conns c with tcp, established := (s.conns c).established + 1 }).Protocol from
      ⟨_, connectEstablished_eq (s := s.setLoop ℓ l) hloop.symm htcp, hp⟩
    refine h.called hl ho (by rw [hself]; exact hst') ?_ fun ℓ' _ d hd hdc => ?_
    · refine h.holds.pop hl hf (fun _ => rfl) (ho.due_pop rfl fun ℓ' g hg => ?_)
      rw [hself, ← hloop]
      exact dueFor_establish he hcl hcl' hg
    · have := hd.established
      rw [hdc, he] at this
      cases this
  | removeConnectionInLoop c =>
    obtain ⟨hℓ, hcl, hr⟩ := hdue
    dsimp only [ConnFunctor.conn] at hc hst hcl hr
    subst hℓ
    obtain ⟨s', hs', ho, hst', hholds', hconn⟩ :=
      removeConnectionInLoop_protocol (hH.popped hl hf (by simp)) hc hst hcl hr
        (h.holds.pop hl hf (fun _ => rfl) fun _ _ => Iff.rfl)
    refine ⟨s', hs', h.called hl ho hst' hholds' fun ℓ' _ d hd hdc => ?_⟩
    obtain ⟨h1, h2, h3, h4, h5⟩ := hd
    rw [hdc] at h1 h2 h3 h4 h5
    refine ⟨(ho.accepted _).mpr (hdc ▸ h1), ?_, ?_, ?_, ?_⟩ <;> rw [hdc, hconn]
    · exact h2
    · exact h3
    · exact h4
    · exact h5
  | connectDestroyed c =>
    obtain ⟨hloop, hr, hd⟩ := hdue
    dsimp only [ConnFunctor.conn] at hc hst hloop hr hd
    obtain ⟨tcp, htcp, hst', hcl'⟩ := hst.destroy hr hd
    have ho := only_setConn (s.setLoop ℓ l) c
      { s.conns c with tcp, destroyed := (s.conns c).destroyed + 1 }
    have hself := setConn_self_conns (s.setLoop ℓ l) c
      { s.conns c with tcp, destroyed := (s.conns c).destroyed + 1 }
    suffices hp : ((s.setLoop ℓ l).setConn c
        { s.conns c with tcp, destroyed := (s.conns c).destroyed + 1 }).Protocol from
      ⟨_, connectDestroyed_eq (s := s.setLoop ℓ l) hloop.symm htcp, hp⟩
    refine h.called hl ho (by rw [hself]; exact hst') ?_ fun ℓ' hℓ d hd hdc => ?_
    · refine h.holds.pop hl hf (fun _ => rfl) (ho.due_pop rfl fun ℓ' g hg => ?_)
      rw [hself, ← hloop]
      exact dueFor_destroy hr hd hg
    · have := hd.loop_
      rw [hdc, hloop] at this
      exact absurd this.symm hℓ
  | writeComplete c => exact absurd hdue id
  | sendInLoop c message late => exact absurd hdue id
  | shutdownInLoop c late => exact absurd hdue id

/-! ## Accepting -/

omit [DecidableEq T] in
/-- What concerns the old connections goes on. -/
theorem Protocol.inserted (hH : s.Handover) (h : s.Protocol) {sockfd : ℕ}
    (ho : Only s.nextConnId_ (s.insert sockfd) s') (hst : (s'.conns s.nextConnId_).Stage)
    (hholds : s'.Holds s'.Due) : s'.Protocol := by
  have hold : ∀ {d}, s.Accepted d → (s.insert sockfd).conns d = s.conns d := fun hd => by
    rw [insert_conns, if_neg hd.2.ne]
  refine ⟨fun d hd => ?_, hholds, fun ℓ' => ?_, fun ℓ' d hd => ?_, fun ℓ' hne => ?_,
    fun t => by rw [ho.apps]; exact h.apps t⟩
  · by_cases hdc : d = s.nextConnId_
    · exact hdc ▸ hst
    · have hd' := ((hH.accepted_insert sockfd d).mp ((ho.accepted d).mp hd)).resolve_right hdc
      rw [ho.conns d hdc, hold hd']
      exact h.stage d hd'
  · rw [ho.active]
    exact h.channels ℓ'
  · rw [ho.active] at hd
    have hdis := h.active ℓ' d hd
    have hc := hdis.accepted
    exact ho.dispatched hc.2.ne
      (hdis.congr ((hH.accepted_insert sockfd _).mpr (Or.inl hc)) (hold hc))
  · rw [ho.active] at hne
    exact ho.handling (h.handling ℓ' hne)

omit [DecidableEq T] in
/-- The new connection has the functor `Q`, the others keep theirs. -/
theorem inserted_due (hH : s.Handover) {sockfd : ℕ}
    (ho : Only s.nextConnId_ (s.insert sockfd) s')
    (hQ : ∀ ℓ g, g.conn = s.nextConnId_ → (DueFor (s'.conns s.nextConnId_) ℓ g ↔ Q ℓ g))
    (hQ' : ∀ ℓ g, Q ℓ g → g.conn = s.nextConnId_) (ℓ : LoopId n) (g : ConnFunctor) :
    s'.Due ℓ g ↔ s.Due ℓ g ∨ Q ℓ g := by
  by_cases hg : g.conn = s.nextConnId_
  · have hnot : ¬ s.Due ℓ g := fun hd => hd.1.2.ne hg
    have hacc : s'.Accepted g.conn :=
      (ho.accepted _).mpr ((hH.accepted_insert sockfd _).mpr (Or.inr hg))
    rw [or_iff_right hnot, ← hQ ℓ g hg, Due, and_iff_right hacc, hg]
  · rw [ho.due hg, or_iff_left fun hq => hg (hQ' ℓ g hq), Due, Due, hH.accepted_insert,
      or_iff_left hg, insert_conns, if_neg hg]

theorem newConnection_protocol (hH : s.Handover) (h : s.Protocol) (sockfd : ℕ) :
    ∃ s', s.newConnection sockfd = .ok s' ∧ s'.Protocol := by
  have hself : (s.insert sockfd).conns s.nextConnId_ = s.made sockfd := by
    rw [insert_conns, if_pos rfl]
  have hst : (s.made sockfd).Stage := stage_new _ _ _ _ _
  rw [TcpServer.newConnection, runInLoop]
  split_ifs with hℓ
  · obtain ⟨tcp, htcp, hst', hcl'⟩ := hst.establish rfl
    have ho := only_setConn (s.insert sockfd) s.nextConnId_
      { s.made sockfd with tcp, established := (s.made sockfd).established + 1 }
    have hself' := setConn_self_conns (s.insert sockfd) s.nextConnId_
      { s.made sockfd with tcp, established := (s.made sockfd).established + 1 }
    rw [← hself] at htcp
    refine ⟨_, connectEstablished_eq (by rw [hself]; exact hℓ) htcp, ?_⟩
    rw [hself]
    refine h.inserted hH ho (by rw [hself']; exact hst') ?_
    refine h.holds.congr (fun _ => rfl) fun ℓ' g => ?_
    rw [inserted_due (Q := fun _ _ => False) hH ho ?_ fun _ _ => False.elim, or_false]
    intro ℓ' g hg
    rw [hself']
    cases g <;> simp [DueFor, made, hcl']
  · have ho := only_queueInLoop s.nextConnId_ (s.insert sockfd) (.inl none)
      s.threadPool_.getNextLoop.1 (.connectEstablished s.nextConnId_)
    have hself' : ((s.insert sockfd).queueInLoop (.inl none) s.threadPool_.getNextLoop.1
        (.connectEstablished s.nextConnId_)).conns s.nextConnId_ = s.made sockfd := hself
    refine ⟨_, rfl, h.inserted hH ho (by rw [hself']; exact hst) ?_⟩
    have hholds : (s.insert sockfd).Holds s.Due := h.holds.congr (fun _ => rfl) fun _ _ => Iff.rfl
    refine hholds.push _ (fun hdue => absurd hdue.1.2 (lt_irrefl _)) ?_
    refine inserted_due hH ho (fun ℓ' g hg => ?_) fun ℓ' g hg => ?_
    · rw [hself']
      cases g <;> simp only [ConnFunctor.conn] at hg <;> subst hg <;>
        simp [DueFor, made, TcpConnection.new, eq_comm]
    · rw [hg.1]
      rfl

/-! ## Steps -/

omit [DecidableEq T] in
/-- A step that leaves the connections and the queues alone. -/
theorem Protocol.calm (h : s.Protocol) (hnext : s'.nextConnId_ = s.nextConnId_)
    (hconns : s'.conns = s.conns) (hq : ∀ ℓ, s'.queue ℓ = s.queue ℓ)
    (hchan : ∀ ℓ, ((s'.active ℓ).map (·.conn)).Nodup)
    (hact : ∀ ℓ, ∀ d ∈ s'.active ℓ, s.Dispatched ℓ d)
    (hhand : ∀ ℓ, s'.active ℓ ≠ [] → s'.Handling ℓ)
    (happs : ∀ t, (s'.apps t).calling = false) : s'.Protocol := by
  have hacc : ∀ c, s'.Accepted c ↔ s.Accepted c := fun c => by rw [Accepted, Accepted, hnext]
  refine ⟨fun c hc => ?_, h.holds.congr hq fun ℓ f => ?_, hchan, fun ℓ d hd => ?_, hhand, happs⟩
  · rw [hconns]
    exact h.stage c ((hacc c).mp hc)
  · rw [Due, Due, hacc, hconns]
  · have hdis := hact ℓ d hd
    exact hdis.congr ((hacc _).mpr hdis.accepted) (by rw [hconns])

/-- A turn of a loop. While it handles channels it goes on to do so. -/
theorem Protocol.turn (h : s.Protocol) {e : EventLoop.Event (LoopId n ⊕ T) ConnFunctor}
    {l : EventLoop (LoopId n ⊕ T) ConnFunctor} (hl : (s.loops ℓ).step e = some l)
    (hr : e ≠ .run) (hq : e.queued = [])
    (hphase : s.active ℓ ≠ [] → s.Handling ℓ →
      l.phase = .handling true ∨ l.phase = .handling false) :
    (s.setLoop ℓ l).Protocol := by
  refine h.calm rfl rfl (queue_turn hl hr hq) h.channels h.active (fun ℓ' hne => ?_) h.apps
  have hhand := h.handling ℓ' hne
  rw [Handling, setLoop_loops]
  split_ifs with hℓ
  · subst hℓ
    exact hphase hne hhand
  · exact hhand

omit [DecidableEq T] in
/-- Application threads that are not in `send` or `shutdown`. -/
theorem Protocol.setApp [DecidableEq T] (h : s.Protocol) (t : T) {a : App}
    (ha : a.calling = false) : Protocol { s with apps := Function.update s.apps t a } := by
  refine h.calm rfl rfl (fun _ => rfl) h.channels h.active h.handling fun t' => ?_
  dsimp only
  rw [Function.update_apply]
  split_ifs
  · exact ha
  · exact h.apps t'

/-- The event is a call of `send` or `shutdown`. -/
def Event.calls : Event n T → Bool
  | .send _ _ => true
  | .shutdown _ => true
  | _ => false

omit [DecidableEq T] in
/-- `epoll_wait` reports open connections. -/
theorem Protocol.ready (hH : s.Handover) (h : s.Protocol) {revents : Mask}
    (hr : s.Ready ℓ c revents) (todo : List Channel.Callback) :
    s.Dispatched ℓ ⟨c, todo, false⟩ := by
  obtain ⟨howned, hloop, e, he, -⟩ := hr
  have hc := hH.accepted_of_owned howned
  have hst := h.stage c hc
  obtain ⟨hest, hcl⟩ := hst.open_of_registered (by rw [he]; simp)
  have h1 := hst.destroyed_le
  have h2 := hst.removed_le
  exact ⟨hc, hloop, hest, by dsimp only; omega, hcl⟩

/-- The channels of a `poll` are handled from the first callback on. -/
theorem Protocol.poll (hH : s.Handover) (h : s.Protocol) {woken : Bool} {revents : List (ℕ × Mask)}
    {l : EventLoop (LoopId n ⊕ T) ConnFunctor}
    (hl : (s.loops ℓ).step (.poll woken) = some l)
    (hready : ∀ p ∈ revents, s.Ready ℓ p.1 p.2) (hnodup : (revents.map (·.1)).Nodup) :
    Protocol { s.setLoop ℓ l with
      active := Function.update s.active ℓ
        (revents.map fun p => ⟨p.1, Channel.callbacks p.2, false⟩) } := by
  obtain ⟨-, -, rfl⟩ := EventLoop.step_poll_iff.mp hl
  refine h.calm rfl rfl (queue_turn hl (by simp) rfl) (fun ℓ' => ?_) (fun ℓ' d hd => ?_)
    (fun ℓ' hne => ?_) h.apps
  · dsimp only
    rw [Function.update_apply]
    split_ifs
    · rw [List.map_map]
      exact hnodup
    · exact h.channels ℓ'
  · dsimp only at hd
    rw [Function.update_apply] at hd
    split_ifs at hd with hℓ
    · subst hℓ
      obtain ⟨p, hpm, rfl⟩ := List.mem_map.mp hd
      exact h.ready hH (hready p hpm) _
    · exact h.active ℓ' d hd
  · change (((s.setLoop ℓ _).loops ℓ').phase = _ ∨ ((s.setLoop ℓ _).loops ℓ').phase = _)
    rw [setLoop_loops]
    split_ifs with hℓ
    · cases woken with
      | true => exact Or.inl rfl
      | false => exact Or.inr rfl
    · dsimp only at hne
      rw [Function.update_of_ne hℓ] at hne
      exact h.handling ℓ' hne

omit [DecidableEq T] in
/-- A channel has had all its callbacks. -/
theorem Protocol.handled (h : s.Protocol) {d : Dispatch} {rest : List Dispatch}
    (hact : s.active ℓ = d :: rest) :
    Protocol { s with active := Function.update s.active ℓ rest } := by
  refine h.calm rfl rfl (fun _ => rfl) (fun ℓ' => ?_) (fun ℓ' d hd => ?_) (fun ℓ' hne => ?_) h.apps
  · dsimp only
    rw [Function.update_apply]
    split_ifs
    · have := h.channels ℓ
      rw [hact] at this
      exact (List.nodup_cons.mp this).2
    · exact h.channels ℓ'
  · dsimp only at hd
    rw [Function.update_apply] at hd
    split_ifs at hd with hℓ
    · subst hℓ
      exact h.active ℓ' d (by rw [hact]; exact List.mem_cons_of_mem _ hd)
    · exact h.active ℓ' d hd
  · refine h.handling ℓ' ?_
    by_cases hℓ : ℓ' = ℓ
    · rw [hℓ, hact]
      simp
    · dsimp only at hne
      rwa [Function.update_of_ne hℓ] at hne

/-- A turn of a loop at the end of which it handles events only if it did before, or if there are
none. -/
theorem Protocol.turns (h : s.Protocol) {e : EventLoop.Event (LoopId n ⊕ T) ConnFunctor}
    {o : Outcome (TcpServer n T)} (hp : (s.turn ℓ e).map pure = some o) (hr : e ≠ .run)
    (hq : e.queued = []) (hphase : ∀ l, (s.loops ℓ).step e = some l → s.Handling ℓ →
      l.phase = .handling true ∨ l.phase = .handling false) :
    ∃ s', o = .ok s' ∧ s'.Protocol := by
  obtain ⟨l, hl, rfl⟩ := map_turn_eq_some hp
  exact ⟨_, rfl, h.turn hl hr hq fun _ hh => hphase l hl hh⟩

omit [DecidableEq T] in
/-- `doPendingFunctors` begins and ends outside of the handlers. -/
theorem Protocol.setFunctions (h : s.Protocol) (fs : List ConnFunctor) :
    { s with functions := Function.update s.functions ℓ fs }.Protocol :=
  h.calm rfl rfl (fun _ => rfl) h.channels h.active h.handling h.apps

omit [DecidableEq T] in
/-- Nobody is in a call of `send` or `shutdown`. -/
theorem Protocol.not_calling (h : s.Protocol) {t : T} {a : App} (ha : s.apps t = a)
    (hcalling : a.calling = true) : False := by
  have hidle := h.apps t
  rw [ha, hcalling] at hidle
  cases hidle

variable [Fintype T]

/-- **Every event that can happen** comes to its end, so no assertion fails, and keeps the
protocol. -/
theorem perform_protocol {e : Event n T} {o : Outcome (TcpServer n T)} (hH : s.Handover)
    (h : s.Protocol) (hcalls : e.calls = false) (honce : ReportsOnce s e)
    (hp : s.perform e = some o) : ∃ s', o = .ok s' ∧ s'.Protocol := by
  obtain ⟨-, hp⟩ := perform_eq_some_iff.mp hp
  cases e with
  | loop ℓ =>
    refine h.turns hp (by simp) rfl fun l hl hh => ?_
    obtain ⟨hph, -⟩ := EventLoop.step_loop_iff.mp hl
    simp [Handling, hph] at hh
  | test ℓ =>
    refine h.turns hp (by simp) rfl fun l hl hh => ?_
    obtain ⟨hph, -⟩ := EventLoop.step_test_iff.mp hl
    simp [Handling, hph] at hh
  | poll ℓ woken revents =>
    obtain ⟨hready, hnodup, l, hl, rfl⟩ := act_poll_eq_some hp
    exact ⟨_, rfl, h.poll hH hl hready hnodup⟩
  | wakeupRead ℓ =>
    refine h.turns hp (by simp) rfl fun l hl _ => ?_
    obtain ⟨-, rfl⟩ := EventLoop.step_handleRead_iff.mp hl
    exact Or.inr rfl
  | newConnection sockfd =>
    obtain ⟨s', hs', hprot⟩ := newConnection_protocol hH h sockfd
    exact ⟨s', (act_newConnection_eq_some hp).2.symm.trans hs', hprot⟩
  | callback ℓ r w =>
    obtain ⟨c, cb, todo, reported, rest, hact, rfl⟩ := act_callback_eq_some hp
    have honce' : RunsClose cb r → reported = false :=
      honce ⟨c, cb :: todo, reported⟩ (by rw [hact]; rfl) cb rfl
    obtain ⟨s', hs', hprot⟩ := callback_protocol hH h hact honce' w
    rw [hs']
    exact ⟨_, rfl, hprot⟩
  | handled ℓ =>
    obtain ⟨c, reported, rest, hact, rfl⟩ := act_handled_eq_some hp
    exact ⟨_, rfl, h.handled hact⟩
  | swap ℓ =>
    obtain ⟨hnil, l, hl, rfl⟩ := act_swap_eq_some hp
    have ht := h.turn hl (by simp) rfl fun hne => absurd hnil hne
    exact ⟨_, rfl, ht.setFunctions _⟩
  | run ℓ w =>
    obtain ⟨f, l, hf, hl, rfl⟩ := act_run_eq_some hp
    exact call_protocol hH h hl hf w
  | finish ℓ =>
    obtain ⟨l, hl, rfl⟩ := act_finish_eq_some hp
    have ht := h.turn hl (by simp) rfl fun _ hh => by
      obtain ⟨⟨current, hph⟩, -⟩ := EventLoop.step_finish_iff.mp hl
      simp [Handling, hph] at hh
    exact ⟨_, rfl, ht.setFunctions _⟩
  | wakeup t ℓ =>
    refine h.turns hp (by simp) rfl fun l hl hh => ?_
    obtain ⟨-, rfl⟩ := EventLoop.step_wakeup_iff.mp hl
    change ((s.loops ℓ).wakeup.phase = _ ∨ (s.loops ℓ).wakeup.phase = _)
    rw [EventLoop.phase_wakeup]
    exact hh
  | copy t c =>
    obtain ⟨-, rfl⟩ := act_copy_eq_some hp
    exact ⟨_, rfl, h.setApp t rfl⟩
  | drop t =>
    obtain rfl := act_drop_eq_some hp
    exact ⟨_, rfl, h.setApp t rfl⟩
  | send t message => cases hcalls
  | shutdown t => cases hcalls
  | store t =>
    obtain ⟨c, happ, -⟩ := act_store_eq_some hp
    exact (h.not_calling happ rfl).elim
  | enqueue t =>
    obtain ⟨c, f, hf, -⟩ := act_enqueue_eq_some hp
    rcases hf with ⟨message, happ, -⟩ | ⟨happ, -⟩
    · exact (h.not_calling happ rfl).elim
    · exact (h.not_calling happ rfl).elim

/-! ## Runs -/

theorem protocol_of_run {name_ : String} {cb : Bool} {es : List (Event n T)}
    (h : Run step (new n T name_ cb) es s) (hcalls : ∀ e ∈ es, e.calls = false)
    (honce : Along step ReportsOnce (new n T name_ cb) es) : s.Handover ∧ s.Protocol := by
  refine h.inv_of (P := fun s => s.Handover ∧ s.Protocol)
    (C := fun s e => e.calls = false ∧ ReportsOnce s e) ?_ ?_ ?_
  · rintro s e s' ⟨hH, hP⟩ ⟨he, ho⟩ hs
    obtain ⟨t, ht, hP'⟩ := perform_protocol hH hP he ho (step_eq_some_iff.mp hs)
    exact ⟨step_handover hH hs, Except.ok.inj ht ▸ hP'⟩
  · intro pre e post t hes hr
    exact ⟨hcalls e (by rw [hes]; simp), honce pre e post t hes hr⟩
  · exact ⟨handover_new name_ cb, protocol_new name_ cb⟩

/-- The open/close protocol, in one state. -/
structure OpenClose (s : TcpServer n T) : Prop where
  /-- `connections_` holds the connections whose `removeConnectionInLoop` has not run -/
  map : ∀ c, c ∈ s.connections_.map (·.2) ↔ s.Accepted c ∧ (s.conns c).removed = 0
  key : ∀ p ∈ s.connections_, p.1 = (s.conns p.2).name_
  keys : (s.connections_.map (·.1)).Nodup
  /-- the names are pairwise distinct -/
  names : ∀ c d, s.Accepted c → s.Accepted d → (s.conns c).name_ = (s.conns d).name_ → c = d
  /-- `erase` removes exactly one -/
  erase : ∀ c, s.Accepted c → (s.conns c).removed = 0 → (s.erase (s.conns c).name_).2 = 1
  /-- each step of the life of a connection comes behind the one before it, and once -/
  order : ∀ c, s.Accepted c → (s.conns c).destroyed ≤ (s.conns c).removed ∧
    (s.conns c).removed ≤ (s.conns c).tcp.closes ∧
    (s.conns c).tcp.closes ≤ (s.conns c).established ∧ (s.conns c).established ≤ 1
  /-- no functor is queued twice -/
  once : ∀ ℓ, (s.queue ℓ).Nodup
  /-- `connectEstablished` is queued in the connection's loop until it has run -/
  established : ∀ c ℓ, s.Accepted c →
    (.connectEstablished c ∈ s.queue ℓ ↔ (s.conns c).loop_ = ℓ ∧ (s.conns c).established = 0)
  /-- so is `connectDestroyed`, when the connection is out of the map -/
  destroyed : ∀ c ℓ, s.Accepted c → (.connectDestroyed c ∈ s.queue ℓ ↔
    (s.conns c).loop_ = ℓ ∧ (s.conns c).removed = 1 ∧ (s.conns c).destroyed = 0)
  /-- events are handled in the connection's loop, behind `connectEstablished` -/
  handled : ∀ ℓ, ∀ d ∈ s.active ℓ,
    s.Accepted d.conn ∧ (s.conns d.conn).loop_ = ℓ ∧ (s.conns d.conn).established = 1
  /-- a `shared_ptr` holds the connection until `connectDestroyed` has run -/
  owned : ∀ c, s.Accepted c → (s.conns c).destroyed = 0 → s.Owned c

omit [DecidableEq T] [Fintype T] in
theorem Protocol.openClose (hH : s.Handover) (h : s.Protocol) : s.OpenClose where
  map c := hH.mem_map_iff
  key p hp := by
    obtain ⟨hacc, -, hname⟩ := (hH.map p).mp hp
    rw [hH.name p.2 hacc, hname]
  keys := hH.names
  names c d hc hd heq := by
    rw [hH.name c hc, hH.name d hd] at heq
    exact s.connName_injective heq
  erase c hc hr := (hH.erase_eq_one_iff hc).mpr hr
  order c hc := by
    have hst := h.stage c hc
    exact ⟨hst.destroyed_le, hst.removed_le, hst.closes_le, hst.established_le⟩
  once ℓ := (h.holds ℓ).1
  established c ℓ hc := ((h.holds ℓ).2 _).trans (and_iff_right hc)
  destroyed c ℓ hc := ((h.holds ℓ).2 _).trans (and_iff_right hc)
  handled ℓ d hd := by
    have hdis := h.active ℓ d hd
    exact ⟨hdis.accepted, hdis.loop_, hdis.established⟩
  owned c hc hd := by
    have hst := h.stage c hc
    refine hH.owned hc ?_
    by_cases hr : (s.conns c).removed = 0
    · exact Or.inl hr
    · have h2 := hst.removed_le
      have h3 := hst.closes_le
      have h4 := hst.established_le
      exact Or.inr (((h.holds _).2 _).mpr ⟨hc, rfl, by simp only [ConnFunctor.conn]; omega, hd⟩)

/-- **The open/close protocol.** In every run without `send` and `shutdown` in which each event set
reports the end of the stream once, with any number of I/O loops, connections and threads, the
protocol holds in every state; and every event that can happen comes to its end, so that no
assertion fails. -/
theorem open_close {name_ : String} {cb : Bool} {es : List (Event n T)}
    (h : Run step (new n T name_ cb) es s) (hcalls : ∀ e ∈ es, e.calls = false)
    (honce : Along step ReportsOnce (new n T name_ cb) es) :
    s.OpenClose ∧ ∀ e o, e.calls = false → ReportsOnce s e → s.perform e = some o →
      ∃ s', o = .ok s' := by
  obtain ⟨hH, hP⟩ := protocol_of_run h hcalls honce
  refine ⟨hP.openClose hH, fun e o he ho hp => ?_⟩
  obtain ⟨s', hs', -⟩ := perform_protocol hH hP he ho hp
  exact ⟨s', hs'⟩

end

/-- A connection that is accepted, closed by its peer and destroyed, with one I/O loop. -/
def openAndClose : List (Event 1 Unit) :=
  [.loop none, .test none, .poll none false [], .newConnection 5, .wakeup (.inl none) ioLoop,
    .loop ioLoop, .test ioLoop, .poll ioLoop true [], .wakeupRead ioLoop, .swap ioLoop,
    .run ioLoop .wouldBlock, .finish ioLoop, .test ioLoop,
    .poll ioLoop false [(1, EPOLLIN)], .callback ioLoop (.received []) .wouldBlock,
    .wakeup (.inl ioLoop) none, .handled ioLoop, .swap ioLoop, .finish ioLoop, .swap none,
    .run none .wouldBlock, .wakeup (.inl none) ioLoop, .finish none, .test ioLoop,
    .poll ioLoop true [], .wakeupRead ioLoop, .swap ioLoop, .run ioLoop .wouldBlock]

theorem openAndClose_open_close : ∃ s, Run step (new 1 Unit "server" false) openAndClose s ∧
    s.connections_ = [] ∧ (s.conns 1).destroyed = 1 ∧ s.OpenClose := by
  have h : (openAndClose.foldlM step (new 1 Unit "server" false)).map (fun s =>
      (s.connections_, (s.conns 1).destroyed)) = some ([], 1) := by decide +kernel
  obtain ⟨s, hs, hq⟩ := Option.map_eq_some_iff.mp h
  obtain ⟨hm, hd⟩ := Prod.mk.inj hq
  exact ⟨s, hs, hm, hd, (open_close hs (by decide) (along_of_check (by decide +kernel))).1⟩

end TcpServer

end HighServer
