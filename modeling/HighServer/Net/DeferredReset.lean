import HighServer.Net.TcpClient

/-!
# The deferred reset of a channel

One iteration of `EventLoop::loop` handles the active channels in the order in which `epoll_wait`
gave them, and runs the pending functors behind all of them. `resetChannel` is such a functor; the
retry timers fire in the handler of the timerfd, which reads the clock again.

* `Iterating`, `step`: the connector under these iterations, with the clock and the expirations of
  its retry timers;
* `Holds`: the assertion of `connecting` does not fail, and `resetChannel` takes away the channel
  that it was queued for;
* `Calm`: in an iteration that has ended an attempt, no retry timer fires, and `start` is not
  called;
* `Sound`, `Rested`: the invariants, without and with the condition;
* **`reset_deferred`**: runs in which every step is `Calm` hold, and any other step can make the
  assertion fail; `slow_handler` is a run in which it does.
-/

namespace HighServer

/-- A channel in `activeChannels_`. -/
inductive Active where
  /-- that of the connector -/
  | connector
  | timerfd
  | other (fd : ℕ)
  deriving DecidableEq, Repr

/-- Where `loop` is. -/
inductive LoopPhase where
  /-- in `epoll_wait` -/
  | polling
  /-- before the handler of the first of these -/
  | handling (activeChannels_ : List Active)
  /-- in `doPendingFunctors`, or before the first iteration -/
  | functors
  deriving DecidableEq, Repr

namespace LoopPhase

def next : LoopPhase → Option Active
  | .handling activeChannels_ => activeChannels_.head?
  | _ => none

/-- A handler has returned. -/
def handled : LoopPhase → LoopPhase
  | .handling activeChannels_ => .handling activeChannels_.tail
  | p => p

end LoopPhase

/-- A connector in its loop. Times are microseconds. -/
structure Iterating where
  connector : Connector
  clock : ℕ
  /-- when the retry timers expire -/
  expiration : ℕ → ℕ
  /-- the sockets of the channels for which `resetChannel` is queued -/
  resetFor : List ℕ
  phase : LoopPhase

namespace Iterating

open Runs

def new : Iterating where
  connector := Connector.new
  clock := 0
  expiration _ := 0
  resetFor := []
  phase := .functors

inductive Event where
  /-- time passes -/
  | advance (d : ℕ)
  | poll (activeChannels_ : List Active)
  /-- the handler of the connector's channel -/
  | dispatch (revents_ : Mask) (err : ℕ) (self : Bool)
  /-- the handler of the timerfd reads the clock and takes the expired timers -/
  | timerfd
  /-- and calls the next of them -/
  | fire (savedErrno : ConnectErrno)
  /-- another handler -/
  | other (fd : ℕ)
  | doPendingFunctors
  | resetChannel
  | finish
  /-- calls in handlers and functors -/
  | start (savedErrno : ConnectErrno)
  | restart (savedErrno : ConnectErrno)
  | stop
  deriving DecidableEq, Repr

/-- A handler ends when all the callbacks of the timers are called. A timer that expires at the
reading fails the assertion of `getExpired`. The connection of an attempt closes in a later
iteration than that in which the attempt succeeded. -/
def Event.Enabled (s : Iterating) : Event → Prop
  | .advance _ => True
  | .poll activeChannels_ => s.phase = .polling ∧ activeChannels_.Nodup ∧
      (.connector ∈ activeChannels_ → s.connector.attempt ≠ none)
  | .dispatch _ _ _ => s.connector.due = [] ∧ s.phase.next = some .connector
  | .timerfd => s.connector.due = [] ∧ s.phase.next = some .timerfd ∧
      ∀ i ∈ s.connector.waiting, s.expiration i ≠ s.clock
  | .fire _ => s.connector.due ≠ []
  | .other fd => s.connector.due = [] ∧ s.phase.next = some (.other fd)
  | .doPendingFunctors => s.connector.due = [] ∧ s.phase = .handling []
  | .resetChannel => s.phase = .functors ∧ 0 < s.connector.resets
  | .finish => s.phase = .functors ∧ s.connector.resets = 0
  | .start _ => s.phase ≠ .polling
  | .restart _ => s.phase ≠ .polling ∧ s.connector.state_ = .kConnected ∧ s.connector.resets = 0
  | .stop => s.phase ≠ .polling

instance (s : Iterating) (e : Event) : Decidable (e.Enabled s) :=
  match e with
  | .advance _ => .isTrue trivial
  | .poll _ | .dispatch _ _ _ | .timerfd | .other _ | .doPendingFunctors | .resetChannel | .finish
  | .restart _ => inferInstanceAs (Decidable (_ ∧ _))
  | .fire _ | .start _ | .stop => inferInstanceAs (Decidable (¬ _))

/-- The connector after a call, with the expiration of the retry timer that it has set. -/
def keep (s : Iterating) (retryDelayMs : ℕ) (c : Connector) : Iterating :=
  { s with
    connector := c
    expiration :=
      if c.timers = s.connector.timers then s.expiration
      else Function.update s.expiration s.connector.timers (s.clock + retryDelayMs * 1000) }

/-- The retry timers that `getExpired` takes. -/
def expire (s : Iterating) : Connector :=
  { s.connector with
    waiting := s.connector.waiting.filter fun i => s.clock ≤ s.expiration i
    due := s.connector.due ++ s.connector.waiting.filter fun i => s.expiration i < s.clock }

def Event.perform (s : Iterating) : Event → Outcome Iterating
  | .advance d => pure { s with clock := s.clock + d }
  | .poll activeChannels_ => pure { s with phase := .handling activeChannels_ }
  | .dispatch revents_ err self => do
    let c ← s.connector.handleEvent revents_ err self
    pure { s.keep s.connector.retryDelayMs_ c with
      resetFor :=
        if c.resets = s.connector.resets then s.resetFor
        else s.resetFor ++ s.connector.attempt.toList
      phase := s.phase.handled }
  | .timerfd => pure { s with connector := s.expire, phase := s.phase.handled }
  | .fire savedErrno => do
    let c ← s.connector.fire savedErrno
    pure (s.keep s.connector.retryDelayMs_ c)
  | .other _ => pure { s with phase := s.phase.handled }
  | .doPendingFunctors => pure { s with phase := .functors }
  | .resetChannel => pure { s with connector := s.connector.runReset, resetFor := s.resetFor.tail }
  | .finish => pure { s with phase := .polling }
  | .start savedErrno => do
    let c ← s.connector.start savedErrno
    pure (s.keep s.connector.retryDelayMs_ c)
  | .restart savedErrno => do
    let c ← s.connector.restart savedErrno
    pure (s.keep Connector.kInitRetryDelayMs c)
  | .stop => pure { s with connector := s.connector.stop }

def step (s : Iterating) (e : Event) : Option Iterating :=
  if e.Enabled s then (e.perform s).toOption else none

theorem step_eq_some_iff {s s' : Iterating} {e : Event} :
    step s e = some s' ↔ e.Enabled s ∧ e.perform s = .ok s' :=
  ite_toOption_eq_some_iff

/-- `connecting` finds no channel, and `resetChannel` the one that it was queued for. -/
def Holds (s : Iterating) : Event → Prop
  | .fire savedErrno => (Event.fire savedErrno).Enabled s →
      (Event.fire savedErrno).perform s ≠ .error .connecting
  | .start savedErrno => (Event.start savedErrno).Enabled s →
      (Event.start savedErrno).perform s ≠ .error .connecting
  | .restart savedErrno => (Event.restart savedErrno).Enabled s →
      (Event.restart savedErrno).perform s ≠ .error .connecting
  | .resetChannel => Event.resetChannel.Enabled s →
      ∀ ch ∈ s.connector.channel_, s.resetFor.head? = some ch.fd_
  | _ => True

/-- While `resetChannel` is queued, the handler of the timerfd finds no retry timer expired, unless
the connector is stopped, and there is no `start`. -/
def Calm (s : Iterating) : Event → Prop
  | .timerfd => 0 < s.connector.resets → s.connector.connect_ = true →
      s.connector.state_ = .kDisconnected → ∀ i ∈ s.connector.waiting, s.clock ≤ s.expiration i
  | .start _ => 0 < s.connector.resets → s.connector.state_ ≠ .kDisconnected
  | _ => True

instance (s : Iterating) (e : Event) : Decidable (s.Calm e) :=
  match e with
  | .timerfd => inferInstanceAs (Decidable (_ → _))
  | .start _ => inferInstanceAs (Decidable (_ → _))
  | .advance _ | .poll _ | .dispatch _ _ _ | .fire _ | .other _ | .doPendingFunctors
  | .resetChannel | .finish | .restart _ | .stop => .isTrue trivial

end Iterating

/-! ## The beginning of an attempt -/

namespace Connector

variable {c c' : Connector}

/-- The sockets of the channels that are to be reset. -/
def detached (c : Connector) : List ℕ :=
  match c.channel_ with
  | some ⟨k, false⟩ => [k]
  | _ => []

theorem startInLoop_keeps {e : ConnectErrno} (h : c.startInLoop e = .ok c') :
    c'.resets = c.resets ∧ c'.connect_ = c.connect_ ∧
      (c'.channel_ = c.channel_ ∨ c.channel_ = none ∧ ∃ k, c'.channel_ = some ⟨k, true⟩) := by
  obtain ⟨-, h⟩ := startInLoop_eq_ok_iff.mp h
  split_ifs at h
  · exact connect_keeps h
  · obtain rfl := Except.ok.inj h
    exact ⟨rfl, rfl, Or.inl rfl⟩

theorem startInLoop_error {e : ConnectErrno} (h : c.startInLoop e = .error .connecting) :
    c.state_ = .kDisconnected ∧ c.connect_ = true ∧ c.channel_ ≠ none := by
  have hst : c.state_ = .kDisconnected := by
    by_contra hne
    rw [startInLoop, ensure_bind_of_not hne] at h
    cases h
  have hcon : c.connect_ = true := by
    by_contra hne
    rw [startInLoop_of_stopped hst (Bool.eq_false_of_not_eq_true hne)] at h
    cases h
  refine ⟨hst, hcon, fun hch => ?_⟩
  rw [startInLoop_of_connect hst hcon] at h
  rcases connect_cases c e with heq | heq | heq
  · have hok := @connecting_eq_ok_iff c.createSocket _ c.created |>.mpr ⟨hch, rfl⟩
    rw [heq, hok] at h
    cases h
  · rw [heq] at h
    cases h
  · rw [heq] at h
    cases h

theorem startInLoop_of_channel (hst : c.state_ = .kDisconnected) (hcon : c.connect_ = true)
    (hch : c.channel_ ≠ none) : c.startInLoop .EINPROGRESS = .error .connecting := by
  rw [startInLoop_of_connect hst hcon]
  exact ensure_bind_of_not (by exact hch) _ _

/-- An attempt that ends has its reset queued. -/
theorem settle_detached {k : ℕ} (hch : c.channel_ = some ⟨k, true⟩) (v : Verdict) :
    (c.settle k v).due = c.due ∧ ((c.settle k v).resets = c.resets ∧ (c.settle k v).detached = [] ∨
      (c.settle k v).resets = c.resets + 1 ∧ (c.settle k v).detached = [k]) := by
  cases v with
  | goesOn => exact ⟨rfl, Or.inl ⟨rfl, by rw [settle, detached, hch]⟩⟩
  | failed =>
    rw [settle]
    cases hcon : c.connect_ with
    | true => rw [retry_of_connect (by exact hcon)]; exact ⟨rfl, Or.inr ⟨rfl, rfl⟩⟩
    | false => rw [retry_of_stopped (by exact hcon)]; exact ⟨rfl, Or.inr ⟨rfl, rfl⟩⟩
  | succeeded =>
    rw [settle]
    cases hcon : c.connect_ with
    | true => rw [succeed_of_connect (by exact hcon)]; exact ⟨rfl, Or.inr ⟨rfl, rfl⟩⟩
    | false => rw [succeed_of_stopped (by exact hcon)]; exact ⟨rfl, Or.inr ⟨rfl, rfl⟩⟩

end Connector

namespace Iterating

open Runs

variable {s s' : Iterating} {e : Event}

/-! ## What holds in every run -/

/-- The channels of the iteration that are still to be handled. -/
def Listed (c : Connector) (phase : LoopPhase) : Prop :=
  ∀ activeChannels_, phase = .handling activeChannels_ → activeChannels_.Nodup ∧
    (.connector ∈ activeChannels_ → c.attempt ≠ none)

structure Sound (s : Iterating) : Prop where
  shape : s.connector.Shape
  queued : s.resetFor = s.connector.detached
  listed : Listed s.connector s.phase

theorem sound_new : new.Sound where
  shape := Connector.shape_new
  queued := rfl
  listed _ h := by cases h

theorem next_eq_some_iff {p : LoopPhase} {a : Active} :
    p.next = some a ↔ ∃ rest, p = .handling (a :: rest) := by
  cases p with
  | handling activeChannels_ => cases activeChannels_ <;> simp [LoopPhase.next]
  | _ => simp [LoopPhase.next]

theorem Listed.handled {c c' : Connector} {p : LoopPhase} (h : Listed c p)
    (hat : c'.attempt = c.attempt) : Listed c' p.handled := by
  intro activeChannels_ hp
  cases p with
  | handling active =>
    obtain rfl := LoopPhase.handling.inj hp
    obtain ⟨hnodup, hmem⟩ := h _ rfl
    exact ⟨hnodup.sublist (List.tail_sublist _), fun hc => hat ▸ hmem (List.mem_of_mem_tail hc)⟩
  | _ => cases hp

/-- An operation that leaves the channel alone. -/
theorem Sound.of_channel (h : s.Sound) {c : Connector} (hsh : c.Shape)
    (hch : c.channel_ = s.connector.channel_) (hc : s'.connector = c)
    (hr : s'.resetFor = s.resetFor) (hp : s'.phase = s.phase ∨ s'.phase = s.phase.handled) :
    s'.Sound := by
  have hat : c.attempt = s.connector.attempt := by rw [Connector.attempt, hch, Connector.attempt]
  subst hc
  refine ⟨hsh, ?_, ?_⟩
  · rw [hr, h.queued, Connector.detached, Connector.detached, hch]
  · rcases hp with hp | hp
    · rw [hp]
      exact fun active ha => by rw [hat]; exact h.listed active ha
    · rw [hp]
      exact h.listed.handled hat

/-- An operation that begins an attempt, or does not. -/
theorem Sound.of_startInLoop (h : s.Sound) {b c : Connector} {savedErrno : ConnectErrno}
    (hsh : b.Shape) (hch : b.channel_ = s.connector.channel_)
    (hb : b.startInLoop savedErrno = .ok c) (d : ℕ) : (s.keep d c).Sound := by
  obtain ⟨-, -, hkeep | ⟨hnone, k, hk⟩⟩ := Connector.startInLoop_keeps hb
  · exact h.of_channel (hsh.startInLoop hb) (hkeep.trans hch) rfl rfl (Or.inl rfl)
  · have hnone' := hch.symm.trans hnone
    refine ⟨hsh.startInLoop hb, ?_, ?_⟩
    · rw [keep, h.queued, Connector.detached, hnone', Connector.detached, hk]
    · exact fun active ha => ⟨(h.listed active ha).1,
        fun _ => by simp [keep, Connector.attempt, hk]⟩

theorem Sound.dispatch (h : s.Sound) {revents_ : Mask} {err : ℕ} {self : Bool}
    (hen : (Event.dispatch revents_ err self).Enabled s)
    (hp : (Event.dispatch revents_ err self).perform s = .ok s') :
    s'.Sound ∧ s'.connector.due = s.connector.due := by
  obtain ⟨rest, hphase⟩ := next_eq_some_iff.mp hen.2
  obtain ⟨hnodup, hmem⟩ := h.listed _ hphase
  obtain ⟨k, hk⟩ := Option.ne_none_iff_exists'.mp (hmem List.mem_cons_self)
  obtain ⟨hch, hr, hst⟩ := h.shape.of_attempt hk
  simp only [Event.perform, Connector.handleEvent_eq hst hch, ok_bind] at hp
  obtain rfl := Except.ok.inj hp
  have hnil : s.resetFor = [] := by rw [h.queued, Connector.detached, hch]
  obtain ⟨hdue, hcase⟩ := Connector.settle_detached hch (Connector.verdict revents_ err self)
  refine ⟨⟨h.shape.settle hch _, ?_, ?_⟩, hdue⟩
  · rcases hcase with ⟨hres, hdet⟩ | ⟨hres, hdet⟩
    · dsimp only [keep]
      rw [if_pos hres, hnil, hdet]
    · dsimp only [keep]
      rw [if_neg (by omega), hnil, hdet, hk]
      rfl
  · -- the connector is handled once in an iteration
    intro active ha
    rw [hphase] at ha
    obtain rfl := LoopPhase.handling.inj ha
    exact ⟨(List.nodup_cons.mp hnodup).2, fun hc => absurd hc (List.nodup_cons.mp hnodup).1⟩

/-- **One step.** -/
theorem step_sound (h : s.Sound) (hs : step s e = some s') : s'.Sound := by
  obtain ⟨hen, hp⟩ := step_eq_some_iff.mp hs
  cases e with
  | advance d => obtain rfl := Except.ok.inj hp; exact ⟨h.shape, h.queued, h.listed⟩
  | poll activeChannels_ =>
    obtain rfl := Except.ok.inj hp
    refine ⟨h.shape, h.queued, fun active ha => ?_⟩
    obtain rfl := LoopPhase.handling.inj ha
    exact hen.2
  | dispatch revents_ err self => exact (h.dispatch hen hp).1
  | timerfd =>
    obtain rfl := Except.ok.inj hp
    exact h.of_channel (c := s.expire) (h.shape.of_eq rfl rfl Iff.rfl rfl rfl) rfl rfl rfl
      (Or.inr rfl)
  | fire savedErrno =>
    obtain ⟨c, hc, hp⟩ := bind_eq_ok_iff.mp hp
    obtain rfl := Except.ok.inj hp
    exact h.of_startInLoop (b := { s.connector with due := s.connector.due.tail })
      (h.shape.of_eq rfl rfl Iff.rfl rfl rfl) rfl hc _
  | other fd =>
    obtain rfl := Except.ok.inj hp
    exact h.of_channel h.shape rfl rfl rfl (Or.inr rfl)
  | doPendingFunctors =>
    obtain rfl := Except.ok.inj hp
    exact ⟨h.shape, h.queued, fun active ha => by cases ha⟩
  | resetChannel =>
    obtain rfl := Except.ok.inj hp
    obtain ⟨k, hch, -⟩ := h.shape.channel_some hen.2
    refine ⟨h.shape.runReset hen.2, ?_, fun active ha => ?_⟩
    · rw [h.queued, Connector.detached, hch]
      rfl
    · exact absurd (hen.1.symm.trans ha) (by simp)
  | finish =>
    obtain rfl := Except.ok.inj hp
    exact ⟨h.shape, h.queued, fun active ha => by cases ha⟩
  | start savedErrno =>
    obtain ⟨c, hc, hp⟩ := bind_eq_ok_iff.mp hp
    obtain rfl := Except.ok.inj hp
    exact h.of_startInLoop (b := { s.connector with connect_ := true })
      (h.shape.of_eq rfl rfl Iff.rfl rfl rfl) rfl hc _
  | restart savedErrno =>
    obtain ⟨c, hc, hp⟩ := bind_eq_ok_iff.mp hp
    obtain rfl := Except.ok.inj hp
    have hst : s.connector.state_ ≠ .kConnecting := by rw [hen.2.1]; decide
    exact h.of_startInLoop
      (b := { s.connector with
        state_ := .kDisconnected, retryDelayMs_ := Connector.kInitRetryDelayMs, connect_ := true })
      (h.shape.of_eq rfl rfl (iff_of_false (by simp) hst) rfl rfl) rfl hc _
  | stop =>
    obtain rfl := Except.ok.inj hp
    obtain ⟨waiting, -, heq⟩ := Connector.stop_eq s.connector
    exact h.of_channel h.shape.stop (by rw [heq]) rfl rfl (Or.inl rfl)

/-! ## Runs under the condition -/

/-- A retry timer that can begin an attempt finds no reset queued. -/
def Rested (s : Iterating) : Prop :=
  s.connector.due ≠ [] → s.connector.connect_ = true → s.connector.state_ = .kDisconnected →
    s.connector.resets = 0

theorem Sound.channel_none (h : s.Sound) (hr : s.connector.resets = 0)
    (hst : s.connector.state_ ≠ .kConnecting) : s.connector.channel_ = none :=
  h.shape.channel_none hr hst

/-- **One step.** -/
theorem step_rested (h : s.Sound) (hr : s.Rested) (hc : s.Calm e) (hs : step s e = some s') :
    s'.Rested := by
  obtain ⟨hen, hp⟩ := step_eq_some_iff.mp hs
  cases e with
  | advance d => obtain rfl := Except.ok.inj hp; exact hr
  | poll activeChannels_ => obtain rfl := Except.ok.inj hp; exact hr
  | dispatch revents_ err self =>
    intro hdue
    rw [(h.dispatch hen hp).2] at hdue
    exact absurd hen.1 hdue
  | timerfd =>
    obtain rfl := Except.ok.inj hp
    intro hdue hcon hst
    by_contra hpos
    refine hdue ?_
    have hcalm := hc (Nat.pos_of_ne_zero hpos) hcon hst
    rw [expire, hen.1, List.nil_append, List.filter_eq_nil_iff]
    exact fun i hi => by simpa using hcalm i hi
  | fire savedErrno =>
    obtain ⟨c, hf, hp⟩ := bind_eq_ok_iff.mp hp
    obtain rfl := Except.ok.inj hp
    obtain ⟨hres, hcon', -⟩ := Connector.startInLoop_keeps hf
    intro _ hcon _
    exact hres.trans (hr hen (hcon'.symm.trans hcon) (Connector.startInLoop_eq_ok_iff.mp hf).1)
  | other fd => obtain rfl := Except.ok.inj hp; exact hr
  | doPendingFunctors => obtain rfl := Except.ok.inj hp; exact hr
  | resetChannel =>
    obtain rfl := Except.ok.inj hp
    obtain ⟨k, -, hone⟩ := h.shape.channel_some hen.2
    exact fun _ _ _ => by rw [Connector.runReset, hone]
  | finish => obtain rfl := Except.ok.inj hp; exact hr
  | start savedErrno =>
    obtain ⟨c, hf, hp⟩ := bind_eq_ok_iff.mp hp
    obtain rfl := Except.ok.inj hp
    intro _ _ _
    refine (Connector.startInLoop_keeps hf).1.trans ?_
    by_contra hpos
    exact hc (Nat.pos_of_ne_zero hpos) (Connector.startInLoop_eq_ok_iff.mp hf).1
  | restart savedErrno =>
    obtain ⟨c, hf, hp⟩ := bind_eq_ok_iff.mp hp
    obtain rfl := Except.ok.inj hp
    exact fun _ _ _ => (Connector.startInLoop_keeps hf).1.trans hen.2.2
  | stop =>
    obtain rfl := Except.ok.inj hp
    obtain ⟨waiting, -, heq⟩ := Connector.stop_eq s.connector
    intro _ hcon
    rw [heq] at hcon
    cases hcon

/-- A call of `startInLoop` that fails in `connecting`. -/
theorem perform_error {c : Outcome Connector} {d : ℕ}
    (h : (c >>= fun c => pure (s.keep d c)) = .error .connecting) : c = .error .connecting := by
  cases c with
  | ok c => cases h
  | error a => exact congrArg Except.error (Except.error.inj h)

theorem Sound.holds (h : s.Sound) (hr : s.Rested) (hc : s.Calm e) : s.Holds e := by
  cases e with
  | fire savedErrno =>
    intro hen hp
    obtain ⟨hst, hcon, hch⟩ := Connector.startInLoop_error (perform_error hp)
    have hst' : s.connector.state_ = .kDisconnected := hst
    exact hch (h.channel_none (hr hen hcon hst') (by rw [hst']; decide))
  | start savedErrno =>
    intro hen hp
    obtain ⟨hst, -, hch⟩ := Connector.startInLoop_error (perform_error hp)
    have hst' : s.connector.state_ = .kDisconnected := hst
    refine hch (h.channel_none ?_ (by rw [hst']; decide))
    by_contra hpos
    exact hc (Nat.pos_of_ne_zero hpos) hst'
  | restart savedErrno =>
    intro hen hp
    obtain ⟨-, -, hch⟩ := Connector.startInLoop_error (perform_error hp)
    exact hch (h.channel_none hen.2.2 (by rw [hen.2.1]; decide))
  | resetChannel =>
    intro hen ch hmem
    obtain ⟨k, hch, -⟩ := h.shape.channel_some hen.2
    obtain rfl := Option.some.inj (hch.symm.trans hmem)
    rw [h.queued, Connector.detached, hch]
    rfl
  | _ => trivial

/-- **The deferred reset.** When, in an iteration that has ended an attempt, the handler of the
timerfd finds no retry timer expired (or the connector stopped) and `start` is not called, the next
`connecting` finds no channel, and `resetChannel` takes away the channel that it was queued for.
After a step that is not so, the assertion fails if `::connect` gives `EINPROGRESS`. -/
theorem reset_deferred (es : List Event) :
    (Along step Calm new es → Along step Holds new es) ∧
    ∀ s, Run step new es s →
      (∀ s', step s .timerfd = some s' → ¬ s.Calm .timerfd → ¬ s'.Holds (.fire .EINPROGRESS)) ∧
      (∀ e, (Event.start e).Enabled s → ¬ s.Calm (.start e) → ¬ s.Holds (.start .EINPROGRESS)) := by
  have hsound : ∀ {es s}, Run step new es s → s.Sound := fun h =>
    h.inv (P := Sound) (fun _ _ _ hs he => step_sound hs he) sound_new
  constructor
  · intro hc pre e post s hes hr
    have hrested : s.Sound ∧ s.Rested := hr.inv_of (P := fun s => s.Sound ∧ s.Rested)
      (fun _ _ _ hs hc he => ⟨step_sound hs.1 he, step_rested hs.1 hs.2 hc he⟩)
      (Along.of_append (hes ▸ hc)) ⟨sound_new, fun h => absurd rfl h⟩
    exact hrested.1.holds hrested.2 (hc pre e post s hes hr)
  · intro s hr
    constructor
    · intro s' hs hc hholds
      simp only [Calm, Classical.not_imp, not_forall, not_le] at hc
      obtain ⟨hpos, hcon, hst, i, hi, hexp⟩ := hc
      obtain ⟨-, hp⟩ := step_eq_some_iff.mp hs
      obtain rfl := Except.ok.inj hp
      obtain ⟨k, hch, -⟩ := (hsound hr).shape.channel_some hpos
      refine hholds (List.ne_nil_of_mem (a := i) ?_) ?_
      · exact List.mem_append_right _ (List.mem_filter.mpr ⟨hi, decide_eq_true hexp⟩)
      · rw [Event.perform, Connector.fire, Connector.startInLoop_of_channel (by exact hst)
          (by exact hcon) (by simp [expire, hch])]
        rfl
    · intro e hen hc hholds
      simp only [Calm, Classical.not_imp, not_not] at hc
      obtain ⟨hpos, hst⟩ := hc
      obtain ⟨k, hch, -⟩ := (hsound hr).shape.channel_some hpos
      refine hholds hen ?_
      rw [Event.perform, Connector.start, Connector.startInLoop_of_channel (by exact hst) rfl
        (by simp [hch])]
      rfl

/-- An attempt fails; its retry timer fires in the next iteration. -/
def nextIteration : List Event :=
  [.start .EINPROGRESS, .finish, .poll [.connector], .dispatch EPOLLOUT 111 false,
    .doPendingFunctors, .resetChannel, .finish, .advance 500001, .poll [.timerfd], .timerfd,
    .fire .EINPROGRESS]

theorem nextIteration_holds : Along step Holds new nextIteration ∧
    ∃ s, Run step new nextIteration s ∧ s.connector.attempts = 2 := by
  refine ⟨(reset_deferred _).1 (along_of_check (by decide +kernel)), ?_⟩
  have h : (nextIteration.foldlM step new).map (fun s => s.connector.attempts) = some 2 := by
    decide +kernel
  exact Option.map_eq_some_iff.mp h

/-- Between the failure of the attempt and the handler of the timerfd, another handler takes longer
than the delay of the retry. -/
def slowHandler : List Event :=
  [.start .EINPROGRESS, .finish, .poll [.connector, .other 7, .timerfd],
    .dispatch EPOLLOUT 111 false, .advance 500001, .other 7, .timerfd]

theorem slow_handler : ¬ ∀ es, Along step Holds new es := by
  intro hall
  have h : (slowHandler.foldlM step new).map (fun s =>
      decide (s.connector.due ≠ [] ∧ s.connector.state_ = .kDisconnected ∧
        s.connector.connect_ = true ∧ s.connector.channel_ ≠ none)) = some true := by
    decide +kernel
  obtain ⟨s, hs, hq⟩ := Option.map_eq_some_iff.mp h
  obtain ⟨hdue, hst, hcon, hch⟩ := of_decide_eq_true hq
  refine hall (slowHandler ++ [.fire .EINPROGRESS]) slowHandler (.fire .EINPROGRESS) [] s rfl hs
    hdue ?_
  rw [Event.perform, Connector.fire, Connector.startInLoop_of_channel (by exact hst)
    (by exact hcon) (by exact hch)]
  rfl

end Iterating

end HighServer
