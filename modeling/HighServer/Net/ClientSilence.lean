import HighServer.Net.ClientThreads

/-!
# A client destroyed in another thread

The destructor of `TcpClient` only queues what keeps the loop thread from the client, and does not
wait for it.

* `Silent`: `newConnection` and `removeConnection` are not entered behind the destructor;
* `Leavable`: when the destructor returns, the loop thread is not on its way into one of them;
* `Clean`: the destructor returns in such a state, and behind it no connection closes whose callback
  is still to be replaced;
* `step_leavable`: a `Clean` step keeps a destroyed client `Leavable`;
* `Calls`: one of them can be entered; `Left.leads`: a client that is not `Leavable` comes to it;
* **`destroyed_silent`**: runs of `Clean` steps are `Silent`, and every other step can be followed
  by one that is not; `destroyed_called` has two such runs.
-/

namespace HighServer.ClientThreads

open Runs

/-- Behind the destructor neither `newConnection` nor `removeConnection` is entered. -/
def Silent (s : ClientThreads) : Event → Prop
  | .enter => Event.enter.Enabled s → s.destructor ≠ .returned
  | .peerClose conn => (Event.peerClose conn).Enabled s → conn ∉ s.replaced →
      s.destructor ≠ .returned
  | _ => True

/-- The loop thread is not on its way into `newConnection` or `restart`. -/
def Outside (s : ClientThreads) : Prop :=
  s.handler.goesOn = false ∧ (s.handler.mayRestart = true → (s.retry_ && s.connect_) = false)

/-- Neither an attempt nor a timer nor a functor goes on. -/
def Rests (s : ClientThreads) : Prop :=
  s.connector_.attempt = none ∧ s.connector_.waiting = [] ∧ s.connector_.due = [] ∧
    .startInLoop ∉ s.pendingFunctors_ ∧ s.handler ≠ .startInLoop ∧ s.handler ≠ .connect

/-- The connector is stopped, or connected, or has nothing to do. -/
def Ended (s : ClientThreads) : Prop :=
  s.connector_.connect_ = false ∨ s.connector_.state_ = .kConnected ∨ s.Rests

/-- The client's close callback is replaced, or going to be. -/
def Replacing (s : ClientThreads) : Prop :=
  ∀ conn ∈ s.connected, conn ∈ s.replaced ∨ .setCloseCallback conn ∈ s.pendingFunctors_

/-- `startInLoop` is about to fail its assertion. -/
def Failing (s : ClientThreads) : Prop :=
  s.handler = .startInLoop ∧ s.connector_.state_ ≠ .kDisconnected

/-- The client can be destroyed. -/
structure Leavable (s : ClientThreads) : Prop where
  outside : s.Outside
  ended : s.Ended
  replacing : s.Replacing

instance (s : ClientThreads) : Decidable s.Leavable :=
  have : Decidable s.Outside := inferInstanceAs (Decidable (_ ∧ _))
  have : Decidable s.Rests := inferInstanceAs (Decidable (_ ∧ _))
  have : Decidable s.Ended := inferInstanceAs (Decidable (_ ∨ _))
  have : Decidable s.Replacing := inferInstanceAs (Decidable (∀ conn ∈ s.connected, _))
  decidable_of_iff (s.Outside ∧ s.Ended ∧ s.Replacing)
    ⟨fun h => ⟨h.1, h.2.1, h.2.2⟩, fun h => ⟨h.1, h.2, h.3⟩⟩

/-- The destructor returns when the client can be left, and a close that comes later finds the
callback replaced. -/
def Clean (s : ClientThreads) : Event → Prop
  | .return_ => s.Failing ∨ s.Leavable
  | .peerClose conn => s.destructor = .returned → .setCloseCallback conn ∉ s.pendingFunctors_
  | _ => True

instance (s : ClientThreads) (e : Event) : Decidable (s.Clean e) :=
  match e with
  | .return_ =>
    have : Decidable s.Failing := inferInstanceAs (Decidable (_ ∧ _))
    inferInstanceAs (Decidable (_ ∨ _))
  | .peerClose _ => inferInstanceAs (Decidable (_ → _))
  | .callConnect | .callDisconnect | .callStop | .callEnableRetry | .read | .setCloseCallback _
  | .stop | .cancel | .assertChannel | .addTimer | .dispatch _ _ _ | .enter | .install | .reset _
  | .testRetry | .restart | .startInLoop | .connect _ | .expire _ | .fire | .resetChannel | .run =>
    .isTrue trivial

variable {s s' : ClientThreads} {e : Event}

/-! ## Runs of clean steps -/

/-- What holds in such a run. -/
structure Parted (s : ClientThreads) : Prop where
  sane : s.Sane
  leavable : s.destructor = .returned → s.Failing ∨ s.Leavable

theorem parted_new : new.Parted := ⟨sane_new, fun h => by cases h⟩

theorem Ended.resolve (h : s.Ended) (hgo : ¬ s.Rests) :
    s.connector_.connect_ = false ∨ s.connector_.state_ = .kConnected :=
  h.imp_right fun h => h.resolve_right hgo

/-- A connector that would go on is stopped. -/
theorem Ended.stopped (h : s.Ended) (hgo : ¬ s.Rests) (hst : s.connector_.state_ ≠ .kConnected) :
    s.connector_.connect_ = false :=
  (h.resolve hgo).resolve_right hst

/-- A step of the loop thread that does not concern the connector. -/
theorem Ended.of_eq (h : s.Ended) (hc : s'.connector_ = s.connector_)
    (hp : s'.pendingFunctors_ = s.pendingFunctors_) (h₁ : s'.handler ≠ .startInLoop)
    (h₂ : s'.handler ≠ .connect) : s'.Ended := by
  rw [Ended, Rests, hc, hp]
  exact h.imp_right (Or.imp_right fun h => ⟨h.1, h.2.1, h.2.2.1, h.2.2.2.1, h₁, h₂⟩)

theorem outside_of (h : s.handler.inClient = false) : s.Outside := by
  obtain ⟨h₁, h₂⟩ := Bool.or_eq_false_iff.mp h
  exact ⟨h₁, fun hm => absurd (h₂.symm.trans hm) (by decide)⟩

/-- The loop thread comes to its end in an assertion. -/
theorem Failing.stuck (h : s.Failing) (hr : s.destructor = .returned) : step s e ≠ some s' := by
  intro hs
  obtain ⟨hen, hp⟩ := step_eq_some_iff.mp hs
  cases e with
  | callConnect | callDisconnect | callStop | callEnableRetry | read | setCloseCallback | stop
  | assertChannel | addTimer | return_ => cases hr.symm.trans hen
  | cancel => rcases hen with hen | hen <;> cases hr.symm.trans hen
  | dispatch | peerClose | reset | expire | fire | resetChannel | run => cases h.1.symm.trans hen.1
  | enter | install | testRetry | restart | connect => cases h.1.symm.trans hen
  | startInLoop => exact h.2 (ensure_bind_eq_ok_iff.mp hp).1

theorem Leavable.dispatch (h : s.Leavable) (hs : s.Sane) {revents_ : Mask} {err : ℕ} {self : Bool}
    (hen : (Event.dispatch revents_ err self).Enabled s)
    (hp : (Event.dispatch revents_ err self).perform s = .ok s') : s'.Leavable := by
  obtain ⟨-, hat⟩ := hen
  obtain ⟨k, hk⟩ := Option.ne_none_iff_exists'.mp hat
  obtain ⟨hch, -, hst⟩ := hs.shape.of_attempt hk
  have hcon := h.ended.stopped (fun hrest => hat hrest.1) (by rw [hst]; decide)
  obtain ⟨hcon', -, hpass⟩ := ConnectorLoop.settle_stopped hcon k
    (Connector.verdict revents_ err self)
  simp only [Event.perform, Connector.handleEvent_eq hst hch, ok_bind, if_pos hpass] at hp
  obtain rfl := Except.ok.inj hp
  exact ⟨⟨rfl, fun hm => by cases hm⟩, Or.inl hcon', h.replacing⟩

theorem Leavable.peerClose (h : s.Leavable) {conn : ℕ} (hen : (Event.peerClose conn).Enabled s)
    (hc : .setCloseCallback conn ∉ s.pendingFunctors_)
    (hp : (Event.peerClose conn).perform s = .ok s') : s'.Leavable := by
  obtain rfl := Except.ok.inj hp
  have hrep : conn ∈ s.replaced := (h.replacing conn hen.2.1).resolve_right hc
  have hh : (if conn ∈ s.replaced then Handler.idle else .removing conn) = .idle := if_pos hrep
  refine ⟨outside_of ?_, h.ended.of_eq rfl rfl ?_ ?_,
    fun c hm => h.replacing c (List.mem_of_mem_erase hm)⟩
  · dsimp only
    rw [hh]
    rfl
  · dsimp only
    rw [hh]
    decide
  · dsimp only
    rw [hh]
    decide

theorem Leavable.run (h : s.Leavable) (hen : Event.run.Enabled s)
    (hp : Event.run.perform s = .ok s') : s'.Leavable := by
  obtain ⟨cb, rest, waiting, hcb, hsub, rfl⟩ := run_eq hen hp
  refine ⟨outside_of ?_, h.ended.imp_right (Or.imp_right fun hrest => ?_), fun conn hm => ?_⟩
  · dsimp only
    split_ifs
    · rfl
    · rfl
  · obtain ⟨h1, h2, h3, h4, -⟩ := hrest
    rw [hcb, List.mem_cons, not_or] at h4
    have hne : cb ≠ .startInLoop := fun hc => h4.1 hc.symm
    exact ⟨h1, List.sublist_nil.mp (h2 ▸ hsub), h3, h4.2, by simp [hne], by simp [hne]⟩
  · rcases h.replacing conn hm with hrep | hpend
    · exact Or.inl (List.mem_append_right _ hrep)
    · rw [hcb, List.mem_cons] at hpend
      rcases hpend with rfl | hpend
      · exact Or.inl List.mem_cons_self
      · exact Or.inr hpend

/-- **One step** of the loop thread. -/
theorem step_leavable (hs : s.Sane) (h : s.Leavable) (hr : s.destructor = .returned)
    (hc : s.Clean e) (hstep : step s e = some s') : s'.Leavable := by
  obtain ⟨hen, hp⟩ := step_eq_some_iff.mp hstep
  cases e with
  | callConnect | callDisconnect | callStop | callEnableRetry | read | setCloseCallback | stop
  | assertChannel | addTimer | return_ => cases hr.symm.trans hen
  | cancel => rcases hen with hen | hen <;> cases hr.symm.trans hen
  | dispatch revents_ err self => exact h.dispatch hs hen hp
  | enter =>
    exact absurd h.outside.1 (by rw [show s.handler = .calling from hen]; decide)
  | install =>
    exact absurd h.outside.1 (by rw [show s.handler = .entered from hen]; decide)
  | restart =>
    exact absurd h.outside.1 (by rw [show s.handler = .restart from hen]; decide)
  | peerClose conn => exact h.peerClose hen (hc hr) hp
  | reset conn =>
    obtain rfl := Except.ok.inj hp
    refine ⟨⟨rfl, fun _ => ?_⟩, h.ended.of_eq rfl rfl (by simp) (by simp), h.replacing⟩
    exact h.outside.2 (by rw [hen.1]; rfl)
  | testRetry =>
    obtain rfl := Except.ok.inj hp
    have hno := h.outside.2 (by rw [show s.handler = .removed from hen]; rfl)
    rw [hno]
    exact ⟨outside_of rfl, h.ended.of_eq rfl rfl (by simp) (by simp), h.replacing⟩
  | startInLoop =>
    obtain ⟨hst, hp⟩ := ensure_bind_eq_ok_iff.mp hp
    have hcon := h.ended.stopped (fun hrest => hrest.2.2.2.2.1 hen) (by rw [hst]; decide)
    rw [hcon] at hp
    obtain rfl := Except.ok.inj hp
    exact ⟨outside_of rfl, Or.inl hcon, h.replacing⟩
  | connect savedErrno =>
    obtain ⟨c, hc', hp⟩ := bind_eq_ok_iff.mp hp
    obtain rfl := Except.ok.inj hp
    have hst := hs.connecting hen
    have hcon := h.ended.stopped (fun hrest => hrest.2.2.2.2.2 hen) (by rw [hst]; decide)
    exact ⟨outside_of rfl, Or.inl ((Connector.connect_keeps hc').2.1.trans hcon), h.replacing⟩
  | expire id =>
    obtain rfl := Except.ok.inj hp
    have hend := h.ended.resolve fun hrest => List.ne_nil_of_mem hen.2 hrest.2.1
    exact ⟨h.outside, hend.imp_right Or.inl, h.replacing⟩
  | fire =>
    obtain rfl := Except.ok.inj hp
    have hend := h.ended.resolve fun hrest => hen.2 hrest.2.2.1
    exact ⟨outside_of rfl, hend.imp_right Or.inl, h.replacing⟩
  | resetChannel =>
    obtain rfl := Except.ok.inj hp
    refine ⟨h.outside, h.ended.imp_right (Or.imp_right fun hrest => ?_), h.replacing⟩
    exact ⟨rfl, hrest.2⟩
  | run => exact h.run hen hp

/-- Only its own end is the end of the destructor. -/
theorem returned_of_step (hs : step s e = some s') (hr : s'.destructor = .returned)
    (hne : e ≠ .return_) : s.destructor = .returned := by
  obtain ⟨hen, hp⟩ := step_eq_some_iff.mp hs
  cases e with
  | return_ => exact absurd rfl hne
  | callConnect | callDisconnect | callStop | callEnableRetry | enter | install | peerClose | reset
  | testRetry | restart | expire | fire | resetChannel =>
    obtain rfl := Except.ok.inj hp
    exact hr
  | read =>
    obtain rfl := Except.ok.inj hp
    dsimp only at hr
    split at hr <;> cases hr
  | setCloseCallback | stop | addTimer => obtain rfl := Except.ok.inj hp; cases hr
  | cancel =>
    obtain rfl := Except.ok.inj hp
    dsimp only at hr
    split_ifs at hr
  | assertChannel =>
    obtain ⟨-, hp⟩ := ensure_bind_eq_ok_iff.mp hp
    obtain rfl := Except.ok.inj hp
    cases hr
  | dispatch | startInLoop | connect =>
    obtain ⟨_, -, hp⟩ := bind_eq_ok_iff.mp hp
    obtain rfl := Except.ok.inj hp
    exact hr
  | run =>
    obtain ⟨cb, rest, waiting, -, -, rfl⟩ := run_eq hen hp
    exact hr

theorem step_parted (h : s.Parted) (hc : s.Clean e) (hs : step s e = some s') : s'.Parted := by
  refine ⟨step_sane h.sane hs, fun hr' => ?_⟩
  by_cases he : e = .return_
  · subst he
    obtain rfl := Except.ok.inj (step_eq_some_iff.mp hs).2
    exact hc.imp id fun hl => ⟨hl.outside, hl.ended, hl.replacing⟩
  · have hr := returned_of_step hs hr' he
    rcases h.leavable hr with hf | hl
    · exact absurd hs (hf.stuck hr)
    · exact Or.inr (step_leavable h.sane hl hr hc hs)

/-- A clean step of a client that is left alone leaves it alone. -/
theorem Parted.silent (h : s.Parted) (hc : s.Clean e) : s.Silent e := by
  cases e with
  | enter =>
    intro hen hr
    rcases h.leavable hr with hf | hl
    · cases hf.1.symm.trans hen
    · exact absurd hl.outside.1 (by rw [show s.handler = .calling from hen]; decide)
  | peerClose conn =>
    intro hen hrep hr
    rcases h.leavable hr with hf | hl
    · cases hf.1.symm.trans hen.1
    · exact ((hl.replacing conn hen.2.1).resolve_left hrep |> hc hr)
  | _ => exact trivial

/-! ## Steps that are not clean -/

/-- `newConnection` or `removeConnection` can be entered behind the destructor. -/
def Calls (s : ClientThreads) : Prop := ∃ e, ¬ s.Silent e

/-- A client whose destructor has returned. -/
structure Left (s : ClientThreads) : Prop where
  sane : s.Sane
  once : s.Once
  returned : s.destructor = .returned

theorem Left.of_step (h : s.Left) (hs : step s e = some s') (hr : s'.destructor = s.destructor) :
    s'.Left :=
  ⟨step_sane h.sane hs, step_once h.once hs, hr.trans h.returned⟩

theorem Left.of_calling (h : s.Left) (hh : s.handler = .calling) : Leads step Calls s :=
  .here ⟨.enter, fun hsil => hsil hh h.returned⟩

/-- The attempt in progress succeeds. -/
theorem Left.of_attempt (h : s.Left) (hh : s.handler = .idle) (hcon : s.connector_.connect_ = true)
    (hat : s.connector_.attempt ≠ none) : Leads step Calls s := by
  obtain ⟨k, hk⟩ := Option.ne_none_iff_exists'.mp hat
  obtain ⟨hch, -, hst⟩ := h.sane.shape.of_attempt hk
  have hv : Connector.verdict EPOLLOUT 0 false = .succeeded := by decide
  have hpass : (s.connector_.settle k .succeeded).passed ≠ s.connector_.passed := by
    rw [Connector.settle, Connector.succeed_of_connect (by exact hcon)]
    simp [Connector.detach]
  have hs : step s (.dispatch EPOLLOUT 0 false) = some { s with
      connector_ := s.connector_.settle k .succeeded
      handler := .calling } := by
    refine step_eq_some_iff.mpr ⟨⟨hh, hat⟩, ?_⟩
    rw [Event.perform, Connector.handleEvent_eq hst hch, ok_bind, hv, if_neg hpass]
    rfl
  exact .of_step hs ((h.of_step hs rfl).of_calling rfl)

/-- A retry begins an attempt, once the last channel is gone. -/
theorem Left.of_connect_none (h : s.Left) (hh : s.handler = .connect)
    (hcon : s.connector_.connect_ = true) (hch : s.connector_.channel_ = none) :
    Leads step Calls s := by
  obtain ⟨c, hc, hcon', hat⟩ : ∃ c, s.connector_.connect .EINPROGRESS = .ok c ∧
      c.connect_ = true ∧ c.attempt ≠ none :=
    ⟨_, Connector.connecting_eq_ok_iff.mpr ⟨hch, rfl⟩, hcon, by simp [Connector.attempt]⟩
  have hs : step s (.connect .EINPROGRESS) = some { s with connector_ := c, handler := .idle } := by
    refine step_eq_some_iff.mpr ⟨hh, ?_⟩
    rw [Event.perform, hc]
    rfl
  exact .of_step hs ((h.of_step hs rfl).of_attempt rfl hcon' hat)

theorem step_startInLoop (hh : s.handler = .startInLoop)
    (hst : s.connector_.state_ = .kDisconnected) (hcon : s.connector_.connect_ = true) :
    step s .startInLoop = some { s with handler := .connect } := by
  refine step_eq_some_iff.mpr ⟨hh, ?_⟩
  rw [Event.perform, ensure_bind_of hst, hcon]
  rfl

/-- A connector between attempts that is not stopped, in a loop that is between handlers. -/
structure Waits (s : ClientThreads) : Prop extends Left s where
  idle : s.handler = .idle
  connect_ : s.connector_.connect_ = true
  state_ : s.connector_.state_ = .kDisconnected

theorem Waits.of_due (h : s.Waits) (hch : s.connector_.channel_ = none)
    (hdue : s.connector_.due ≠ []) : Leads step Calls s := by
  have hs : step s .fire = some { s with
      connector_ := { s.connector_ with due := s.connector_.due.tail }
      handler := .startInLoop } :=
    step_eq_some_iff.mpr ⟨⟨h.idle, hdue⟩, rfl⟩
  have hl := h.toLeft.of_step hs rfl
  have hs' := step_startInLoop (s := { s with
      connector_ := { s.connector_ with due := s.connector_.due.tail }
      handler := .startInLoop }) rfl h.state_ h.connect_
  exact .of_step hs (.of_step hs' ((hl.of_step hs' rfl).of_connect_none rfl h.connect_ hch))

theorem Waits.of_timer_none (h : s.Waits) (hch : s.connector_.channel_ = none)
    (ht : s.connector_.waiting ≠ [] ∨ s.connector_.due ≠ []) : Leads step Calls s := by
  rcases ht with hw | hdue
  · obtain ⟨i, hi⟩ := List.exists_mem_of_ne_nil _ hw
    have hs : step s (.expire i) = some { s with connector_ := s.connector_.expire i } :=
      step_eq_some_iff.mpr ⟨⟨h.idle, hi⟩, rfl⟩
    exact .of_step hs (Waits.of_due ⟨h.toLeft.of_step hs rfl, h.idle, h.connect_, h.state_⟩ hch
      (by simp [Connector.expire]))
  · exact h.of_due hch hdue

/-- A retry timer, whatever the last channel. -/
theorem Waits.of_timer (h : s.Waits)
    (ht : s.connector_.waiting ≠ [] ∨ s.connector_.due ≠ []) : Leads step Calls s := by
  cases h.sane.shape with
  | idle hch => exact h.of_timer_none hch ht
  | trying k _ _ hst => cases h.state_.symm.trans hst
  | ending k hch hr =>
    have hs : step s .resetChannel = some { s with connector_ := s.connector_.runReset } :=
      step_eq_some_iff.mpr ⟨⟨h.idle, by omega⟩, rfl⟩
    exact .of_step hs (Waits.of_timer_none
      ⟨h.toLeft.of_step hs rfl, h.idle, h.connect_, h.state_⟩ rfl ht)

/-- Behind the test of `connect_`; if the last channel is still there, a refused attempt leaves a
retry timer. -/
theorem Left.of_connect (h : s.Left) (hh : s.handler = .connect)
    (hcon : s.connector_.connect_ = true) : Leads step Calls s := by
  by_cases hch : s.connector_.channel_ = none
  · exact h.of_connect_none hh hcon hch
  · obtain ⟨c, hc, hcon', hst, hw⟩ : ∃ c, s.connector_.connect .EAGAIN = .ok c ∧
        c.connect_ = true ∧ c.state_ = .kDisconnected ∧ c.waiting ≠ [] := by
      refine ⟨_, rfl, ?_⟩
      rw [Connector.retry_of_connect (by exact hcon)]
      exact ⟨hcon, rfl, by simp⟩
    have hs : step s (.connect .EAGAIN) = some { s with connector_ := c, handler := .idle } := by
      refine step_eq_some_iff.mpr ⟨hh, ?_⟩
      rw [Event.perform, hc]
      rfl
    exact .of_step hs (Waits.of_timer ⟨h.of_step hs rfl, rfl, hcon', hst⟩ (Or.inl hw))

theorem Left.of_startInLoop (h : s.Left) (hh : s.handler = .startInLoop)
    (hst : s.connector_.state_ = .kDisconnected) (hcon : s.connector_.connect_ = true) :
    Leads step Calls s := by
  have hs := step_startInLoop hh hst hcon
  exact .of_step hs ((h.of_step hs rfl).of_connect rfl hcon)

/-- The functors up to `startInLoop` are called. -/
theorem Waits.of_pending (h : s.Waits) (hm : .startInLoop ∈ s.pendingFunctors_) :
    Leads step Calls s := by
  generalize hfs : s.pendingFunctors_ = fs at hm
  induction fs generalizing s with
  | nil => cases hm
  | cons cb fs ih =>
    obtain ⟨waiting, -, heq⟩ := call_eq { s with pendingFunctors_ := fs } cb
    have hs : step s .run = some (call { s with pendingFunctors_ := fs } cb) := by
      refine step_eq_some_iff.mpr ⟨⟨h.idle, by rw [hfs]; simp⟩, ?_⟩
      simp only [Event.perform, hfs]
      rfl
    rw [heq] at hs
    by_cases hcb : cb = .startInLoop
    · exact .of_step hs ((h.toLeft.of_step hs rfl).of_startInLoop (if_pos hcb) h.state_ h.connect_)
    · have hrest := (List.mem_cons.mp hm).resolve_left fun heq => hcb heq.symm
      exact .of_step hs (ih ⟨h.toLeft.of_step hs rfl, (if_neg hcb).trans h.idle, h.connect_,
        h.state_⟩ rfl hrest)

theorem Left.of_restart (h : s.Left) (hh : s.handler = .restart) : Leads step Calls s := by
  have hs : step s .restart = some { s with
      connector_ := { s.connector_ with
        state_ := .kDisconnected
        retryDelayMs_ := Connector.kInitRetryDelayMs
        connect_ := true }
      handler := .startInLoop } :=
    step_eq_some_iff.mpr ⟨hh, rfl⟩
  exact .of_step hs ((h.of_step hs rfl).of_startInLoop rfl rfl rfl)

theorem Left.of_removed (h : s.Left) (hh : s.handler = .removed)
    (hretry : (s.retry_ && s.connect_) = true) : Leads step Calls s := by
  have hs : step s .testRetry = some { s with handler := .restart } := by
    refine step_eq_some_iff.mpr ⟨hh, ?_⟩
    rw [Event.perform, hretry]
    rfl
  exact .of_step hs ((h.of_step hs rfl).of_restart rfl)

theorem Left.of_removing (h : s.Left) {conn : ℕ} (hh : s.handler = .removing conn)
    (hretry : (s.retry_ && s.connect_) = true) : Leads step Calls s := by
  have hs : step s (.reset conn) = some { s with connection_ := none, handler := .removed } :=
    step_eq_some_iff.mpr ⟨⟨hh, h.sane.current conn (Or.inr hh)⟩, rfl⟩
  exact .of_step hs ((h.of_step hs rfl).of_removed rfl hretry)

/-- A connection closes whose callback is that of the client. -/
theorem Left.of_open (h : s.Left) (hh : s.handler = .idle) {conn : ℕ} (hm : conn ∈ s.connected)
    (hrep : conn ∉ s.replaced) : Leads step Calls s := by
  by_cases hr : s.connector_.resets = 0
  · exact .here ⟨.peerClose conn, fun hsil => hsil ⟨hh, hm, hr⟩ hrep h.returned⟩
  · have hs : step s .resetChannel = some { s with connector_ := s.connector_.runReset } :=
      step_eq_some_iff.mpr ⟨⟨hh, Nat.pos_of_ne_zero hr⟩, rfl⟩
    obtain ⟨k, -, hone⟩ := h.sane.shape.channel_some (Nat.pos_of_ne_zero hr)
    have hzero : s.connector_.runReset.resets = 0 := by
      rw [Connector.runReset, hone]
    exact .of_step hs (.here
      ⟨.peerClose conn, fun hsil => hsil ⟨hh, hm, hzero⟩ hrep h.returned⟩)

theorem Left.of_entered (h : s.Left) (hh : s.handler = .entered) : Leads step Calls s := by
  have hs : step s .install = some { s with
      connection_ := some s.made
      made := s.made + 1
      connected := s.connected ++ [s.made]
      handler := .idle } :=
    step_eq_some_iff.mpr ⟨hh, rfl⟩
  have hrep : s.made ∉ s.replaced := fun hm =>
    lt_irrefl _ (h.once.known s.made (Or.inr (Or.inr (List.mem_append_left _ hm))))
  exact .of_step hs ((h.of_step hs rfl).of_open rfl (by simp) hrep)

/-- On the way to `restart` or into `newConnection`. -/
theorem Left.of_not_outside (h : s.Left) (ho : ¬ s.Outside) : Leads step Calls s := by
  have hretry : s.handler.mayRestart = true → s.handler.goesOn = false →
      (s.retry_ && s.connect_) = true := by
    intro hm hg
    by_contra hno
    exact ho ⟨hg, fun _ => Bool.eq_false_of_not_eq_true hno⟩
  cases hh : s.handler with
  | idle | startInLoop | connect => exact absurd (outside_of (by rw [hh]; rfl)) ho
  | calling => exact h.of_calling hh
  | entered => exact h.of_entered hh
  | restart => exact h.of_restart hh
  | removing conn => exact h.of_removing hh (hretry (by rw [hh]; rfl) (by rw [hh]; rfl))
  | removed => exact h.of_removed hh (hretry (by rw [hh]; rfl) (by rw [hh]; rfl))

/-- Between two handlers. -/
theorem Left.of_idle (h : s.Left) (hh : s.handler = .idle) (hcon : s.connector_.connect_ = true)
    (hst : s.connector_.state_ ≠ .kConnected) (hgo : ¬ s.Rests) : Leads step Calls s := by
  by_cases hat : s.connector_.attempt = none
  · have hdis : s.connector_.state_ = .kDisconnected := by
      have hne := h.sane.shape.attempt_eq_none_iff.mp hat
      cases hs : s.connector_.state_ with
      | kDisconnected => rfl
      | kConnecting => exact absurd hs hne
      | kConnected => exact absurd hs hst
    have hw : s.Waits := ⟨h, hh, hcon, hdis⟩
    by_cases ht : s.connector_.waiting = [] ∧ s.connector_.due = []
    · refine hw.of_pending (by_contra fun hm => hgo ⟨hat, ht.1, ht.2, hm, ?_, ?_⟩)
      · rw [hh]
        decide
      · rw [hh]
        decide
    · exact hw.of_timer (not_and_or.mp ht)
  · exact h.of_attempt hh hcon hat

theorem Left.of_not_ended (h : s.Left) (hf : ¬ s.Failing) (hend : ¬ s.Ended) :
    Leads step Calls s := by
  obtain ⟨hcon, hend⟩ := not_or.mp hend
  obtain ⟨hst, hgo⟩ := not_or.mp hend
  have hcon := Bool.eq_true_of_not_eq_false hcon
  have hin : s.handler.inClient ≠ true := fun hin => hst (h.sane.state (Or.inr hin))
  cases hh : s.handler with
  | idle => exact h.of_idle hh hcon hst hgo
  | startInLoop => exact h.of_startInLoop hh (by_contra fun hne => hf ⟨hh, hne⟩) hcon
  | connect => exact h.of_connect hh hcon
  | calling | entered | removing | removed | restart => exact absurd (by rw [hh]; rfl) hin

theorem Left.of_not_replacing (h : s.Left) (hf : ¬ s.Failing) (hrep : ¬ s.Replacing) :
    Leads step Calls s := by
  obtain ⟨conn, hconn⟩ := not_forall.mp hrep
  obtain ⟨hm, hno⟩ := Classical.not_imp.mp hconn
  have hne := List.ne_nil_of_mem hm
  have hst := h.sane.state (Or.inl hne)
  cases hh : s.handler with
  | idle => exact h.of_open hh hm fun hr => hno (Or.inl hr)
  | startInLoop => exact absurd ⟨hh, by rw [hst]; decide⟩ hf
  | connect => cases hst.symm.trans (h.sane.connecting hh)
  | calling | entered | removing | removed | restart =>
    exact absurd (h.sane.alone (by rw [hh]; rfl)) hne

/-- **A client that is not `Leavable` can be called**, whatever the loop thread is doing. -/
theorem Left.leads (h : s.Left) (hf : ¬ s.Failing) (hl : ¬ s.Leavable) : Leads step Calls s := by
  by_cases ho : s.Outside
  · by_cases hend : s.Ended
    · exact h.of_not_replacing hf fun hrep => hl ⟨ho, hend, hrep⟩
    · exact h.of_not_ended hf hend
  · exact h.of_not_outside ho

/-- A functor of `setCloseCallback` that has not run is the only one. -/
theorem Once.not_replaced (h : s.Once) {conn : ℕ}
    (hm : .setCloseCallback conn ∈ s.pendingFunctors_) : conn ∉ s.replaced := by
  intro hr
  have h₁ := List.length_pos_of_mem hr
  have h₂ : conn ∈ s.pendingFunctors_.filterMap ClientFunctor.conn :=
    List.mem_filterMap.mpr ⟨_, hm, rfl⟩
  have h₃ := List.length_pos_of_mem h₂
  have hlen := h.single
  rw [callbacks, List.length_append] at hlen
  omega

/-- **Destruction.** When the destructor returns only where the client is `Leavable`, and no
connection closes between that and its queued `setCloseCallback`, neither `newConnection` nor
`removeConnection` is entered behind the destructor. After any other step of a run, the loop thread
can enter one of them. -/
theorem destroyed_silent (es : List Event) :
    (Along step Clean new es → Along step Silent new es) ∧
    ∀ s e s', Run step new es s → step s e = some s' → ¬ s.Clean e →
      ∃ fs, ¬ Along step Silent new (es ++ e :: fs) := by
  constructor
  · intro hc pre e post s hes hr
    have hp := hr.inv_of (P := Parted) (fun _ _ _ h hc hs => step_parted h hc hs)
      (Along.of_append (hes ▸ hc)) parted_new
    exact hp.silent (hc pre e post s hes hr)
  · intro s e s' hr hs hc
    have hsane := step_sane (sane_of_run hr) hs
    have honce := step_once (once_of_run hr) hs
    obtain ⟨hen, hp⟩ := step_eq_some_iff.mp hs
    cases e with
    | return_ =>
      obtain rfl := Except.ok.inj hp
      obtain ⟨hf, hl⟩ := not_or.mp hc
      obtain ⟨fs, t, hr', f, hf'⟩ := Left.leads ⟨hsane, honce, rfl⟩ hf
        fun hl' => hl ⟨hl'.outside, hl'.ended, hl'.replacing⟩
      refine ⟨fs ++ [f], fun ha => hf' ?_⟩
      exact ha (es ++ .return_ :: fs) f [] t (by simp) (hr.append (hr'.cons hs))
    | peerClose conn =>
      obtain ⟨hret, hm⟩ := Classical.not_imp.mp hc
      refine ⟨[], fun ha => ?_⟩
      exact ha es (.peerClose conn) [] s rfl hr hen
        ((once_of_run hr).not_replaced (not_not.mp hm)) hret
    | _ => exact absurd trivial hc

/-- A connection is made, and the loop has gone to the next iteration. -/
def connects : List Event :=
  [.callConnect, .run, .startInLoop, .connect .EINPROGRESS, .dispatch EPOLLOUT 0 false, .enter,
    .install, .resetChannel]

/-- The destructor replaces the close callback. -/
def destroys : List Event := [.read, .setCloseCallback 0, .cancel, .assertChannel, .return_]

/-- The functors of the destructor run before the connection closes. -/
def closedLater : List Event := connects ++ destroys ++ [.run, .run, .peerClose 0]

theorem closedLater_silent : Along step Silent new closedLater ∧
    ∃ s, Run step new closedLater s ∧ s.destructor = .returned := by
  refine ⟨(destroyed_silent _).1 (along_of_check (by decide +kernel)), ?_⟩
  have h : (closedLater.foldlM step new).map (fun s => s.destructor) = some .returned := by
    decide +kernel
  exact Option.map_eq_some_iff.mp h

/-- The destructor finds no connection, while the loop thread is behind the test of `connect_`. -/
def destroyedInWrite : List Event :=
  [.callConnect, .run, .startInLoop, .connect .EINPROGRESS, .dispatch EPOLLOUT 0 false, .read,
    .stop, .cancel, .addTimer, .return_]

/-- `newConnection` is entered behind the destructor, and in another run `removeConnection`. -/
theorem destroyed_called :
    ¬ Along step Silent new (destroyedInWrite ++ [.enter]) ∧
    ¬ Along step Silent new (connects ++ destroys ++ [.peerClose 0]) := by
  constructor
  · have h : (destroyedInWrite.foldlM step new).map (fun s => (s.handler, s.destructor)) =
        some (.calling, .returned) := by decide +kernel
    obtain ⟨s, hs, hq⟩ := Option.map_eq_some_iff.mp h
    simp only [Prod.mk.injEq] at hq
    exact fun ha => ha destroyedInWrite .enter [] s rfl hs hq.1 hq.2
  · have h : ((connects ++ destroys).foldlM step new).map (fun s => (s.handler, s.connected)) =
        some (.idle, [0]) := by decide +kernel
    obtain ⟨s, hs, hq⟩ := Option.map_eq_some_iff.mp h
    simp only [Prod.mk.injEq] at hq
    have h' : ((connects ++ destroys).foldlM step new).map (fun s =>
        (s.connector_.resets, s.replaced, s.destructor)) = some (0, [], .returned) := by
      decide +kernel
    obtain ⟨s', hs', hq'⟩ := Option.map_eq_some_iff.mp h'
    obtain rfl := Option.some.inj (hs.symm.trans hs')
    simp only [Prod.mk.injEq] at hq'
    have hen : (Event.peerClose 0).Enabled s :=
      ⟨hq.1, by rw [hq.2]; exact List.mem_singleton_self 0, hq'.1⟩
    exact fun ha => ha (connects ++ destroys) (.peerClose 0) [] s rfl hs hen
      (by rw [hq'.2.1]; exact List.not_mem_nil) hq'.2.2

end HighServer.ClientThreads
