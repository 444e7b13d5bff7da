import HighServer.Net.InLoop

/-!
# The life-cycle assertions of a connection

`handleClose` and `connectDestroyed` assert `state_ == kConnected`, but `shutdown` stores
`kDisconnected` while the connection still waits for its peer to close.

* `Event.Closing`: the steps that run `handleClose` or `connectDestroyed`;
* `Life`: what the events so far say about `state_`; `step_life` keeps it;
* `aborts_iff`: a step fails one of the two assertions exactly when it is closing and a
  `shutdown` came before it;
* **`lifecycle_iff`**: the assertions hold throughout a run exactly when no closing step comes
  after a `shutdown`; `not_lifecycle_bad_header` is a run in which one does.
-/

namespace HighServer.TcpConnection.InLoop

open Runs

/-- The step runs `handleClose` or `connectDestroyed`. -/
def Event.Closing (s : InLoop) : Event → Prop
  | .callback r _ => RunsClose s.todo r
  | .connectDestroyed _ => True
  | _ => False

/-- The step does not fail an assertion on `state_`. -/
def LifecycleOk (s : InLoop) (e : Event) : Prop :=
  e.Enabled s → e.perform s ≠ .error .handleClose ∧ e.perform s ≠ .error .connectDestroyed

/-- What the events so far say about the state they lead to. -/
structure Life (es : List Event) (s : InLoop) : Prop where
  sound : s.conn.Sound
  alive : s.destroyed = false →
    s.conn.state_ = if Event.shutdown ∈ es then .kDisconnected else .kConnected
  gone : s.destroyed = true →
    s.conn.state_ = .kDisconnected ∧ s.todo = [] ∧ s.registered = none

variable {s s' : InLoop} {es : List Event} {e : Event}

theorem life_established (poller : EPoller) (self fd : ℕ) (cb : Bool) :
    Life [] (established poller self fd cb) where
  sound := sound_established poller self fd cb
  alive _ := rfl
  gone h := Bool.noConfusion h

/-- A step that changes nothing of the life cycle keeps `Life`. -/
theorem Life.same (h : Life es s) {t' : TcpConnection} (hs : t'.Sound)
    (hl : SameLife s.conn t') (hp : s.destroyed = true → t'.poller = s.conn.poller)
    {todo : List Channel.Callback} (ht : s.destroyed = true → todo = [])
    (he : e ≠ .shutdown) : Life (es ++ [e]) { s with conn := t', todo } where
  sound := hs
  alive hd := by
    have hm : Event.shutdown ∈ es ++ [e] ↔ Event.shutdown ∈ es := by
      simp [Ne.symm he]
    simp only [hl.state_, h.alive hd, hm]
  gone hd := by
    refine ⟨hl.state_.trans (h.gone hd).1, ht hd, ?_⟩
    simp only [registered, hp hd, hl.fd_]
    exact (h.gone hd).2.2

theorem send_of_disconnected {t : TcpConnection} (h : t.state_ = .kDisconnected) (message : Bytes)
    (w : WriteResult) : t.send message w = .ok t := by
  simp [send, h, pure, Except.pure]

theorem shutdown_of_disconnected {t : TcpConnection} (h : t.state_ = .kDisconnected) :
    t.shutdown = t := by
  simp [shutdown, h]

theorem Life.alive_of_callback (h : Life es s) {r : ReadResult} {w : WriteResult}
    (hen : (Event.callback r w).Enabled s) : s.destroyed = false := by
  by_contra hd
  exact hen.1 (h.gone (by simpa using hd)).2.1

/-- A callback of a dispatched event set that comes to its end. -/
theorem step_callback (h : Life es s) {r : ReadResult} {w : WriteResult}
    (hs : step s (.callback r w) = some s') : Life (es ++ [.callback r w]) s' := by
  obtain ⟨hen, hp⟩ := step_eq_some_iff.mp hs
  have hd := h.alive_of_callback hen
  cases htodo : s.todo with
  | nil => exact absurd htodo hen.1
  | cons c todo =>
    simp only [Event.perform, htodo] at hp
    by_cases hr : RunsClose s.todo r
    · obtain ⟨t₀, hc, hs₀, hl₀⟩ := runCallback_closing h.sound htodo hr w
      rw [hc] at hp
      by_cases hst : t₀.state_ = .kConnected
      · rcases handleClose_sound hs₀ hst with ⟨-, t', ht, hs', hst', -⟩ | ⟨-, ht⟩
        · rw [ht] at hp
          obtain rfl := Except.ok.inj hp
          refine ⟨hs', fun _ => ?_, fun hd' => absurd hd' (by simp [hd])⟩
          rw [hl₀.state_, h.alive hd] at hst
          simpa [hst'] using hst.symm
        · rw [ht] at hp
          exact absurd hp (by simp)
      · rw [handleClose_of_ne hst] at hp
        exact absurd hp (by simp)
    · obtain ⟨t', ht, hst, hl⟩ := runCallback_other h.sound htodo hr hen.2
      rw [ht] at hp
      obtain rfl := Except.ok.inj hp
      exact h.same hst hl (fun hd' => absurd hd' (by simp [hd]))
        (fun hd' => absurd hd' (by simp [hd])) (by simp)

/-- **One step.** -/
theorem step_life (h : Life es s) (hs : step s e = some s') : Life (es ++ [e]) s' := by
  obtain ⟨hen, hp⟩ := step_eq_some_iff.mp hs
  cases e with
  | send message w =>
    obtain ⟨t', ht, hst, hl⟩ := send_sound h.sound message w
    rw [Event.perform, ht] at hp
    obtain rfl := Except.ok.inj hp
    refine h.same hst hl (fun hd => ?_) (fun hd => (h.gone hd).2.1) (by simp)
    rw [send_of_disconnected (h.gone hd).1] at ht
    rw [← Except.ok.inj ht]
  | shutdown =>
    obtain rfl := Except.ok.inj hp
    obtain ⟨hst, -, hch, hpo⟩ := shutdown_sound h.sound
    refine ⟨hst, fun hd => ?_, fun hd => ?_⟩
    · have := h.alive hd
      simp only [List.mem_append, List.mem_singleton, or_true, if_true, shutdown, shutdownInLoop]
      by_cases hm : Event.shutdown ∈ es
      · rw [if_pos hm] at this
        simp [this]
      · rw [if_neg hm] at this
        simp only [this, if_true]
        split_ifs <;> rfl
    · have hg := h.gone hd
      refine ⟨?_, hg.2.1, ?_⟩
      · rw [shutdown_of_disconnected hg.1]; exact hg.1
      · simp only [registered, hch, hpo]
        exact hg.2.2
  | poll revents =>
    obtain rfl := Except.ok.inj hp
    refine h.same h.sound (SameLife.refl _) (fun _ => rfl) (fun hd => ?_) (by simp)
    exact absurd hen (not_registered_poll (h.gone hd).2.2 revents)
  | callback r w => exact step_callback h hs
  | connectDestroyed acts =>
    by_cases hst : s.conn.state_ = .kConnected
    · rcases connectDestroyed_sound h.sound hst acts with ⟨-, t', ht, hs', hd, -, hn⟩ | ⟨-, ht⟩
      · rw [Event.perform, ht] at hp
        obtain rfl := Except.ok.inj hp
        exact ⟨hs', fun hd' => Bool.noConfusion hd', fun _ => ⟨hd, hen.1, hn⟩⟩
      · rw [Event.perform, ht] at hp
        exact absurd hp (by simp)
    · rw [Event.perform, connectDestroyed_of_ne hst] at hp
      exact absurd hp (by simp)

/-- A step fails an assertion on `state_` exactly when it is closing after a `shutdown`. -/
theorem aborts_iff (h : Life es s) (hen : e.Enabled s) :
    (e.perform s = .error .handleClose ∨ e.perform s = .error .connectDestroyed) ↔
      Event.shutdown ∈ es ∧ e.Closing s := by
  cases e with
  | send message w =>
    obtain ⟨t', ht, -⟩ := send_sound h.sound message w
    simp [Event.perform, ht, Event.Closing, pure, Except.pure]
  | shutdown => simp [Event.perform, Event.Closing, pure, Except.pure]
  | poll revents => simp [Event.perform, Event.Closing, pure, Except.pure]
  | callback r w =>
    cases htodo : s.todo with
    | nil => exact absurd htodo hen.1
    | cons c todo =>
      have hlife := h.alive (h.alive_of_callback hen)
      simp only [Event.perform, htodo, Event.Closing]
      by_cases hr : RunsClose s.todo r
      · obtain ⟨t₀, hc, hs₀, hl₀⟩ := runCallback_closing h.sound htodo hr w
        rw [htodo] at hr
        rw [← hl₀.state_] at hlife
        rw [hc]
        by_cases hm : Event.shutdown ∈ es
        · rw [if_pos hm] at hlife
          rw [handleClose_of_ne (by simp [hlife])]
          simp [hm, hr]
        · rw [if_neg hm] at hlife
          rcases handleClose_sound hs₀ hlife with ⟨-, t', ht, -⟩ | ⟨-, ht⟩
          · simp [ht, hm, pure, Except.pure]
          · simp [ht, hm]
      · obtain ⟨t', ht, -⟩ := runCallback_other h.sound htodo hr hen.2
        rw [htodo] at hr
        simp [ht, hr, pure, Except.pure]
  | connectDestroyed acts =>
    have hlife := h.alive hen.2.2
    by_cases hm : Event.shutdown ∈ es
    · rw [if_pos hm] at hlife
      rw [Event.perform, connectDestroyed_of_ne (by simp [hlife])]
      simp [hm, Event.Closing]
    · rw [if_neg hm] at hlife
      rcases connectDestroyed_sound h.sound hlife acts with ⟨-, t', ht, -⟩ | ⟨-, ht⟩
      · simp [Event.perform, ht, hm, pure, Except.pure]
      · simp [Event.perform, ht, hm]

theorem life_of_run {poller : EPoller} {self fd : ℕ} {cb : Bool}
    (h : Run step (established poller self fd cb) es s) : Life es s :=
  h.history (fun _ _ _ _ hl hs => step_life hl hs) (life_established poller self fd cb)

/-- **The life-cycle assertions** hold at every step of a run exactly when no step of the run that
runs `handleClose` or `connectDestroyed` has a `shutdown` before it. -/
theorem lifecycle_iff (poller : EPoller) (self fd : ℕ) (cb : Bool) (es : List Event) :
    Along step LifecycleOk (established poller self fd cb) es ↔
      ∀ pre e post s, es = pre ++ e :: post → Run step (established poller self fd cb) pre s →
        e.Enabled s → Event.shutdown ∈ pre → ¬ e.Closing s := by
  constructor
  · intro hok pre e post s hes hrun hen hm hc
    obtain ⟨h1, h2⟩ := hok pre e post s hes hrun hen
    exact ((aborts_iff (life_of_run hrun) hen).mpr ⟨hm, hc⟩).elim h1 h2
  · intro hno pre e post s hes hrun hen
    have hiff := aborts_iff (life_of_run hrun) hen
    have hnot : ¬ (Event.shutdown ∈ pre ∧ e.Closing s) :=
      fun hc => hno pre e post s hes hrun hen hc.1 hc.2
    rw [← hiff] at hnot
    push Not at hnot
    exact hnot

/-- The peer closes after a `shutdown`, as after a header that `Codec::onMessage` rejects. -/
def closeAfterShutdown : List Event :=
  [.shutdown, .poll EPOLLIN, .callback (.received []) .wouldBlock]

theorem not_lifecycle_bad_header :
    ¬ Along step LifecycleOk (established (fun _ => none) 0 5 false) closeAfterShutdown := by
  intro h
  have hrun : ([Event.shutdown, .poll EPOLLIN].foldlM step
      (established (fun _ => none) 0 5 false)).map (fun s =>
        (decide (Event.Enabled s (.callback (.received []) .wouldBlock)),
          (Event.perform s (.callback (.received []) .wouldBlock)).map fun _ => ())) =
      some (true, .error .handleClose) := by
    decide +kernel
  obtain ⟨s, hs, hq⟩ := Option.map_eq_some_iff.mp hrun
  obtain ⟨hen, hp⟩ := Prod.mk.inj hq
  obtain ⟨hok, -⟩ := h [.shutdown, .poll EPOLLIN] (.callback (.received []) .wouldBlock) [] s rfl hs
    (of_decide_eq_true hen)
  cases ha : Event.perform s (.callback (.received []) .wouldBlock) with
  | ok s' => rw [ha] at hp; exact absurd hp (by simp [Except.map])
  | error a =>
    rw [ha] at hp
    obtain rfl := Except.error.inj hp
    exact hok ha

end HighServer.TcpConnection.InLoop
