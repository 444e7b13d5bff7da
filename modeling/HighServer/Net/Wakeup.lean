import HighServer.Net.EventLoop

/-!
# Lost wakeups

`queueInLoop` leaves the wakeup out when the loop thread calls it, unless `callingPendingFunctors_`
says that the functors are running. Nothing sets that flag, so a functor that queues a functor
leaves it behind for an `epoll_wait` without a timeout.

* `Awake`: the counter is not zero, or a thread is about to write to it;
* `Covered`: the loop thread queues only in a handler, or while the loop is `Awake`;
* `step_wakes`: a covered step keeps the invariant `Wakes`;
* `Stuck.of_test`, `Stuck.of_running`, `lost_of_uncovered`: the loop thread can take a functor left
  behind into `epoll_wait`;
* **`noLostWakeup_of_covered`**: a run of covered steps loses no wakeup, and after every step that
  is not covered one can be lost; `lost_wakeup_of_functor` is a run in which one is.
-/

namespace HighServer.EventLoop

open Runs

variable {T F : Type}

/-- The eventfd is readable, or a thread is between its `push_back` and its `wakeup`. -/
def Awake (l : EventLoop T F) : Prop := l.wakeupFd_ ≠ 0 ∨ ∃ t, l.callers t = .pushed

/-- In `epoll_wait` with functors pending, the loop is about to be woken. -/
def NoLostWakeup (l : EventLoop T F) : Prop :=
  l.phase = .polling → l.pendingFunctors_ ≠ [] → l.Awake

/-- A `queueInLoop` of the loop thread comes from a handler or while the loop is awake. -/
def Covered (l : EventLoop T F) : Event T F → Prop
  | .queueInLoop _ => (∃ woken, l.phase = .handling woken) ∨ l.Awake
  | _ => True

/-- Functors are pending outside of the handlers only when the loop is awake. -/
def Wakes (l : EventLoop T F) : Prop :=
  (∃ woken, l.phase = .handling woken) ∨ (l.pendingFunctors_ ≠ [] → l.Awake)

variable {l l' : EventLoop T F}

@[simp] theorem wakeupFd_wakeup (l : EventLoop T F) : l.wakeup.wakeupFd_ ≠ 0 := by
  unfold wakeup
  split_ifs with h
  · simp
  · omega

@[simp] theorem phase_wakeup (l : EventLoop T F) : l.wakeup.phase = l.phase := by
  unfold wakeup; split_ifs <;> rfl

@[simp] theorem phase_queueInLoop (l : EventLoop T F) (cb : F) :
    (l.queueInLoop cb).phase = l.phase := by
  unfold queueInLoop; split_ifs
  · exact phase_wakeup _
  · rfl

theorem Awake.queueInLoop (h : l.Awake) (cb : F) : (l.queueInLoop cb).Awake := by
  unfold EventLoop.queueInLoop
  split_ifs
  · exact Or.inl (wakeupFd_wakeup _)
  · exact h

theorem Wakes.awake (h : l.Wakes) (hp : ∀ woken, l.phase ≠ .handling woken)
    (hne : l.pendingFunctors_ ≠ []) : l.Awake :=
  (h.resolve_left fun ⟨w, hw⟩ => hp w hw) hne

theorem wakes_new : (new : EventLoop T F).Wakes := Or.inr fun h => absurd rfl h

/-- Functors are pending, and nothing is on its way to wake the loop. -/
structure Stuck (l : EventLoop T F) : Prop where
  pending : l.pendingFunctors_ ≠ []
  asleep : ¬ l.Awake

theorem Stuck.lost (h : l.Stuck) (hp : l.phase = .polling) : ¬ l.NoLostWakeup :=
  fun hl => h.asleep (hl hp h.pending)

variable [DecidableEq T]

/-- **One covered step.** -/
theorem step_wakes {e : Event T F} (h : l.Wakes) (hc : l.Covered e) (hs : step l e = some l') :
    l'.Wakes := by
  cases e with
  | loop =>
    obtain ⟨hp, rfl⟩ := step_loop_iff.mp hs
    exact Or.inr fun hne => h.awake (by simp [hp]) hne
  | test =>
    obtain ⟨hp, rfl⟩ := step_test_iff.mp hs
    have ha := h.awake (by simp [hp])
    split_ifs
    · exact Or.inr ha
    · exact Or.inr ha
  | poll woken =>
    obtain ⟨-, -, rfl⟩ := step_poll_iff.mp hs
    exact Or.inl ⟨woken, rfl⟩
  | handleRead =>
    obtain ⟨-, rfl⟩ := step_handleRead_iff.mp hs
    exact Or.inl ⟨false, rfl⟩
  | swap =>
    obtain ⟨-, rfl⟩ := step_swap_iff.mp hs
    exact Or.inr fun hne => absurd rfl hne
  | run =>
    obtain ⟨current, f, functions, hp, rfl⟩ := step_run_iff.mp hs
    exact Or.inr fun hne => h.awake (by simp [hp]) hne
  | finish =>
    obtain ⟨⟨current, hp⟩, rfl⟩ := step_finish_iff.mp hs
    exact Or.inr fun hne => h.awake (by simp [hp]) hne
  | queueInLoop cb =>
    obtain ⟨-, rfl⟩ := step_queueInLoop_iff.mp hs
    rcases hc with ⟨w, hw⟩ | ha
    · exact Or.inl ⟨w, by rw [phase_queueInLoop]; exact hw⟩
    · exact Or.inr fun _ => ha.queueInLoop cb
  | quit =>
    obtain ⟨-, rfl⟩ := step_quit_iff.mp hs
    exact h
  | push t cb =>
    obtain ⟨-, rfl⟩ := step_push_iff.mp hs
    exact Or.inr fun _ => Or.inr ⟨t, by simp⟩
  | quitFrom t =>
    obtain ⟨hidle, rfl⟩ := step_quitFrom_iff.mp hs
    refine h.imp id fun ha hne => (ha hne).imp id ?_
    rintro ⟨t', ht'⟩
    have : t' ≠ t := by rintro rfl; simp [hidle] at ht'
    exact ⟨t', by simpa [this] using ht'⟩
  | wakeup t =>
    obtain ⟨-, rfl⟩ := step_wakeup_iff.mp hs
    exact Or.inr fun _ => Or.inl (wakeupFd_wakeup l)

omit [DecidableEq T] in
@[simp] theorem callingPendingFunctors_wakeup (l : EventLoop T F) :
    l.wakeup.callingPendingFunctors_ = l.callingPendingFunctors_ := by
  unfold wakeup; split_ifs <;> rfl

/-- The flag is cleared after the functors, and never set. -/
theorem step_quiet {e : Event T F} (h : l.callingPendingFunctors_ = false)
    (hs : step l e = some l') : l'.callingPendingFunctors_ = false := by
  cases e with
  | loop => obtain ⟨-, rfl⟩ := step_loop_iff.mp hs; exact h
  | test =>
    obtain ⟨-, rfl⟩ := step_test_iff.mp hs
    split_ifs
    · exact h
    · exact h
  | poll woken => obtain ⟨-, -, rfl⟩ := step_poll_iff.mp hs; exact h
  | handleRead => obtain ⟨-, rfl⟩ := step_handleRead_iff.mp hs; exact h
  | swap => obtain ⟨-, rfl⟩ := step_swap_iff.mp hs; exact h
  | run => obtain ⟨_, _, _, -, rfl⟩ := step_run_iff.mp hs; exact h
  | finish => obtain ⟨-, rfl⟩ := step_finish_iff.mp hs; rfl
  | queueInLoop cb =>
    obtain ⟨-, rfl⟩ := step_queueInLoop_iff.mp hs
    rw [queueInLoop, h]
    exact h
  | quit => obtain ⟨-, rfl⟩ := step_quit_iff.mp hs; exact h
  | push t cb => obtain ⟨-, rfl⟩ := step_push_iff.mp hs; exact h
  | quitFrom t => obtain ⟨-, rfl⟩ := step_quitFrom_iff.mp hs; exact h
  | wakeup t =>
    obtain ⟨-, rfl⟩ := step_wakeup_iff.mp hs
    exact (callingPendingFunctors_wakeup l).trans h

/-! ## A functor left behind -/

/-- The wakeup is lost. -/
def Loses (l : EventLoop T F) : Prop := ¬ l.NoLostWakeup

theorem Stuck.of_outside (h : l.Stuck) (hp : l.phase = .outside) : Leads step Loses l := by
  have hr : Run step l [.loop, .test]
      { l with looping_ := true, quit_ := false, phase := .polling } := by
    simp [Run, step, hp]
  exact .of_run hr (.here (Stuck.lost ⟨h.pending, h.asleep⟩ rfl))

theorem Stuck.of_test (h : l.Stuck) (hp : l.phase = .test) : Leads step Loses l := by
  by_cases hq : l.quit_ = true
  · -- the loop ends here, and the functors wait for the next call of `loop`
    have hs : step l .test = some { l with looping_ := false, phase := .outside } := by
      simp [step, hp, hq]
    exact .of_step hs (Stuck.of_outside ⟨h.pending, h.asleep⟩ rfl)
  · have hs : step l .test = some { l with phase := .polling } := by
      simp [step, hp, hq]
    exact .of_step hs (.here (Stuck.lost ⟨h.pending, h.asleep⟩ rfl))

theorem Stuck.of_running (functions : List F) : ∀ {l : EventLoop T F} {current : Option F},
    l.Stuck → l.phase = .running current functions → Leads step Loses l := by
  induction functions with
  | nil =>
    intro l current h hp
    have hs : step l .finish =
        some { l with callingPendingFunctors_ := false, phase := .test } := by
      simp [step, hp]
    exact .of_step hs (Stuck.of_test ⟨h.pending, h.asleep⟩ rfl)
  | cons f functions ih =>
    intro l current h hp
    have hs : step l .run = some { l with phase := .running (some f) functions } := by
      simp [step, hp]
    exact .of_step hs (ih ⟨h.pending, h.asleep⟩ rfl)

/-- **A `queueInLoop` that is not covered** can lose its wakeup. -/
theorem lost_of_uncovered {cb : F} (hq : l.callingPendingFunctors_ = false) (hu : l.InUserCode)
    (hc : ¬ l.Covered (.queueInLoop cb)) :
    ∃ fs l', Run step l (.queueInLoop cb :: fs) l' ∧ ¬ l'.NoLostWakeup := by
  have hs : step l (.queueInLoop cb) = some (l.pushBack cb) := by
    simp [step, hu, queueInLoop, hq]
  rw [Covered] at hc
  push Not at hc
  have hstuck : (l.pushBack cb).Stuck := ⟨by simp [pushBack], hc.2⟩
  have hlose : Leads step Loses (l.pushBack cb) := by
    cases hp : l.phase with
    | outside => exact hstuck.of_outside hp
    | test => simp [InUserCode, hp] at hu
    | polling => simp [InUserCode, hp] at hu
    | handling w => exact absurd hp (hc.1 w)
    | running current functions => exact Stuck.of_running functions hstuck hp
  obtain ⟨fs, l', hr, hl⟩ := hlose
  exact ⟨fs, l', hr.cons hs, hl⟩

/-! ## Runs -/

/-- **A run in which the loop thread queues only in handlers, or while the loop is awake,** never
waits in `epoll_wait` with functors pending and nothing to wake it. After any other `queueInLoop`
it can come to that. -/
theorem noLostWakeup_of_covered {es : List (Event T F)} (h : Run step new es l) :
    (Along step Covered new es → l.NoLostWakeup) ∧
    ∀ cb, l.InUserCode → ¬ l.Covered (.queueInLoop cb) →
      ∃ fs l', Run step new (es ++ .queueInLoop cb :: fs) l' ∧ ¬ l'.NoLostWakeup := by
  constructor
  · intro hc hp hne
    have hw := h.inv_of (P := Wakes) (fun l e l' hl hc hs => step_wakes hl hc hs) hc wakes_new
    exact hw.awake (by simp [hp]) hne
  · intro cb hu hc
    have hq := h.inv (P := fun l => l.callingPendingFunctors_ = false)
      (fun l e l' hl hs => step_quiet hl hs) rfl
    obtain ⟨fs, l', hr, hl⟩ := lost_of_uncovered hq hu hc
    exact ⟨fs, l', h.append hr, hl⟩

instance (l : EventLoop Unit ℕ) (e : Event Unit ℕ) : Decidable (l.Covered e) :=
  match e with
  | .queueInLoop _ => inferInstanceAs (Decidable ((∃ woken, l.phase = .handling woken) ∨
      (l.wakeupFd_ ≠ 0 ∨ ∃ t, l.callers t = .pushed)))
  | .loop | .test | .poll _ | .handleRead | .swap | .run | .finish | .quit | .push _ _
  | .quitFrom _ | .wakeup _ => .isTrue trivial

/-- The loop thread queues one functor in a handler, and another one while a functor runs, when
another thread is about to wake the loop. -/
def coveredQueueing : List (Event Unit ℕ) :=
  [.push () 0, .wakeup (), .loop, .test, .poll true, .handleRead, .queueInLoop 1, .swap, .run,
    .push () 2, .queueInLoop 3, .run, .finish, .test]

theorem coveredQueueing_awake : ∃ l : EventLoop Unit ℕ, Run step new coveredQueueing l ∧
    l.phase = .polling ∧ l.pendingFunctors_ = [2, 3] ∧ l.NoLostWakeup := by
  have h : (coveredQueueing.foldlM step (new : EventLoop Unit ℕ)).map (fun l =>
      (l.phase, l.pendingFunctors_)) = some (.polling, [2, 3]) := by decide +kernel
  obtain ⟨l, hl, hq⟩ := Option.map_eq_some_iff.mp h
  obtain ⟨hp, hf⟩ := Prod.mk.inj hq
  have hc : Along step Covered (new : EventLoop Unit ℕ) coveredQueueing :=
    along_of_check (by decide +kernel)
  exact ⟨l, hl, hp, hf, (noLostWakeup_of_covered hl).1 hc⟩

/-- A functor of another thread queues a functor while `doPendingFunctors` runs it. -/
def functorQueuesFunctor : List (Event Unit ℕ) :=
  [.push () 0, .wakeup (), .loop, .test, .poll true, .handleRead, .swap, .run, .queueInLoop 1,
    .finish, .test]

theorem lost_wakeup_of_functor :
    ¬ ∀ es (l : EventLoop Unit ℕ), Run step new es l → l.NoLostWakeup := by
  intro h
  have hrun : (functorQueuesFunctor.foldlM step (new : EventLoop Unit ℕ)).map (fun l =>
      (l.phase, l.pendingFunctors_, l.wakeupFd_, l.callers ())) =
      some (.polling, [1], 0, .idle) := by decide +kernel
  obtain ⟨l, hl, hq⟩ := Option.map_eq_some_iff.mp hrun
  simp only [Prod.mk.injEq] at hq
  obtain ⟨hp, hf, hw, hc⟩ := hq
  rcases h functorQueuesFunctor l hl hp (by simp [hf]) with ha | ⟨⟨⟩, ht⟩
  · exact ha hw
  · rw [hc] at ht
    exact Caller.noConfusion ht

end HighServer.EventLoop
