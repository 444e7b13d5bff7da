import HighServer.Lib.Runs

/-!
# The event loop, its functor queue and its eventfd

One loop with any number of other threads. A thread of the loop's own runs user code outside of
`loop()`, in the handlers of active channels and in the functors of `doPendingFunctors`; there it
may call `queueInLoop` and `quit`. For the other threads these are two steps each, since
`wakeup` comes after the mutex is released.

* `EventLoop.wakeup`, `EventLoop.handleRead`, `EventLoop.queueInLoop`, `step`: the transition
  system; user functors are opaque values;
* `step_loop_iff`, `step_test_iff`, …: what each event does, and when it can happen;
* `uncalled`: the functors that are still to be called;
* **`step_uncalled`**, **`run_uncalled`**: they are a first-in first-out queue.
-/

namespace HighServer

/-- Where the loop thread is. -/
inductive Phase (F : Type) where
  /-- outside of `loop()` -/
  | outside
  /-- before the test of `quit_` -/
  | test
  /-- in `epoll_wait` -/
  | polling
  /-- in the handlers of `activeChannels_`; whether `wakeupChannel_` is still to be handled -/
  | handling (woken : Bool)
  /-- in `doPendingFunctors`, after the swap: the functor running, and those after it -/
  | running (current : Option F) (functions : List F)
  deriving DecidableEq, Repr

/-- What a thread other than the loop's is doing. -/
inductive Caller where
  | idle
  /-- in `queueInLoop`, between the critical section and `wakeup` -/
  | pushed
  /-- in `quit`, between the store and `wakeup` -/
  | quitting
  deriving DecidableEq, Repr

/-- An event loop with functors `F` and other threads `T`. `wakeupFd_` is the eventfd's counter. -/
structure EventLoop (T F : Type) where
  looping_ : Bool
  quit_ : Bool
  callingPendingFunctors_ : Bool
  pendingFunctors_ : List F
  wakeupFd_ : ℕ
  phase : Phase F
  callers : T → Caller

namespace EventLoop

open Runs

variable {T F : Type}

/-- The constructor. -/
def new : EventLoop T F where
  looping_ := false
  quit_ := false
  callingPendingFunctors_ := false
  pendingFunctors_ := []
  wakeupFd_ := 0
  phase := .outside
  callers _ := .idle

/-- A write of 1 to the eventfd; it fails when the counter is at its maximum. -/
def wakeup (l : EventLoop T F) : EventLoop T F :=
  if l.wakeupFd_ + 1 < 2 ^ 64 - 1 then { l with wakeupFd_ := l.wakeupFd_ + 1 } else l

/-- A read of the eventfd takes the whole counter. -/
def handleRead (l : EventLoop T F) : EventLoop T F := { l with wakeupFd_ := 0 }

/-- The critical section of `queueInLoop`. -/
def pushBack (l : EventLoop T F) (cb : F) : EventLoop T F :=
  { l with pendingFunctors_ := l.pendingFunctors_ ++ [cb] }

/-- `queueInLoop`, called in the loop thread. -/
def queueInLoop (l : EventLoop T F) (cb : F) : EventLoop T F :=
  if l.callingPendingFunctors_ then (l.pushBack cb).wakeup else l.pushBack cb

/-- User code runs in the loop thread. -/
def InUserCode (l : EventLoop T F) : Prop :=
  match l.phase with
  | .outside => True
  | .handling _ => True
  | .running (some _) _ => True
  | _ => False

instance (l : EventLoop T F) : Decidable l.InUserCode := by
  unfold InUserCode
  split <;> infer_instance

inductive Event (T F : Type) where
  /-- `loop()` is entered -/
  | loop
  /-- the test of `quit_` -/
  | test
  /-- `epoll_wait` returns, with or without `wakeupChannel_` -/
  | poll (woken : Bool)
  | handleRead
  /-- the critical section of `doPendingFunctors` -/
  | swap
  /-- the next functor is called -/
  | run
  /-- `doPendingFunctors` returns -/
  | finish
  | queueInLoop (cb : F)
  | quit
  /-- another thread's `queueInLoop` up to the end of its critical section -/
  | push (t : T) (cb : F)
  /-- another thread's store of `quit_` -/
  | quitFrom (t : T)
  /-- another thread's `wakeup` -/
  | wakeup (t : T)
  deriving DecidableEq, Repr

variable [DecidableEq T]

def step (l : EventLoop T F) : Event T F → Option (EventLoop T F)
  | .loop =>
    match l.phase with
    | .outside => some { l with looping_ := true, quit_ := false, phase := .test }
    | _ => none
  | .test =>
    match l.phase with
    | .test =>
      if l.quit_ then some { l with looping_ := false, phase := .outside }
      else some { l with phase := .polling }
    | _ => none
  | .poll woken =>
    match l.phase with
    | .polling =>
      if woken → l.wakeupFd_ ≠ 0 then some { l with phase := .handling woken } else none
    | _ => none
  | .handleRead =>
    match l.phase with
    | .handling true => some { l.handleRead with phase := .handling false }
    | _ => none
  | .swap =>
    match l.phase with
    | .handling false =>
      some { l with pendingFunctors_ := [], phase := .running none l.pendingFunctors_ }
    | _ => none
  | .run =>
    match l.phase with
    | .running _ (f :: functions) => some { l with phase := .running (some f) functions }
    | _ => none
  | .finish =>
    match l.phase with
    | .running _ [] => some { l with callingPendingFunctors_ := false, phase := .test }
    | _ => none
  | .queueInLoop cb => if l.InUserCode then some (l.queueInLoop cb) else none
  | .quit => if l.InUserCode then some { l with quit_ := true } else none
  | .push t cb =>
    if l.callers t = .idle then
      some { l.pushBack cb with callers := Function.update l.callers t .pushed }
    else none
  | .quitFrom t =>
    if l.callers t = .idle then
      some { l with quit_ := true, callers := Function.update l.callers t .quitting }
    else none
  | .wakeup t =>
    if l.callers t ≠ .idle then
      some { l.wakeup with callers := Function.update l.callers t .idle }
    else none

variable {l l' : EventLoop T F}

/-! ## What each event does -/

theorem step_loop_iff : step l .loop = some l' ↔
    l.phase = .outside ∧ { l with looping_ := true, quit_ := false, phase := .test } = l' := by
  unfold step
  dsimp only
  split <;> simp_all

theorem step_test_iff : step l .test = some l' ↔ l.phase = .test ∧
    (if l.quit_ then { l with looping_ := false, phase := .outside }
      else { l with phase := .polling }) = l' := by
  unfold step
  dsimp only
  split
  · split_ifs <;> simp_all
  · simp_all

theorem step_poll_iff {woken : Bool} : step l (.poll woken) = some l' ↔
    l.phase = .polling ∧ (woken → l.wakeupFd_ ≠ 0) ∧ { l with phase := .handling woken } = l' := by
  unfold step
  dsimp only
  split
  · split_ifs <;> simp_all
  · simp_all

theorem step_handleRead_iff : step l .handleRead = some l' ↔
    l.phase = .handling true ∧ { l.handleRead with phase := .handling false } = l' := by
  unfold step
  dsimp only
  split <;> simp_all

theorem step_swap_iff : step l .swap = some l' ↔ l.phase = .handling false ∧
    { l with pendingFunctors_ := [], phase := .running none l.pendingFunctors_ } = l' := by
  unfold step
  dsimp only
  split <;> simp_all

theorem step_run_iff : step l .run = some l' ↔ ∃ current f functions,
    l.phase = .running current (f :: functions) ∧
      { l with phase := .running (some f) functions } = l' := by
  unfold step
  dsimp only
  split <;> simp_all

theorem step_finish_iff : step l .finish = some l' ↔ (∃ current, l.phase = .running current []) ∧
    { l with callingPendingFunctors_ := false, phase := .test } = l' := by
  unfold step
  dsimp only
  split <;> simp_all

theorem step_queueInLoop_iff {cb : F} : step l (.queueInLoop cb) = some l' ↔
    l.InUserCode ∧ l.queueInLoop cb = l' := by
  unfold step
  simp

theorem step_quit_iff : step l .quit = some l' ↔ l.InUserCode ∧ { l with quit_ := true } = l' := by
  unfold step
  simp

theorem step_push_iff {t : T} {cb : F} : step l (.push t cb) = some l' ↔ l.callers t = .idle ∧
    { l.pushBack cb with callers := Function.update l.callers t .pushed } = l' := by
  unfold step
  simp

theorem step_quitFrom_iff {t : T} : step l (.quitFrom t) = some l' ↔ l.callers t = .idle ∧
    { l with quit_ := true, callers := Function.update l.callers t .quitting } = l' := by
  unfold step
  simp

theorem step_wakeup_iff {t : T} : step l (.wakeup t) = some l' ↔ l.callers t ≠ .idle ∧
    { l.wakeup with callers := Function.update l.callers t .idle } = l' := by
  unfold step
  simp

/-! ## The functors still to be called -/

/-- Queued or taken out by the loop, and not yet called, in the order of their calls. -/
def uncalled (l : EventLoop T F) : List F :=
  match l.phase with
  | .running _ functions => functions ++ l.pendingFunctors_
  | _ => l.pendingFunctors_

/-- The functors that an event queues. -/
def Event.queued : Event T F → List F
  | .queueInLoop cb => [cb]
  | .push _ cb => [cb]
  | _ => []

omit [DecidableEq T] in
theorem uncalled_wakeup (l : EventLoop T F) : l.wakeup.uncalled = l.uncalled := by
  unfold wakeup
  split_ifs <;> rfl

omit [DecidableEq T] in
theorem uncalled_pushBack (l : EventLoop T F) (cb : F) :
    (l.pushBack cb).uncalled = l.uncalled ++ [cb] := by
  unfold uncalled
  cases hp : l.phase <;> simp [pushBack, hp]

/-- **Every event but a call** leaves the queue alone or puts a functor behind it. -/
theorem step_uncalled {e : Event T F} (h : step l e = some l') (he : e ≠ .run) :
    l'.uncalled = l.uncalled ++ e.queued := by
  cases e with
  | run => exact absurd rfl he
  | queueInLoop cb =>
    obtain ⟨-, rfl⟩ := step_queueInLoop_iff.mp h
    unfold queueInLoop
    split_ifs
    · rw [uncalled_wakeup, uncalled_pushBack, Event.queued]
    · rw [uncalled_pushBack, Event.queued]
  | push t cb =>
    obtain ⟨-, rfl⟩ := step_push_iff.mp h
    exact uncalled_pushBack l cb
  | wakeup t =>
    obtain ⟨-, rfl⟩ := step_wakeup_iff.mp h
    exact (uncalled_wakeup l).trans (List.append_nil _).symm
  | quit =>
    obtain ⟨-, rfl⟩ := step_quit_iff.mp h
    exact (List.append_nil _).symm
  | quitFrom t =>
    obtain ⟨-, rfl⟩ := step_quitFrom_iff.mp h
    exact (List.append_nil _).symm
  | loop =>
    obtain ⟨hp, rfl⟩ := step_loop_iff.mp h
    simp [uncalled, hp, Event.queued]
  | test =>
    obtain ⟨hp, rfl⟩ := step_test_iff.mp h
    split_ifs <;> simp [uncalled, hp, Event.queued]
  | poll woken =>
    obtain ⟨hp, -, rfl⟩ := step_poll_iff.mp h
    simp [uncalled, hp, Event.queued]
  | handleRead =>
    obtain ⟨hp, rfl⟩ := step_handleRead_iff.mp h
    simp [uncalled, hp, handleRead, Event.queued]
  | swap =>
    obtain ⟨hp, rfl⟩ := step_swap_iff.mp h
    simp [uncalled, hp, Event.queued]
  | finish =>
    obtain ⟨⟨current, hp⟩, rfl⟩ := step_finish_iff.mp h
    simp [uncalled, hp, Event.queued]

/-- **A call** takes the first functor. -/
theorem run_uncalled (h : step l .run = some l') :
    ∃ f functions, l'.phase = .running (some f) functions ∧ l.uncalled = f :: l'.uncalled := by
  obtain ⟨current, f, functions, hp, rfl⟩ := step_run_iff.mp h
  exact ⟨f, functions, rfl, by simp [uncalled, hp]⟩

end EventLoop

end HighServer
