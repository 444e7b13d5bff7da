import HighServer.Net.EventLoop
import HighServer.Net.TimerOwnership

/-!
# The result of `addTimer`

A thread other than the loop thread makes a `Timer`, hands it over with `runInLoop`, and then reads
its sequence number for the result. By then the timer belongs to the loop.

* `TimerQueue.condemned`: the timer that a step of the queue deletes; **`Owned.step_outcome`**: what
  a step makes of the timers;
* `TimerLoop`, `step`: the queue with the functors of the loop and the threads in `addTimer`;
* `Handed`: a timer is handed over once; `step_handed`;
* `SoundRead`: what is expected of the read; `Spares`: a step that deletes no timer whose `addTimer`
  is still to read it;
* **`timerId_sound_iff`**: the reads of a run are sound exactly when all its steps spare these
  timers.
-/

namespace HighServer

open Runs

namespace TimerQueue

/-! ## What a step makes of a timer -/

/-- Whether `reset` inserts a timer again. -/
def reinserts (q : TimerQueue) (timer : Addr) : Bool :=
  match q.heap timer with
  | some t => t.repeat_ && decide (toLex (timer, t.sequence_) ∉ q.cancelingTimers_)
  | none => false

/-- The timer that the next step deletes, if it deletes one. -/
def condemned (q : TimerQueue) : Event → Option Addr
  | .cancelInLoop timer => if timer ∈ q.activeTimers_ then some timer.timer else none
  | .reset _ =>
    match q.phase with
    | .resetting _ (e :: _) => if q.reinserts e.timer then none else some e.timer
    | _ => none
  | _ => none

variable {q q' : TimerQueue} {p : Addr} {t : Timer}

theorem reinserts_eq (ht : q.heap p = some t) : q.reinserts p = true ↔
    t.repeat_ = true ∧ toLex (p, t.sequence_) ∉ q.cancelingTimers_ := by
  rw [reinserts, ht, Bool.and_eq_true, decide_eq_true_iff]

/-- The timer at `p` is the one that was made as `t`: only the expiration may have changed. -/
def Holds (q : TimerQueue) (p : Addr) (t : Timer) : Prop :=
  ∃ u, q.heap p = some u ∧ u.id = t.id ∧ u.sequence_ = t.sequence_

/-- What the constructor of the next `Timer` makes. -/
def nextTimer (q : TimerQueue) (when_ : DateTime) (interval_ : ℤ) (repeat_ : Bool) : Timer where
  id := q.s_numCreated_
  expiration_ := when_
  interval_
  repeat_
  sequence_ := (q.s_numCreated_ : ℤ).bmod (2 ^ 64)

theorem heap_newTimer (q : TimerQueue) (p : Addr) (when_ : DateTime) (interval_ : ℤ)
    (repeat_ : Bool) : (q.newTimer p when_ interval_ repeat_).heap p =
      some (q.nextTimer when_ interval_ repeat_) :=
  Function.update_self _ _ _

/-- The list `unadded` after a step. -/
def Event.unadded (q : TimerQueue) : Event → List Addr
  | .newTimer p _ _ _ => p :: q.unadded
  | .addTimerInLoop timer _ => q.unadded.erase timer
  | _ => q.unadded

/-- What becomes of the timers in a step: one is deleted, if one is condemned, and the others stay
what they are. -/
structure Outcome (q : TimerQueue) (ev : Event) (q' : TimerQueue) : Prop where
  unadded : q'.unadded = ev.unadded q
  freed : ∀ p, q.condemned ev = some p → q'.heap p = none
  holds : ∀ p t, q.condemned ev ≠ some p → q.Holds p t → q'.Holds p t

variable {ev : Event}

theorem Outcome.of_heap (hunadded : q'.unadded = ev.unadded q) (hnone : q.condemned ev = none)
    (hheap : q'.heap = q.heap) : Outcome q ev q' where
  unadded := hunadded
  freed p hp := absurd (hnone.symm.trans hp) (Option.some_ne_none p).symm
  holds p t _ ht := by
    rw [Holds, hheap]
    exact ht

theorem Outcome.of_free (hunadded : q'.unadded = ev.unadded q) (hsome : q.condemned ev = some p)
    (hheap : q'.heap = Function.update q.heap p none) : Outcome q ev q' where
  unadded := hunadded
  freed r hr := by
    rw [hheap, ← Option.some.inj (hsome.symm.trans hr)]
    exact Function.update_self _ _ _
  holds r t hr ht := by
    have hne : r ≠ p := fun hrp => hr (hrp ▸ hsome)
    rw [Holds, hheap, Function.update_of_ne hne]
    exact ht

/-- An object is made, or replaced by one with the same number. -/
theorem Outcome.of_store {x : Timer} (hunadded : q'.unadded = ev.unadded q)
    (hnone : q.condemned ev = none) (hheap : q'.heap = Function.update q.heap p (some x))
    (hx : ∀ u, q.heap p = some u → x.id = u.id ∧ x.sequence_ = u.sequence_) : Outcome q ev q' where
  unadded := hunadded
  freed r hr := absurd (hnone.symm.trans hr) (Option.some_ne_none r).symm
  holds r t _ ht := by
    obtain ⟨u, hu, hid, hseq⟩ := ht
    rw [Holds, hheap]
    by_cases hr : r = p
    · subst hr
      obtain ⟨h1, h2⟩ := hx u hu
      exact ⟨x, Function.update_self _ _ _, h1.trans hid, h2.trans hseq⟩
    · rw [Function.update_of_ne hr]
      exact ⟨u, hu, hid, hseq⟩

theorem id_restart (t : Timer) (now : DateTime) : (t.restart now).id = t.id := by
  unfold Timer.restart
  split_ifs <;> rfl

theorem sequence_restart (t : Timer) (now : DateTime) :
    (t.restart now).sequence_ = t.sequence_ := by
  unfold Timer.restart
  split_ifs <;> rfl

theorem Owned.resetNext_outcome (h : q.Owned) {now : DateTime} {e : Entry} {expired : List Entry}
    (hp : q.phase = .resetting now (e :: expired)) (clock : DateTime)
    (hq : q.resetNext now e expired = .ok q') : Outcome q (.reset clock) q' := by
  have hbatch : e ∈ q.batch := by
    rw [batch, hp]
    exact List.mem_cons_self
  have hcondemned : q.condemned (.reset clock) =
      if q.reinserts e.timer then none else some e.timer := by
    rw [condemned, hp]
  obtain ⟨t, ht, -⟩ := h.expired e hbatch
  by_cases hr : q.reinserts e.timer = true
  · obtain ⟨heq, -⟩ := resetNext_repeat h.matched ht (h.not_timers_of_batch hbatch)
      ((reinserts_eq ht).mp hr) now expired
    obtain rfl := Except.ok.inj (heq.symm.trans hq)
    refine .of_store rfl (by rw [hcondemned, if_pos hr]) rfl fun u hu => ?_
    obtain rfl := Option.some.inj (ht.symm.trans hu)
    exact ⟨id_restart t now, sequence_restart t now⟩
  · have heq := resetNext_delete ht (fun hrep => hr ((reinserts_eq ht).mpr hrep)) now expired
    obtain rfl := Except.ok.inj (heq.symm.trans hq)
    exact .of_free rfl (by rw [hcondemned, if_neg hr]) rfl

/-- **A step of the queue.** -/
theorem Owned.step_outcome (h : q.Owned) (hs : step q ev = some q') : Outcome q ev q' := by
  obtain ⟨hen, hq⟩ := step_eq_some_iff.mp hs
  cases ev with
  | newTimer r when_ interval_ repeat_ =>
    obtain rfl := Except.ok.inj hq
    refine .of_store rfl rfl rfl fun u hu => ?_
    rw [hen.2] at hu
    cases hu
  | addTimerInLoop timer clock =>
    obtain ⟨t, ht⟩ := h.owns.live (mem_owners.mpr (Or.inl hen.2))
    obtain rfl := Except.ok.inj ((addTimerInLoop_spec h.matched ht clock).symm.trans hq)
    exact .of_heap rfl rfl rfl
  | cancelInLoop timer =>
    by_cases hm : timer ∈ q.activeTimers_
    · obtain ⟨t, -, -, heq, -⟩ := cancelInLoop_active h.matched hm
      obtain rfl := Except.ok.inj (heq.symm.trans hq)
      exact .of_free rfl (if_pos hm) rfl
    · obtain rfl := Except.ok.inj ((cancelInLoop_inactive h.matched hm).symm.trans hq)
      exact .of_heap rfl (if_neg hm) rfl
  | expire =>
    obtain rfl := Except.ok.inj hq
    exact .of_heap rfl rfl rfl
  | handleRead now =>
    obtain ⟨A, heq, -⟩ := handleRead_spec h.matched now
    obtain rfl := Except.ok.inj (heq.symm.trans hq)
    exact .of_heap rfl rfl rfl
  | run =>
    simp only [Event.perform] at hq
    split at hq
    · rename_i now expired called hp
      split at hq
      · rename_i e he
        have hbatch : e ∈ q.batch := by
          rw [batch, hp]
          exact List.mem_of_getElem? he
        obtain ⟨t, ht, -⟩ := h.expired e hbatch
        obtain rfl := Except.ok.inj ((run_spec ht rfl now expired called).symm.trans hq)
        exact .of_heap rfl rfl rfl
      · obtain rfl := Except.ok.inj hq
        exact .of_heap rfl rfl rfl
    · obtain rfl := Except.ok.inj hq
      exact .of_heap rfl rfl rfl
  | reset clock =>
    simp only [Event.perform] at hq
    split at hq
    · rename_i hp
      exact h.resetNext_outcome hp clock hq
    · rename_i now hp
      obtain rfl := Except.ok.inj ((resetEnd_spec h.matched clock).symm.trans hq)
      exact .of_heap rfl (by rw [condemned, hp]) rfl
    · rename_i hnext hend
      obtain rfl := Except.ok.inj hq
      refine .of_heap rfl ?_ rfl
      rw [condemned]
      split
      · exact absurd ‹_› (hnext _ _ _)
      · rfl

/-- The timer of an `addTimer` call whose `addTimerInLoop` has not run is not condemned. -/
theorem Owned.condemned_ne (h : q.Owned) (hp : p ∈ q.unadded) : q.condemned ev ≠ some p := by
  cases ev with
  | cancelInLoop timer =>
    rw [condemned]
    split_ifs with hm
    · obtain ⟨t, -, -, hT⟩ := h.matched.active timer hm
      intro heq
      exact h.not_timers_of_unadded hp _ hT (Option.some.inj heq)
    · exact (Option.some_ne_none p).symm
  | reset clock =>
    rw [condemned]
    split
    · rename_i now e expired hphase
      split_ifs
      · exact (Option.some_ne_none p).symm
      · intro heq
        have hbatch : e ∈ q.batch := by
          rw [batch, hphase]
          exact List.mem_cons_self
        refine List.disjoint_of_nodup_append h.owns.nodup hp (List.mem_append_right _ ?_)
        rw [← Option.some.inj heq]
        exact List.mem_map_of_mem hbatch
    · exact (Option.some_ne_none p).symm
  | _ => exact (Option.some_ne_none p).symm

end TimerQueue

/-! ## The loop and the threads in `addTimer` -/

/-- What `TimerQueue` puts into `pendingFunctors_`, and what others do. -/
inductive TimerFunctor where
  | addTimerInLoop (timer : Addr)
  | cancelInLoop (timerId : ActiveTimer)
  | user
  deriving DecidableEq

/-- The timer that is to be inserted. -/
def TimerFunctor.timer : TimerFunctor → Option Addr
  | .addTimerInLoop timer => some timer
  | _ => none

/-- Where a thread is in `addTimer`; `made` is the object that it has made. -/
inductive AddPhase where
  | outside
  /-- before `runInLoop` -/
  | created (timer : Addr) (made : Timer)
  /-- behind the critical section of `queueInLoop`, before `timer->sequence()` -/
  | queued (timer : Addr) (made : Timer)
  deriving DecidableEq

/-- The timer that a thread is going to read. -/
def AddPhase.reads : AddPhase → Option Addr
  | .queued timer _ => some timer
  | _ => none

theorem AddPhase.reads_eq_some_iff {x : AddPhase} {p : Addr} :
    x.reads = some p ↔ ∃ made, x = .queued p made := by
  cases x with
  | queued timer made =>
    rw [reads, Option.some_inj]
    exact ⟨fun h => ⟨made, by rw [h]⟩, fun ⟨_, h⟩ => (AddPhase.queued.inj h).1⟩
  | _ => exact ⟨fun h => (by cases h), fun ⟨_, h⟩ => (by cases h)⟩

structure TimerLoop (T : Type) where
  loop_ : EventLoop T TimerFunctor
  timerQueue_ : TimerQueue
  adding : T → AddPhase
  /-- the results of `addTimer` -/
  timerIds : List ActiveTimer

namespace TimerLoop

open TimerQueue (Holds)

variable {T : Type}

def new : TimerLoop T where
  loop_ := EventLoop.new
  timerQueue_ := TimerQueue.new
  adding _ := .outside
  timerIds := []

inductive Event (T : Type) where
  /-- `new Timer(cb, when, interval)` -/
  | newTimer (t : T) (p : Addr) (when_ : DateTime) (interval_ : ℤ) (repeat_ : Bool)
  /-- `runInLoop`, up to the end of the critical section of `queueInLoop` -/
  | runInLoop (t : T)
  /-- `TimerId(timer, timer->sequence())` -/
  | timerId (t : T)
  /-- a step of the loop other than the call of a functor, or of another thread in it -/
  | loop (e : EventLoop.Event T TimerFunctor)
  /-- `doPendingFunctors` calls the next functor -/
  | run (clock : DateTime)
  /-- the timerfd, or the loop thread in the handler of `timerfdChannel_` -/
  | timers (e : TimerQueue.Event)
  /-- `addTimer` in the loop thread -/
  | addTimer (p : Addr) (when_ : DateTime) (interval_ : ℤ) (repeat_ : Bool) (clock : DateTime)
  /-- `cancel` in the loop thread -/
  | cancel (timerId : ActiveTimer)
  deriving DecidableEq

/-- A step of the timerfd, or of the handler of `timerfdChannel_`. -/
def Handles (s : TimerLoop T) : TimerQueue.Event → Prop
  | .handleRead _ => s.loop_.phase = .handling true ∨ s.loop_.phase = .handling false
  | .expire | .run | .reset _ => True
  | _ => False

instance (s : TimerLoop T) (e : TimerQueue.Event) : Decidable (s.Handles e) :=
  match e with
  | .handleRead _ => inferInstanceAs (Decidable (_ ∨ _))
  | .expire | .run | .reset _ => isTrue trivial
  | .newTimer _ _ _ _ | .addTimerInLoop _ _ | .cancelInLoop _ => isFalse id

/-- Nothing else runs in the loop thread until that handler has returned, but for the callbacks. A
thread that is in `addTimer` does nothing else but the `wakeup` of its own `queueInLoop`. -/
def Free (s : TimerLoop T) : EventLoop.Event T TimerFunctor → Prop
  | .run => False
  | .wakeup _ => True
  | .push t cb => s.adding t = .outside ∧ cb.timer = none
  | .quitFrom t => s.adding t = .outside
  | .queueInLoop cb => s.timerQueue_.InUserCode ∧ cb.timer = none
  | .quit => s.timerQueue_.InUserCode
  | _ => s.timerQueue_.phase = .idle

instance (s : TimerLoop T) (e : EventLoop.Event T TimerFunctor) : Decidable (s.Free e) :=
  match e with
  | .run => isFalse id
  | .wakeup _ => isTrue trivial
  | .push _ _ => inferInstanceAs (Decidable (_ ∧ _))
  | .quitFrom _ => inferInstanceAs (Decidable (_ = _))
  | .queueInLoop _ => inferInstanceAs (Decidable (_ ∧ _))
  | .quit => inferInstanceAs (Decidable (TimerQueue.InUserCode _))
  | .loop | .test | .poll _ | .handleRead | .swap | .finish =>
    inferInstanceAs (Decidable (_ = TimerPhase.idle))

variable [DecidableEq T]

/-- `new Timer(cb, when, interval)` -/
def newTimer (s : TimerLoop T) (t : T) (p : Addr) (when_ : DateTime) (interval_ : ℤ)
    (repeat_ : Bool) : TimerLoop T :=
  { s with
    timerQueue_ := s.timerQueue_.newTimer p when_ interval_ repeat_
    adding := Function.update s.adding t
      (.created p (s.timerQueue_.nextTimer when_ interval_ repeat_)) }

/-- `return TimerId(timer, timer->sequence())` -/
def timerId (s : TimerLoop T) (t : T) : Except TimerFault (TimerLoop T) :=
  match s.adding t with
  | .queued timer _ => do
    let u ← s.timerQueue_.deref timer
    pure { s with
      adding := Function.update s.adding t .outside
      timerIds := s.timerIds ++ [toLex (timer, u.sequence_)] }
  | _ => .ok s

/-- A functor is called. -/
def TimerFunctor.perform (q : TimerQueue) (clock : DateTime) :
    TimerFunctor → Except TimerFault TimerQueue
  | .addTimerInLoop timer => q.addTimerInLoop timer clock
  | .cancelInLoop timerId => q.cancelInLoop timerId
  | .user => .ok q

/-- `addTimer` in the loop thread, where `runInLoop` calls `addTimerInLoop` itself. -/
def addTimer (s : TimerLoop T) (p : Addr) (when_ : DateTime) (interval_ : ℤ) (repeat_ : Bool)
    (clock : DateTime) : Except TimerFault (TimerLoop T) := do
  let q ← (s.timerQueue_.newTimer p when_ interval_ repeat_).addTimerInLoop p clock
  let u ← q.deref p
  pure { s with timerQueue_ := q, timerIds := s.timerIds ++ [toLex (p, u.sequence_)] }

def step (s : TimerLoop T) : Event T → Option (TimerLoop T)
  | .newTimer t p when_ interval_ repeat_ =>
    if s.adding t = .outside ∧ s.loop_.callers t = .idle ∧
        (TimerQueue.Event.newTimer p when_ interval_ repeat_).Enabled s.timerQueue_ then
      some (s.newTimer t p when_ interval_ repeat_)
    else none
  | .runInLoop t =>
    match s.adding t with
    | .created timer made =>
      (EventLoop.step s.loop_ (.push t (.addTimerInLoop timer))).map fun loop_ =>
        { s with loop_, adding := Function.update s.adding t (.queued timer made) }
    | _ => none
  | .timerId t =>
    if (s.adding t).reads.isSome ∧ s.loop_.callers t = .idle then (s.timerId t).toOption else none
  | .loop e =>
    if s.Free e then (EventLoop.step s.loop_ e).map fun loop_ => { s with loop_ } else none
  | .run clock =>
    match s.loop_.phase with
    | .running _ (f :: _) =>
      if s.timerQueue_.phase = .idle then do
        let loop_ ← EventLoop.step s.loop_ .run
        let timerQueue_ ← (TimerFunctor.perform s.timerQueue_ clock f).toOption
        pure { s with loop_, timerQueue_ }
      else none
    | _ => none
  | .timers e =>
    if s.Handles e then
      (TimerQueue.step s.timerQueue_ e).map fun timerQueue_ => { s with timerQueue_ }
    else none
  | .addTimer p when_ interval_ repeat_ clock =>
    if s.loop_.InUserCode ∧ s.timerQueue_.InUserCode ∧
        (TimerQueue.Event.newTimer p when_ interval_ repeat_).Enabled s.timerQueue_ then
      (s.addTimer p when_ interval_ repeat_ clock).toOption
    else none
  | .cancel timerId =>
    if s.loop_.InUserCode then
      (TimerQueue.step s.timerQueue_ (.cancelInLoop timerId)).map fun timerQueue_ =>
        { s with timerQueue_ }
    else none

/-! ## Sound reads -/

/-- What is expected when a thread reads `timer->sequence()`: the timer it has made is still there,
and the result carries its sequence number. -/
def SoundRead (s : TimerLoop T) (t : T) : Prop :=
  ∀ timer made, s.adding t = .queued timer made →
    (∃ u, s.timerQueue_.heap timer = some u ∧ u.id = made.id) ∧
    (s.timerId t).map TimerLoop.timerIds = .ok (s.timerIds ++ [toLex (timer, made.sequence_)])

/-- The timer that a step deletes, if it deletes one. -/
def condemned (s : TimerLoop T) : Event T → Option Addr
  | .run _ =>
    match s.loop_.phase with
    | .running _ (.cancelInLoop timerId :: _) => s.timerQueue_.condemned (.cancelInLoop timerId)
    | _ => none
  | .timers e => s.timerQueue_.condemned e
  | .cancel timerId => s.timerQueue_.condemned (.cancelInLoop timerId)
  | _ => none

/-- The step does not delete a timer whose `addTimer` is still to read it. -/
def Spares (s : TimerLoop T) (e : Event T) : Prop :=
  ∀ p ∈ s.condemned e, ∀ t, (s.adding t).reads ≠ some p

variable {s s' : TimerLoop T} {e : Event T}

/-! ## What each event does -/

theorem step_newTimer_iff {t : T} {p : Addr} {when_ : DateTime} {interval_ : ℤ} {repeat_ : Bool} :
    step s (.newTimer t p when_ interval_ repeat_) = some s' ↔ (s.adding t = .outside ∧
      s.loop_.callers t = .idle ∧
      (TimerQueue.Event.newTimer p when_ interval_ repeat_).Enabled s.timerQueue_) ∧
      s.newTimer t p when_ interval_ repeat_ = s' := by
  rw [step, Option.ite_none_right_eq_some, Option.some_inj]

theorem step_runInLoop_iff {t : T} : step s (.runInLoop t) = some s' ↔
    ∃ timer made, s.adding t = .created timer made ∧ ∃ loop_,
      EventLoop.step s.loop_ (.push t (.addTimerInLoop timer)) = some loop_ ∧
      { s with loop_, adding := Function.update s.adding t (.queued timer made) } = s' := by
  simp only [step]
  split <;> simp_all

theorem step_loop_iff {e : EventLoop.Event T TimerFunctor} : step s (.loop e) = some s' ↔
    s.Free e ∧ ∃ loop_, EventLoop.step s.loop_ e = some loop_ ∧ { s with loop_ } = s' := by
  rw [step, Option.ite_none_right_eq_some, Option.map_eq_some_iff]

theorem step_run_iff {clock : DateTime} : step s (.run clock) = some s' ↔
    ∃ current f functions, s.loop_.phase = .running current (f :: functions) ∧
      s.timerQueue_.phase = .idle ∧ ∃ loop_, EventLoop.step s.loop_ .run = some loop_ ∧
      ∃ timerQueue_, TimerFunctor.perform s.timerQueue_ clock f = .ok timerQueue_ ∧
      { s with loop_, timerQueue_ } = s' := by
  simp only [step]
  split
  · split_ifs <;> simp_all [Option.bind_eq_some_iff, toOption_eq_some_iff]
  · simp_all

theorem step_timers_iff {e : TimerQueue.Event} : step s (.timers e) = some s' ↔
    s.Handles e ∧ ∃ timerQueue_, TimerQueue.step s.timerQueue_ e = some timerQueue_ ∧
      { s with timerQueue_ } = s' := by
  rw [step, Option.ite_none_right_eq_some, Option.map_eq_some_iff]

theorem step_cancel_iff {timerId : ActiveTimer} : step s (.cancel timerId) = some s' ↔
    s.loop_.InUserCode ∧ ∃ timerQueue_,
      TimerQueue.step s.timerQueue_ (.cancelInLoop timerId) = some timerQueue_ ∧
      { s with timerQueue_ } = s' := by
  rw [step, Option.ite_none_right_eq_some, Option.map_eq_some_iff]

/-- The sequence number is read, and nothing else is done. -/
theorem step_timerId {t : T} (h : step s (.timerId t) = some s') :
    ∃ timer made, s.adding t = .queued timer made ∧ ∃ u, s.timerQueue_.heap timer = some u ∧
      { s with
        adding := Function.update s.adding t .outside
        timerIds := s.timerIds ++ [toLex (timer, u.sequence_)] } = s' := by
  rw [step, Option.ite_none_right_eq_some, toOption_eq_some_iff, timerId] at h
  obtain ⟨⟨hreads, -⟩, h⟩ := h
  obtain ⟨timer, htimer⟩ := Option.isSome_iff_exists.mp hreads
  obtain ⟨made, hadding⟩ := AddPhase.reads_eq_some_iff.mp htimer
  rw [hadding] at h
  obtain ⟨u, hu, h⟩ := except_bind_eq_ok_iff.mp h
  rw [TimerQueue.deref] at hu
  split at hu
  · rename_i v hv
    obtain rfl := Except.ok.inj hu
    exact ⟨timer, made, hadding, v, hv, Except.ok.inj h⟩
  · cases hu

/-- `addTimer` in the loop thread is two steps of the queue. -/
theorem step_addTimer {p : Addr} {when_ : DateTime} {interval_ : ℤ} {repeat_ : Bool}
    {clock : DateTime} (h : step s (.addTimer p when_ interval_ repeat_ clock) = some s') :
    TimerQueue.step s.timerQueue_ (.newTimer p when_ interval_ repeat_) =
      some (s.timerQueue_.newTimer p when_ interval_ repeat_) ∧
    TimerQueue.step (s.timerQueue_.newTimer p when_ interval_ repeat_)
      (.addTimerInLoop p clock) = some s'.timerQueue_ ∧
    s'.loop_ = s.loop_ ∧ s'.adding = s.adding := by
  rw [step, Option.ite_none_right_eq_some, toOption_eq_some_iff, addTimer] at h
  obtain ⟨⟨-, huser, hen⟩, h⟩ := h
  obtain ⟨q, hq, h⟩ := except_bind_eq_ok_iff.mp h
  obtain ⟨u, -, h⟩ := except_bind_eq_ok_iff.mp h
  obtain rfl := Except.ok.inj h
  refine ⟨TimerQueue.step_eq_some_iff.mpr ⟨hen, rfl⟩,
    TimerQueue.step_eq_some_iff.mpr ⟨⟨huser, List.mem_cons_self⟩, hq⟩, rfl, rfl⟩

/-! ## The timers between `new Timer` and `addTimerInLoop` -/

/-- The timers of the functors that are still to be called. -/
def unrun (s : TimerLoop T) : List Addr := s.loop_.uncalled.filterMap TimerFunctor.timer

/-- A timer is handed over once: it is with the thread that has made it, then with one functor, and
then in the queue. -/
structure Handed (s : TimerLoop T) : Prop where
  owned : s.timerQueue_.Owned
  nodup : s.unrun.Nodup
  unrun : ∀ p ∈ s.unrun, p ∈ s.timerQueue_.unadded
  created : ∀ t p made, s.adding t = .created p made →
    p ∈ s.timerQueue_.unadded ∧ p ∉ s.unrun ∧ s.timerQueue_.Holds p made
  alone : ∀ t u p made made', s.adding t = .created p made → s.adding u = .created p made' → t = u

omit [DecidableEq T] in
theorem handed_new : (new : TimerLoop T).Handed where
  owned := TimerQueue.owned_new
  nodup := List.nodup_nil
  unrun p hp := absurd hp List.not_mem_nil
  created t p made h := by cases h
  alone t u p made made' h := by cases h

theorem inUserCode_of_idle {q : TimerQueue} (h : q.phase = .idle) : q.InUserCode := by
  rw [TimerQueue.InUserCode, h]
  trivial

theorem unrun_eq_of_step {e : EventLoop.Event T TimerFunctor} {l : EventLoop T TimerFunctor}
    (h : EventLoop.step s.loop_ e = some l) (he : e ≠ .run) :
    l.uncalled.filterMap TimerFunctor.timer =
      s.unrun ++ e.queued.filterMap TimerFunctor.timer := by
  rw [EventLoop.step_uncalled h he, List.filterMap_append, unrun]

omit [DecidableEq T] in
/-- The functors that a step of the loop queues insert no timer. -/
theorem Free.queued {e : EventLoop.Event T TimerFunctor} (h : s.Free e) :
    e.queued.filterMap TimerFunctor.timer = [] := by
  cases e with
  | queueInLoop cb =>
    rw [EventLoop.Event.queued, List.filterMap_cons_none h.2, List.filterMap_nil]
  | push t cb =>
    rw [EventLoop.Event.queued, List.filterMap_cons_none h.2, List.filterMap_nil]
  | _ => rfl

omit [DecidableEq T] in
/-- A step that leaves the queue as it is. -/
theorem Handed.of_eq (h : s.Handed) (hq : s'.timerQueue_ = s.timerQueue_)
    (hunrun : s'.unrun = s.unrun)
    (hadding : ∀ t p made, s'.adding t = .created p made → s.adding t = .created p made) :
    s'.Handed := by
  refine ⟨hq ▸ h.owned, hunrun ▸ h.nodup, ?_, ?_, ?_⟩
  · rw [hunrun, hq]
    exact h.unrun
  · intro t p made hc
    rw [hunrun, hq]
    exact h.created t p made (hadding t p made hc)
  · intro t u p made made' ht hu
    exact h.alone t u p made made' (hadding t p made ht) (hadding u p made' hu)

omit [DecidableEq T] in
/-- A step of the queue, by itself. -/
theorem Handed.of_outcome {ev : TimerQueue.Event} (h : s.Handed)
    (hq : TimerQueue.step s.timerQueue_ ev = some s'.timerQueue_)
    (hunadded : ev.unadded s.timerQueue_ = s.timerQueue_.unadded) (hunrun : s'.unrun = s.unrun)
    (hadding : s'.adding = s.adding) : s'.Handed := by
  have hout := h.owned.step_outcome hq
  have hsame : s'.timerQueue_.unadded = s.timerQueue_.unadded := hout.unadded.trans hunadded
  refine ⟨TimerQueue.step_owned h.owned hq, hunrun ▸ h.nodup, ?_, ?_, hadding ▸ h.alone⟩
  · rw [hunrun, hsame]
    exact h.unrun
  · intro t p made hc
    rw [hadding] at hc
    obtain ⟨hp, hnot, hholds⟩ := h.created t p made hc
    rw [hunrun, hsame]
    exact ⟨hp, hnot, hout.holds p made (h.owned.condemned_ne hp) hholds⟩

omit [DecidableEq T] in
theorem Handed.not_unadded (h : s.Handed) {p : Addr} (hp : s.timerQueue_.heap p = none) :
    p ∉ s.timerQueue_.unadded := by
  intro hmem
  obtain ⟨u, hu⟩ := h.owned.owns.live (TimerQueue.mem_owners.mpr (Or.inl hmem))
  rw [hp] at hu
  cases hu

omit [DecidableEq T] in
/-- A timer is made, in the thread `t` or, where there is none, in the loop thread. -/
theorem Handed.of_newTimer (h : s.Handed) (t : Option T) {p : Addr} {when_ : DateTime}
    {interval_ : ℤ} {repeat_ : Bool}
    (hen : (TimerQueue.Event.newTimer p when_ interval_ repeat_).Enabled s.timerQueue_)
    (hq : s'.timerQueue_ = s.timerQueue_.newTimer p when_ interval_ repeat_)
    (hunrun : s'.unrun = s.unrun)
    (hadding : ∀ u r made, s'.adding u = .created r made → s.adding u = .created r made ∨
      some u = t ∧ r = p ∧ made = s.timerQueue_.nextTimer when_ interval_ repeat_) :
    s'.Handed := by
  have hout := h.owned.step_outcome (TimerQueue.step_eq_some_iff.mpr ⟨hen, rfl⟩)
  have hnew := h.not_unadded hen.2
  refine ⟨?_, hunrun ▸ h.nodup, ?_, ?_, ?_⟩
  · rw [hq]
    exact h.owned.newTimer hen.2 when_ interval_ repeat_
  · intro r hr
    rw [hq]
    exact List.mem_cons_of_mem p (h.unrun r (hunrun ▸ hr))
  · intro u r made hc
    rw [hunrun, hq]
    rcases hadding u r made hc with hc | ⟨-, rfl, rfl⟩
    · obtain ⟨hr, hnot, hholds⟩ := h.created u r made hc
      exact ⟨List.mem_cons_of_mem p hr, hnot,
        hout.holds r made (h.owned.condemned_ne hr) hholds⟩
    · exact ⟨List.mem_cons_self, fun hr => hnew (h.unrun _ hr), _,
        TimerQueue.heap_newTimer _ _ _ _ _, rfl, rfl⟩
  · intro u v r made made' hu hv
    rcases hadding u r made hu with hu | ⟨hut, hrp, -⟩
    · rcases hadding v r made' hv with hv | ⟨-, hrp, -⟩
      · exact h.alone u v r made made' hu hv
      · exact absurd (hrp ▸ (h.created u r made hu).1) hnew
    · rcases hadding v r made' hv with hv | ⟨hvt, -, -⟩
      · exact absurd (hrp ▸ (h.created v r made' hv).1) hnew
      · exact Option.some.inj (hut.trans hvt.symm)

omit [DecidableEq T] in
/-- `addTimerInLoop` is called. -/
theorem Handed.of_addTimerInLoop (h : s.Handed) {clock : DateTime} {timer : Addr}
    (hq : TimerQueue.step s.timerQueue_ (.addTimerInLoop timer clock) = some s'.timerQueue_)
    (hunrun : s'.unrun.Sublist s.unrun) (hnot : timer ∉ s'.unrun)
    (hother : ∀ t made, s.adding t ≠ .created timer made) (hadding : s'.adding = s.adding) :
    s'.Handed := by
  have hout := h.owned.step_outcome hq
  have hunadded : s'.timerQueue_.unadded = s.timerQueue_.unadded.erase timer := hout.unadded
  refine ⟨TimerQueue.step_owned h.owned hq, hunrun.nodup h.nodup, ?_, ?_, hadding ▸ h.alone⟩
  · intro r hr
    have hne : r ≠ timer := fun heq => hnot (heq ▸ hr)
    rw [hunadded]
    exact (List.mem_erase_of_ne hne).mpr (h.unrun r (hunrun.subset hr))
  · intro t r made hc
    rw [hadding] at hc
    obtain ⟨hr, hrnot, hholds⟩ := h.created t r made hc
    have hne : r ≠ timer := fun heq => hother t made (heq ▸ hc)
    rw [hunadded]
    exact ⟨(List.mem_erase_of_ne hne).mpr hr, fun hmem => hrnot (hunrun.subset hmem),
      hout.holds r made (h.owned.condemned_ne hr) hholds⟩

/-- A thread goes on to another phase. -/
theorem update_eq {f : T → AddPhase} {t u : T} {x y : AddPhase}
    (h : Function.update f t x u = y) : u = t ∧ x = y ∨ u ≠ t ∧ f u = y := by
  by_cases hut : u = t
  · rw [hut, Function.update_self] at h
    exact Or.inl ⟨hut, h⟩
  · rw [Function.update_of_ne hut] at h
    exact Or.inr ⟨hut, h⟩

theorem Handed.newTimer (h : s.Handed) {t : T} {p : Addr} {when_ : DateTime} {interval_ : ℤ}
    {repeat_ : Bool}
    (hen : (TimerQueue.Event.newTimer p when_ interval_ repeat_).Enabled s.timerQueue_) :
    (s.newTimer t p when_ interval_ repeat_).Handed := by
  refine h.of_newTimer (some t) hen rfl rfl fun u r made hc => ?_
  rcases update_eq hc with ⟨hut, hx⟩ | ⟨-, hc⟩
  · cases hx
    exact Or.inr ⟨congrArg some hut, rfl, rfl⟩
  · exact Or.inl hc

/-- The functor is queued. -/
theorem Handed.runInLoop (h : s.Handed) {t : T} {timer : Addr} {made : Timer}
    {loop_ : EventLoop T TimerFunctor} (hcreated : s.adding t = .created timer made)
    (hloop : EventLoop.step s.loop_ (.push t (.addTimerInLoop timer)) = some loop_)
    (hs : { s with loop_, adding := Function.update s.adding t (.queued timer made) } = s') :
    s'.Handed := by
  obtain ⟨hmem, hnot, hholds⟩ := h.created t timer made hcreated
  have hunrun : s'.unrun = s.unrun ++ [timer] := by
    rw [← hs]
    exact unrun_eq_of_step hloop (by rintro ⟨⟩)
  have hother : ∀ u r made', s'.adding u = .created r made' →
      u ≠ t ∧ s.adding u = .created r made' := by
    rw [← hs]
    intro u r made' hc
    rcases update_eq hc with ⟨-, hx⟩ | hc
    · cases hx
    · exact hc
  have hq : s'.timerQueue_ = s.timerQueue_ := by rw [← hs]
  refine ⟨hq ▸ h.owned, ?_, ?_, ?_, ?_⟩
  · rw [hunrun]
    exact List.nodup_append.mpr ⟨h.nodup, List.nodup_singleton timer, fun a ha b hb hab =>
      hnot (List.mem_singleton.mp hb ▸ hab ▸ ha)⟩
  · intro r hr
    rw [hq]
    rw [hunrun] at hr
    rcases List.mem_append.mp hr with hr | hr
    · exact h.unrun r hr
    · rw [List.mem_singleton.mp hr]
      exact hmem
  · intro u r made' hc
    obtain ⟨hut, hc⟩ := hother u r made' hc
    obtain ⟨hr, hrnot, hrholds⟩ := h.created u r made' hc
    rw [hunrun, hq, List.mem_append, List.mem_singleton]
    refine ⟨hr, ?_, hrholds⟩
    rintro (hmem | rfl)
    · exact hrnot hmem
    · exact hut (h.alone u t r made' made hc hcreated)
  · intro u v r made₁ made₂ hu hv
    exact h.alone u v r made₁ made₂ (hother u r made₁ hu).2 (hother v r made₂ hv).2

/-- What a functor does to the queue: a step of it, or nothing. -/
def TimerFunctor.Steps (s s' : TimerLoop T) (clock : DateTime) : TimerFunctor → Prop
  | .addTimerInLoop timer =>
    TimerQueue.step s.timerQueue_ (.addTimerInLoop timer clock) = some s'.timerQueue_ ∧
      s.condemned (.run clock) = s.timerQueue_.condemned (.addTimerInLoop timer clock)
  | .cancelInLoop timerId =>
    TimerQueue.step s.timerQueue_ (.cancelInLoop timerId) = some s'.timerQueue_ ∧
      s.condemned (.run clock) = s.timerQueue_.condemned (.cancelInLoop timerId)
  | .user => s'.timerQueue_ = s.timerQueue_ ∧ s.condemned (.run clock) = none

/-- The functor that is called next. -/
theorem Handed.functor (h : s.Handed) {clock : DateTime} (hs : step s (.run clock) = some s') :
    ∃ f : TimerFunctor, s.unrun = f.timer.toList ++ s'.unrun ∧ s'.adding = s.adding ∧
      TimerFunctor.Steps s s' clock f := by
  obtain ⟨current, f, functions, hphase, hidle, loop_, hloop, q, hq, rfl⟩ := step_run_iff.mp hs
  obtain ⟨current', g, functions', hphase', rfl⟩ := EventLoop.step_run_iff.mp hloop
  rw [hphase] at hphase'
  cases hphase'
  have huser := inUserCode_of_idle hidle
  have hunrun : s.unrun = f.timer.toList ++
      (functions ++ s.loop_.pendingFunctors_).filterMap TimerFunctor.timer := by
    simp only [TimerLoop.unrun, EventLoop.uncalled, hphase, List.cons_append]
    cases f <;> rfl
  refine ⟨f, hunrun, rfl, ?_⟩
  cases f with
  | addTimerInLoop timer =>
    have hmem : timer ∈ s.timerQueue_.unadded := h.unrun timer (by
      rw [hunrun]
      exact List.mem_cons_self)
    refine ⟨TimerQueue.step_eq_some_iff.mpr ⟨⟨huser, hmem⟩, hq⟩, ?_⟩
    rw [condemned, hphase]
    rfl
  | cancelInLoop timerId =>
    refine ⟨TimerQueue.step_eq_some_iff.mpr ⟨huser, hq⟩, ?_⟩
    rw [condemned, hphase]
  | user =>
    refine ⟨(Except.ok.inj hq).symm, ?_⟩
    rw [condemned, hphase]

theorem Handed.run (h : s.Handed) {clock : DateTime} (hs : step s (.run clock) = some s') :
    s'.Handed := by
  obtain ⟨f, hunrun, hadding, hf⟩ := h.functor hs
  cases f with
  | addTimerInLoop timer =>
    have hmem : timer ∈ s.unrun := by
      rw [hunrun]
      exact List.mem_cons_self
    have hnodup := h.nodup
    rw [hunrun] at hnodup
    refine h.of_addTimerInLoop hf.1 ?_ (List.nodup_cons.mp hnodup).1 (fun t made hc => ?_) hadding
    · rw [hunrun]
      exact List.sublist_cons_self timer _
    · exact (h.created t timer made hc).2.1 hmem
  | cancelInLoop timerId => exact h.of_outcome hf.1 rfl hunrun.symm hadding
  | user =>
    refine h.of_eq hf.1 hunrun.symm fun t p made hc => ?_
    rwa [hadding] at hc

/-- **One step** hands no timer over twice. -/
theorem step_handed (h : s.Handed) (hs : step s e = some s') : s'.Handed := by
  cases e with
  | newTimer t p when_ interval_ repeat_ =>
    obtain ⟨⟨-, -, hen⟩, rfl⟩ := step_newTimer_iff.mp hs
    exact h.newTimer hen
  | runInLoop t =>
    obtain ⟨timer, made, hcreated, loop_, hloop, hs'⟩ := step_runInLoop_iff.mp hs
    exact h.runInLoop hcreated hloop hs'
  | timerId t =>
    obtain ⟨timer, made, -, u, -, rfl⟩ := step_timerId hs
    refine h.of_eq rfl rfl fun v p made' hc => ?_
    rcases update_eq hc with ⟨-, hx⟩ | ⟨-, hc⟩
    · cases hx
    · exact hc
  | loop e =>
    obtain ⟨hfree, loop_, hloop, rfl⟩ := step_loop_iff.mp hs
    refine h.of_eq rfl ?_ fun t p made hc => hc
    refine (unrun_eq_of_step hloop (by rintro rfl; exact hfree)).trans ?_
    rw [hfree.queued, List.append_nil]
  | run clock => exact h.run hs
  | timers ev =>
    obtain ⟨hhandles, q, hq, rfl⟩ := step_timers_iff.mp hs
    refine h.of_outcome hq ?_ rfl rfl
    cases ev with
    | newTimer _ _ _ _ => exact absurd hhandles id
    | addTimerInLoop _ _ => exact absurd hhandles id
    | _ => rfl
  | addTimer p when_ interval_ repeat_ clock =>
    obtain ⟨hnew, hadd, hloop, hadding⟩ := step_addTimer hs
    have hen := (TimerQueue.step_eq_some_iff.mp hnew).1
    have hunrun : s'.unrun = s.unrun := by rw [unrun, unrun, hloop]
    have hnot := h.not_unadded hen.2
    have hmade : Handed { s with
        timerQueue_ := s.timerQueue_.newTimer p when_ interval_ repeat_ } :=
      h.of_newTimer none hen rfl rfl fun u r made hc => Or.inl hc
    refine hmade.of_addTimerInLoop hadd ?_ (fun hp => ?_) (fun t made hc => ?_) hadding
    · rw [hunrun]
      exact List.Sublist.refl _
    · rw [hunrun] at hp
      exact hnot (h.unrun p hp)
    · exact hnot (h.created t p made hc).1
  | cancel timerId =>
    obtain ⟨-, q, hq, rfl⟩ := step_cancel_iff.mp hs
    exact h.of_outcome hq rfl rfl rfl

/-! ## The timers behind `runInLoop` -/

/-- What a step makes of the timers. -/
structure Outcome (s : TimerLoop T) (e : Event T) (s' : TimerLoop T) : Prop where
  freed : ∀ p, s.condemned e = some p → s'.timerQueue_.heap p = none
  holds : ∀ p made, s.condemned e ≠ some p → s.timerQueue_.Holds p made →
    s'.timerQueue_.Holds p made

omit [DecidableEq T] in
theorem Outcome.of_eq (hnone : s.condemned e = none) (hq : s'.timerQueue_ = s.timerQueue_) :
    Outcome s e s' where
  freed p hp := absurd (hnone.symm.trans hp) (Option.some_ne_none p).symm
  holds _ _ _ hp := hq ▸ hp

omit [DecidableEq T] in
theorem Outcome.of_queue {ev : TimerQueue.Event} (h : s.Handed)
    (hcondemned : s.condemned e = s.timerQueue_.condemned ev)
    (hq : TimerQueue.step s.timerQueue_ ev = some s'.timerQueue_) : Outcome s e s' where
  freed p hp := (h.owned.step_outcome hq).freed p (hcondemned ▸ hp)
  holds _ _ hp := (h.owned.step_outcome hq).holds _ _ (hcondemned ▸ hp)

theorem step_outcome (h : s.Handed) (hs : step s e = some s') : Outcome s e s' := by
  cases e with
  | newTimer t p when_ interval_ repeat_ =>
    obtain ⟨⟨-, -, hen⟩, rfl⟩ := step_newTimer_iff.mp hs
    exact .of_queue h rfl (TimerQueue.step_eq_some_iff.mpr ⟨hen, rfl⟩)
  | runInLoop t =>
    obtain ⟨timer, made, -, loop_, -, rfl⟩ := step_runInLoop_iff.mp hs
    exact .of_eq rfl rfl
  | timerId t =>
    obtain ⟨timer, made, -, u, -, rfl⟩ := step_timerId hs
    exact .of_eq rfl rfl
  | loop e =>
    obtain ⟨-, loop_, -, rfl⟩ := step_loop_iff.mp hs
    exact .of_eq rfl rfl
  | run clock =>
    obtain ⟨f, -, -, hf⟩ := h.functor hs
    cases f with
    | addTimerInLoop timer => exact .of_queue h hf.2 hf.1
    | cancelInLoop timerId => exact .of_queue h hf.2 hf.1
    | user => exact .of_eq hf.2 hf.1
  | timers ev =>
    obtain ⟨-, q, hq, rfl⟩ := step_timers_iff.mp hs
    exact .of_queue h rfl hq
  | addTimer p when_ interval_ repeat_ clock =>
    obtain ⟨hnew, hadd, -, -⟩ := step_addTimer hs
    have hout := h.owned.step_outcome hnew
    have hout' := (TimerQueue.step_owned h.owned hnew).step_outcome hadd
    refine ⟨fun r hr => absurd hr (Option.some_ne_none r).symm, fun r made _ hr => ?_⟩
    exact hout'.holds r made (Option.some_ne_none r).symm
      (hout.holds r made (Option.some_ne_none r).symm hr)
  | cancel timerId =>
    obtain ⟨-, q, hq, rfl⟩ := step_cancel_iff.mp hs
    exact .of_queue h rfl hq

/-- A thread comes behind `runInLoop` by its own step, which deletes nothing. -/
theorem step_queued (hs : step s e = some s') {t : T} {timer : Addr} {made : Timer}
    (h : s'.adding t = .queued timer made) : s.adding t = .queued timer made ∨
      s.adding t = .created timer made ∧ s.condemned e = none := by
  cases e with
  | newTimer u p when_ interval_ repeat_ =>
    obtain ⟨-, rfl⟩ := step_newTimer_iff.mp hs
    rcases update_eq h with ⟨-, hx⟩ | ⟨-, hq⟩
    · cases hx
    · exact Or.inl hq
  | runInLoop u =>
    obtain ⟨timer', made', hcreated, loop_, -, rfl⟩ := step_runInLoop_iff.mp hs
    rcases update_eq h with ⟨rfl, hx⟩ | ⟨-, hq⟩
    · cases hx
      exact Or.inr ⟨hcreated, rfl⟩
    · exact Or.inl hq
  | timerId u =>
    obtain ⟨timer', made', -, v, -, rfl⟩ := step_timerId hs
    rcases update_eq h with ⟨-, hx⟩ | ⟨-, hq⟩
    · cases hx
    · exact Or.inl hq
  | loop e =>
    obtain ⟨-, loop_, -, rfl⟩ := step_loop_iff.mp hs
    exact Or.inl h
  | run clock =>
    obtain ⟨current, f, functions, -, -, loop_, -, q, -, rfl⟩ := step_run_iff.mp hs
    exact Or.inl h
  | timers ev =>
    obtain ⟨-, q, -, rfl⟩ := step_timers_iff.mp hs
    exact Or.inl h
  | addTimer p when_ interval_ repeat_ clock =>
    obtain ⟨-, -, -, hadding⟩ := step_addTimer hs
    exact Or.inl (hadding ▸ h)
  | cancel timerId =>
    obtain ⟨-, q, -, rfl⟩ := step_cancel_iff.mp hs
    exact Or.inl h

/-- A step that deletes a timer is one of the loop thread. -/
theorem adding_of_condemned (hs : step s e = some s') {p : Addr} (hc : s.condemned e = some p) :
    s'.adding = s.adding := by
  cases e with
  | run clock =>
    obtain ⟨current, f, functions, -, -, loop_, -, q, -, rfl⟩ := step_run_iff.mp hs
    rfl
  | timers ev =>
    obtain ⟨-, q, -, rfl⟩ := step_timers_iff.mp hs
    rfl
  | cancel timerId =>
    obtain ⟨-, q, -, rfl⟩ := step_cancel_iff.mp hs
    rfl
  | _ => cases hc

/-- A read is sound when the timer is still the one that was made. -/
theorem soundRead_iff {t : T} : s.SoundRead t ↔
    ∀ timer made, s.adding t = .queued timer made → s.timerQueue_.Holds timer made := by
  have hread : ∀ timer made u, s.adding t = .queued timer made →
      s.timerQueue_.heap timer = some u → (s.timerId t).map TimerLoop.timerIds =
        .ok (s.timerIds ++ [toLex (timer, u.sequence_)]) := by
    intro timer made u hq hu
    rw [timerId, hq]
    dsimp only
    rw [TimerQueue.deref_eq hu]
    rfl
  constructor
  · intro h timer made hq
    obtain ⟨⟨u, hu, hid⟩, hread'⟩ := h timer made hq
    have hids := Except.ok.inj ((hread timer made u hq hu).symm.trans hread')
    have hlex := List.singleton_injective (List.append_cancel_left hids)
    exact ⟨u, hu, hid, congrArg (fun a => (ofLex a).2) hlex⟩
  · intro h timer made hq
    obtain ⟨u, hu, hid, hseq⟩ := h timer made hq
    exact ⟨⟨u, hu, hid⟩, hseq ▸ hread timer made u hq hu⟩

/-- The timers of the threads behind `runInLoop` are still there. -/
def Sound (s : TimerLoop T) : Prop :=
  ∀ t timer made, s.adding t = .queued timer made → s.timerQueue_.Holds timer made

/-- A step that spares these timers keeps all of them. -/
theorem step_sound (h : s.Handed) (hsound : s.Sound) (hspares : s.Spares e)
    (hs : step s e = some s') : s'.Sound := by
  have hout := step_outcome h hs
  intro t timer made hq
  rcases step_queued hs hq with hq | ⟨hc, hnone⟩
  · refine hout.holds timer made (fun hcond => ?_) (hsound t timer made hq)
    refine hspares timer hcond t ?_
    rw [hq, AddPhase.reads]
  · refine hout.holds timer made ?_ (h.created t timer made hc).2.2
    rw [hnone]
    exact (Option.some_ne_none timer).symm

/-- A step that does not spare one of them leaves nothing to be read. -/
theorem spares_of_sound (h : s.Handed) (hs : step s e = some s') (hsound : s'.Sound) :
    s.Spares e := by
  intro p hcond t hreads
  have hfreed := (step_outcome h hs).freed p hcond
  obtain ⟨made, hadding⟩ := AddPhase.reads_eq_some_iff.mp hreads
  obtain ⟨u, hu, -⟩ := hsound t p made (by rw [adding_of_condemned hs hcond, hadding])
  rw [hfreed] at hu
  cases hu

/-- **Reads of a run.** Whichever thread may read the sequence number of its timer next, in any
state of the run, reads it of the timer it has made, exactly when no step of the run deletes a timer
whose `addTimer` has not read it yet. -/
theorem timerId_sound_iff {es : List (Event T)} (h : Run step new es s) :
    (∀ pre post u, es = pre ++ post → Run step new pre u → ∀ t, u.SoundRead t) ↔
      Along step Spares new es := by
  constructor
  · intro hreads pre e post u hes hu
    rw [hes] at h
    obtain ⟨u', hu', hrest⟩ := run_append_iff.mp h
    obtain rfl := Option.some.inj (hu.symm.trans hu')
    obtain ⟨v, hv, -⟩ := run_cons_iff.mp hrest
    have hhanded : u.Handed := hu.inv (fun _ _ _ hp hq => step_handed hp hq) handed_new
    refine spares_of_sound hhanded hv fun t => soundRead_iff.mp ?_
    exact hreads (pre ++ [e]) post v (by rw [hes]; simp) (run_snoc_iff.mpr ⟨u, hu, hv⟩) t
  · rintro hspares pre post u rfl hu t
    have hinv : u.Handed ∧ u.Sound := hu.inv_of (P := fun v => v.Handed ∧ v.Sound)
      (fun _ _ _ hp hc hq => ⟨step_handed hp.1 hq, step_sound hp.1 hp.2 hc hq⟩) hspares.of_append
      ⟨handed_new, fun t timer made hq => by cases hq⟩
    exact soundRead_iff.mpr (hinv.2 t)

instance [Fintype T] (s : TimerLoop T) (e : Event T) : Decidable (s.Spares e) :=
  inferInstanceAs (Decidable (∀ p ∈ s.condemned e, ∀ t, (s.adding t).reads ≠ some p))

/-- A thread adds a timer, which is inserted, expires, is called and goes through `reset` before the
thread comes to read it. -/
def lateRead (t : T) (repeat_ : Bool) : List (Event T) :=
  [.newTimer t 1 5 10 repeat_, .runInLoop t, .loop (.wakeup t), .loop .loop, .loop .test,
    .loop (.poll true), .loop .handleRead, .loop .swap, .run 8, .loop .finish, .loop .test,
    .timers .expire, .loop (.poll false), .timers (.handleRead 20), .timers .run, .timers .run,
    .timers (.reset 21), .timers (.reset 22)]

/-- A repeating timer is inserted again. -/
theorem lateRead_sound : ∃ s, Run step new (lateRead () true) s ∧ s.SoundRead () ∧
    (s.adding ()).reads = some 1 := by
  have h : ((lateRead () true).foldlM step new).map (fun s => (s.adding ()).reads) =
      some (some 1) := by
    decide +kernel
  obtain ⟨s, hs, hreads⟩ := Option.map_eq_some_iff.mp h
  have hspares : Along step Spares new (lateRead () true) := along_of_check (by decide +kernel)
  exact ⟨s, hs, (timerId_sound_iff hs).mpr hspares (lateRead () true) [] s (by simp) hs (), hreads⟩

/-- A one-shot timer is deleted. -/
theorem lateRead_not_sound : ¬ ∀ (es : List (Event Unit)) (s : TimerLoop Unit),
    Run step new es s → ∀ t, s.SoundRead t := by
  intro hclaim
  have h : ((lateRead () false).foldlM step new).map
      (fun s => ((s.adding ()).reads, s.timerQueue_.heap 1)) = some (some 1, none) := by
    decide +kernel
  obtain ⟨s, hs, hstate⟩ := Option.map_eq_some_iff.mp h
  obtain ⟨hreads, hfreed⟩ := Prod.mk.inj hstate
  obtain ⟨made, hadding⟩ := AddPhase.reads_eq_some_iff.mp hreads
  obtain ⟨⟨u, hu, -⟩, -⟩ := hclaim _ s hs () 1 made hadding
  rw [hfreed] at hu
  cases hu

/-- Another thread gets the address, and the result carries the number of its timer. -/
example : ((lateRead true false ++ [Event.newTimer false 1 50 0 false, Event.timerId true]).foldlM
    step new).map (fun s => s.timerIds.map ofLex) = some [(1, 1)] := by
  decide +kernel

end TimerLoop

end HighServer
