import HighServer.Lib.OrdSet
import HighServer.Lib.Runs

/-!
# The timer queue

`TimerQueue` with its two sets, the expired batch, the timerfd and the heap of `Timer` objects,
whose addresses may be used again. A step is a call of `addTimerInLoop` or `cancelInLoop`, the
creation of a `Timer` by `addTimer`, or a part of `handleRead`: the part before the callbacks, one
callback, one timer of `reset`, the end of `reset`. Callbacks add and cancel timers in steps of
their own. Every use of a dead `Timer` is a fault, and so is a failed assertion on the sizes of the
sets; the assertion of line 141 is left out.

* `insert`, `addTimerInLoop`, `cancelInLoop`, `getExpired`, `handleRead`, `resetNext`, `resetEnd`;
* `Event.Enabled`, `Event.perform`, `step`: the transition system;
* `Note`: what the steps note down about the timers.
-/

namespace HighServer

/-- Microseconds, a `uint64_t`. -/
abbrev DateTime := ℕ

/-- 0 is the invalid time. -/
def DateTime.valid (t : DateTime) : Bool := 0 < t

/-- `addTime`, with `delta = seconds * 1000 * 1000`. -/
def addTime (timestamp : DateTime) (delta : ℤ) : DateTime := ((timestamp + delta) % 2 ^ 64).toNat

/-- `id` counts the objects; `sequence_` is the same number in the `int64_t` of the source. -/
structure Timer where
  id : ℕ
  expiration_ : DateTime
  /-- `interval_` in microseconds -/
  interval_ : ℤ
  repeat_ : Bool
  sequence_ : ℤ
  deriving DecidableEq, Repr

def Timer.restart (t : Timer) (now : DateTime) : Timer :=
  if t.repeat_ then { t with expiration_ := addTime now t.interval_ }
  else { t with expiration_ := 0 }

/-! ## The timerfd -/

structure Timespec where
  tv_sec : ℤ
  tv_nsec : ℤ
  deriving DecidableEq, Repr

/-- `howMuchTimeFromNow`, with what `DateTime()` reads; the difference is an `int64_t`. -/
def howMuchTimeFromNow (when_ clock : DateTime) : Timespec :=
  let microseconds := ((when_ : ℤ) - clock).bmod (2 ^ 64)
  let microseconds := if microseconds < 100 then 100 else microseconds
  ⟨microseconds / (1000 * 1000), microseconds % (1000 * 1000) * 1000⟩

/-- `target` is the expiration last passed to `resetTimerfd`, `value` the time that was set. -/
inductive Timerfd where
  | disarmed
  | armed (target : DateTime) (value : Timespec)
  /-- readable -/
  | fired (target : DateTime) (value : Timespec)
  deriving DecidableEq, Repr

/-- `::timerfd_settime`; a zero time disarms. -/
def Timerfd.settime (target : DateTime) (value : Timespec) : Timerfd :=
  if value = ⟨0, 0⟩ then .disarmed else .armed target value

def Timerfd.isArmed : Timerfd → Bool
  | .armed _ _ => true
  | _ => false

def resetTimerfd (expiration clock : DateTime) : Timerfd :=
  Timerfd.settime expiration (howMuchTimeFromNow expiration clock)

/-- The time that was set has passed. -/
def Timerfd.expire : Timerfd → Timerfd
  | .armed target value => .fired target value
  | fd => fd

/-- `readTimerfd`; a timerfd that has not fired gives `EAGAIN`. -/
def Timerfd.read : Timerfd → Timerfd
  | .fired _ _ => .disarmed
  | fd => fd

/-! ## The queue -/

/-- The address of a `Timer`; 0 is `nullptr`. -/
abbrev Addr := ℕ

/-- `std::pair<DateTime, Timer*>` -/
abbrev Entry := DateTime ×ₗ Addr

/-- `std::pair<Timer*, int64_t>`, also a `TimerId`. -/
abbrev ActiveTimer := Addr ×ₗ ℤ

def Entry.expiration (e : Entry) : DateTime := (ofLex e).1
def Entry.timer (e : Entry) : Addr := (ofLex e).2
def ActiveTimer.timer (a : ActiveTimer) : Addr := (ofLex a).1
def ActiveTimer.sequence (a : ActiveTimer) : ℤ := (ofLex a).2

inductive TimerFault where
  /-- a `Timer` is used or deleted after it was deleted -/
  | deadTimer
  /-- `timers_.size() == activeTimers_.size()` -/
  | sizes
  /-- `getExpired`: `it == timers_.end() || now < it->first` -/
  | expired
  deriving DecidableEq, Repr

/-- Where the loop thread is in the queue's functions. -/
inductive TimerPhase where
  | idle
  /-- in the callbacks of `handleRead`, of which `called` have been started -/
  | calling (now : DateTime) (expired : List Entry) (called : ℕ)
  /-- in `reset`, with the part of the batch still to be gone through -/
  | resetting (now : DateTime) (expired : List Entry)
  deriving DecidableEq

def TimerPhase.isCalling : TimerPhase → Bool
  | .calling _ _ _ => true
  | _ => false

def TimerPhase.isResetting : TimerPhase → Bool
  | .resetting _ _ => true
  | _ => false

/-- What is noted down about timers, by `id`. -/
inductive Note where
  | added (id : ℕ)
  | started (t : Timer) (now : DateTime)
  | deleted (id : ℕ)
  /-- cancelled in the expired batch -/
  | cancelled (id : ℕ)
  | reinserted (id : ℕ)
  deriving DecidableEq, Repr

def Note.id : Note → ℕ
  | .added id => id
  | .started t _ => t.id
  | .deleted id => id
  | .cancelled id => id
  | .reinserted id => id

structure TimerQueue where
  heap : Addr → Option Timer
  /-- `s_numCreated_`, before it wraps -/
  s_numCreated_ : ℕ
  /-- the timers of `addTimer` calls whose `addTimerInLoop` has not run -/
  unadded : List Addr
  timerfd_ : Timerfd
  timers_ : OrdSet Entry
  callingExpiredTimers_ : Bool
  activeTimers_ : OrdSet ActiveTimer
  cancelingTimers_ : OrdSet ActiveTimer
  phase : TimerPhase
  notes : List Note

namespace TimerQueue

open Runs

/-- The constructor. -/
def new : TimerQueue where
  heap _ := none
  s_numCreated_ := 0
  unadded := []
  timerfd_ := .disarmed
  timers_ := OrdSet.empty
  callingExpiredTimers_ := false
  activeTimers_ := OrdSet.empty
  cancelingTimers_ := OrdSet.empty
  phase := .idle
  notes := []

def note (q : TimerQueue) (n : Note) : TimerQueue := { q with notes := q.notes ++ [n] }

/-- `new Timer(cb, when, interval)` in `addTimer`. -/
def newTimer (q : TimerQueue) (p : Addr) (when_ : DateTime) (interval_ : ℤ) (repeat_ : Bool) :
    TimerQueue :=
  { q with
    heap := Function.update q.heap p (some
      { id := q.s_numCreated_, expiration_ := when_, interval_, repeat_
        sequence_ := (q.s_numCreated_ : ℤ).bmod (2 ^ 64) })
    s_numCreated_ := q.s_numCreated_ + 1
    unadded := p :: q.unadded }

/-- `*p` -/
def deref (q : TimerQueue) (p : Addr) : Except TimerFault Timer :=
  match q.heap p with
  | some t => .ok t
  | none => .error .deadTimer

/-- `assert(timers_.size() == activeTimers_.size())` -/
def assertSizes (q : TimerQueue) : Except TimerFault Unit :=
  if q.timers_.size = q.activeTimers_.size then .ok () else .error .sizes

/-- `delete p` -/
def delete (q : TimerQueue) (p : Addr) : Except TimerFault TimerQueue := do
  let t ← q.deref p
  pure ({ q with heap := Function.update q.heap p none }.note (.deleted t.id))

/-- Whether a timer for `when_` will be the first. -/
def isEarliest (q : TimerQueue) (when_ : DateTime) : Bool :=
  match q.timers_.begin with
  | none => true
  | some e => when_ < e.expiration

def insert (q : TimerQueue) (timer : Addr) : Except TimerFault (TimerQueue × Bool) := do
  q.assertSizes
  let t ← q.deref timer
  let earliestChanged := q.isEarliest t.expiration_
  let q := { q with
    timers_ := q.timers_.insert (toLex (t.expiration_, timer))
    activeTimers_ := q.activeTimers_.insert (toLex (timer, t.sequence_)) }
  q.assertSizes
  pure (q, earliestChanged)

def addTimerInLoop (q : TimerQueue) (timer : Addr) (clock : DateTime) :
    Except TimerFault TimerQueue := do
  let (q, earliestChanged) ← q.insert timer
  let t ← q.deref timer
  let q := { q with unadded := q.unadded.erase timer }.note (.added t.id)
  if earliestChanged then pure { q with timerfd_ := resetTimerfd t.expiration_ clock } else pure q

/-- The expired timers that are not deleted or inserted again yet. -/
def batch (q : TimerQueue) : List Entry :=
  match q.phase with
  | .idle => []
  | .calling _ expired _ => expired
  | .resetting _ expired => expired

/-- The timer of the batch, if there is one, that a `TimerId` stands for. -/
def batchTimer (q : TimerQueue) (timer : ActiveTimer) : Option Timer :=
  if timer.timer ∈ q.batch.map Entry.timer then
    (q.heap timer.timer).filter fun t => t.sequence_ = timer.sequence
  else none

/-- What is noted down when that timer is cancelled. -/
def cancelNotes (q : TimerQueue) (timer : ActiveTimer) : List Note :=
  (q.batchTimer timer).toList.map fun t => .cancelled t.id

def cancelInLoop (q : TimerQueue) (timer : ActiveTimer) : Except TimerFault TimerQueue :=
  if timer ∈ q.activeTimers_ then do
    let t ← q.deref timer.timer
    let q ← { q with
      timers_ := q.timers_.erase (toLex (t.expiration_, timer.timer)) }.delete timer.timer
    let q := { q with activeTimers_ := q.activeTimers_.erase timer }
    q.assertSizes
    pure q
  else do
    let q := { q with notes := q.notes ++ q.cancelNotes timer }
    let q := if q.callingExpiredTimers_ then
        { q with cancelingTimers_ := q.cancelingTimers_.insert timer }
      else q
    q.assertSizes
    pure q

/-- One round of the loop over the expired entries in `getExpired`. -/
def eraseActive (q : TimerQueue) (e : Entry) : Except TimerFault TimerQueue := do
  let t ← q.deref e.timer
  pure { q with activeTimers_ := q.activeTimers_.erase (toLex (e.timer, t.sequence_)) }

/-- `getExpired`, without the assertion of line 141. -/
def getExpired (q : TimerQueue) (now : DateTime) :
    Except TimerFault (TimerQueue × List Entry) := do
  let sentry : Entry := toLex (now, 0)
  let expired := q.timers_.below sentry
  let q ← expired.foldlM eraseActive { q with timers_ := q.timers_.from_ sentry }
  q.assertSizes
  pure (q, expired)

/-- `handleRead` up to the callbacks. -/
def handleRead (q : TimerQueue) (now : DateTime) : Except TimerFault TimerQueue := do
  let (q, expired) ← { q with timerfd_ := q.timerfd_.read }.getExpired now
  pure { q with
    callingExpiredTimers_ := true
    cancelingTimers_ := OrdSet.empty
    phase := .calling now expired 0 }

/-- `it->second->run()` -/
def run (q : TimerQueue) (now : DateTime) (expired : List Entry) (called : ℕ) (e : Entry) :
    Except TimerFault TimerQueue := do
  let t ← q.deref e.timer
  pure ({ q with phase := .calling now expired (called + 1) }.note (.started t now))

/-- One round of the loop of `reset`. -/
def resetNext (q : TimerQueue) (now : DateTime) (e : Entry) (expired : List Entry) :
    Except TimerFault TimerQueue := do
  let t ← q.deref e.timer
  let q := { q with phase := .resetting now expired }
  if t.repeat_ ∧ toLex (e.timer, t.sequence_) ∉ q.cancelingTimers_ then
    let q := { q with heap := Function.update q.heap e.timer (some (t.restart now)) }
    let (q, _) ← q.insert e.timer
    pure (q.note (.reinserted t.id))
  else q.delete e.timer

/-- The end of `reset`, and of `handleRead`. -/
def resetEnd (q : TimerQueue) (clock : DateTime) : Except TimerFault TimerQueue := do
  let q := { q with phase := .idle }
  match q.timers_.begin with
  | none => pure q
  | some e =>
    let t ← q.deref e.timer
    if t.expiration_.valid then pure { q with timerfd_ := resetTimerfd t.expiration_ clock }
    else pure q

/-! ## Steps -/

inductive Event where
  /-- the allocation in `addTimer`, on any thread -/
  | newTimer (p : Addr) (when_ : DateTime) (interval_ : ℤ) (repeat_ : Bool)
  | addTimerInLoop (timer : Addr) (clock : DateTime)
  | cancelInLoop (timer : ActiveTimer)
  /-- the time set in the timerfd has passed -/
  | expire
  | handleRead (now : DateTime)
  /-- the next callback, or, after the last one, the end of the callbacks -/
  | run
  /-- the next timer of `reset`, or, after the last one, the end of `reset` -/
  | reset (clock : DateTime)
  deriving DecidableEq

/-- Outside of `handleRead`, or in a callback. -/
def InUserCode (q : TimerQueue) : Prop :=
  match q.phase with
  | .idle => True
  | .calling _ _ called => 0 < called
  | .resetting _ _ => False

instance (q : TimerQueue) : Decidable q.InUserCode := by
  unfold InUserCode
  split <;> infer_instance

def Event.Enabled (q : TimerQueue) : Event → Prop
  | .newTimer p _ _ _ => p ≠ 0 ∧ q.heap p = none
  | .addTimerInLoop timer _ => q.InUserCode ∧ timer ∈ q.unadded
  | .cancelInLoop _ => q.InUserCode
  | .expire => q.timerfd_.isArmed
  | .handleRead _ => q.phase = .idle
  | .run => q.phase.isCalling
  | .reset _ => q.phase.isResetting

instance (q : TimerQueue) (e : Event) : Decidable (e.Enabled q) := by
  unfold Event.Enabled
  split <;> infer_instance

def Event.perform (q : TimerQueue) : Event → Except TimerFault TimerQueue
  | .newTimer p when_ interval_ repeat_ => .ok (q.newTimer p when_ interval_ repeat_)
  | .addTimerInLoop timer clock => q.addTimerInLoop timer clock
  | .cancelInLoop timer => q.cancelInLoop timer
  | .expire => .ok { q with timerfd_ := q.timerfd_.expire }
  | .handleRead now => q.handleRead now
  | .run =>
    match q.phase with
    | .calling now expired called =>
      match expired[called]? with
      | some e => q.run now expired called e
      | none => .ok { q with callingExpiredTimers_ := false, phase := .resetting now expired }
    | _ => .ok q
  | .reset clock =>
    match q.phase with
    | .resetting now (e :: expired) => q.resetNext now e expired
    | .resetting _ [] => q.resetEnd clock
    | _ => .ok q

def step (q : TimerQueue) (e : Event) : Option TimerQueue :=
  if e.Enabled q then (e.perform q).toOption else none

theorem step_eq_some_iff {q q' : TimerQueue} {e : Event} :
    step q e = some q' ↔ e.Enabled q ∧ e.perform q = .ok q' :=
  ite_toOption_eq_some_iff

end TimerQueue

end HighServer
