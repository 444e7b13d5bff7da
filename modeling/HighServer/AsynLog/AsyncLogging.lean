import HighServer.AsynLog.FixedBuffer
import HighServer.Lib.Runs

/-!
# The asynchronous log

The front end `append` and the back end `threadFunc` of `AsyncLogging`, with `stop`. The buffers
have `SIZE` bytes, which is `kLargeBuffer` in the source. A step of the back end is a critical
section under `mutex_`, one `LogFile::append`, or local work. `Condition` has a mutex of its own, so
the back end holds `mutex_` while it waits, and no `append` runs then.

* `append`, `swapBuffers`, `write`, `recycle`: the steps that move buffers;
* `Event.Enabled`, `Event.perform`, `step`: the transition system.
-/

namespace HighServer

/-- Undefined behaviour of the code that hands buffers around. -/
inductive Fault where
  /-- a null or moved-from `unique_ptr` is dereferenced -/
  | nullBuffer
  /-- `back()` of an empty vector -/
  | emptyBack
  deriving DecidableEq, Repr

/-- Where `threadFunc` is. -/
inductive BackEnd where
  | notStarted
  /-- before the test of `running_ || first` -/
  | test
  /-- before it takes `mutex_` -/
  | lock
  /-- in `waitForSeconds`, with `mutex_` taken -/
  | waiting
  /-- in the loop over `buffersToWrite`, of which `i` are written -/
  | writing (i : ℕ)
  | returned
  deriving DecidableEq, Repr

def BackEnd.isWriting : BackEnd → Bool
  | .writing _ => true
  | _ => false

/-- Where `stop` is. -/
inductive Stop where
  | notCalled
  /-- before it clears `running_` -/
  | called
  /-- before `cond_.notify()` -/
  | cleared
  /-- in `thread_.join()` -/
  | joining
  | returned
  deriving DecidableEq, Repr

/-- A `std::unique_ptr` to a buffer. -/
abbrev BufferPtr (SIZE : ℕ) := Option (FixedBuffer SIZE)

structure AsyncLogging (SIZE : ℕ) where
  running_ : Bool
  currentBuffer_ : BufferPtr SIZE
  nextBuffer_ : BufferPtr SIZE
  buffers_ : List (BufferPtr SIZE)
  backEnd : BackEnd
  /-- the local variables of `threadFunc` -/
  first : Bool
  newBuffer1 : BufferPtr SIZE
  newBuffer2 : BufferPtr SIZE
  buffersToWrite : List (BufferPtr SIZE)
  stop : Stop
  /-- the lines appended so far, in the order of their critical sections -/
  appended : List (List UInt8)
  /-- how many of them `stop` finds when it is called -/
  appendedBefore : ℕ
  /-- the arguments of `LogFile::append` so far -/
  output : List (List UInt8)

namespace AsyncLogging

open Runs

variable {SIZE : ℕ}

/-- The constructor; the two arrays are zeroed. -/
def new (memory : Memory SIZE) : AsyncLogging SIZE where
  running_ := false
  currentBuffer_ := some (FixedBuffer.new memory).bzero
  nextBuffer_ := some (FixedBuffer.new memory).bzero
  buffers_ := []
  backEnd := .notStarted
  first := true
  newBuffer1 := none
  newBuffer2 := none
  buffersToWrite := []
  stop := .notCalled
  appended := []
  appendedBefore := 0
  output := []

/-- `start`, with the first lines of `threadFunc`. -/
def start (a : AsyncLogging SIZE) (memory : Memory SIZE) : AsyncLogging SIZE :=
  { a with
    running_ := true
    backEnd := .test
    first := true
    newBuffer1 := some (FixedBuffer.new memory).bzero
    newBuffer2 := some (FixedBuffer.new memory).bzero
    buffersToWrite := [] }

/-- `*p` -/
def deref (p : BufferPtr SIZE) : Except Fault (FixedBuffer SIZE) :=
  match p with
  | some b => .ok b
  | none => .error .nullBuffer

/-- `append`; `memory` is what `new Buffer` returns. -/
def append (a : AsyncLogging SIZE) (logline : List UInt8) (memory : Memory SIZE) :
    Except Fault (AsyncLogging SIZE) := do
  let current ← deref a.currentBuffer_
  if logline.length < current.avail then
    pure { a with
      currentBuffer_ := some (current.append logline)
      appended := a.appended ++ [logline] }
  else
    let fresh := a.nextBuffer_.getD (FixedBuffer.new memory)
    pure { a with
      buffers_ := a.buffers_ ++ [a.currentBuffer_]
      currentBuffer_ := some (fresh.append logline)
      nextBuffer_ := none
      appended := a.appended ++ [logline] }

/-- The rest of the critical section of `threadFunc`, after the wait. -/
def swapBuffers (a : AsyncLogging SIZE) : AsyncLogging SIZE :=
  let a := { a with
    currentBuffer_ := a.newBuffer1
    newBuffer1 := none
    buffers_ := a.buffersToWrite
    buffersToWrite := a.buffers_ ++ [a.currentBuffer_]
    backEnd := .writing 0 }
  if a.nextBuffer_.isNone then { a with nextBuffer_ := a.newBuffer2, newBuffer2 := none } else a

/-- The critical section up to the wait. -/
def lock (a : AsyncLogging SIZE) : AsyncLogging SIZE :=
  if a.buffers_.isEmpty then { a with backEnd := .waiting } else a.swapBuffers

/-- One `output.append(buffer->data(), buffer->length())`. -/
def write (a : AsyncLogging SIZE) (i : ℕ) (buffer : BufferPtr SIZE) :
    Except Fault (AsyncLogging SIZE) := do
  let b ← deref buffer
  pure { a with output := a.output ++ [b.toString], backEnd := .writing (i + 1) }

/-- `if (!p) { p = std::move(v.back()); v.pop_back(); p->reset(); }` -/
def refill (p : BufferPtr SIZE) (v : List (BufferPtr SIZE)) :
    Except Fault (BufferPtr SIZE × List (BufferPtr SIZE)) :=
  match p with
  | some b => .ok (some b, v)
  | none =>
    match v.getLast? with
    | none => .error .emptyBack
    | some back => do
      let b ← deref back
      pure (some b.reset, v.dropLast)

/-- The end of an iteration, after the writes. -/
def recycle (a : AsyncLogging SIZE) : Except Fault (AsyncLogging SIZE) := do
  let v := if 2 < a.buffersToWrite.length then a.buffersToWrite.take 2 else a.buffersToWrite
  let (newBuffer1, v) ← refill a.newBuffer1 v
  let (newBuffer2, _) ← refill a.newBuffer2 v
  pure { a with newBuffer1, newBuffer2, buffersToWrite := [], backEnd := .test }

inductive Event (SIZE : ℕ) where
  | start (memory : Memory SIZE)
  /-- any front-end thread -/
  | append (logline : List UInt8) (memory : Memory SIZE)
  /-- the test of `running_ || first`, and `first = false` -/
  | test
  | lock
  /-- `waitForSeconds` returns: notified, timed out or spuriously -/
  | wake
  /-- the next write, or, after the last one, the end of the iteration -/
  | write
  /-- `stop` is called, clears `running_`, notifies, returns -/
  | stopCall
  | stopClear
  | stopNotify
  | stopReturn

/-- `append` needs `mutex_`, and is called with lines shorter than a buffer. -/
def Event.Enabled (a : AsyncLogging SIZE) : Event SIZE → Prop
  | .start _ => a.backEnd = .notStarted
  | .append logline _ => a.backEnd ≠ .waiting ∧ logline.length < SIZE
  | .test => a.backEnd = .test
  | .lock => a.backEnd = .lock
  | .wake => a.backEnd = .waiting
  | .write => a.backEnd.isWriting
  | .stopCall => a.backEnd ≠ .notStarted ∧ a.stop = .notCalled
  | .stopClear => a.stop = .called
  | .stopNotify => a.stop = .cleared
  | .stopReturn => a.stop = .joining ∧ a.backEnd = .returned

instance (a : AsyncLogging SIZE) (e : Event SIZE) : Decidable (e.Enabled a) := by
  unfold Event.Enabled
  split <;> infer_instance

def Event.perform (a : AsyncLogging SIZE) : Event SIZE → Except Fault (AsyncLogging SIZE)
  | .start memory => .ok (a.start memory)
  | .append logline memory => a.append logline memory
  | .test =>
    if a.running_ || a.first then .ok { a with first := false, backEnd := .lock }
    else .ok { a with backEnd := .returned }
  | .lock => .ok a.lock
  | .wake => .ok a.swapBuffers
  | .write =>
    match a.backEnd with
    | .writing i =>
      match a.buffersToWrite[i]? with
      | some buffer => a.write i buffer
      | none => a.recycle
    | _ => .ok a
  | .stopCall => .ok { a with stop := .called, appendedBefore := a.appended.length }
  | .stopClear => .ok { a with running_ := false, stop := .cleared }
  | .stopNotify => .ok { a with stop := .joining }
  | .stopReturn => .ok { a with stop := .returned }

def step (a : AsyncLogging SIZE) (e : Event SIZE) : Option (AsyncLogging SIZE) :=
  if e.Enabled a then (e.perform a).toOption else none

theorem step_eq_some_iff {a a' : AsyncLogging SIZE} {e : Event SIZE} :
    step a e = some a' ↔ e.Enabled a ∧ e.perform a = .ok a' :=
  ite_toOption_eq_some_iff

end AsyncLogging

end HighServer
