import HighServer.Lib.Runs
import HighServer.Net.Channel

/-!
# The connector

`Connector` in its loop thread: an attempt to connect has a socket and a channel that waits for a
write event; a failed one is made again when a retry timer fires. Sockets are numbered in the order
of their creation. The results of `::connect`, `SO_ERROR` and `isSelfConnect` are inputs.

* `start`, `restart`, `stop`, `connect`, `handleWrite`, `handleError`, `retry`, …: the member
  functions; `handleEvent`: `Channel::handleEvent` on `channel_`;
* `expire`, `fire`, `runReset`: what the loop does with the retry timers and with the functors of
  `resetChannel`;
* `connect_cases`, `startInLoop_eq_ok_iff`, `handleEvent_eq`: what they can do;
* `Shape`: `channel_`, the functors queued and `state_` fit together. Every operation keeps it.
-/

namespace HighServer

/-- What `::connect` left in `savedErrno`; `ok` is 0. -/
inductive ConnectErrno where
  | ok
  | EINPROGRESS
  | EINTR
  | EISCONN
  | EAGAIN
  | EADDRINUSE
  | EADDRNOTAVAIL
  | ECONNREFUSED
  | ENETUNREACH
  | EACCES
  | EPERM
  | EAFNOSUPPORT
  | EALREADY
  | EBADF
  | EFAULT
  | ENOTSOCK
  | other (n : ℕ)
  deriving DecidableEq, Repr

/-- `Connector::States` -/
inductive States where
  | kDisconnected
  | kConnecting
  | kConnected
  deriving DecidableEq, Repr

/-- The channel of an attempt; `writing` until `disableAll`. -/
structure AttemptChannel where
  fd_ : ℕ
  writing : Bool
  deriving DecidableEq, Repr

structure Connector where
  connect_ : Bool
  state_ : States
  channel_ : Option AttemptChannel
  retryDelayMs_ : ℕ
  /-- the retry timer that was set last -/
  timerId_ : Option ℕ
  /-- how many retry timers were set -/
  timers : ℕ
  /-- the retry timers in the timer queue -/
  waiting : List ℕ
  /-- those that have expired, with their callback still to be started -/
  due : List ℕ
  /-- functors of `resetChannel` in the loop -/
  resets : ℕ
  /-- how many sockets `connect` has created -/
  created : ℕ
  /-- the sockets closed by `Close` -/
  closed : List ℕ
  /-- the sockets that `newConnectionCallback_` was called with -/
  passed : List ℕ
  /-- how many channels were made, and how many `resetChannel` has taken away -/
  attempts : ℕ
  resetsRun : ℕ
  deriving DecidableEq, Repr

namespace Connector

def kMaxRetryDelayMs : ℕ := 30 * 1000
def kInitRetryDelayMs : ℕ := 500

/-- The constructor. -/
def new : Connector where
  connect_ := false
  state_ := .kDisconnected
  channel_ := none
  retryDelayMs_ := kInitRetryDelayMs
  timerId_ := none
  timers := 0
  waiting := []
  due := []
  resets := 0
  created := 0
  closed := []
  passed := []
  attempts := 0
  resetsRun := 0

def close (c : Connector) (sockfd : ℕ) : Connector := { c with closed := c.closed ++ [sockfd] }

/-- `loop_->cancel(timerId_)`: a timer that has expired is not found in the queue any more. -/
def cancel (c : Connector) : Connector :=
  match c.timerId_ with
  | none => c
  | some id => { c with waiting := c.waiting.filter (· ≠ id) }

/-- `loop_->runAfter(retryDelayMs_ / 1000.0, startInLoop)` -/
def runAfter (c : Connector) : Connector :=
  { c with timerId_ := some c.timers, timers := c.timers + 1, waiting := c.waiting ++ [c.timers] }

def retry (c : Connector) (sockfd : ℕ) : Connector :=
  let c := { c.close sockfd with state_ := .kDisconnected }
  if c.connect_ then
    { c.runAfter with retryDelayMs_ := min (c.retryDelayMs_ * 2) kMaxRetryDelayMs }
  else c

def connecting (c : Connector) (sockfd : ℕ) : Outcome Connector := do
  let c := { c with state_ := .kConnecting }
  ensure (c.channel_ = none) .connecting
  pure { c with channel_ := some ⟨sockfd, true⟩, attempts := c.attempts + 1 }

/-- `createNBListenSocket` -/
def createSocket (c : Connector) : Connector := { c with created := c.created + 1 }

def connect (c : Connector) (savedErrno : ConnectErrno) : Outcome Connector :=
  let sockfd := c.created
  let c := c.createSocket
  match savedErrno with
  | .ok | .EINPROGRESS | .EINTR | .EISCONN => c.connecting sockfd
  | .EAGAIN | .EADDRINUSE | .EADDRNOTAVAIL | .ECONNREFUSED | .ENETUNREACH => pure (c.retry sockfd)
  | .EACCES | .EPERM | .EAFNOSUPPORT | .EALREADY | .EBADF | .EFAULT | .ENOTSOCK =>
    pure (c.close sockfd)
  | .other _ => pure (c.close sockfd)

def startInLoop (c : Connector) (savedErrno : ConnectErrno) : Outcome Connector := do
  ensure (c.state_ = .kDisconnected) .startInLoop
  if c.connect_ then c.connect savedErrno else pure c

/-- `start`, called in the loop thread. -/
def start (c : Connector) (savedErrno : ConnectErrno) : Outcome Connector :=
  { c with connect_ := true }.startInLoop savedErrno

def restart (c : Connector) (savedErrno : ConnectErrno) : Outcome Connector :=
  { c with state_ := .kDisconnected, retryDelayMs_ := kInitRetryDelayMs,
           connect_ := true }.startInLoop savedErrno

def stop (c : Connector) : Connector := { c with connect_ := false }.cancel

/-- The socket of `channel_`, whose events are disabled and whose reset is queued. -/
def removeAndResetChannel (c : Connector) : Outcome (Connector × ℕ) :=
  match c.channel_ with
  | none => .error .removeAndResetChannel
  | some ch =>
    pure ({ c with channel_ := some { ch with writing := false }, resets := c.resets + 1 }, ch.fd_)

def resetChannel (c : Connector) : Connector := { c with channel_ := none }

/-- `err` is `SO_ERROR`, `self` the result of `isSelfConnect`. -/
def handleWrite (c : Connector) (err : ℕ) (self : Bool) : Outcome Connector :=
  if c.state_ = .kConnecting then do
    let (c, sockfd) ← c.removeAndResetChannel
    if err ≠ 0 then pure (c.retry sockfd)
    else if self then pure (c.retry sockfd)
    else
      let c := { c with state_ := .kConnected }
      if c.connect_ then pure { c with passed := c.passed ++ [sockfd] }
      else pure (c.close sockfd)
  else pure c

def handleError (c : Connector) : Outcome Connector := do
  ensure (c.state_ = .kConnecting) .handleError
  let (c, sockfd) ← c.removeAndResetChannel
  pure (c.retry sockfd)

/-- A callback of `Channel::handleEvent`; `closeCallback_` and `readCallback_` are not set. -/
def callback (err : ℕ) (self : Bool) (c : Connector) : Channel.Callback → Outcome Connector
  | .error => c.handleError
  | .write => c.handleWrite err self
  | .close => pure c
  | .read => pure c

def handleEvent (c : Connector) (revents_ : Mask) (err : ℕ) (self : Bool) : Outcome Connector :=
  (Channel.callbacks revents_).foldlM (callback err self) c

/-! ## The loop -/

/-- A retry timer expires. -/
def expire (c : Connector) (id : ℕ) : Connector :=
  { c with waiting := c.waiting.filter (· ≠ id), due := c.due ++ [id] }

/-- The callback of a retry timer. -/
def fire (c : Connector) (savedErrno : ConnectErrno) : Outcome Connector :=
  { c with due := c.due.tail }.startInLoop savedErrno

/-- The functor of `resetChannel`. -/
def runReset (c : Connector) : Connector :=
  { c.resetChannel with resets := c.resets - 1, resetsRun := c.resetsRun + 1 }

/-- The socket of the attempt in progress. -/
def attempt (c : Connector) : Option ℕ :=
  match c.channel_ with
  | none => none
  | some ch => if ch.writing then some ch.fd_ else none

/-! ## What the functions can do -/

variable {c c' : Connector}

theorem connecting_eq_ok_iff {sockfd : ℕ} : c.connecting sockfd = .ok c' ↔ c.channel_ = none ∧
    c' = { c with state_ := .kConnecting, channel_ := some ⟨sockfd, true⟩,
                  attempts := c.attempts + 1 } := by
  rw [connecting, ensure_bind_eq_ok_iff]
  simp [pure, Except.pure, eq_comm]

/-- The three classes of `savedErrno`. -/
theorem connect_cases (c : Connector) (savedErrno : ConnectErrno) :
    c.connect savedErrno = c.createSocket.connecting c.created ∨
    c.connect savedErrno = .ok (c.createSocket.retry c.created) ∨
    c.connect savedErrno = .ok (c.createSocket.close c.created) := by
  cases savedErrno with
  | ok | EINPROGRESS | EINTR | EISCONN => exact Or.inl rfl
  | EAGAIN | EADDRINUSE | EADDRNOTAVAIL | ECONNREFUSED | ENETUNREACH => exact Or.inr (Or.inl rfl)
  | EACCES | EPERM | EAFNOSUPPORT | EALREADY | EBADF | EFAULT | ENOTSOCK =>
    exact Or.inr (Or.inr rfl)
  | other n => exact Or.inr (Or.inr rfl)

theorem connect_keeps {e : ConnectErrno} (h : c.connect e = .ok c') :
    c'.resets = c.resets ∧ c'.connect_ = c.connect_ ∧
      (c'.channel_ = c.channel_ ∨ c.channel_ = none ∧ ∃ k, c'.channel_ = some ⟨k, true⟩) := by
  rcases connect_cases c e with heq | heq | heq
  · obtain ⟨hch, rfl⟩ := connecting_eq_ok_iff.mp (heq.symm.trans h)
    exact ⟨rfl, rfl, Or.inr ⟨hch, _, rfl⟩⟩
  · obtain rfl := Except.ok.inj (heq.symm.trans h)
    rw [retry]
    split_ifs
    · exact ⟨rfl, rfl, Or.inl rfl⟩
    · exact ⟨rfl, rfl, Or.inl rfl⟩
  · obtain rfl := Except.ok.inj (heq.symm.trans h)
    exact ⟨rfl, rfl, Or.inl rfl⟩

theorem startInLoop_eq_ok_iff {e : ConnectErrno} : c.startInLoop e = .ok c' ↔
    c.state_ = .kDisconnected ∧ (if c.connect_ then c.connect e else .ok c) = .ok c' :=
  ensure_bind_eq_ok_iff

theorem startInLoop_of_connect (hs : c.state_ = .kDisconnected) (hc : c.connect_ = true)
    (e : ConnectErrno) : c.startInLoop e = c.connect e := by
  rw [startInLoop, ensure_bind_of hs, if_pos hc]

theorem startInLoop_of_stopped (hs : c.state_ = .kDisconnected) (hc : c.connect_ = false)
    (e : ConnectErrno) : c.startInLoop e = .ok c := by
  rw [startInLoop, ensure_bind_of hs, if_neg (by rw [hc]; decide)]
  rfl

/-! ## One dispatch -/

/-- How a dispatch ends the attempt. -/
inductive Verdict where
  | goesOn
  | failed
  | succeeded
  deriving DecidableEq, Repr

/-- An error event comes before a write event, and the write event finds the attempt ended. -/
def verdict (revents_ : Mask) (err : ℕ) (self : Bool) : Verdict :=
  if .error ∈ Channel.callbacks revents_ then .failed
  else if .write ∈ Channel.callbacks revents_ then
    if err ≠ 0 ∨ self = true then .failed else .succeeded
  else .goesOn

/-- The attempt on `k` is over, with its reset queued. -/
def detach (c : Connector) (k : ℕ) : Connector :=
  { c with channel_ := some ⟨k, false⟩, resets := c.resets + 1 }

/-- The socket `k` is connected. -/
def succeed (c : Connector) (k : ℕ) : Connector :=
  let c := { c with state_ := .kConnected }
  if c.connect_ then { c with passed := c.passed ++ [k] } else c.close k

/-- What a dispatch does to the attempt on `k`. -/
def settle (c : Connector) (k : ℕ) : Verdict → Connector
  | .goesOn => c
  | .failed => (c.detach k).retry k
  | .succeeded => (c.detach k).succeed k

theorem retry_of_connect (h : c.connect_ = true) (k : ℕ) : c.retry k =
    { c with closed := c.closed ++ [k], state_ := .kDisconnected, timerId_ := some c.timers,
             timers := c.timers + 1, waiting := c.waiting ++ [c.timers],
             retryDelayMs_ := min (c.retryDelayMs_ * 2) kMaxRetryDelayMs } :=
  if_pos h

theorem retry_of_stopped (h : c.connect_ = false) (k : ℕ) :
    c.retry k = { c with closed := c.closed ++ [k], state_ := .kDisconnected } :=
  if_neg (by simp [close, h])

theorem succeed_of_connect (h : c.connect_ = true) (k : ℕ) :
    c.succeed k = { c with state_ := .kConnected, passed := c.passed ++ [k] } :=
  if_pos h

theorem succeed_of_stopped (h : c.connect_ = false) (k : ℕ) :
    c.succeed k = { c with state_ := .kConnected, closed := c.closed ++ [k] } :=
  if_neg (by simp [h])

theorem state_retry (c : Connector) (k : ℕ) : (c.retry k).state_ = .kDisconnected := by
  cases h : c.connect_ with
  | true => rw [retry_of_connect h]
  | false => rw [retry_of_stopped h]

theorem state_succeed (c : Connector) (k : ℕ) : (c.succeed k).state_ = .kConnected := by
  cases h : c.connect_ with
  | true => rw [succeed_of_connect h]
  | false => rw [succeed_of_stopped h]

theorem handleError_eq {k : ℕ} (hs : c.state_ = .kConnecting) (hch : c.channel_ = some ⟨k, true⟩) :
    c.handleError = .ok (c.settle k .failed) := by
  rw [handleError, ensure_bind_of hs, removeAndResetChannel, hch]
  rfl

theorem handleWrite_eq {k : ℕ} (hs : c.state_ = .kConnecting) (hch : c.channel_ = some ⟨k, true⟩)
    (err : ℕ) (self : Bool) : c.handleWrite err self =
      .ok (c.settle k (if err ≠ 0 ∨ self = true then .failed else .succeeded)) := by
  rw [handleWrite, if_pos hs, removeAndResetChannel, hch]
  change (if err ≠ 0 then pure ((c.detach k).retry k) else
    if self = true then pure ((c.detach k).retry k) else
    if c.connect_ = true then _ else _) = (.ok _ : Outcome Connector)
  by_cases he : err ≠ 0
  · rw [if_pos he, if_pos (Or.inl he)]
    rfl
  · rw [if_neg he]
    by_cases hself : self = true
    · rw [if_pos hself, if_pos (Or.inr hself)]
      rfl
    · rw [if_neg hself, if_neg (not_or.mpr ⟨he, hself⟩)]
      by_cases hc : c.connect_ = true
      · have hc' : (c.detach k).connect_ = true := hc
        rw [if_pos hc, settle, succeed_of_connect hc']
        rfl
      · have hc' : (c.detach k).connect_ = false := Bool.eq_false_of_not_eq_true hc
        rw [if_neg hc, settle, succeed_of_stopped hc']
        rfl

/-- After the attempt has ended a write event does nothing. -/
theorem handleWrite_of_ne (hs : c.state_ ≠ .kConnecting) (err : ℕ) (self : Bool) :
    c.handleWrite err self = .ok c := by
  rw [handleWrite, if_neg hs]
  rfl

theorem callbacks_eq (revents_ : Mask) : ∃ p e r w, Channel.callbacks revents_ = p ++ e ++ r ++ w ∧
    (p = [] ∨ p = [.close]) ∧ (e = [] ∨ e = [.error]) ∧ (r = [] ∨ r = [.read]) ∧
    (w = [] ∨ w = [.write]) :=
  ⟨_, _, _, _, rfl, by split_ifs <;> simp, by split_ifs <;> simp, by split_ifs <;> simp,
    by split_ifs <;> simp⟩

/-- **One dispatch**, with any combination of events. -/
theorem handleEvent_eq {k : ℕ} (hs : c.state_ = .kConnecting) (hch : c.channel_ = some ⟨k, true⟩)
    (revents_ : Mask) (err : ℕ) (self : Bool) :
    c.handleEvent revents_ err self = .ok (c.settle k (verdict revents_ err self)) := by
  have hstate : (c.settle k .failed).state_ ≠ .kConnecting := by
    rw [settle, state_retry]
    decide
  have hafter := handleWrite_of_ne hstate err self
  obtain ⟨p, e, r, w, hlist, hp, he, hr, hw⟩ := callbacks_eq revents_
  rw [handleEvent, verdict, hlist]
  rcases hp with rfl | rfl <;> rcases he with rfl | rfl <;> rcases hr with rfl | rfl <;>
    rcases hw with rfl | rfl <;>
    simp [callback, handleError_eq hs hch, handleWrite_eq hs hch, hafter, pure, Except.pure] <;> rfl

/-! ## The channel, the functors and the state -/

/-- Between attempts, in one, or with the reset of its channel queued. -/
inductive Shape (c : Connector) : Prop where
  | idle (channel : c.channel_ = none) (resets : c.resets = 0) (state : c.state_ ≠ .kConnecting)
      (count : c.attempts = c.resetsRun)
  | trying (k : ℕ) (channel : c.channel_ = some ⟨k, true⟩) (resets : c.resets = 0)
      (state : c.state_ = .kConnecting) (count : c.attempts = c.resetsRun + 1)
  | ending (k : ℕ) (channel : c.channel_ = some ⟨k, false⟩) (resets : c.resets = 1)
      (state : c.state_ ≠ .kConnecting) (count : c.attempts = c.resetsRun + 1)

theorem shape_new : new.Shape := .idle rfl rfl (by decide) rfl

/-- An operation that concerns neither. -/
theorem Shape.of_eq (h : c.Shape) (hch : c'.channel_ = c.channel_) (hr : c'.resets = c.resets)
    (hs : c'.state_ = .kConnecting ↔ c.state_ = .kConnecting) (ha : c'.attempts = c.attempts)
    (hn : c'.resetsRun = c.resetsRun) : c'.Shape := by
  cases h with
  | idle h1 h2 h3 h4 =>
    exact .idle (hch.trans h1) (hr.trans h2) (fun h => h3 (hs.mp h)) (by rw [ha, hn, h4])
  | trying k h1 h2 h3 h4 =>
    exact .trying k (hch.trans h1) (hr.trans h2) (hs.mpr h3) (by rw [ha, hn, h4])
  | ending k h1 h2 h3 h4 =>
    exact .ending k (hch.trans h1) (hr.trans h2) (fun h => h3 (hs.mp h)) (by rw [ha, hn, h4])

theorem retry_fields (c : Connector) (k : ℕ) : (c.retry k).channel_ = c.channel_ ∧
    (c.retry k).resets = c.resets ∧ (c.retry k).attempts = c.attempts ∧
    (c.retry k).resetsRun = c.resetsRun := by
  cases h : c.connect_ with
  | true => rw [retry_of_connect h]; exact ⟨rfl, rfl, rfl, rfl⟩
  | false => rw [retry_of_stopped h]; exact ⟨rfl, rfl, rfl, rfl⟩

/-- A cancel takes a retry timer out of the queue, if anything. -/
theorem cancel_eq (c : Connector) :
    ∃ waiting, waiting.Sublist c.waiting ∧ c.cancel = { c with waiting } := by
  unfold cancel
  split
  · exact ⟨c.waiting, List.Sublist.refl _, rfl⟩
  · exact ⟨_, List.filter_sublist, rfl⟩

theorem stop_eq (c : Connector) :
    ∃ waiting, waiting.Sublist c.waiting ∧ c.stop = { c with connect_ := false, waiting } :=
  cancel_eq { c with connect_ := false }

theorem Shape.stop (h : c.Shape) : c.stop.Shape := by
  obtain ⟨waiting, -, heq⟩ := stop_eq c
  rw [heq]
  exact h.of_eq rfl rfl Iff.rfl rfl rfl

theorem Shape.connect (h : c.Shape) (hne : c.state_ ≠ .kConnecting) {e : ConnectErrno}
    (hc : c.connect e = .ok c') : c'.Shape := by
  rcases connect_cases c e with heq | heq | heq
  · obtain ⟨hch, rfl⟩ := connecting_eq_ok_iff.mp (heq.symm.trans hc)
    cases h with
    | idle _ h2 _ h4 => exact .trying c.created rfl h2 rfl (congrArg (· + 1) h4)
    | trying k h1 => exact absurd (h1.symm.trans hch) (by simp)
    | ending k h1 => exact absurd (h1.symm.trans hch) (by simp)
  · obtain rfl := Except.ok.inj (heq.symm.trans hc)
    obtain ⟨h1, h2, h3, h4⟩ := retry_fields c.createSocket c.created
    refine h.of_eq h1 h2 ?_ h3 h4
    rw [state_retry]
    exact iff_of_false (by decide) hne
  · obtain rfl := Except.ok.inj (heq.symm.trans hc)
    exact h.of_eq rfl rfl Iff.rfl rfl rfl

theorem Shape.startInLoop (h : c.Shape) {e : ConnectErrno} (hc : c.startInLoop e = .ok c') :
    c'.Shape := by
  obtain ⟨hs, hc⟩ := startInLoop_eq_ok_iff.mp hc
  split_ifs at hc
  · exact h.connect (by rw [hs]; decide) hc
  · obtain rfl := Except.ok.inj hc
    exact h

theorem Shape.restart (h : c.Shape) (hn : c.attempt = none) {e : ConnectErrno}
    (hc : c.restart e = .ok c') : c'.Shape := by
  have hne : c.state_ ≠ .kConnecting := by
    cases h with
    | idle h1 h2 h3 => exact h3
    | trying k h1 => simp [attempt, h1] at hn
    | ending k h1 h2 h3 => exact h3
  have h' : Shape { c with state_ := .kDisconnected, retryDelayMs_ := kInitRetryDelayMs,
                           connect_ := true } :=
    h.of_eq rfl rfl (iff_of_false (by simp) hne) rfl rfl
  exact h'.startInLoop hc

theorem Shape.settle (h : c.Shape) {k : ℕ} (hch : c.channel_ = some ⟨k, true⟩) (v : Verdict) :
    (c.settle k v).Shape := by
  cases h with
  | idle h1 => exact absurd (h1.symm.trans hch) (by simp)
  | ending j h1 => exact absurd (h1.symm.trans hch) (by simp)
  | trying j h1 h2 h3 h4 =>
    cases v with
    | goesOn => exact .trying j h1 h2 h3 h4
    | failed =>
      obtain ⟨g1, g2, g3, g4⟩ := retry_fields (c.detach k) k
      refine .ending k g1 (by rw [Connector.settle, g2, detach, h2]) ?_ ?_
      · rw [Connector.settle, state_retry]
        decide
      · rw [Connector.settle, g3, g4]
        exact h4
    | succeeded =>
      have hst : (c.settle k .succeeded).state_ ≠ .kConnecting := by
        rw [Connector.settle, state_succeed]
        decide
      unfold Connector.settle succeed close at hst ⊢
      dsimp only at hst ⊢
      split_ifs at hst ⊢
      · exact .ending k rfl (by rw [detach, h2]) hst h4
      · exact .ending k rfl (by rw [detach, h2]) hst h4

theorem Shape.runReset (h : c.Shape) (hr : 0 < c.resets) : c.runReset.Shape := by
  cases h with
  | idle h1 h2 => omega
  | trying k h1 h2 => omega
  | ending k h1 h2 h3 h4 => exact .idle rfl (by rw [Connector.runReset, h2]) h3 h4

theorem Shape.channel_none (h : c.Shape) (hr : c.resets = 0) (hst : c.state_ ≠ .kConnecting) :
    c.channel_ = none := by
  cases h with
  | idle hch => exact hch
  | trying k _ _ hs => exact absurd hs hst
  | ending k _ hr' => omega

theorem Shape.channel_some (h : c.Shape) (hr : 0 < c.resets) :
    ∃ k, c.channel_ = some ⟨k, false⟩ ∧ c.resets = 1 := by
  cases h with
  | idle _ hr' => omega
  | trying k _ hr' => omega
  | ending k hch hr' => exact ⟨k, hch, hr'⟩

/-- A channel that still waits for events is that of the attempt in progress. -/
theorem Shape.of_attempt (h : c.Shape) {k : ℕ} (hk : c.attempt = some k) :
    c.channel_ = some ⟨k, true⟩ ∧ c.resets = 0 ∧ c.state_ = .kConnecting := by
  cases h with
  | idle h1 => simp [attempt, h1] at hk
  | ending j h1 => simp [attempt, h1] at hk
  | trying j h1 h2 h3 =>
    simp only [attempt, h1, if_true, Option.some.injEq] at hk
    exact ⟨hk ▸ h1, h2, h3⟩

theorem Shape.attempt_eq_none_iff (h : c.Shape) : c.attempt = none ↔ c.state_ ≠ .kConnecting := by
  cases h with
  | idle h1 h2 h3 => simp [attempt, h1, h3]
  | trying k h1 h2 h3 => simp [attempt, h1, h3]
  | ending k h1 h2 h3 => simp [attempt, h1, h3]

end Connector

end HighServer
