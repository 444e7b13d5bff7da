import HighServer.Lib.Runs

/-!
# Failed assertions

The library is built with its assertions on, so a failed one ends the process; `LOG_SYSFATAL`
does the same. A function that can end the process returns an `Outcome`.
-/

namespace HighServer

/-- The places at which the process is aborted. -/
inductive Abort where
  /-- `Buffer::retrieve`: `len <= readableBytes()` -/
  | retrieve
  /-- `Buffer::retrieveUntil`: `peek() <= end`, `end <= beginWrite()` -/
  | retrieveUntil
  /-- `Buffer::prepend`: `len <= prependableBytes()` -/
  | prepend
  /-- `Buffer::makeSpace`: `kCheapPrepend < readerIndex_` -/
  | makeSpace
  /-- `EPoller::removeChannel`: `channel->isNoneEvent()` -/
  | removeChannelEvents
  /-- `EPoller::removeChannel`: `idx == kAdded` -/
  | removeChannelIndex
  /-- `EPoller::update`: `epoll_ctl` failed -/
  | epollCtl
  /-- `TcpConnection::connectEstablished`: `state_ == kConnecting` -/
  | connectEstablished
  /-- `TcpConnection::connectDestroyed`: `state_ == kConnected` -/
  | connectDestroyed
  /-- `TcpConnection::handleClose`: `state_ == kConnected` -/
  | handleClose
  /-- `TcpServer::removeConnectionInLoop`: `n == 1`, reached by a second close callback -/
  | removeConnection
  /-- `EventLoop::assertInLoopThread` -/
  | assertInLoopThread
  /-- `Connector::startInLoop`: `state_ == kDisconnected` -/
  | startInLoop
  /-- `Connector::connecting`: `!channel_` -/
  | connecting
  /-- `Connector::handleError`: `state_ == kConnecting` -/
  | handleError
  /-- `Connector::removeAndResetChannel` without a `channel_` -/
  | removeAndResetChannel
  /-- `Connector::~Connector`: `!channel_` -/
  | destructConnector
  deriving DecidableEq, Repr

/-- The result of a function that can abort. -/
abbrev Outcome := Except Abort

/-- `assert(p)`. -/
def ensure (p : Prop) [Decidable p] (a : Abort) : Outcome Unit := if p then .ok () else .error a

section Outcome

variable {α β : Type}

@[simp] theorem ok_bind (x : α) (f : α → Outcome β) : (Except.ok x >>= f) = f x := rfl

@[simp] theorem error_bind (a : Abort) (f : α → Outcome β) :
    (Except.error a >>= f) = .error a := rfl

theorem ensure_bind_of {p : Prop} [Decidable p] (h : p) (a : Abort) (f : Unit → Outcome β) :
    (ensure p a >>= f) = f () := by
  rw [ensure, if_pos h, ok_bind]

theorem ensure_bind_of_not {p : Prop} [Decidable p] (h : ¬ p) (a : Abort)
    (f : Unit → Outcome β) : (ensure p a >>= f) = .error a := by
  rw [ensure, if_neg h, error_bind]

theorem bind_eq_ok_iff {x : Outcome α} {f : α → Outcome β} {b : β} :
    (x >>= f) = .ok b ↔ ∃ a, x = .ok a ∧ f a = .ok b :=
  Runs.except_bind_eq_ok_iff

theorem ensure_bind_eq_ok_iff {p : Prop} [Decidable p] {a : Abort} {f : Unit → Outcome β} {b : β} :
    (ensure p a >>= f) = .ok b ↔ p ∧ f () = .ok b := by
  by_cases h : p
  · rw [ensure_bind_of h, and_iff_right h]
  · rw [ensure_bind_of_not h]
    exact iff_of_false (by simp) fun hp => h hp.1

end Outcome

end HighServer
