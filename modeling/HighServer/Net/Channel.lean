import HighServer.Net.Abort

/-!
# Channels and the epoll interest list

`Channel` carries the event mask and the `index_` of `Channel.h`; `EPoller` is the kernel's
interest list, changed by `epoll_ctl` only through `EPoller::update`.

* `epollCtl`: the kernel's side of `EPOLL_CTL_ADD`, `EPOLL_CTL_MOD`, `EPOLL_CTL_DEL`;
* `EPoller.updateChannel`, `EPoller.removeChannel`, `EPoller.enableWriting`, …;
* `Channel.callbacks`, `Channel.handleEvent`: which callbacks are run for a report, in which order;
* `Agrees`: the interest list holds the channel exactly when `index_` says so, with its mask.
  **`updateChannel_of_listed`**: `updateChannel` never reaches `LOG_SYSFATAL` and restores it.
-/

namespace HighServer

/-- An event mask, an `int` of the source. -/
abbrev Mask := BitVec 32

def EPOLLIN : Mask := 0x001
def EPOLLPRI : Mask := 0x002
def EPOLLOUT : Mask := 0x004
def EPOLLERR : Mask := 0x008
def EPOLLHUP : Mask := 0x010
def POLLNVAL : Mask := 0x020
def POLLRDHUP : Mask := 0x2000

/-- `index_`: `kNew` is -1, `kAdded` is 1. -/
inductive Index where
  | kNew
  | kAdded
  deriving DecidableEq, Repr

/-- `self` is the address of the object, the `data.ptr` of its registration. -/
structure Channel where
  self : ℕ
  fd_ : ℕ
  events_ : Mask
  index_ : Index
  deriving DecidableEq, Repr

namespace Channel

def kNoneEvent : Mask := 0
def kReadEvent : Mask := EPOLLIN ||| EPOLLPRI
def kWriteEvent : Mask := EPOLLOUT

/-- The constructor. -/
def new (self fd : ℕ) : Channel where
  self
  fd_ := fd
  events_ := kNoneEvent
  index_ := .kNew

def isNoneEvent (c : Channel) : Bool := c.events_ = kNoneEvent

def isWriting (c : Channel) : Bool := c.events_ &&& kWriteEvent ≠ 0

theorem isWriting_of_read {c : Channel} (h : c.events_ = kReadEvent) : c.isWriting = false := by
  rw [isWriting, h]
  decide

theorem isWriting_of_write {c : Channel} (h : c.events_ = kReadEvent ||| kWriteEvent) :
    c.isWriting = true := by
  rw [isWriting, h]
  decide

/-- A callback of `Channel::handleEvent`. -/
inductive Callback where
  | close
  | error
  | read
  | write
  deriving DecidableEq, Repr

/-- The callbacks that `Channel::handleEvent` selects for `revents_`, in order. Where all four are
set, these are the ones that it runs. -/
def callbacks (revents_ : Mask) : List Callback :=
  (if revents_ &&& EPOLLHUP ≠ 0 ∧ revents_ &&& EPOLLIN = 0 then [.close] else []) ++
  (if revents_ &&& (EPOLLERR ||| POLLNVAL) ≠ 0 then [.error] else []) ++
  (if revents_ &&& (EPOLLIN ||| EPOLLPRI ||| POLLRDHUP) ≠ 0 then [.read] else []) ++
  (if revents_ &&& EPOLLOUT ≠ 0 then [.write] else [])

/-- `Channel::handleEvent`: the callbacks it runs, where `set` says which are not empty. -/
def handleEvent (set : Callback → Bool) (revents_ : Mask) : List Callback :=
  (callbacks revents_).filter set

end Channel

/-! ## The kernel's interest list -/

/-- A registered `epoll_event`: the mask and the `data.ptr`. -/
structure EpollEvent where
  events : Mask
  ptr : ℕ
  deriving DecidableEq, Repr

/-- The interest list of one epoll instance, by descriptor. -/
abbrev EPoller := ℕ → Option EpollEvent

inductive CtlOp where
  | add
  | mod
  | del
  deriving DecidableEq, Repr

/-- `::epoll_ctl`; `none` is a result of -1. It fails on a second add (`EEXIST`) and on a change
or removal of a descriptor that is not there (`ENOENT`). -/
def epollCtl (p : EPoller) (op : CtlOp) (fd : ℕ) (event : EpollEvent) : Option EPoller :=
  match op, p fd with
  | .add, none => some (Function.update p fd (some event))
  | .mod, some _ => some (Function.update p fd (some event))
  | .del, some _ => some (Function.update p fd none)
  | _, _ => none

namespace EPoller

def update (p : EPoller) (operation : CtlOp) (c : Channel) : Outcome EPoller :=
  match epollCtl p operation c.fd_ ⟨c.events_, c.self⟩ with
  | some p' => pure p'
  | none => if operation = .del then pure p else .error .epollCtl

def updateChannel (p : EPoller) (c : Channel) : Outcome (EPoller × Channel) :=
  if c.index_ = .kNew then do
    let c := { c with index_ := .kAdded }
    let p ← p.update .add c
    pure (p, c)
  else if c.isNoneEvent then do
    let p ← p.update .del c
    pure (p, { c with index_ := .kNew })
  else do
    let p ← p.update .mod c
    pure (p, c)

def removeChannel (p : EPoller) (c : Channel) : Outcome (EPoller × Channel) := do
  ensure c.isNoneEvent .removeChannelEvents
  ensure (c.index_ = .kAdded) .removeChannelIndex
  let p ← p.update .del c
  pure (p, { c with index_ := .kNew })

/-! ## The channel operations, each with its `update()` -/

def enableReading (p : EPoller) (c : Channel) : Outcome (EPoller × Channel) :=
  p.updateChannel { c with events_ := c.events_ ||| Channel.kReadEvent }

def enableWriting (p : EPoller) (c : Channel) : Outcome (EPoller × Channel) :=
  p.updateChannel { c with events_ := c.events_ ||| Channel.kWriteEvent }

def disableWriting (p : EPoller) (c : Channel) : Outcome (EPoller × Channel) :=
  p.updateChannel { c with events_ := c.events_ &&& ~~~Channel.kWriteEvent }

def disableAll (p : EPoller) (c : Channel) : Outcome (EPoller × Channel) :=
  p.updateChannel { c with events_ := Channel.kNoneEvent }

end EPoller

/-! ## Agreement of `index_` and the interest list -/

/-- The registration that `index_`, the mask and the address of a channel stand for. -/
def Channel.registration (c : Channel) : Option EpollEvent :=
  match c.index_ with
  | .kNew => none
  | .kAdded => some ⟨c.events_, c.self⟩

/-- The interest list knows the channel exactly as the channel itself does. -/
def Agrees (p : EPoller) (c : Channel) : Prop := p c.fd_ = c.registration

/-- The descriptor is in the interest list exactly when `index_` is `kAdded`. -/
def Listed (p : EPoller) (c : Channel) : Prop := (p c.fd_).isSome = true ↔ c.index_ = .kAdded

variable {p : EPoller} {c : Channel}

theorem Agrees.listed (h : Agrees p c) : Listed p c := by
  rw [Listed, h, Channel.registration]
  cases c.index_ <;> simp

/-- The index after `updateChannel`: a channel without events is added when it was new, and
removed when it was added. -/
def Channel.nextIndex (c : Channel) : Index :=
  if c.index_ = .kAdded ∧ c.isNoneEvent then .kNew else .kAdded

/-- **`updateChannel` on a listed channel**, whatever its mask: `epoll_ctl` succeeds, only `index_`
and the entry of this descriptor change, and the two agree, masks included. -/
theorem updateChannel_of_listed (h : Listed p c) :
    ∃ p', p.updateChannel c = .ok (p', { c with index_ := c.nextIndex }) ∧
      Agrees p' { c with index_ := c.nextIndex } ∧ ∀ fd, fd ≠ c.fd_ → p' fd = p fd := by
  obtain ⟨self, fd, ev, idx⟩ := c
  cases idx with
  | kNew =>
    have hp : p fd = none := by simpa [Listed] using h
    refine ⟨Function.update p fd (some ⟨ev, self⟩), ?_, ?_,
      fun fd' hfd => Function.update_of_ne hfd _ _⟩
    · simp [EPoller.updateChannel, EPoller.update, epollCtl, hp, Channel.nextIndex, pure,
        Except.pure]
    · simp [Agrees, Channel.registration, Channel.nextIndex]
  | kAdded =>
    obtain ⟨e, hp⟩ : ∃ e, p fd = some e := Option.isSome_iff_exists.mp (by simpa [Listed] using h)
    by_cases hn : ev = Channel.kNoneEvent
    · refine ⟨Function.update p fd none, ?_, ?_, fun fd' hfd => Function.update_of_ne hfd _ _⟩
      · simp [EPoller.updateChannel, EPoller.update, epollCtl, hp, Channel.nextIndex, hn,
          Channel.isNoneEvent, pure, Except.pure]
      · simp [Agrees, Channel.registration, Channel.nextIndex, Channel.isNoneEvent, hn]
    · refine ⟨Function.update p fd (some ⟨ev, self⟩), ?_, ?_,
        fun fd' hfd => Function.update_of_ne hfd _ _⟩
      · simp [EPoller.updateChannel, EPoller.update, epollCtl, hp, Channel.nextIndex, hn,
          Channel.isNoneEvent, pure, Except.pure]
      · simp [Agrees, Channel.registration, Channel.nextIndex, Channel.isNoneEvent, hn]

/-- `removeChannel` on a channel without events that is in the interest list. -/
theorem removeChannel_of_listed (h : Listed p c) (hn : c.isNoneEvent = true)
    (hi : c.index_ = .kAdded) :
    p.removeChannel c = .ok (Function.update p c.fd_ none, { c with index_ := .kNew }) := by
  obtain ⟨e, hp⟩ : ∃ e, p c.fd_ = some e := Option.isSome_iff_exists.mp (h.mpr hi)
  rw [EPoller.removeChannel, ensure_bind_of hn, ensure_bind_of hi]
  simp [EPoller.update, epollCtl, hp, pure, Except.pure]

/-- `removeChannel` on a channel that is not in the interest list. -/
theorem removeChannel_of_new (hn : c.isNoneEvent = true) (hi : c.index_ = .kNew) :
    p.removeChannel c = .error .removeChannelIndex := by
  rw [EPoller.removeChannel, ensure_bind_of hn, ensure_bind_of_not (by rw [hi]; decide)]

end HighServer
