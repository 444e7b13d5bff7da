import HighServer.Lib.Runs
import HighServer.Net.Channel

/-!
# The interest list over runs

A family of channels, each with a descriptor of its own, and one epoll instance. `index_` and the
interest list are two records of the same registration.

* `ChannelOp`: the operations, each with the one `epoll_ctl` call that it makes (`perform_eq`);
* `CtlOp.Fits`: the kernel accepts that call;
* `perform_of_agrees`: an operation on a channel that agrees with the list; `step_matched`;
* **`interest_matched`**: index, mask, pointer and list agree over all runs.
-/

namespace HighServer

/-! ## The operations -/

inductive ChannelOp where
  | enableReading
  | enableWriting
  | disableWriting
  | disableAll
  | removeChannel
  deriving DecidableEq, Repr

namespace ChannelOp

def perform (p : EPoller) (c : Channel) : ChannelOp → Outcome (EPoller × Channel)
  | .enableReading => p.enableReading c
  | .enableWriting => p.enableWriting c
  | .disableWriting => p.disableWriting c
  | .disableAll => p.disableAll c
  | .removeChannel => p.removeChannel c

/-- The assertions of `removeChannel`. -/
def Allowed (c : Channel) : ChannelOp → Prop
  | .removeChannel => c.isNoneEvent = true ∧ c.index_ = .kAdded
  | _ => True

instance (c : Channel) (op : ChannelOp) : Decidable (op.Allowed c) :=
  match op with
  | .removeChannel => inferInstanceAs (Decidable (_ ∧ _))
  | .enableReading | .enableWriting | .disableWriting | .disableAll => .isTrue trivial

/-- The channel when its mask is changed. -/
def masked (c : Channel) : ChannelOp → Channel
  | .enableReading => { c with events_ := c.events_ ||| Channel.kReadEvent }
  | .enableWriting => { c with events_ := c.events_ ||| Channel.kWriteEvent }
  | .disableWriting => { c with events_ := c.events_ &&& ~~~Channel.kWriteEvent }
  | .disableAll => { c with events_ := Channel.kNoneEvent }
  | .removeChannel => c

/-- The `operation` that `epoll_ctl` is called with. -/
def operation (c : Channel) (op : ChannelOp) : CtlOp :=
  if op = .removeChannel then .del
  else if c.index_ = .kNew then .add
  else if (op.masked c).isNoneEvent then .del
  else .mod

/-- The channel after the call. -/
def result (c : Channel) (op : ChannelOp) : Channel :=
  { op.masked c with index_ := if op.operation c = .del then .kNew else .kAdded }

end ChannelOp

/-- What `epoll_ctl` expects of the descriptor. -/
def CtlOp.Fits (e : Option EpollEvent) : CtlOp → Prop
  | .add => e = none
  | .mod => e.isSome = true
  | .del => e.isSome = true

variable {p : EPoller} {c : Channel}

/-- `updateChannel` makes one call. -/
theorem updateChannel_eq (p : EPoller) (c : Channel) : p.updateChannel c =
    p.update (if c.index_ = .kNew then .add else if c.isNoneEvent then .del else .mod) c >>=
      fun p' => pure (p', { c with index_ := c.nextIndex }) := by
  obtain ⟨self, fd, ev, idx⟩ := c
  cases idx with
  | kNew => rfl
  | kAdded =>
    by_cases hn : (⟨self, fd, ev, .kAdded⟩ : Channel).isNoneEvent = true
    · simp [EPoller.updateChannel, Channel.nextIndex, hn]
    · simp [EPoller.updateChannel, Channel.nextIndex, hn]

theorem masked_fd (op : ChannelOp) (c : Channel) : (op.masked c).fd_ = c.fd_ := by
  cases op <;> rfl

/-- **One call**: each operation is one `update`. -/
theorem perform_eq {op : ChannelOp} (h : op.Allowed c) : op.perform p c =
    p.update (op.operation c) (op.masked c) >>= fun p' => pure (p', op.result c) := by
  have hindex : (op.masked c).index_ = c.index_ := by cases op <;> rfl
  -- the four operations with an `update()`
  have hupdate : op ≠ .removeChannel → p.updateChannel (op.masked c) =
      p.update (op.operation c) (op.masked c) >>= fun p' => pure (p', op.result c) := by
    intro hop
    have hop' : op.operation c = if (op.masked c).index_ = .kNew then .add
        else if (op.masked c).isNoneEvent then .del else .mod := by
      rw [ChannelOp.operation, if_neg hop, hindex]
    have hres : op.result c = { op.masked c with index_ := (op.masked c).nextIndex } := by
      rw [ChannelOp.result, hop', Channel.nextIndex]
      cases (op.masked c).index_ <;> cases (op.masked c).isNoneEvent <;> rfl
    rw [updateChannel_eq, hop', hres]
  cases op with
  | enableReading => exact hupdate (by decide)
  | enableWriting => exact hupdate (by decide)
  | disableWriting => exact hupdate (by decide)
  | disableAll => exact hupdate (by decide)
  | removeChannel =>
    rw [ChannelOp.perform, EPoller.removeChannel, ensure_bind_of h.1, ensure_bind_of h.2]
    rfl

/-! ## One operation -/

/-- `epoll_ctl` with an operation that fits. -/
theorem update_of_fits {op : CtlOp} (h : op.Fits (p c.fd_)) : p.update op c =
    .ok (Function.update p c.fd_ (if op = .del then none else some ⟨c.events_, c.self⟩)) := by
  cases op with
  | add =>
    have hp : p c.fd_ = none := h
    simp [EPoller.update, epollCtl, hp, pure, Except.pure]
  | mod =>
    obtain ⟨e, hp⟩ := Option.isSome_iff_exists.mp (show (p c.fd_).isSome = true from h)
    simp [EPoller.update, epollCtl, hp, pure, Except.pure]
  | del =>
    obtain ⟨e, hp⟩ := Option.isSome_iff_exists.mp (show (p c.fd_).isSome = true from h)
    simp [EPoller.update, epollCtl, hp, pure, Except.pure]

theorem kAdded_of_ne (h : c.index_ ≠ .kNew) : c.index_ = .kAdded := by
  cases hi : c.index_ with
  | kNew => exact absurd hi h
  | kAdded => rfl

/-- The call that `index_` decides on is the one that fits. -/
theorem operation_fits {op : ChannelOp} (h : Agrees p c) (ha : op.Allowed c) :
    (op.operation c).Fits (p c.fd_) := by
  rw [Agrees, Channel.registration] at h
  rw [h, ChannelOp.operation]
  split_ifs with hop hnew
  · subst hop
    rw [ha.2]
    rfl
  · rw [hnew]
    rfl
  · rw [kAdded_of_ne hnew]
    rfl
  · rw [kAdded_of_ne hnew]
    rfl

/-- **An operation** on a channel that agrees with the list: the kernel accepts its call, they agree
again, and no other entry changes. -/
theorem perform_of_agrees {op : ChannelOp} (h : Agrees p c) (ha : op.Allowed c) :
    ∃ p', op.perform p c = .ok (p', op.result c) ∧ Agrees p' (op.result c) ∧
      ∀ fd, fd ≠ c.fd_ → p' fd = p fd := by
  have hfd := masked_fd op c
  have hfits : (op.operation c).Fits (p (op.masked c).fd_) := hfd ▸ operation_fits h ha
  rw [perform_eq ha, update_of_fits hfits, ok_bind]
  refine ⟨_, rfl, ?_, fun fd hne => Function.update_of_ne (hfd ▸ hne) _ _⟩
  rw [Agrees, Channel.registration, ChannelOp.result]
  dsimp only
  rw [Function.update_self]
  split_ifs <;> rfl

/-! ## Runs -/

/-- The channels of a loop. -/
structure Channels (ι : Type) where
  poller : EPoller
  channels : ι → Channel

namespace Channels

open Runs

variable {ι : Type} [DecidableEq ι]

/-- Fresh channels and an empty interest list. -/
def new (ptrs : ι → ℕ) (fds : ι ↪ ℕ) : Channels ι where
  poller _ := none
  channels i := Channel.new (ptrs i) (fds i)

def perform (s : Channels ι) (i : ι) (op : ChannelOp) : Outcome (Channels ι) := do
  let (poller, c) ← op.perform s.poller (s.channels i)
  pure { poller, channels := Function.update s.channels i c }

def step (s : Channels ι) (e : ι × ChannelOp) : Option (Channels ι) :=
  if e.2.Allowed (s.channels e.1) then (s.perform e.1 e.2).toOption else none

theorem step_eq_some_iff {s s' : Channels ι} {e : ι × ChannelOp} :
    step s e = some s' ↔ e.2.Allowed (s.channels e.1) ∧ s.perform e.1 e.2 = .ok s' :=
  ite_toOption_eq_some_iff

/-- Every channel agrees with the list, under the address and the descriptor that it was made
with. -/
structure Matched (ptrs : ι → ℕ) (fds : ι ↪ ℕ) (s : Channels ι) : Prop where
  agrees : ∀ i, Agrees s.poller (s.channels i)
  ptr : ∀ i, (s.channels i).self = ptrs i
  fd_ : ∀ i, (s.channels i).fd_ = fds i

variable {ptrs : ι → ℕ} {fds : ι ↪ ℕ} {s s' : Channels ι}

omit [DecidableEq ι] in
theorem matched_new (ptrs : ι → ℕ) (fds : ι ↪ ℕ) : (new ptrs fds).Matched ptrs fds where
  agrees _ := rfl
  ptr _ := rfl
  fd_ _ := rfl

/-- **One step.** -/
theorem step_matched {e : ι × ChannelOp} (h : s.Matched ptrs fds) (hs : step s e = some s') :
    s'.Matched ptrs fds := by
  obtain ⟨ha, hp⟩ := step_eq_some_iff.mp hs
  obtain ⟨p, hperform, hagrees, hother⟩ := perform_of_agrees (h.agrees e.1) ha
  rw [perform, hperform, ok_bind] at hp
  obtain rfl := Except.ok.inj hp
  have hself : (e.2.result (s.channels e.1)).self = (s.channels e.1).self := by
    cases e.2 <;> rfl
  have hfd : (e.2.result (s.channels e.1)).fd_ = (s.channels e.1).fd_ := by
    cases e.2 <;> rfl
  refine ⟨fun i => ?_, fun i => ?_, fun i => ?_⟩
  · by_cases hi : i = e.1
    · subst hi
      dsimp only
      rw [Function.update_self]
      exact hagrees
    · -- another channel, and so another descriptor
      dsimp only
      rw [Function.update_of_ne hi, Agrees, hother]
      · exact h.agrees i
      · rw [h.fd_, h.fd_]
        exact fun hfds => hi (fds.injective hfds)
  · dsimp only
    rw [Function.update_apply]
    split_ifs with hi
    · rw [hself, h.ptr, hi]
    · exact h.ptr i
  · dsimp only
    rw [Function.update_apply]
    split_ifs with hi
    · rw [hfd, h.fd_, hi]
    · exact h.fd_ i

/-- **The interest list.** After every run, a descriptor is in the list exactly when `index_` is
`kAdded`, and then with the mask and the address of its channel. Any operation makes one call to
`epoll_ctl` next, for this descriptor; it is one that the kernel accepts, so `LOG_SYSFATAL` is not
reached. -/
theorem interest_matched (ptrs : ι → ℕ) (fds : ι ↪ ℕ) {es : List (ι × ChannelOp)}
    (h : Run step (new ptrs fds) es s) (i : ι) :
    ((s.channels i).index_ = .kAdded ↔ (s.poller (fds i)).isSome = true) ∧
    ((s.channels i).index_ = .kAdded →
      s.poller (fds i) = some ⟨(s.channels i).events_, ptrs i⟩) ∧
    ∀ op : ChannelOp, op.Allowed (s.channels i) →
      (∀ p, op.perform p (s.channels i) =
        p.update (op.operation (s.channels i)) (op.masked (s.channels i)) >>=
          fun p' => pure (p', op.result (s.channels i))) ∧
      (op.masked (s.channels i)).fd_ = fds i ∧
      (op.operation (s.channels i)).Fits (s.poller (fds i)) ∧
        ∃ s', s.perform i op = .ok s' := by
  have hm := h.inv (P := Matched ptrs fds) (fun _ _ _ ht hs => step_matched ht hs)
    (matched_new ptrs fds)
  have hagrees := hm.agrees i
  rw [← hm.fd_ i]
  refine ⟨hagrees.listed.symm, fun hadd => ?_, fun op ha =>
    ⟨fun p => perform_eq ha, masked_fd op _, operation_fits hagrees ha, ?_⟩⟩
  · rw [hagrees, Channel.registration, hadd, hm.ptr]
  · obtain ⟨p, hperform, -⟩ := perform_of_agrees hagrees ha
    rw [perform, hperform, ok_bind]
    exact ⟨_, rfl⟩

/-- Two channels; the first is disabled twice, which registers it without events. -/
def twoChannels : List (Bool × ChannelOp) :=
  [(false, .enableReading), (true, .enableReading), (true, .enableWriting), (false, .disableAll),
    (false, .disableAll), (false, .removeChannel), (true, .disableWriting)]

theorem twoChannels_matched : ∃ s : Channels Bool,
    Run step (new (fun i => bif i then 200 else 100) ⟨fun i => bif i then 8 else 7, by decide⟩)
      twoChannels s ∧
    ((s.channels false).index_ = .kAdded ↔ (s.poller 7).isSome = true) ∧
    s.poller 8 = some ⟨Channel.kReadEvent, 200⟩ := by
  have h : (twoChannels.foldlM step
      (new (fun i => bif i then 200 else 100) ⟨fun i => bif i then 8 else 7, by decide⟩)).map
      (fun s => s.channels true) = some ⟨200, 8, Channel.kReadEvent, .kAdded⟩ := by decide +kernel
  obtain ⟨s, hs, hq⟩ := Option.map_eq_some_iff.mp h
  have h₀ := interest_matched _ _ hs false
  have h₁ := (interest_matched _ _ hs true).2.1
  rw [hq] at h₁
  exact ⟨s, hs, h₀.1, h₁ rfl⟩

end Channels

end HighServer
