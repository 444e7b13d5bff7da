import HighServer.Lib.RoundRobin
import HighServer.Net.InterestList

/-!
# Polling

`EPoller::poll` asks `epoll_wait` for at most `events_.size()` events, and doubles `events_` when it
got that many. Of the kernel it is assumed that it keeps the descriptors that are ready in a queue,
first come, first served: what has been reported goes to the end, so that successive calls round
robin through the descriptors when there are more than asked for. Readiness is level-triggered: a
descriptor is in the queue as long as a condition that it is registered for, or an error or hangup,
holds of it.

* `revents`: what the kernel reports of a descriptor; `epollWait`, `poll`;
* `step`: conditions come and go, the owner changes channels, the loop polls;
* `Polled`: the interest list, the queue and `events_` agree; `step_polled`;
* `callbacks_ne_nil`, `mem_handleEvent_iff`: what the handler of a channel does with a report;
* `registeredChannels`, `Fits`: `events_` grows with the number of the channels that are registered;
* `step_waits`: the place of a descriptor that stays ready and the size of `events_`;
* **`polling`**: what a poll reports, how long `events_` gets, and how soon a descriptor that stays
  ready is reported.
-/

namespace HighServer

open Runs RoundRobin

/-! ## The kernel -/

/-- What is reported of a descriptor, given what holds of it. -/
def revents (p : EPoller) (condition : ℕ → Mask) (fd : ℕ) : Mask :=
  match p fd with
  | none => 0
  | some e => condition fd &&& (e.events ||| EPOLLERR ||| EPOLLHUP)

/-- An entry of `events_` that the kernel fills in: `data.ptr` and `events`. -/
structure Reported where
  ptr : ℕ
  events : Mask
  deriving DecidableEq, Repr

/-- The entries that `::epoll_wait` fills in for the descriptors at the head of the queue. -/
def epollWait (p : EPoller) (condition : ℕ → Mask) (ready : List ℕ) (maxevents : ℕ) :
    List Reported :=
  (ready.take maxevents).filterMap fun fd =>
    (p fd).map fun e => ⟨e.ptr, revents p condition fd⟩

/-- One loop with its `EPoller`, and the kernel's side of it. -/
structure Polling (ι : Type) where
  loop : Channels ι
  /-- the callbacks that have been set -/
  callback : ι → Channel.Callback → Bool
  condition : ℕ → Mask
  ready : List ℕ
  /-- `events_.size()` -/
  events_ : ℕ
  activeChannels_ : List Reported

namespace Polling

variable {ι : Type} [DecidableEq ι]

def kInitEventListSize : ℕ := 16

def new (ptrs : ι → ℕ) (fds : ι ↪ ℕ) : Polling ι where
  loop := Channels.new ptrs fds
  callback _ _ := false
  condition _ := 0
  ready := []
  events_ := kInitEventListSize
  activeChannels_ := []

/-- The queue when something about `fd` has changed. -/
def requeue (s : Polling ι) (fd : ℕ) : Polling ι :=
  { s with ready := settle (revents s.loop.poller s.condition fd ≠ 0) fd s.ready }

/-- `poll` with `fillActiveChannels`; `activeChannels_` has been cleared. -/
def poll (s : Polling ι) : Polling ι :=
  let events := epollWait s.loop.poller s.condition s.ready s.events_
  { s with
    activeChannels_ := events
    events_ := if events.length = s.events_ then s.events_ * 2 else s.events_
    ready := turn s.events_ s.ready }

inductive Event (ι : Type) where
  /-- other conditions hold of a descriptor -/
  | condition (fd : ℕ) (m : Mask)
  /-- `setReadCallback(cb)` and the like; `set` says that `cb` is not empty -/
  | setCallback (i : ι) (c : Channel.Callback) (set : Bool)
  /-- the loop thread changes a channel -/
  | op (i : ι) (op : ChannelOp)
  | poll
  deriving DecidableEq

/-- `::epoll_wait` does not return while nothing is ready. -/
def step (s : Polling ι) : Event ι → Option (Polling ι)
  | .condition fd m => some ({ s with condition := Function.update s.condition fd m }.requeue fd)
  | .setCallback i c set =>
    some { s with callback := Function.update s.callback i (Function.update (s.callback i) c set) }
  | .op i op => (Channels.step s.loop (i, op)).map fun loop =>
      { s with loop }.requeue (s.loop.channels i).fd_
  | .poll => if s.ready = [] then none else some s.poll

/-! ## One step -/

variable {ptrs : ι → ℕ} {fds : ι ↪ ℕ} {s s' : Polling ι} {e : Event ι}

/-- The masks that the operations of a channel can make. -/
def masks : List Mask :=
  [Channel.kNoneEvent, Channel.kReadEvent, Channel.kWriteEvent,
    Channel.kReadEvent ||| Channel.kWriteEvent]

/-- A property of each of the masks, computed. -/
theorem of_mem_masks {P : Mask → Prop} [DecidablePred P]
    (h : masks.all (fun m => decide (P m)) = true) {m : Mask} (hm : m ∈ masks) : P m :=
  of_decide_eq_true (List.all_eq_true.mp h m hm)

theorem masked_mem {c : Channel} (h : c.events_ ∈ masks) (op : ChannelOp) :
    (op.result c).events_ ∈ masks := by
  cases op with
  | enableReading =>
    exact of_mem_masks (P := fun m => m ||| Channel.kReadEvent ∈ masks) (by decide) h
  | enableWriting =>
    exact of_mem_masks (P := fun m => m ||| Channel.kWriteEvent ∈ masks) (by decide) h
  | disableWriting =>
    exact of_mem_masks (P := fun m => m &&& ~~~Channel.kWriteEvent ∈ masks) (by decide) h
  | disableAll => exact List.mem_cons_self
  | removeChannel => exact h

/-- What holds between the kernel and the loop. -/
structure Polled (ptrs : ι → ℕ) (fds : ι ↪ ℕ) (s : Polling ι) : Prop where
  matched : s.loop.Matched ptrs fds
  only : ∀ fd, (∀ i, fds i ≠ fd) → s.loop.poller fd = none
  masks : ∀ i, (s.loop.channels i).events_ ∈ masks
  nodup : s.ready.Nodup
  queue : ∀ fd, fd ∈ s.ready ↔ revents s.loop.poller s.condition fd ≠ 0
  size : ∃ k, s.events_ = kInitEventListSize * 2 ^ k

omit [DecidableEq ι] in
theorem polled_new (ptrs : ι → ℕ) (fds : ι ↪ ℕ) : (new ptrs fds).Polled ptrs fds where
  matched := Channels.matched_new ptrs fds
  only _ _ := rfl
  masks _ := by simp [new, Channels.new, Channel.new, Polling.masks]
  nodup := List.nodup_nil
  queue fd := by simp [new, Channels.new, revents]
  size := ⟨0, rfl⟩

/-- A channel operation: one channel, and one entry of the interest list. -/
theorem loop_step {l l' : Channels ι} (h : l.Matched ptrs fds) {i : ι} {op : ChannelOp}
    (hs : Channels.step l (i, op) = some l') :
    l'.channels = Function.update l.channels i (op.result (l.channels i)) ∧
      ∀ fd, fd ≠ fds i → l'.poller fd = l.poller fd := by
  obtain ⟨ha, hp⟩ := Channels.step_eq_some_iff.mp hs
  obtain ⟨p, hperform, -, hother⟩ := perform_of_agrees (h.agrees i) ha
  rw [Channels.perform, hperform, ok_bind] at hp
  obtain rfl := Except.ok.inj hp
  rw [h.fd_] at hother
  exact ⟨rfl, hother⟩

omit [DecidableEq ι] in
/-- The queue follows a change of one descriptor. -/
theorem mem_requeue_iff {p : EPoller} {condition : ℕ → Mask} (h : s.ready.Nodup)
    (hq : ∀ fd, fd ∈ s.ready ↔ revents p condition fd ≠ 0) {fd : ℕ}
    (hother : ∀ fd', fd' ≠ fd →
      revents s.loop.poller s.condition fd' = revents p condition fd') (fd' : ℕ) :
    fd' ∈ (s.requeue fd).ready ↔ revents s.loop.poller s.condition fd' ≠ 0 := by
  unfold requeue
  dsimp only
  rw [mem_settle_iff h]
  split_ifs with hfd
  · rw [hfd, decide_eq_true_iff]
  · rw [hq, hother fd' hfd]

/-- **One step.** -/
theorem step_polled (h : s.Polled ptrs fds) (hs : step s e = some s') : s'.Polled ptrs fds := by
  cases e with
  | condition fd m =>
    obtain rfl := Option.some.inj hs
    refine ⟨h.matched, h.only, h.masks, nodup_settle h.nodup _ _, ?_, h.size⟩
    refine mem_requeue_iff (s := { s with condition := Function.update s.condition fd m })
      h.nodup h.queue fun fd' hfd => ?_
    simp only [revents, Function.update_of_ne hfd]
  | setCallback i c set =>
    obtain rfl := Option.some.inj hs
    exact ⟨h.matched, h.only, h.masks, h.nodup, h.queue, h.size⟩
  | op i op =>
    obtain ⟨loop, hloop, rfl⟩ := Option.map_eq_some_iff.mp hs
    obtain ⟨hchannels, hother⟩ := loop_step h.matched hloop
    refine ⟨Channels.step_matched h.matched hloop, fun fd hfd => ?_, fun j => ?_,
      nodup_settle h.nodup _ _, ?_, h.size⟩
    · exact (hother fd (hfd i).symm).trans (h.only fd hfd)
    · change (loop.channels j).events_ ∈ _
      rw [hchannels, Function.update_apply]
      split_ifs with hj
      · exact masked_mem (h.masks i) op
      · exact h.masks j
    · refine mem_requeue_iff (s := { s with loop }) h.nodup h.queue fun fd' hfd => ?_
      rw [h.matched.fd_] at hfd
      simp only [revents, hother fd' hfd]
  | poll =>
    simp only [step] at hs
    split_ifs at hs with hready
    obtain rfl := Option.some.inj hs
    refine ⟨h.matched, h.only, h.masks, nodup_turn h.nodup _, fun fd => ?_, ?_⟩
    · exact mem_turn_iff.trans (h.queue fd)
    · obtain ⟨k, hk⟩ := h.size
      unfold poll
      dsimp only
      split_ifs
      · exact ⟨k + 1, by rw [hk, pow_succ, mul_assoc]⟩
      · exact ⟨k, hk⟩

/-! ## What a poll reports -/

/-- The descriptors of the next poll. -/
def batch (s : Polling ι) : List ℕ := s.ready.take s.events_

omit [DecidableEq ι] in
theorem Polled.registered (h : s.Polled ptrs fds) {fd : ℕ} (hfd : fd ∈ s.ready) :
    ∃ i, fds i = fd ∧ (s.loop.channels i).index_ = .kAdded ∧
      s.loop.poller fd = some ⟨(s.loop.channels i).events_, ptrs i⟩ := by
  have hne := (h.queue fd).mp hfd
  obtain ⟨i, hi⟩ : ∃ i, fds i = fd := by
    by_contra hno
    rw [revents, h.only fd (not_exists.mp hno)] at hne
    exact hne rfl
  refine ⟨i, hi, ?_⟩
  have hagrees := h.matched.agrees i
  rw [Agrees, h.matched.fd_, hi, Channel.registration] at hagrees
  cases hindex : (s.loop.channels i).index_ with
  | kNew =>
    rw [hindex] at hagrees
    rw [revents, hagrees] at hne
    exact absurd rfl hne
  | kAdded =>
    rw [hindex] at hagrees
    exact ⟨rfl, by rw [hagrees, h.matched.ptr]⟩

omit [DecidableEq ι] in
theorem Polled.epollWait_eq_map (h : s.Polled ptrs fds) :
    epollWait s.loop.poller s.condition s.ready s.events_ = s.batch.map fun fd =>
      ⟨((s.loop.poller fd).map (·.ptr)).getD 0, revents s.loop.poller s.condition fd⟩ := by
  rw [← List.filterMap_eq_map, epollWait]
  refine List.filterMap_congr fun fd hfd => ?_
  obtain ⟨i, -, -, hp⟩ := h.registered (List.mem_of_mem_take hfd)
  rw [Function.comp_apply, hp]
  rfl

omit [DecidableEq ι] in
theorem Polled.length_epollWait (h : s.Polled ptrs fds) :
    (epollWait s.loop.poller s.condition s.ready s.events_).length = s.batch.length := by
  rw [h.epollWait_eq_map, List.length_map]

omit [DecidableEq ι] in
/-- Every descriptor of the batch is reported, with the address of its channel. -/
theorem Polled.mem_epollWait_iff (h : s.Polled ptrs fds) {r : Reported} :
    r ∈ epollWait s.loop.poller s.condition s.ready s.events_ ↔
      ∃ i, fds i ∈ s.batch ∧ r = ⟨ptrs i, revents s.loop.poller s.condition (fds i)⟩ := by
  rw [h.epollWait_eq_map, List.mem_map]
  constructor
  · rintro ⟨fd, hfd, rfl⟩
    obtain ⟨i, rfl, -, hp⟩ := h.registered (List.mem_of_mem_take hfd)
    exact ⟨i, hfd, by rw [hp]; rfl⟩
  · rintro ⟨i, hi, rfl⟩
    obtain ⟨j, hj, -, hp⟩ := h.registered (List.mem_of_mem_take hi)
    obtain rfl := fds.injective hj
    exact ⟨_, hi, by rw [hp]; rfl⟩

omit [DecidableEq ι] in
/-- No channel is reported twice. -/
theorem Polled.nodup_epollWait (h : s.Polled ptrs fds) (hptrs : Function.Injective ptrs) :
    ((epollWait s.loop.poller s.condition s.ready s.events_).map (·.ptr)).Nodup := by
  rw [h.epollWait_eq_map, List.map_map]
  refine List.Nodup.map_on (fun fd hfd fd' hfd' heq => ?_) (h.nodup.sublist (List.take_sublist _ _))
  obtain ⟨i, rfl, -, hi⟩ := h.registered (List.mem_of_mem_take hfd)
  obtain ⟨j, rfl, -, hj⟩ := h.registered (List.mem_of_mem_take hfd')
  simp only [Function.comp_apply, hi, hj, Option.map_some, Option.getD_some] at heq
  rw [hptrs heq]

/-- A report leads to a callback. -/
theorem callbacks_ne_nil {m c : Mask} (hm : m ∈ masks)
    (hne : c &&& (m ||| EPOLLERR ||| EPOLLHUP) ≠ 0) :
    Channel.callbacks (c &&& (m ||| EPOLLERR ||| EPOLLHUP)) ≠ [] := by
  intro hnil
  generalize hr : c &&& (m ||| EPOLLERR ||| EPOLLHUP) = r at hne hnil
  -- nothing is reported but what the five conditions can show
  have hall := of_mem_masks (P := fun m => (m ||| EPOLLERR ||| EPOLLHUP) &&&
    (EPOLLIN ||| EPOLLPRI ||| POLLRDHUP ||| EPOLLOUT ||| (EPOLLERR ||| POLLNVAL) ||| EPOLLHUP) =
      m ||| EPOLLERR ||| EPOLLHUP) (by decide) hm
  have hself : r &&&
      (EPOLLIN ||| EPOLLPRI ||| POLLRDHUP ||| EPOLLOUT ||| (EPOLLERR ||| POLLNVAL) ||| EPOLLHUP) =
        r := by
    rw [← hr, BitVec.and_assoc, hall]
  simp only [Channel.callbacks, List.append_eq_nil_iff, ite_eq_right_iff, List.cons_ne_nil,
    imp_false, not_and_or, not_not] at hnil
  obtain ⟨⟨⟨hclose, herror⟩, hread⟩, hwrite⟩ := hnil
  have hin : r &&& EPOLLIN = 0 := by
    rw [show EPOLLIN = (EPOLLIN ||| EPOLLPRI ||| POLLRDHUP) &&& EPOLLIN by decide,
      ← BitVec.and_assoc, hread]
    rfl
  have hhup : r &&& EPOLLHUP = 0 := hclose.resolve_right fun h => h hin
  apply hne
  rw [← hself, BitVec.and_or_distrib_left, BitVec.and_or_distrib_left, BitVec.and_or_distrib_left,
    hread, hwrite, herror, hhup]
  rfl

theorem mem_handleEvent_iff {set : Channel.Callback → Bool} {r : Mask} {c : Channel.Callback} :
    c ∈ Channel.handleEvent set r ↔ c ∈ Channel.callbacks r ∧ set c = true := List.mem_filter

/-- A report of something that is asked for with `kReadEvent` selects the read callback. -/
theorem read_mem_callbacks {r : Mask} (h : r &&& Channel.kReadEvent ≠ 0) :
    .read ∈ Channel.callbacks r := by
  have hread : r &&& (EPOLLIN ||| EPOLLPRI ||| POLLRDHUP) ≠ 0 := fun hz => h (by
    rw [show Channel.kReadEvent = (EPOLLIN ||| EPOLLPRI ||| POLLRDHUP) &&& Channel.kReadEvent by
      decide, ← BitVec.and_assoc, hz]
    rfl)
  simpa [Channel.callbacks] using hread

theorem write_mem_callbacks {r : Mask} (h : r &&& Channel.kWriteEvent ≠ 0) :
    .write ∈ Channel.callbacks r := by
  simpa [Channel.callbacks, Channel.kWriteEvent] using h

/-- What the handler does with a report: it runs a callback if all are set, and one that is set runs
when something is reported that the channel asks for with it. -/
def Handles (set : Channel.Callback → Bool) (r : Mask) : Prop :=
  Channel.callbacks r ≠ [] ∧ ((∀ c, set c = true) → Channel.handleEvent set r ≠ []) ∧
    (r &&& Channel.kReadEvent ≠ 0 → set .read = true → .read ∈ Channel.handleEvent set r) ∧
    (r &&& Channel.kWriteEvent ≠ 0 → set .write = true → .write ∈ Channel.handleEvent set r)

theorem handles_of_ne_nil {r : Mask} (h : Channel.callbacks r ≠ [])
    (set : Channel.Callback → Bool) : Handles set r := by
  refine ⟨h, fun hall hnil => ?_, fun hr hset => ?_, fun hr hset => ?_⟩
  · obtain ⟨c, hc⟩ := List.exists_mem_of_ne_nil _ h
    have hmem := mem_handleEvent_iff.mpr ⟨hc, hall c⟩
    rw [hnil] at hmem
    exact List.not_mem_nil hmem
  · exact mem_handleEvent_iff.mpr ⟨read_mem_callbacks hr, hset⟩
  · exact mem_handleEvent_iff.mpr ⟨write_mem_callbacks hr, hset⟩

/-! ## The size of `events_` -/

/-- The number of the channels that are registered. -/
def registeredChannels [Fintype ι] (s : Polling ι) : ℕ :=
  (Finset.univ.filter fun i => (s.loop.channels i).index_ = .kAdded).card

omit [DecidableEq ι] in
theorem Polled.length_le [Fintype ι] (h : s.Polled ptrs fds) :
    s.ready.length ≤ s.registeredChannels := by
  have hsub : s.ready.toFinset ⊆
      (Finset.univ.filter fun i => (s.loop.channels i).index_ = .kAdded).map fds := by
    intro fd hfd
    obtain ⟨i, hi, hindex, -⟩ := h.registered (List.mem_toFinset.mp hfd)
    exact Finset.mem_map.mpr ⟨i, Finset.mem_filter.mpr ⟨Finset.mem_univ i, hindex⟩, hi⟩
  calc s.ready.length
    _ = s.ready.toFinset.card := (List.toFinset_card_of_nodup h.nodup).symm
    _ ≤ _ := Finset.card_le_card hsub
    _ = s.registeredChannels := by rw [Finset.card_map, registeredChannels]

/-- At least `kInitEventListSize`, and at most twice the number of the channels that were registered
at some moment of the run `es`. -/
def Fits [Fintype ι] (ptrs : ι → ℕ) (fds : ι ↪ ℕ) (es : List (Event ι)) (s : Polling ι) : Prop :=
  s.events_ ≤ kInitEventListSize ∨ ∃ pre post t, es = pre ++ post ∧
    Run step (new ptrs fds) pre t ∧ s.events_ ≤ 2 * t.registeredChannels

/-- What a step does to `events_`. -/
theorem step_size [Fintype ι] (h : s.Polled ptrs fds) (hs : step s e = some s') :
    s'.events_ = s.events_ ∨ s'.events_ ≤ 2 * s.registeredChannels := by
  cases e with
  | condition fd m => exact Or.inl (Option.some.inj hs ▸ rfl)
  | setCallback i c set => exact Or.inl (Option.some.inj hs ▸ rfl)
  | op i op =>
    obtain ⟨loop, -, rfl⟩ := Option.map_eq_some_iff.mp hs
    exact Or.inl rfl
  | poll =>
    simp only [step] at hs
    split_ifs at hs
    obtain rfl := Option.some.inj hs
    have hlen := h.length_epollWait
    have hle := h.length_le
    unfold poll
    dsimp only
    split_ifs with hfull
    · -- as many descriptors as `events_` has entries
      rw [hlen, batch, List.length_take] at hfull
      exact Or.inr (by omega)
    · exact Or.inl rfl

theorem fits_of_run [Fintype ι] {es : List (Event ι)} (hr : Run step (new ptrs fds) es s) :
    s.Fits ptrs fds es := by
  have hinv := hr.history (P := fun es s => s.Polled ptrs fds ∧ Run step (new ptrs fds) es s ∧
    s.Fits ptrs fds es) ?_ ⟨polled_new ptrs fds, Run.nil _, Or.inl le_rfl⟩
  · exact hinv.2.2
  · rintro es t e t' ⟨hp, ht, hf⟩ hs
    refine ⟨step_polled hp hs, run_snoc_iff.mpr ⟨t, ht, hs⟩, ?_⟩
    rcases step_size hp hs with heq | hle
    · rw [Fits, heq]
      refine hf.imp_right ?_
      rintro ⟨pre, post, u, rfl, hu, hle⟩
      exact ⟨pre, post ++ [e], u, List.append_assoc _ _ _, hu, hle⟩
    · exact Or.inr ⟨es, [e], t, rfl, ht, hle⟩

theorem polled_of_run {es : List (Event ι)} (hr : Run step (new ptrs fds) es s) :
    s.Polled ptrs fds :=
  hr.inv (P := Polled ptrs fds) (fun _ _ _ h hs => step_polled h hs) (polled_new ptrs fds)

/-! ## How long a descriptor waits -/

def Event.isPoll : Event ι → Bool
  | .poll => true
  | _ => false

/-- **A descriptor that is ready and not reported**: `events_` doubles with every poll, and its
place moves on by as much. -/
theorem step_waits (h : s.Polled ptrs fds) (hs : step s e = some s') {fd : ℕ} (hfd : fd ∈ s.ready)
    (hno : e = .poll → fd ∉ s.batch) :
    s'.events_ = (if e.isPoll then s.events_ * 2 else s.events_) ∧
      (fd ∈ s'.ready → s'.ready.idxOf fd + s'.events_ ≤ s.ready.idxOf fd + s.events_) ∧
      (e.isPoll → fd ∈ s'.ready) := by
  cases e with
  | condition fd' m =>
    obtain rfl := Option.some.inj hs
    exact ⟨rfl, fun hfd' => Nat.add_le_add_right (idxOf_settle_le h.nodup hfd hfd') _, nofun⟩
  | setCallback i c set =>
    obtain rfl := Option.some.inj hs
    exact ⟨rfl, fun _ => le_rfl, nofun⟩
  | op i op =>
    obtain ⟨loop, -, rfl⟩ := Option.map_eq_some_iff.mp hs
    exact ⟨rfl, fun hfd' => Nat.add_le_add_right (idxOf_settle_le h.nodup hfd hfd') _, nofun⟩
  | poll =>
    have hbatch := hno rfl
    simp only [step] at hs
    split_ifs at hs
    obtain rfl := Option.some.inj hs
    have hturn := idxOf_turn hfd hbatch
    have hfull : (epollWait s.loop.poller s.condition s.ready s.events_).length = s.events_ := by
      rw [h.length_epollWait, batch, List.length_take, min_eq_left_iff]
      by_contra hlt
      rw [batch, List.take_of_length_le (not_le.mp hlt).le] at hbatch
      exact hbatch hfd
    have hsize : s.poll.events_ = s.events_ * 2 := by
      unfold poll
      exact if_pos hfull
    refine ⟨hsize, fun _ => ?_, fun _ => mem_turn_iff.mpr hfd⟩
    rw [hsize]
    change (turn s.events_ s.ready).idxOf fd + _ ≤ _
    omega

/-- Along a run in which it is ready and not reported. -/
theorem waits_of_run (h : s.Polled ptrs fds) {fd : ℕ} {es : List (Event ι)}
    (hr : Run step s es s') (hw : Along step (fun t _ => fd ∈ t.ready) s es)
    (hno : Along step (fun t e => e = .poll → fd ∉ t.batch) s es) :
    s.events_ * 2 ^ es.countP Event.isPoll ≤ s.ready.idxOf fd + s.events_ := by
  have hinv := hr.history_of (C := fun t e => fd ∈ t.ready ∧ (e = .poll → fd ∉ t.batch))
    (P := fun es t => t.Polled ptrs fds ∧ t.events_ = s.events_ * 2 ^ es.countP Event.isPoll ∧
      t.events_ ≤ s.ready.idxOf fd + s.events_ ∧
      (fd ∈ t.ready → t.ready.idxOf fd + t.events_ ≤ s.ready.idxOf fd + s.events_)) ?_
    (hw.and hno) ⟨h, by simp, Nat.le_add_left _ _, fun _ => le_rfl⟩
  · exact hinv.2.1 ▸ hinv.2.2.1
  · rintro es t e t' ⟨ht, hsize, hle, hplace⟩ ⟨hfd, hbatch⟩ hs
    obtain ⟨hsize', hplace', hpoll⟩ := step_waits ht hs hfd hbatch
    have hmoved : fd ∈ t'.ready → t'.ready.idxOf fd + t'.events_ ≤
        s.ready.idxOf fd + s.events_ := fun hfd' => (hplace' hfd').trans (hplace hfd)
    refine ⟨step_polled ht hs, ?_, ?_, hmoved⟩
    · rw [hsize', List.countP_append, List.countP_singleton, hsize]
      split_ifs
      · rw [pow_succ, mul_assoc]
      · rfl
    · cases hp : e.isPoll with
      | true => exact (Nat.le_add_left _ _).trans (hmoved (hpoll hp))
      | false =>
        rw [hsize', hp]
        exact hle

/-- **Polling.** In every reachable state, `events_` has `16 * 2 ^ k` entries, 16 or no more than
twice as many as channels were registered at some moment. A poll fits into it; it reports registered
channels, each at most once and with something that its handler selects a callback for. And a
channel that stays ready is reported in the course of `k` polls as soon as `2 ^ k` times the size of
`events_` is more than that size and the number of the descriptors ahead of it. -/
theorem polling [Fintype ι] (ptrs fds : ι ↪ ℕ) {es : List (Event ι)}
    (hr : Run step (new ptrs fds) es s) :
    (∃ k, s.events_ = kInitEventListSize * 2 ^ k) ∧ s.Fits ptrs fds es ∧
    (∀ t, step s .poll = some t →
      t.activeChannels_ ≠ [] ∧ t.activeChannels_.length ≤ s.events_ ∧
      (t.activeChannels_.map (·.ptr)).Nodup ∧
      ∀ r ∈ t.activeChannels_, ∃ i, r.ptr = ptrs i ∧ (s.loop.channels i).index_ = .kAdded ∧
        r.events = s.condition (fds i) &&&
          ((s.loop.channels i).events_ ||| EPOLLERR ||| EPOLLHUP) ∧
        Handles (s.callback i) r.events) ∧
    ∀ i mid s', Run step s mid s' →
      Along step (fun t _ => revents t.loop.poller t.condition (fds i) ≠ 0) s mid →
      s.ready.idxOf (fds i) + s.events_ < s.events_ * 2 ^ mid.countP Event.isPoll →
      ∃ pre post t u, mid = pre ++ .poll :: post ∧ Run step s pre t ∧ step t .poll = some u ∧
        ∃ r ∈ u.activeChannels_, r.ptr = ptrs i := by
  have h := polled_of_run hr
  refine ⟨h.size, fits_of_run hr, fun t ht => ?_, fun i mid s' hmid hready hlt => ?_⟩
  · simp only [step] at ht
    split_ifs at ht with hne
    obtain rfl := Option.some.inj ht
    obtain ⟨k, hk⟩ := h.size
    have hpos : 0 < s.events_ := by rw [hk]; exact Nat.mul_pos (by decide) (Nat.two_pow_pos k)
    have hlen := h.length_epollWait
    rw [batch, List.length_take] at hlen
    refine ⟨fun hnil => ?_, ?_, h.nodup_epollWait ptrs.injective, fun r hmem => ?_⟩
    · have := List.length_pos_iff.mpr hne
      rw [show epollWait _ _ _ _ = [] from hnil, List.length_nil] at hlen
      omega
    · exact hlen.trans_le (min_le_left _ _)
    · obtain ⟨i, hi, rfl⟩ := h.mem_epollWait_iff.mp hmem
      have hfd := List.mem_of_mem_take hi
      obtain ⟨j, hj, hindex, hp⟩ := h.registered hfd
      obtain rfl := fds.injective hj
      have hrev : revents s.loop.poller s.condition (fds j) = s.condition (fds j) &&&
          ((s.loop.channels j).events_ ||| EPOLLERR ||| EPOLLHUP) := by rw [revents, hp]
      refine ⟨j, rfl, hindex, hrev, ?_⟩
      refine handles_of_ne_nil ?_ _
      dsimp only
      rw [hrev]
      exact callbacks_ne_nil (h.masks j) (hrev ▸ (h.queue _).mp hfd)
  · have hpolled : ∀ pre t, Run step s pre t → t.Polled ptrs fds := fun pre t ht =>
      ht.inv (P := Polled ptrs fds) (fun _ _ _ hp hs => step_polled hp hs) h
    by_contra hno
    refine absurd (waits_of_run h hmid ?_ ?_) (not_le.mpr hlt)
    · exact fun pre e post t hes ht =>
        ((hpolled pre t ht).queue _).mpr (hready pre e post t hes ht)
    · rintro pre e post t hes ht rfl hbatch
      have hne : t.ready ≠ [] := List.ne_nil_of_mem (List.mem_of_mem_take hbatch)
      exact hno ⟨pre, post, t, t.poll, hes, ht, if_neg hne, _,
        (hpolled pre t ht).mem_epollWait_iff.mpr ⟨i, hbatch, rfl⟩, rfl⟩

/-- Seventeen channels that read, and something comes in for one after the other. -/
def seventeen : List (Event (Fin 17)) :=
  ((List.finRange 17).map fun i => .op i .enableReading) ++
    (List.finRange 17).map fun i => .condition i EPOLLIN

/-- The last one does not fit into the first poll, and is in the second. -/
theorem seventeen_polling : ∃ s s' : Polling (Fin 17),
    Run step (new Fin.valEmbedding Fin.valEmbedding) seventeen s ∧
    Run step s [.poll, .poll] s' ∧ s'.events_ = 32 ∧
    ∃ pre post t u, [Event.poll, .poll] = pre ++ .poll :: post ∧ Run step s pre t ∧
      step t .poll = some u ∧ ∃ r ∈ u.activeChannels_, r.ptr = 16 := by
  have h : (seventeen.foldlM step (new Fin.valEmbedding Fin.valEmbedding)).map
      (fun s => (s.events_, s.ready.idxOf 16, ([Event.poll, .poll].foldlM step s).map (·.events_),
        checkAlong step (fun t _ => revents t.loop.poller t.condition 16 ≠ 0) s [.poll, .poll])) =
      some (16, 16, some 32, true) := by decide +kernel
  obtain ⟨s, hs, hq⟩ := Option.map_eq_some_iff.mp h
  simp only [Prod.mk.injEq] at hq
  obtain ⟨hsize, hplace, hpolls, hready⟩ := hq
  obtain ⟨s', hs', hsize'⟩ := Option.map_eq_some_iff.mp hpolls
  refine ⟨s, s', hs, hs', hsize', ?_⟩
  refine (polling Fin.valEmbedding Fin.valEmbedding hs).2.2.2 16 _ s' hs' (along_of_check hready) ?_
  rw [hsize, show s.ready.idxOf (Fin.valEmbedding 16) = 16 from hplace]
  decide

end Polling

end HighServer
