import HighServer.Net.TimerOwnership

/-!
# Pending timers and the timerfd

The timerfd is set when a timer becomes the first of the queue, and at the end of `reset`, where
an expiration of 0 counts as invalid and is left out.

* `howMuchTimeFromNow_ne_zero`: the time that is set never disarms the timerfd;
* `Awake`: the timerfd will become readable, or is, for a target not after any entry;
* `Timely`: the clock is not at 0 with a timer for 0 in the queue, and no timer is restarted for 0;
* `Armed`: the invariant; inside of `handleRead` it is about timers for 0 only; `step_armed`;
* **`timer_pending`**: the queue never sleeps on a pending timer; `not_timer_pending_zero` is a run
  that is not timely and does.
-/

namespace HighServer

theorem howMuchTimeFromNow_ne_zero (when_ clock : DateTime) :
    howMuchTimeFromNow when_ clock ≠ ⟨0, 0⟩ := by
  unfold howMuchTimeFromNow
  dsimp only
  intro h
  obtain ⟨hsec, hnsec⟩ := Timespec.mk.inj h
  split_ifs at hsec hnsec with hlt
  · omega
  · omega

/-- For what expiration the timerfd is set, or readable. -/
def Timerfd.pending : Timerfd → Option DateTime
  | .disarmed => none
  | .armed target _ => some target
  | .fired target _ => some target

@[simp] theorem pending_resetTimerfd (expiration clock : DateTime) :
    (resetTimerfd expiration clock).pending = some expiration := by
  rw [resetTimerfd, Timerfd.settime, if_neg (howMuchTimeFromNow_ne_zero expiration clock)]
  rfl

@[simp] theorem pending_expire (fd : Timerfd) : fd.expire.pending = fd.pending := by
  cases fd <;> rfl

namespace TimerQueue

open Runs

variable {q q' : TimerQueue} {p : Addr} {t : Timer} {e : Entry}

/-- If there is a first timer, the timerfd is set or readable for a time not after it. -/
def Awake (q : TimerQueue) : Prop :=
  ∀ e, q.timers_.begin = some e → ∃ target, q.timerfd_.pending = some target ∧ target ≤ e.expiration

/-- The expiration 0, which `reset` takes for invalid, does not come up: the clock of `handleRead`
is not at 0 with a timer for 0 in the queue, and no timer is restarted for 0. -/
def Timely (q : TimerQueue) : Event → Prop
  | .handleRead now => now ≠ 0 ∨ ∀ e ∈ q.timers_.toList, e.expiration ≠ 0
  | .reset _ =>
    match q.phase with
    | .resetting now (e :: _) => ∀ t ∈ q.heap e.timer,
        t.repeat_ = true ∧ toLex (e.timer, t.sequence_) ∉ q.cancelingTimers_ →
          (t.restart now).expiration_ ≠ 0
    | _ => True
  | _ => True

/-- The entry that `reset` comes to next, with the clock reading of the batch. -/
def resetFront (q : TimerQueue) : Option (DateTime × Entry) :=
  match q.phase with
  | .resetting now (e :: _) => some (now, e)
  | _ => none

theorem timely_reset_iff {q : TimerQueue} {clock : DateTime} :
    (∀ x ∈ q.resetFront, ∀ t ∈ q.heap x.2.timer,
      t.repeat_ = true ∧ toLex (x.2.timer, t.sequence_) ∉ q.cancelingTimers_ →
        (t.restart x.1).expiration_ ≠ 0) ↔ q.Timely (.reset clock) := by
  simp only [resetFront, Timely]
  split <;> simp

instance (q : TimerQueue) (ev : Event) : Decidable (q.Timely ev) :=
  match ev with
  | .handleRead _ => inferInstanceAs (Decidable (_ ∨ _))
  | .reset _ => decidable_of_iff _ timely_reset_iff
  | .newTimer _ _ _ _ => .isTrue trivial
  | .addTimerInLoop _ _ => .isTrue trivial
  | .cancelInLoop _ => .isTrue trivial
  | .expire => .isTrue trivial
  | .run => .isTrue trivial

/-- Between the parts of `handleRead` the timerfd may be disarmed, but not on a timer for 0. -/
def Armed (q : TimerQueue) : Prop :=
  match q.phase with
  | .idle => ∀ e ∈ q.timers_, ∃ target, q.timerfd_.pending = some target ∧ target ≤ e.expiration
  | _ => ∀ e ∈ q.timers_, e.expiration = 0 → q.timerfd_.pending = some 0

/-! ## One step -/

/-- A first timer is before all others. -/
theorem isEarliest_lt (h : q.isEarliest t.expiration_ = true) (he : e ∈ q.timers_) :
    t.expiration_ < e.expiration := by
  unfold isEarliest at h
  cases hb : q.timers_.begin with
  | none => exact absurd he (OrdSet.begin_eq_none_iff.mp hb e)
  | some f =>
    rw [hb] at h
    exact (of_decide_eq_true h).trans_le (Entry.expiration_le (OrdSet.begin_le hb he))

/-- A timer that is not the first has an entry before it. -/
theorem exists_le_of_not_isEarliest (h : ¬ q.isEarliest t.expiration_ = true) :
    ∃ f ∈ q.timers_, f.expiration ≤ t.expiration_ := by
  unfold isEarliest at h
  cases hb : q.timers_.begin with
  | none => rw [hb] at h; exact absurd rfl h
  | some f =>
    rw [hb] at h
    exact ⟨f, OrdSet.begin_mem hb, not_lt.mp fun hlt => h (decide_eq_true hlt)⟩

theorem Armed.addTimerInLoop (h : q.Armed) (ho : q.Owned) (hp : p ∈ q.unadded) (clock : DateTime)
    (hq : q.addTimerInLoop p clock = .ok q') : q'.Armed := by
  obtain ⟨t, ht⟩ := ho.owns.live (mem_owners.mpr (Or.inl hp))
  rw [addTimerInLoop_spec ho.matched ht clock] at hq
  obtain rfl := Except.ok.inj hq
  have hmem : ∀ e, e ∈ q.timers_.insert (toLex (t.expiration_, p)) →
      e.expiration = t.expiration_ ∨ e ∈ q.timers_ := fun e he =>
    (OrdSet.mem_insert.mp he).imp (fun h => by rw [h]; rfl) id
  have hidle : (∀ e ∈ q.timers_, ∃ target, q.timerfd_.pending = some target ∧
        target ≤ e.expiration) → ∀ e ∈ q.timers_.insert (toLex (t.expiration_, p)),
      ∃ target, (if q.isEarliest t.expiration_ = true then resetTimerfd t.expiration_ clock
        else q.timerfd_).pending = some target ∧ target ≤ e.expiration := by
    intro h e he
    split_ifs with hfirst
    · refine ⟨t.expiration_, pending_resetTimerfd _ _, ?_⟩
      rcases hmem e he with he | he
      · exact he.ge
      · exact (isEarliest_lt hfirst he).le
    · rcases hmem e he with he | he
      · obtain ⟨f, hf, hle⟩ := exists_le_of_not_isEarliest hfirst
        obtain ⟨target, htarget, hlef⟩ := h f hf
        exact ⟨target, htarget, he ▸ hlef.trans hle⟩
      · exact h e he
  have hbusy : (∀ e ∈ q.timers_, e.expiration = 0 → q.timerfd_.pending = some 0) →
      ∀ e ∈ q.timers_.insert (toLex (t.expiration_, p)), e.expiration = 0 →
        (if q.isEarliest t.expiration_ = true then resetTimerfd t.expiration_ clock
          else q.timerfd_).pending = some 0 := by
    intro h e he h0
    split_ifs with hfirst
    · rcases hmem e he with he | he
      · rw [pending_resetTimerfd, ← he, h0]
      · exact absurd (isEarliest_lt hfirst he) (by rw [h0]; exact Nat.not_lt_zero _)
    · rcases hmem e he with he | he
      · obtain ⟨f, hf, hle⟩ := exists_le_of_not_isEarliest hfirst
        exact h f hf (Nat.le_zero.mp (hle.trans_eq (he.symm.trans h0)))
      · exact h e he h0
  rw [Armed] at h ⊢
  cases hph : q.phase with
  | idle => rw [hph] at h; exact hidle h
  | calling now expired n => rw [hph] at h; exact hbusy h
  | resetting now expired => rw [hph] at h; exact hbusy h

/-- Fewer timers and the same target. -/
theorem Armed.of_subset (h : q.Armed) (hphase : q'.phase = q.phase)
    (hT : ∀ e ∈ q'.timers_, e ∈ q.timers_) (hfd : q'.timerfd_.pending = q.timerfd_.pending) :
    q'.Armed := by
  rw [Armed] at h ⊢
  rw [hphase, hfd]
  cases hp : q.phase with
  | idle => rw [hp] at h; exact fun e he => h e (hT e he)
  | calling now expired n => rw [hp] at h; exact fun e he => h e (hT e he)
  | resetting now expired => rw [hp] at h; exact fun e he => h e (hT e he)

theorem Armed.cancelInLoop (h : q.Armed) (ho : q.Owned) (timer : ActiveTimer)
    (hq : q.cancelInLoop timer = .ok q') : q'.Armed := by
  by_cases hm : timer ∈ q.activeTimers_
  · obtain ⟨t, -, -, heq, -⟩ := cancelInLoop_active ho.matched hm
    obtain rfl := Except.ok.inj (heq.symm.trans hq)
    exact h.of_subset rfl (fun e he => (OrdSet.mem_erase.mp he).2) rfl
  · rw [cancelInLoop_inactive ho.matched hm] at hq
    obtain rfl := Except.ok.inj hq
    exact h.of_subset rfl (fun _ he => he) rfl

/-- After `getExpired` no timer for 0 is left. -/
theorem armed_handleRead (ho : q.Owned) {now : DateTime} (ht : q.Timely (.handleRead now))
    (hq : q.handleRead now = .ok q') : q'.Armed := by
  obtain ⟨A, heq, -⟩ := handleRead_spec ho.matched now
  obtain rfl := Except.ok.inj (heq.symm.trans hq)
  intro e he h0
  obtain ⟨hm, hlt⟩ := OrdSet.mem_from.mp he
  rw [Entry.lt_sentry] at hlt
  rcases ht with hnow | hno
  · exact absurd (by rw [h0]; exact Nat.pos_of_ne_zero hnow) hlt
  · exact absurd h0 (hno e hm)

theorem Armed.resetNext (h : q.Armed) (ho : q.Owned) {now : DateTime} {expired : List Entry}
    (hp : q.phase = .resetting now (e :: expired)) {clock : DateTime}
    (ht : q.Timely (.reset clock)) (hq : q.resetNext now e expired = .ok q') : q'.Armed := by
  have he : e ∈ q.batch := by rw [batch, hp]; exact List.mem_cons_self
  obtain ⟨t, hte, -⟩ := ho.expired e he
  rw [Armed, hp] at h
  by_cases hr : t.repeat_ = true ∧ toLex (e.timer, t.sequence_) ∉ q.cancelingTimers_
  · obtain ⟨heq, -⟩ :=
      resetNext_repeat ho.matched hte (ho.not_timers_of_batch he) hr now expired
    obtain rfl := Except.ok.inj (heq.symm.trans hq)
    intro f hf h0
    rcases OrdSet.mem_insert.mp hf with rfl | hf
    · simp only [Timely, hp] at ht
      exact absurd h0 (ht t hte hr)
    · exact h f hf h0
  · rw [resetNext_delete hte hr now expired] at hq
    obtain rfl := Except.ok.inj hq
    exact h

/-- The end of `reset` sets the timerfd for the first timer, or leaves it set for 0. -/
theorem Armed.resetEnd (h : q.Armed) (ho : q.Owned) {now : DateTime}
    (hp : q.phase = .resetting now []) (clock : DateTime) (hq : q.resetEnd clock = .ok q') :
    q'.Armed := by
  rw [resetEnd_spec ho.matched clock] at hq
  obtain rfl := Except.ok.inj hq
  rw [Armed, hp] at h
  intro e he
  cases hb : q.timers_.begin with
  | none => exact absurd he (OrdSet.begin_eq_none_iff.mp hb e)
  | some f =>
    have hle := Entry.expiration_le (OrdSet.begin_le hb he)
    dsimp only
    split_ifs with hv
    · exact ⟨f.expiration, pending_resetTimerfd _ _, hle⟩
    · have h0 : f.expiration = 0 := by
        unfold DateTime.valid at hv
        simpa using hv
      exact ⟨0, h f (OrdSet.begin_mem hb) h0, Nat.zero_le _⟩

/-- **One timely step.** -/
theorem step_armed {ev : Event} (h : q.Armed) (ho : q.Owned) (ht : q.Timely ev)
    (hs : step q ev = some q') : q'.Armed := by
  obtain ⟨hen, hq⟩ := step_eq_some_iff.mp hs
  cases ev with
  | newTimer p when_ interval_ repeat_ =>
    obtain rfl := Except.ok.inj hq
    exact h.of_subset rfl (fun _ he => he) rfl
  | addTimerInLoop timer clock => exact h.addTimerInLoop ho hen.2 clock hq
  | cancelInLoop timer => exact h.cancelInLoop ho timer hq
  | expire =>
    obtain rfl := Except.ok.inj hq
    exact h.of_subset rfl (fun _ he => he) (pending_expire _)
  | handleRead now => exact armed_handleRead ho ht hq
  | run =>
    simp only [Event.perform] at hq
    split at hq
    · rename_i now expired n hp
      rw [Armed, hp] at h
      split at hq
      · rename_i e he
        obtain ⟨t, hte, -⟩ := ho.expired e (by rw [batch, hp]; exact List.mem_of_getElem? he)
        rw [run_spec hte rfl now expired n] at hq
        obtain rfl := Except.ok.inj hq
        exact h
      · obtain rfl := Except.ok.inj hq
        exact h
    · obtain rfl := Except.ok.inj hq
      exact h
  | reset clock =>
    simp only [Event.perform] at hq
    split at hq
    · exact h.resetNext ho ‹_› ht hq
    · exact h.resetEnd ho ‹_› clock hq
    · obtain rfl := Except.ok.inj hq
      exact h

/-! ## Runs -/

theorem armed_of_run {es : List Event} (h : Run step new es q) (ht : Along step Timely new es) :
    q.Armed := by
  have hnew : new.Armed := fun e he => absurd he (OrdSet.not_mem_empty e)
  exact (h.inv_of (P := fun q => q.Owned ∧ q.Armed)
    (fun _ _ _ hq ht hs => ⟨step_owned hq.1 hs, step_armed hq.2 hq.1 ht hs⟩) ht
    ⟨owned_new, hnew⟩).2

/-- **The queue never sleeps on a pending timer**: after each step of a timely run, outside of
`handleRead`, the timerfd is armed or readable for a target not after the first timer; and no time
that is set is zero. -/
theorem timer_pending {es : List Event} (h : Run step new es q) (ht : Along step Timely new es) :
    (q.phase = .idle → q.Awake) ∧
    ∀ expiration clock, howMuchTimeFromNow expiration clock ≠ ⟨0, 0⟩ := by
  refine ⟨fun hidle e he => ?_, howMuchTimeFromNow_ne_zero⟩
  have ha := armed_of_run h ht
  rw [Armed, hidle] at ha
  exact ha e (OrdSet.begin_mem he)

/-- A timer that repeats expires, and its callback adds an earlier one. -/
def addInCallback : List Event :=
  [.newTimer 1 10 5 true, .addTimerInLoop 1 0, .expire, .handleRead 20, .run,
    .newTimer 2 22 0 false, .addTimerInLoop 2 20, .run, .reset 20, .reset 20]

theorem addInCallback_pending : ∃ q, Run step new addInCallback q ∧
    q.timers_.begin = some (toLex (22, 2)) ∧ q.Awake := by
  have h : (addInCallback.foldlM step new).map (fun q => (q.phase, q.timers_.begin)) =
      some (.idle, some (toLex (22, 2))) := by decide +kernel
  obtain ⟨q, hq, hpq⟩ := Option.map_eq_some_iff.mp h
  obtain ⟨hidle, hb⟩ := Prod.mk.inj hpq
  exact ⟨q, hq, hb, (timer_pending hq (along_of_check (by decide +kernel))).1 hidle⟩

/-- The clock is at 0 when the timerfd of a timer for 0 is handled. -/
def clockAtZero : List Event :=
  [.newTimer 1 0 0 false, .addTimerInLoop 1 0, .expire, .handleRead 0, .run, .reset 0]

theorem not_timer_pending_zero : ¬ ∀ es q, Run step new es q → q.phase = .idle → q.Awake := by
  intro h
  have hrun : (clockAtZero.foldlM step new).map (fun q =>
      (q.phase, q.timers_.begin, q.timerfd_)) = some (.idle, some (toLex (0, 1)), .disarmed) := by
    decide +kernel
  obtain ⟨q, hq, hpq⟩ := Option.map_eq_some_iff.mp hrun
  simp only [Prod.mk.injEq] at hpq
  obtain ⟨hidle, hb, hfd⟩ := hpq
  obtain ⟨target, htarget, -⟩ := h _ q hq hidle _ hb
  rw [hfd] at htarget
  exact absurd htarget (by simp [Timerfd.pending])

end TimerQueue

end HighServer
