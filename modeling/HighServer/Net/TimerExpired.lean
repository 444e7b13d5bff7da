import HighServer.Net.TimerOwnership

/-!
# Expired timers

The sentry of `getExpired` is the pair of `now` and `nullptr`, so an entry that expires at `now`
itself is behind it: it is not taken, and fails the assertion on the first entry that is left.

* `assertExpired`, `getExpiredAsserted`: the function with that assertion. Runs that pass it are
  runs of the queue without it;
* `Exact`: the entries up to `now` are taken out of both sets, in order;
* **`getExpired_exact_iff`**: so it is exactly when no entry expires at `now`; `expired_at_now` is
  a run to a queue with one.
-/

namespace HighServer.TimerQueue

open Runs

/-- `assert(it == timers_.end() || now < it->first)`, where `it` is `lower_bound(sentry)`. -/
def assertExpired (q : TimerQueue) (now : DateTime) : Except TimerFault Unit :=
  let sentry : Entry := toLex (now, 0)
  match (q.timers_.from_ sentry).begin with
  | none => .ok ()
  | some e => if now < e.expiration then .ok () else .error .expired

/-- `getExpired` -/
def getExpiredAsserted (q : TimerQueue) (now : DateTime) :
    Except TimerFault (TimerQueue × List Entry) := do
  q.assertExpired now
  q.getExpired now

/-- The entries up to `now` are returned in order, and the others are left. -/
structure Exact (q : TimerQueue) (now : DateTime) (q' : TimerQueue) (expired : List Entry) :
    Prop where
  mem : ∀ e, e ∈ expired ↔ e ∈ q.timers_ ∧ e.expiration ≤ now
  sorted : expired.Pairwise fun e f => e.expiration ≤ f.expiration
  nodup : expired.Nodup
  timers : ∀ e, e ∈ q'.timers_ ↔ e ∈ q.timers_ ∧ e ∉ expired
  active : ∀ a, a ∈ q'.activeTimers_ ↔ a ∈ q.activeTimers_ ∧ a.timer ∉ expired.map Entry.timer
  left : ∀ e ∈ q'.timers_, now < e.expiration

variable {q : TimerQueue} {now : DateTime}

/-- The entries from the sentry on. -/
theorem mem_from_sentry {e : Entry} :
    e ∈ q.timers_.from_ (toLex (now, (0 : Addr))) ↔ e ∈ q.timers_ ∧ now ≤ e.expiration := by
  rw [OrdSet.mem_from, Entry.lt_sentry, not_lt]

/-- **The assertion** fails when an entry expires at `now`. -/
theorem assertExpired_eq_ok_iff :
    q.assertExpired now = .ok () ↔ ∀ e ∈ q.timers_, e.expiration ≠ now := by
  rw [assertExpired]
  cases hb : (q.timers_.from_ (toLex (now, (0 : Addr)))).begin with
  | none =>
    refine iff_of_true rfl fun e he heq => ?_
    exact OrdSet.begin_eq_none_iff.mp hb e (mem_from_sentry.mpr ⟨he, heq.ge⟩)
  | some first =>
    obtain ⟨hfirst, hge⟩ := mem_from_sentry.mp (OrdSet.begin_mem hb)
    dsimp only
    constructor
    · intro h e he heq
      have hle := Entry.expiration_le (OrdSet.begin_le hb (mem_from_sentry.mpr ⟨he, heq.ge⟩))
      rw [if_neg (not_lt.mpr (hle.trans heq.le))] at h
      cases h
    · intro h
      rw [if_pos (lt_of_le_of_ne hge (h first hfirst).symm)]

/-- What `getExpired` does when no entry expires at `now`. -/
theorem Owned.getExpired_exact (h : q.Owned) (hne : ∀ e ∈ q.timers_, e.expiration ≠ now) :
    ∃ q' expired, q.getExpired now = .ok (q', expired) ∧ q.Exact now q' expired := by
  obtain ⟨A, hget, hm⟩ := getExpired_spec h.matched now
  have hbelow : ∀ e, e ∈ q.timers_.below (toLex (now, (0 : Addr))) ↔
      e ∈ q.timers_ ∧ e.expiration < now := fun e => by
    rw [OrdSet.mem_below, Entry.lt_sentry]
  refine ⟨_, _, hget, ⟨fun e => ?_, ?_, ?_, fun e => ?_, fun a => ?_, fun e he => ?_⟩⟩
  · rw [hbelow]
    exact and_congr_right fun he => ⟨le_of_lt, fun hle => lt_of_le_of_ne hle (hne e he)⟩
  · exact (q.timers_.below_sorted _).imp fun hlt => Entry.expiration_le (le_of_lt hlt)
  · exact (q.timers_.below_sorted _).imp fun hlt => ne_of_lt hlt
  · dsimp only
    rw [mem_from_sentry, hbelow]
    refine and_congr_right fun he => ?_
    rw [not_and, not_lt]
    exact ⟨fun hle _ => hle, fun hle => hle he⟩
  · -- by address, the two sets still have the same timers
    dsimp only
    constructor
    · intro ha
      obtain ⟨t, ht, hseq, hmem⟩ := hm.active a ha
      have hmem' := (mem_from_sentry.mp hmem).1
      obtain ⟨u, hu, -, hA⟩ := h.matched.timers _ hmem'
      obtain rfl := Option.some.inj (ht.symm.trans hu)
      refine ⟨(ActiveTimer.eq_of rfl hseq.symm : a = _) ▸ hA, fun hexp => ?_⟩
      obtain ⟨e, he, heq⟩ := List.mem_map.mp hexp
      obtain ⟨he, hlt⟩ := (hbelow e).mp he
      rw [h.matched.eq_of_timer he ht heq] at hlt
      exact absurd (mem_from_sentry.mp hmem).2 (not_le.mpr hlt)
    · rintro ⟨ha, hexp⟩
      obtain ⟨t, ht, hseq, hmem⟩ := h.matched.active a ha
      have hfrom : toLex (t.expiration_, a.timer) ∈ q.timers_.from_ (toLex (now, (0 : Addr))) := by
        refine mem_from_sentry.mpr ⟨hmem, not_lt.mp fun hlt => hexp ?_⟩
        exact List.mem_map.mpr ⟨_, (hbelow _).mpr ⟨hmem, hlt⟩, rfl⟩
      obtain ⟨u, hu, -, hA⟩ := hm.timers _ hfrom
      obtain rfl := Option.some.inj (ht.symm.trans hu)
      exact (ActiveTimer.eq_of rfl hseq.symm : a = _) ▸ hA
  · obtain ⟨he, hle⟩ := mem_from_sentry.mp he
    exact lt_of_le_of_ne hle (hne e he).symm

/-- **Exactly the expired timers.** In every reachable state and at every clock reading,
`getExpired` passes its assertions and takes exactly the entries up to `now`, exactly when no entry
expires at `now` itself. -/
theorem getExpired_exact_iff {es : List Event} (h : Run step new es q) (now : DateTime) :
    (∃ q' expired, q.getExpiredAsserted now = .ok (q', expired) ∧ q.Exact now q' expired) ↔
      ∀ e ∈ q.timers_, e.expiration ≠ now := by
  constructor
  · rintro ⟨q', expired, hget, -⟩
    rw [← assertExpired_eq_ok_iff]
    rw [getExpiredAsserted] at hget
    cases ha : q.assertExpired now with
    | ok _ => rfl
    | error f =>
      rw [ha] at hget
      cases hget
  · intro hne
    obtain ⟨q', expired, hget, hexact⟩ := (owned_of_run h).getExpired_exact hne
    refine ⟨q', expired, ?_, hexact⟩
    rw [getExpiredAsserted, assertExpired_eq_ok_iff.mpr hne]
    exact hget

/-- A timer for the time 10 and one for the time 20. -/
def twoTimers : List Event :=
  [.newTimer 1 10 0 false, .addTimerInLoop 1 0, .newTimer 2 20 0 false, .addTimerInLoop 2 0,
    .expire]

theorem twoTimers_exact : ∃ q, Run step new twoTimers q ∧
    ∃ q' expired, q.getExpiredAsserted 15 = .ok (q', expired) ∧ q.Exact 15 q' expired := by
  have h : (twoTimers.foldlM step new).map (fun q => q.timers_.toList) =
      some [toLex (10, 1), toLex (20, 2)] := by decide +kernel
  obtain ⟨q, hq, ht⟩ := Option.map_eq_some_iff.mp h
  refine ⟨q, hq, (getExpired_exact_iff hq 15).mpr fun e he => ?_⟩
  rw [OrdSet.mem_def, ht] at he
  revert e
  decide

/-- The clock shows the expiration of a timer. -/
theorem expired_at_now : ¬ ∀ es q now, Run step new es q →
    ∃ q' expired, q.getExpiredAsserted now = .ok (q', expired) ∧ q.Exact now q' expired := by
  intro hall
  have h : (twoTimers.foldlM step new).map (fun q => q.timers_.toList) =
      some [toLex (10, 1), toLex (20, 2)] := by decide +kernel
  obtain ⟨q, hq, ht⟩ := Option.map_eq_some_iff.mp h
  have hmem : (toLex (10, 1) : Entry) ∈ q.timers_ := by
    rw [OrdSet.mem_def, ht]
    decide
  obtain ⟨q', expired, hget, -⟩ := hall _ q 10 hq
  rw [getExpiredAsserted] at hget
  cases ha : q.assertExpired 10 with
  | ok _ => exact assertExpired_eq_ok_iff.mp ha _ hmem rfl
  | error f =>
    rw [ha] at hget
    cases hget

end HighServer.TimerQueue
