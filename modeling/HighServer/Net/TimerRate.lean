import HighServer.Net.TimerCancel

/-!
# How often a timer runs

`reset` restarts a repeating timer from the clock reading of its batch, not from the time at which
it was due. So a timer that is late does not catch up, and two of its runs are never closer to each
other than its interval.

* `runs`: the runs of a timer, each with the clock reading of its batch; `Follows`: one run and the
  next;
* `Spaced`: the invariant: a timer that is not in the called part of a batch is due one interval
  after its last run; `step_spaced`;
* **`timer_spacing`**: the distance between any two runs of a timer.
-/

namespace HighServer.TimerQueue

open Runs Heap

variable {q q' : TimerQueue} {p : Addr} {t : Timer} {e : Entry} {i : ℕ}

/-- A run of the timer `i`: the timer as it was then, and the clock reading of the batch. -/
def Note.runOf (i : ℕ) : Note → Option (Timer × DateTime)
  | .started t now => if t.id = i then some (t, now) else none
  | _ => none

/-- The runs of a timer, in order. -/
def runs (q : TimerQueue) (i : ℕ) : List (Timer × DateTime) := q.notes.filterMap (Note.runOf i)

/-- The next run is due one interval after this one, and comes later than that. -/
def Follows (a b : Timer × DateTime) : Prop :=
  b.1.interval_ = a.1.interval_ ∧ b.1.expiration_ = addTime a.2 a.1.interval_ ∧
    b.1.expiration_ < b.2

/-- The clock reading of the batch. -/
def batchTime (q : TimerQueue) : DateTime :=
  match q.phase with
  | .idle => 0
  | .calling now _ _ => now
  | .resetting now _ => now

/-- When a timer that has run before will run again. -/
structure Spaced (q : TimerQueue) : Prop where
  chain : ∀ i, (q.runs i).IsChain Follows
  interval_ : ∀ p t, q.heap p = some t → ∀ r ∈ (q.runs t.id).getLast?, r.1.interval_ = t.interval_
  called : ∀ p t, q.heap p = some t → p ∈ q.called.map Entry.timer →
    ∀ r ∈ (q.runs t.id).getLast?, r.2 = q.batchTime
  waits : ∀ p t, q.heap p = some t → p ∉ q.called.map Entry.timer →
    ∀ r ∈ (q.runs t.id).getLast?, t.expiration_ = addTime r.2 t.interval_

theorem spaced_new : new.Spaced where
  chain _ := List.isChain_nil
  interval_ _ _ h := nomatch h
  called _ _ h := nomatch h
  waits _ _ h := nomatch h

/-! ## One step -/

theorem runs_append (q : TimerQueue) (n : Note) (i : ℕ) :
    ({ q with notes := q.notes ++ [n] } : TimerQueue).runs i =
      q.runs i ++ (Note.runOf i n).toList := by
  rw [runs, List.filterMap_append]
  cases h : Note.runOf i n <;> simp [runs, h]

/-- A step in which no timer runs, and no batch begins or goes on. -/
theorem Spaced.of_same (h : q.Spaced) (hruns : ∀ i, q'.runs i = q.runs i)
    (hheap : ∀ p t, q'.heap p = some t → q.heap p = some t) (hcalled : q'.called = q.called)
    (htime : q.called = [] ∨ q'.batchTime = q.batchTime) : q'.Spaced where
  chain i := by rw [hruns]; exact h.chain i
  interval_ p t ht := by rw [hruns]; exact h.interval_ p t (hheap p t ht)
  called p t ht hp := by
    rw [hruns]
    rw [hcalled] at hp
    rcases htime with hnil | htime
    · rw [hnil] at hp
      exact absurd hp List.not_mem_nil
    · rw [htime]
      exact h.called p t (hheap p t ht) hp
  waits p t ht hp := by
    rw [hruns]
    rw [hcalled] at hp
    exact h.waits p t (hheap p t ht) hp

theorem Spaced.newTimer (h : q.Spaced) (hn : q.Noted) (p : Addr) (when_ : DateTime)
    (interval_ : ℤ) (repeat_ : Bool) : (q.newTimer p when_ interval_ repeat_).Spaced := by
  -- nothing is noted about the new timer
  have hnone : ∀ r, r ∉ q.runs q.s_numCreated_ := by
    intro r hr
    obtain ⟨n, hmem, hrun⟩ := List.mem_filterMap.mp hr
    have hlt := hn.ids n hmem
    cases n with
    | started u now =>
      simp only [Note.runOf, Option.ite_none_right_eq_some] at hrun
      exact absurd hrun.1 (ne_of_lt hlt)
    | _ => cases hrun
  have hcases : ∀ r u, (q.newTimer p when_ interval_ repeat_).heap r = some u →
      u.id = q.s_numCreated_ ∨ q.heap r = some u := by
    intro r u hu
    by_cases hr : r = p
    · subst hr
      simp only [TimerQueue.newTimer, Function.update_self, Option.some.injEq] at hu
      exact Or.inl (hu ▸ rfl)
    · simp only [TimerQueue.newTimer, Function.update_of_ne hr] at hu
      exact Or.inr hu
  refine ⟨h.chain, fun r u hu x hx => ?_, fun r u hu hr x hx => ?_, fun r u hu hr x hx => ?_⟩
  all_goals rcases hcases r u hu with hid | hu
  · rw [hid] at hx
    exact absurd (List.mem_of_getLast? hx) (hnone x)
  · exact h.interval_ r u hu x hx
  · rw [hid] at hx
    exact absurd (List.mem_of_getLast? hx) (hnone x)
  · exact h.called r u hu hr x hx
  · rw [hid] at hx
    exact absurd (List.mem_of_getLast? hx) (hnone x)
  · exact h.waits r u hu hr x hx

theorem Spaced.addTimerInLoop (h : q.Spaced) (ho : q.Owned) (hp : p ∈ q.unadded) (clock : DateTime)
    (hq : q.addTimerInLoop p clock = .ok q') : q'.Spaced := by
  obtain ⟨t, ht⟩ := ho.owns.live (mem_owners.mpr (Or.inl hp))
  rw [addTimerInLoop_spec ho.matched ht clock] at hq
  obtain rfl := Except.ok.inj hq
  refine h.of_same (fun i => ?_) (fun _ _ => id) rfl (Or.inr rfl)
  exact (List.filterMap_append).trans (List.append_nil _)

theorem Spaced.cancelInLoop (h : q.Spaced) (ho : q.Owned) (timer : ActiveTimer)
    (hq : q.cancelInLoop timer = .ok q') : q'.Spaced := by
  by_cases hm : timer ∈ q.activeTimers_
  · obtain ⟨t, ht, -, heq, -⟩ := cancelInLoop_active ho.matched hm
    obtain rfl := Except.ok.inj (heq.symm.trans hq)
    refine h.of_same (fun i => ?_) (fun _ _ hu => (live_of_free hu).2) rfl (Or.inr rfl)
    exact (List.filterMap_append).trans (List.append_nil _)
  · rw [cancelInLoop_inactive ho.matched hm] at hq
    obtain rfl := Except.ok.inj hq
    refine h.of_same (fun i => ?_) (fun _ _ => id) rfl (Or.inr rfl)
    refine (List.filterMap_append).trans ?_
    rw [cancelNotes]
    cases q.batchTimer timer <;> exact List.append_nil _

theorem Spaced.handleRead (h : q.Spaced) (ho : q.Owned) (hidle : q.phase = .idle) (now : DateTime)
    (hq : q.handleRead now = .ok q') : q'.Spaced := by
  obtain ⟨A, heq, -⟩ := handleRead_spec ho.matched now
  obtain rfl := Except.ok.inj (heq.symm.trans hq)
  have hcalled : q.called = [] := by rw [TimerQueue.called, hidle]
  exact h.of_same (fun _ => rfl) (fun _ _ => id) hcalled.symm (Or.inl hcalled)

theorem Spaced.run (h : q.Spaced) (ho : q.Owned) {now : DateTime} {expired : List Entry} {n : ℕ}
    (hp : q.phase = .calling now expired n) (he : expired[n]? = some e)
    (hq : q.run now expired n e = .ok q') : q'.Spaced := by
  have hbatch : q.batch = expired := by rw [batch, hp]
  have hcalled : q.called = expired.take n := by rw [TimerQueue.called, hp]
  have htime : q.batchTime = now := by rw [batchTime, hp]
  have hphase := ho.phase
  simp only [PhaseOk, hp] at hphase
  obtain ⟨hlt, hget⟩ := List.getElem?_eq_some_iff.mp he
  have hmem := List.mem_of_getElem? he
  obtain ⟨t, ht, hexp⟩ := ho.expired e (hbatch ▸ hmem)
  have htake : expired.take (n + 1) = expired.take n ++ [e] := by
    rw [List.take_succ_eq_append_getElem hlt, hget]
  -- the timer has not been called in this batch
  have hnot : e.timer ∉ q.called.map Entry.timer := by
    have hn := ho.batch_nodup
    rw [hbatch, ← List.take_append_drop (n + 1) expired, htake, List.map_append,
      List.map_append] at hn
    rw [hcalled]
    exact fun hin => List.disjoint_of_nodup_append (List.nodup_append.mp hn).1 hin (by simp)
  rw [run_spec ht rfl now expired n] at hq
  obtain rfl := Except.ok.inj hq
  have hlast : ∀ r ∈ (q.runs t.id).getLast?, Follows r (t, now) := fun r hr =>
    ⟨(h.interval_ _ t ht r hr).symm,
      (h.interval_ _ t ht r hr).symm ▸ h.waits _ t ht hnot r hr, hexp ▸ hphase.2.2 e hmem⟩
  have hruns := fun i => runs_append { q with phase := .calling now expired (n + 1) }
    (.started t now) i
  have hself : ∀ u : Timer, u.id = t.id → ∀ r ∈ (TimerQueue.runs { q with
      phase := .calling now expired (n + 1), notes := q.notes ++ [.started t now] } u.id).getLast?,
      r = (t, now) := by
    intro u hid r hr
    rw [hruns, Note.runOf, if_pos hid.symm] at hr
    simpa using hr.symm
  have hother : ∀ u : Timer, u.id ≠ t.id → TimerQueue.runs { q with
      phase := .calling now expired (n + 1), notes := q.notes ++ [.started t now] } u.id =
        q.runs u.id := by
    intro u hid
    rw [hruns, Note.runOf, if_neg hid.symm]
    exact List.append_nil _
  have hids : ∀ r u, q.heap r = some u → u.id = t.id → r = e.timer ∧ u = t := by
    intro r u hu hid
    obtain rfl := ho.ids r e.timer u t hu ht hid
    exact ⟨rfl, Option.some.inj (hu.symm.trans ht)⟩
  have hcalled' : ∀ r, r ∈ (expired.take (n + 1)).map Entry.timer ↔
      r ∈ q.called.map Entry.timer ∨ r = e.timer := by
    intro r
    rw [htake, hcalled, List.map_append, List.mem_append]
    simp
  refine ⟨fun i => ?_, fun r u hu => ?_, fun r u hu hr => ?_, fun r u hu hr => ?_⟩
  · rw [hruns, Note.runOf]
    split_ifs with hid
    · subst hid
      exact (h.chain t.id).append (List.isChain_singleton _) fun r hr b hb => by
        rw [← Option.some.inj hb]
        exact hlast r hr
    · rw [Option.toList_none, List.append_nil]
      exact h.chain i
  · by_cases hid : u.id = t.id
    · obtain ⟨-, rfl⟩ := hids r u hu hid
      exact fun x hx => by rw [hself u rfl x hx]
    · rw [hother u hid]
      exact h.interval_ r u hu
  · by_cases hid : u.id = t.id
    · exact fun x hx => by rw [hself u hid x hx]; rfl
    · rw [hother u hid]
      intro x hx
      rcases (hcalled' r).mp hr with hr | rfl
      · exact (h.called r u hu hr x hx).trans htime
      · exact absurd (congrArg Timer.id (Option.some.inj (hu.symm.trans ht))) hid
  · by_cases hid : u.id = t.id
    · obtain ⟨rfl, -⟩ := hids r u hu hid
      exact absurd ((hcalled' e.timer).mpr (Or.inr rfl)) hr
    · rw [hother u hid]
      exact h.waits r u hu fun hr' => hr ((hcalled' r).mpr (Or.inl hr'))

/-- The batch gets shorter by the entry `e`; what is left of its timer is due one interval after the
batch. -/
theorem Spaced.of_reset (h : q.Spaced) (ho : q.Owned) {now : DateTime} {expired : List Entry}
    (hp : q.phase = .resetting now (e :: expired)) (hp' : q'.phase = .resetting now expired)
    (hruns : ∀ i, q'.runs i = q.runs i)
    (hother : ∀ r u, r ≠ e.timer → q'.heap r = some u → q.heap r = some u)
    (hself : ∀ u, q'.heap e.timer = some u → ∃ t, q.heap e.timer = some t ∧ u.id = t.id ∧
      u.interval_ = t.interval_ ∧ u.expiration_ = addTime now t.interval_) : q'.Spaced := by
  have hcalled : q.called = e :: expired := by rw [TimerQueue.called, hp]
  have hcalled' : q'.called = expired := by rw [TimerQueue.called, hp']
  have htime : q.batchTime = now := by rw [batchTime, hp]
  have htime' : q'.batchTime = now := by rw [batchTime, hp']
  have hbatch : q.batch = e :: expired := by rw [batch, hp]
  have hnot : e.timer ∉ expired.map Entry.timer := by
    have hn := ho.batch_nodup
    rw [hbatch] at hn
    exact (List.nodup_cons.mp hn).1
  have hin : e.timer ∈ q.called.map Entry.timer := by rw [hcalled]; exact List.mem_cons_self
  refine ⟨fun i => by rw [hruns]; exact h.chain i, fun r u hu x hx => ?_, fun r u hu hr x hx => ?_,
    fun r u hu hr x hx => ?_⟩ <;> rw [hruns] at hx
  · by_cases hre : r = e.timer
    · subst hre
      obtain ⟨t, ht, hid, hint, -⟩ := hself u hu
      rw [hint]
      exact h.interval_ _ t ht x (hid ▸ hx)
    · exact h.interval_ r u (hother r u hre hu) x hx
  · rw [hcalled'] at hr
    have hre : r ≠ e.timer := fun hre => hnot (hre ▸ hr)
    rw [htime', ← htime]
    refine h.called r u (hother r u hre hu) ?_ x hx
    rw [hcalled]
    exact List.mem_cons_of_mem _ hr
  · rw [hcalled'] at hr
    by_cases hre : r = e.timer
    · subst hre
      obtain ⟨t, ht, hid, hint, hexp⟩ := hself u hu
      rw [hexp, hint, h.called _ t ht hin x (hid ▸ hx), htime]
    · refine h.waits r u (hother r u hre hu) ?_ x hx
      rw [hcalled]
      exact List.not_mem_cons_of_ne_of_not_mem hre hr

theorem Spaced.resetNext (h : q.Spaced) (ho : q.Owned) {now : DateTime} {expired : List Entry}
    (hp : q.phase = .resetting now (e :: expired)) (hq : q.resetNext now e expired = .ok q') :
    q'.Spaced := by
  have he : e ∈ q.batch := by rw [batch, hp]; exact List.mem_cons_self
  obtain ⟨t, ht, -⟩ := ho.expired e he
  by_cases hr : t.repeat_ = true ∧ toLex (e.timer, t.sequence_) ∉ q.cancelingTimers_
  · obtain ⟨heq, -⟩ := resetNext_repeat ho.matched ht (ho.not_timers_of_batch he) hr now expired
    obtain rfl := Except.ok.inj (heq.symm.trans hq)
    refine h.of_reset ho hp rfl (fun i => (List.filterMap_append).trans (List.append_nil _))
      (fun r u hre hu => ?_) fun u hu => ⟨t, ht, ?_⟩
    · simpa [Function.update_of_ne hre] using hu
    · simp only [Function.update_self, Option.some.injEq] at hu
      subst hu
      unfold Timer.restart
      rw [if_pos hr.1]
      exact ⟨rfl, rfl, rfl⟩
  · rw [resetNext_delete ht hr now expired] at hq
    obtain rfl := Except.ok.inj hq
    exact h.of_reset ho hp rfl (fun i => (List.filterMap_append).trans (List.append_nil _))
      (fun _ _ _ hu => (live_of_free hu).2) fun _ hu => absurd rfl (live_of_free hu).1

theorem Spaced.resetEnd (h : q.Spaced) (ho : q.Owned) {now : DateTime}
    (hp : q.phase = .resetting now []) (clock : DateTime) (hq : q.resetEnd clock = .ok q') :
    q'.Spaced := by
  rw [resetEnd_spec ho.matched clock] at hq
  obtain rfl := Except.ok.inj hq
  have hcalled : q.called = [] := by rw [TimerQueue.called, hp]
  exact h.of_same (fun _ => rfl) (fun _ _ => id) hcalled.symm (Or.inl hcalled)

/-- **One step.** -/
theorem step_spaced {ev : Event} (h : q.Spaced) (ho : q.Owned) (hn : q.Noted)
    (hs : step q ev = some q') : q'.Spaced := by
  obtain ⟨hen, hq⟩ := step_eq_some_iff.mp hs
  cases ev with
  | newTimer p when_ interval_ repeat_ =>
    obtain rfl := Except.ok.inj hq
    exact h.newTimer hn p when_ interval_ repeat_
  | addTimerInLoop timer clock => exact h.addTimerInLoop ho hen.2 clock hq
  | cancelInLoop timer => exact h.cancelInLoop ho timer hq
  | expire =>
    obtain rfl := Except.ok.inj hq
    exact h.of_same (fun _ => rfl) (fun _ _ => id) rfl (Or.inr rfl)
  | handleRead now => exact h.handleRead ho hen now hq
  | run =>
    simp only [Event.perform] at hq
    split at hq
    · rename_i now expired n hp
      split at hq
      · exact h.run ho hp ‹_› hq
      · rename_i hnone
        obtain rfl := Except.ok.inj hq
        have hcalled : q.called = expired := by
          rw [TimerQueue.called, hp]
          exact List.take_of_length_le (List.getElem?_eq_none_iff.mp hnone)
        exact h.of_same (fun _ => rfl) (fun _ _ => id) hcalled.symm
          (Or.inr (by rw [batchTime, batchTime, hp]))
    · obtain rfl := Except.ok.inj hq
      exact h
  | reset clock =>
    simp only [Event.perform] at hq
    split at hq
    · exact h.resetNext ho ‹_› hq
    · exact h.resetEnd ho ‹_› clock hq
    · obtain rfl := Except.ok.inj hq
      exact h

theorem spaced_of_run {es : List Event} (h : Run step new es q) : q.Spaced :=
  (h.inv (P := fun q => q.Owned ∧ q.Noted ∧ q.Spaced)
    (fun _ _ _ hq hs => ⟨step_owned hq.1 hs, step_noted hq.2.1 hq.1 hs,
      step_spaced hq.2.2 hq.1 hq.2.1 hs⟩) ⟨owned_new, noted_new, spaced_new⟩).2.2

/-! ## Runs of a timer -/

theorem addTime_eq {now : DateTime} {interval_ : ℤ} (h0 : 0 ≤ interval_)
    (h : (now : ℤ) + interval_ < 2 ^ 64) : (addTime now interval_ : ℤ) = now + interval_ := by
  unfold addTime
  rw [Int.emod_eq_of_lt (by omega) h, Int.toNat_of_nonneg (by omega)]

/-- Runs that follow each other, while the clock plus an interval fits into 64 bits. -/
theorem spaced_of_chain {l : List (Timer × DateTime)} (h : l.IsChain Follows)
    (hfits : ∀ r ∈ l, 0 ≤ r.1.interval_ ∧ (r.2 : ℤ) + r.1.interval_ < 2 ^ 64) :
    ∀ j k a b, l[j]? = some a → l[k]? = some b → j < k →
      b.1.interval_ = a.1.interval_ ∧ (a.2 : ℤ) + (k - j : ℕ) * a.1.interval_ < b.2 := by
  intro j k a b hj hk hlt
  induction k generalizing b with
  | zero => exact absurd hlt (Nat.not_lt_zero j)
  | succ k ih =>
    obtain ⟨hklt, hkget⟩ := List.getElem?_eq_some_iff.mp hk
    have hprev : l[k]? = some l[k] := List.getElem?_eq_getElem (by omega)
    obtain ⟨hint, hexp, hlate⟩ : Follows l[k] b := hkget ▸ List.isChain_iff_getElem.mp h k hklt
    obtain ⟨h0, hmax⟩ := hfits l[k] (List.getElem_mem _)
    have hnext : (l[k].2 : ℤ) + l[k].1.interval_ < b.2 := by
      rw [← addTime_eq h0 hmax, ← hexp]
      exact_mod_cast hlate
    rcases Nat.lt_succ_iff_lt_or_eq.mp hlt with hjk | rfl
    · obtain ⟨hint', hsum⟩ := ih l[k] hprev hjk
      refine ⟨hint.trans hint', ?_⟩
      rw [hint'] at hnext
      rw [Nat.succ_sub hjk.le]
      push_cast
      linarith
    · obtain rfl : a = l[j] := Option.some.inj (hj.symm.trans hprev)
      refine ⟨hint, ?_⟩
      simpa using hnext

/-- **How often a timer runs.** In every run, at any clock readings (also going back), as long as
the clock plus the interval fits into 64 bits: the interval of a timer never changes, and between
the clock readings of its `j`-th and its `k`-th run lie more than `k - j` intervals. -/
theorem timer_spacing {es : List Event} (h : Run step new es q) (i : ℕ)
    (hfits : ∀ r ∈ q.runs i, 0 ≤ r.1.interval_ ∧ (r.2 : ℤ) + r.1.interval_ < 2 ^ 64) :
    ∀ j k a b, (q.runs i)[j]? = some a → (q.runs i)[k]? = some b → j < k →
      b.1.interval_ = a.1.interval_ ∧ (a.2 : ℤ) + (k - j : ℕ) * a.1.interval_ < b.2 :=
  spaced_of_chain ((spaced_of_run h).chain i) hfits

/-- A timer of 10 microseconds; the loop is late, so one of its runs is left out. -/
def everyTen : List Event :=
  [.newTimer 1 10 10 true, .addTimerInLoop 1 0, .handleRead 11, .run, .run, .reset 12, .reset 12,
    .handleRead 35, .run, .run, .reset 36, .reset 36]

theorem everyTen_spacing : ∃ q, Run step new everyTen q ∧
    (q.runs 0).map (fun r => (r.1.expiration_, r.2)) = [(10, 11), (21, 35)] ∧
    (11 : ℤ) + (1 - 0 : ℕ) * 10 < 35 := by
  have h : (everyTen.foldlM step new).map (fun q => q.runs 0) =
      some [(⟨0, 10, 10, true, 0⟩, 11), (⟨0, 21, 10, true, 0⟩, 35)] := by decide +kernel
  obtain ⟨q, hq, hruns⟩ := Option.map_eq_some_iff.mp h
  refine ⟨q, hq, by rw [hruns]; rfl, ?_⟩
  refine (timer_spacing hq 0 ?_ 0 1 _ _ (by rw [hruns]; rfl) (by rw [hruns]; rfl) (by decide)).2
  rw [hruns]
  decide

end HighServer.TimerQueue
