import HighServer.Lib.Heap
import HighServer.Net.TimerSets

/-!
# Ownership of timers

A `Timer` belongs to the functor of its `addTimer` call, to the queue, or to the batch that
`handleRead` goes through, and whoever takes it out of there deletes it.

* `owners`: who the live timers belong to;
* `Owned`: the two sets are matched, every live timer has one owner, and the batch holds what it
  says. One lemma for each step: `Owned.newTimer`, `Owned.addTimerInLoop`, …;
* **`Event.perform_owned`**: no step is a fault, and every step keeps `Owned`.
-/

namespace HighServer.TimerQueue

open Runs Heap

/-- The owners of all timers: functors, queue, batch. -/
def owners (q : TimerQueue) : List Addr :=
  q.unadded ++ (q.timers_.toList.map Entry.timer ++ q.batch.map Entry.timer)

/-- What holds in each part of `handleRead`. -/
def PhaseOk (q : TimerQueue) : Prop :=
  match q.phase with
  | .calling now expired called => q.callingExpiredTimers_ = true ∧ called ≤ expired.length ∧
      ∀ e ∈ expired, e.expiration < now
  | _ => q.callingExpiredTimers_ = false

structure Owned (q : TimerQueue) : Prop where
  matched : Matched q.heap (· ∈ q.timers_) q.activeTimers_
  owns : Owns q.heap q.owners
  expired : ∀ e ∈ q.batch, ∃ t, q.heap e.timer = some t ∧ t.expiration_ = e.expiration
  ids : ∀ p r t u, q.heap p = some t → q.heap r = some u → t.id = u.id → p = r
  fresh : ∀ p t, q.heap p = some t → t.id < q.s_numCreated_
  phase : q.PhaseOk

variable {q q' : TimerQueue} {p : Addr} {t : Timer} {e : Entry}

theorem owned_new : new.Owned where
  matched := ⟨fun e he => absurd he (OrdSet.not_mem_empty e),
    fun a ha => absurd ha (OrdSet.not_mem_empty a)⟩
  owns := owns_empty
  expired e he := absurd he List.not_mem_nil
  ids p r t u h := absurd h (by simp [new])
  fresh p t h := absurd h (by simp [new])
  phase := rfl

/-! ## Owners -/

theorem mem_owners : p ∈ q.owners ↔
    p ∈ q.unadded ∨ (∃ e ∈ q.timers_, e.timer = p) ∨ ∃ e ∈ q.batch, e.timer = p := by
  simp only [owners, List.mem_append, List.mem_map]
  rfl

theorem Owned.not_timers_of_unadded (h : q.Owned) (hp : p ∈ q.unadded) :
    ∀ e ∈ q.timers_, e.timer ≠ p := by
  rintro e he rfl
  exact List.disjoint_of_nodup_append h.owns.nodup hp
    (List.mem_append_left _ (List.mem_map_of_mem he))

theorem Owned.not_timers_of_batch (h : q.Owned) (he : e ∈ q.batch) :
    ∀ f ∈ q.timers_, f.timer ≠ e.timer := by
  intro f hf hfe
  have hn := (List.nodup_append.mp h.owns.nodup).2.1
  exact List.disjoint_of_nodup_append hn (List.mem_map_of_mem hf)
    (hfe ▸ List.mem_map_of_mem he)

/-- A timer goes into the queue: it becomes one of the owners there. -/
theorem map_insert_perm {T : OrdSet Entry} (time : DateTime) (h : ∀ f ∈ T, f.timer ≠ p) :
    ((T.insert (toLex (time, p))).toList.map Entry.timer).Perm
      (p :: T.toList.map Entry.timer) :=
  (OrdSet.insert_perm fun hm => h _ hm rfl).map Entry.timer

theorem map_erase_perm {T : OrdSet Entry} {time : DateTime} (h : toLex (time, p) ∈ T) :
    (T.toList.map Entry.timer).Perm
      (p :: (T.erase (toLex (time, p))).toList.map Entry.timer) :=
  (OrdSet.erase_perm h).map Entry.timer

/-! ## One step -/

theorem Owned.newTimer (h : q.Owned) (hp : q.heap p = none) (when_ : DateTime) (interval_ : ℤ)
    (repeat_ : Bool) : (q.newTimer p when_ interval_ repeat_).Owned := by
  have hne : ∀ e : Entry, (∃ t, q.heap e.timer = some t) → e.timer ≠ p := by
    rintro e ⟨t, ht⟩ rfl
    rw [hp] at ht
    exact absurd ht (by simp)
  have hlive : ∀ (r : Addr) u, (q.newTimer p when_ interval_ repeat_).heap r = some u →
      u.id = q.s_numCreated_ ∧ r = p ∨ q.heap r = some u := by
    intro r u hu
    by_cases hr : r = p
    · subst hr
      simp only [TimerQueue.newTimer, Function.update_self, Option.some.injEq] at hu
      exact Or.inl ⟨by rw [← hu], rfl⟩
    · simp only [TimerQueue.newTimer, Function.update_of_ne hr] at hu
      exact Or.inr hu
  refine ⟨h.matched.congr fun e he => ?_, h.owns.alloc hp _, fun e he => ?_, ?_, ?_, h.phase⟩
  · obtain ⟨t, ht, -⟩ := h.matched.timers e he
    exact Function.update_of_ne (hne e ⟨t, ht⟩) _ _
  · obtain ⟨t, ht, hexp⟩ := h.expired e he
    exact ⟨t, (Function.update_of_ne (hne e ⟨t, ht⟩) _ _).trans ht, hexp⟩
  · intro r s t u ht hu hid
    rcases hlive r t ht with ⟨h1, rfl⟩ | h1
    · rcases hlive s u hu with ⟨-, rfl⟩ | h2
      · rfl
      · exact absurd (h.fresh s u h2) (by omega)
    · rcases hlive s u hu with ⟨h2, rfl⟩ | h2
      · exact absurd (h.fresh r t h1) (by omega)
      · exact h.ids r s t u h1 h2 hid
  · intro r u hu
    rcases hlive r u hu with ⟨h1, -⟩ | h1
    · simp only [TimerQueue.newTimer]; omega
    · exact (h.fresh r u h1).trans (Nat.lt_succ_self _)

/-- What a step that changes no object leaves to be shown. -/
theorem Owned.of_heap (h : q.Owned) (hheap : q'.heap = q.heap)
    (hnum : q'.s_numCreated_ = q.s_numCreated_)
    (hm : Matched q.heap (· ∈ q'.timers_) q'.activeTimers_) (hperm : q.owners.Perm q'.owners)
    (hb : ∀ e ∈ q'.batch, ∃ t, q.heap e.timer = some t ∧ t.expiration_ = e.expiration)
    (hphase : q'.PhaseOk) : q'.Owned where
  matched := hheap ▸ hm
  owns := hheap ▸ h.owns.perm hperm
  expired := hheap ▸ hb
  ids := hheap ▸ h.ids
  fresh := by rw [hheap, hnum]; exact h.fresh
  phase := hphase

/-- What a step that deletes one object leaves to be shown. -/
theorem Owned.of_free (h : q.Owned) (hheap : q'.heap = Function.update q.heap p none)
    (hnum : q'.s_numCreated_ = q.s_numCreated_)
    (hm : Matched q'.heap (· ∈ q'.timers_) q'.activeTimers_)
    (hperm : q.owners.Perm (p :: q'.owners))
    (hb : ∀ e ∈ q'.batch, e ∈ q.batch ∧ e.timer ≠ p) (hphase : q'.PhaseOk) : q'.Owned := by
  have hlive : ∀ (r : Addr) u, q'.heap r = some u → q.heap r = some u := by
    intro r u hu
    rw [hheap] at hu
    by_cases hr : r = p
    · subst hr
      rw [Function.update_self] at hu
      exact absurd hu (by simp)
    · rwa [Function.update_of_ne hr] at hu
  refine ⟨hm, hheap ▸ (h.owns.perm hperm).free, fun e he => ?_, ?_, ?_, hphase⟩
  · obtain ⟨t, ht, hexp⟩ := h.expired e (hb e he).1
    exact ⟨t, by rw [hheap, Function.update_of_ne (hb e he).2]; exact ht, hexp⟩
  · intro r s t u ht hu
    exact h.ids r s t u (hlive r t ht) (hlive s u hu)
  · intro r u hu
    rw [hnum]
    exact h.fresh r u (hlive r u hu)

theorem Owned.addTimerInLoop (h : q.Owned) (hp : p ∈ q.unadded) (clock : DateTime) :
    ∃ q', q.addTimerInLoop p clock = .ok q' ∧ q'.Owned := by
  obtain ⟨t, ht⟩ := h.owns.live (mem_owners.mpr (Or.inl hp))
  refine ⟨_, addTimerInLoop_spec h.matched ht clock,
    h.of_heap rfl rfl (h.matched.insert ht) ?_ h.expired h.phase⟩
  have hT := map_insert_perm t.expiration_ (h.not_timers_of_unadded hp)
  refine ((List.perm_cons_erase hp).append_right _).trans (List.perm_middle.symm.trans ?_)
  exact (hT.symm.append_right (q.batch.map Entry.timer)).append_left (q.unadded.erase p)

theorem Owned.cancelInLoop (h : q.Owned) (timer : ActiveTimer) :
    ∃ q', q.cancelInLoop timer = .ok q' ∧ q'.Owned := by
  by_cases hm : timer ∈ q.activeTimers_
  · obtain ⟨t, ht, hT, heq, hmatched⟩ := cancelInLoop_active h.matched hm
    refine ⟨_, heq, h.of_free rfl rfl hmatched ?_ (fun e he => ⟨he, fun hp => ?_⟩) h.phase⟩
    · exact (((map_erase_perm hT).append_right _).append_left _).trans List.perm_middle
    · exact h.not_timers_of_batch he _ hT hp.symm
  · exact ⟨_, cancelInLoop_inactive h.matched hm,
      h.of_heap rfl rfl h.matched (List.Perm.refl _) h.expired h.phase⟩

theorem Owned.handleRead (h : q.Owned) (hidle : q.phase = .idle) (now : DateTime) :
    ∃ q', q.handleRead now = .ok q' ∧ q'.Owned := by
  obtain ⟨A, heq, hm⟩ := handleRead_spec h.matched now
  have hbatch : q.batch = [] := by rw [batch, hidle]
  refine ⟨_, heq, h.of_heap rfl rfl hm ?_ (fun e he => ?_)
    ⟨rfl, Nat.zero_le _, fun e he => Entry.lt_sentry.mp (OrdSet.mem_below.mp he).2⟩⟩
  · simp only [owners, hbatch, List.map_nil, List.append_nil]
    rw [← OrdSet.below_append_from q.timers_ (toLex (now, (0 : Addr))), List.map_append]
    exact List.perm_append_comm.append_left _
  · obtain ⟨t, ht, hexp, -⟩ := h.matched.timers e (OrdSet.mem_below.mp he).1
    exact ⟨t, ht, hexp⟩

theorem Owned.batch_nodup (h : q.Owned) : (q.batch.map Entry.timer).Nodup :=
  (List.nodup_append.mp (List.nodup_append.mp h.owns.nodup).2.1).2.1

theorem Owned.run (h : q.Owned) {now : DateTime} {expired : List Entry} {called : ℕ}
    (hp : q.phase = .calling now expired called) (he : expired[called]? = some e) :
    ∃ q', q.run now expired called e = .ok q' ∧ q'.Owned := by
  have hbatch : q.batch = expired := by rw [batch, hp]
  have hphase := h.phase
  simp only [PhaseOk, hp] at hphase
  obtain ⟨hlt, -⟩ := List.getElem?_eq_some_iff.mp he
  obtain ⟨t, ht, -⟩ := h.expired e (hbatch ▸ List.mem_of_getElem? he)
  refine ⟨_, run_spec ht rfl now expired called, h.of_heap rfl rfl h.matched ?_ ?_
    ⟨hphase.1, hlt, hphase.2.2⟩⟩
  · simp only [owners, hbatch]
    exact List.Perm.refl _
  · intro f hf
    exact h.expired f (hbatch ▸ hf)

/-- The callbacks are over. -/
theorem Owned.endCalls (h : q.Owned) {now : DateTime} {expired : List Entry} {called : ℕ}
    (hp : q.phase = .calling now expired called) :
    Owned { q with callingExpiredTimers_ := false, phase := .resetting now expired } := by
  have hbatch : q.batch = expired := by rw [batch, hp]
  refine h.of_heap rfl rfl h.matched ?_ (fun f hf => h.expired f (hbatch ▸ hf)) rfl
  simp only [owners, hbatch]
  exact List.Perm.refl _

theorem Owned.resetNext (h : q.Owned) {now : DateTime} {expired : List Entry}
    (hp : q.phase = .resetting now (e :: expired)) :
    ∃ q', q.resetNext now e expired = .ok q' ∧ q'.Owned := by
  have hbatch : q.batch = e :: expired := by rw [batch, hp]
  have hphase := h.phase
  simp only [PhaseOk, hp] at hphase
  have he : e ∈ q.batch := by rw [hbatch]; exact List.mem_cons_self
  obtain ⟨t, ht, -⟩ := h.expired e he
  have hnot := h.not_timers_of_batch he
  have hrest : ∀ f ∈ expired, f ∈ q.batch ∧ f.timer ≠ e.timer := by
    intro f hf
    have hn := h.batch_nodup
    rw [hbatch, List.map_cons, List.nodup_cons] at hn
    exact ⟨by rw [hbatch]; exact List.mem_cons_of_mem _ hf,
      fun hfe => hn.1 (hfe ▸ List.mem_map_of_mem hf)⟩
  by_cases hr : t.repeat_ = true ∧ toLex (e.timer, t.sequence_) ∉ q.cancelingTimers_
  · obtain ⟨heq, hm⟩ := resetNext_repeat h.matched ht hnot hr now expired
    have hid : (t.restart now).id = t.id := by unfold Timer.restart; split_ifs <;> rfl
    have hlive : ∀ (r : Addr) u,
        Function.update q.heap e.timer (some (t.restart now)) r = some u →
          ∃ u₀, q.heap r = some u₀ ∧ u.id = u₀.id := by
      intro r u hu
      by_cases hre : r = e.timer
      · subst hre
        rw [Function.update_self] at hu
        exact ⟨t, ht, by rw [← Option.some.inj hu, hid]⟩
      · rw [Function.update_of_ne hre] at hu
        exact ⟨u, hu, rfl⟩
    refine ⟨_, heq, hm, ?_, fun f hf => ?_, ?_, ?_, hphase⟩
    · refine (h.owns.store (mem_owners.mpr (Or.inr (Or.inr ⟨e, he, rfl⟩))) _).perm ?_
      have hT := map_insert_perm (t.restart now).expiration_ hnot
      simp only [owners, hbatch, List.map_cons]
      exact (List.perm_middle.trans (hT.symm.append_right _)).append_left _
    · obtain ⟨u, hu, hexp⟩ := h.expired f (hrest f hf).1
      exact ⟨u, (Function.update_of_ne (hrest f hf).2 _ _).trans hu, hexp⟩
    · intro r s u v hu hv huv
      obtain ⟨u₀, hu₀, hi⟩ := hlive r u hu
      obtain ⟨v₀, hv₀, hj⟩ := hlive s v hv
      exact h.ids r s u₀ v₀ hu₀ hv₀ (by rw [← hi, ← hj, huv])
    · intro r u hu
      obtain ⟨u₀, hu₀, hi⟩ := hlive r u hu
      rw [hi]
      exact h.fresh r u₀ hu₀
  · refine ⟨_, resetNext_delete ht hr now expired, h.of_free rfl rfl
      (h.matched.congr fun f hf => Function.update_of_ne (hnot f hf) _ _) ?_ hrest hphase⟩
    simp only [owners, hbatch, List.map_cons]
    exact (List.perm_middle.append_left _).trans List.perm_middle

theorem Owned.resetEnd (h : q.Owned) {now : DateTime} (hp : q.phase = .resetting now [])
    (clock : DateTime) : ∃ q', q.resetEnd clock = .ok q' ∧ q'.Owned := by
  have hbatch : q.batch = [] := by rw [batch, hp]
  have hphase := h.phase
  simp only [PhaseOk, hp] at hphase
  refine ⟨_, resetEnd_spec h.matched clock, h.of_heap rfl rfl h.matched ?_
    (fun f hf => absurd hf List.not_mem_nil) hphase⟩
  simp only [owners, hbatch]
  exact List.Perm.refl _

/-- **Ownership is kept**, and no step is a fault. -/
theorem Event.perform_owned {ev : Event} (h : q.Owned) (hen : ev.Enabled q) :
    ∃ q', ev.perform q = .ok q' ∧ q'.Owned := by
  cases ev with
  | newTimer p when_ interval_ repeat_ => exact ⟨_, rfl, h.newTimer hen.2 when_ interval_ repeat_⟩
  | addTimerInLoop timer clock => exact h.addTimerInLoop hen.2 clock
  | cancelInLoop timer => exact h.cancelInLoop timer
  | expire =>
    exact ⟨_, rfl, h.of_heap rfl rfl h.matched (List.Perm.refl _) h.expired h.phase⟩
  | handleRead now => exact h.handleRead hen now
  | run =>
    simp only [Event.perform]
    split
    · rename_i now expired called hp
      split
      · exact h.run hp ‹_›
      · exact ⟨_, rfl, h.endCalls hp⟩
    · exact ⟨q, rfl, h⟩
  | reset clock =>
    simp only [Event.perform]
    split
    · exact h.resetNext ‹_›
    · exact h.resetEnd ‹_› clock
    · exact ⟨q, rfl, h⟩

theorem step_owned {ev : Event} (h : q.Owned) (hs : step q ev = some q') : q'.Owned := by
  obtain ⟨hen, hp⟩ := step_eq_some_iff.mp hs
  obtain ⟨q'', hq'', ho⟩ := Event.perform_owned h hen
  exact Except.ok.inj (hq''.symm.trans hp) ▸ ho

theorem owned_of_run {es : List Event} (h : Run step new es q) : q.Owned :=
  h.inv (P := Owned) (fun _ _ _ hq hs => step_owned hq hs) owned_new

end HighServer.TimerQueue
