import HighServer.Net.TimerQueue

/-!
# The two sets of the timer queue

`timers_` orders the timers by their expirations, `activeTimers_` finds them by address and
sequence number. `Matched` says that the two contain the same timers, each under its own data.

* `Matched.insert`, `Matched.erase`, `Matched.congr`: how it is kept;
* `Matched.size_eq`: the assertions on the sizes hold;
* **`insert_spec`**, **`getExpired_spec`**: what the two functions do to matched sets; from them
  `addTimerInLoop_spec`, `cancelInLoop_active`, `handleRead_spec`, `resetNext_repeat`, …, one for
  each step.
-/

namespace HighServer

theorem Entry.eq_of {e : Entry} {time : DateTime} {p : Addr} (h1 : e.expiration = time)
    (h2 : e.timer = p) : e = toLex (time, p) := by
  subst h1 h2
  rfl

theorem Entry.expiration_le {e f : Entry} (h : e ≤ f) : e.expiration ≤ f.expiration := by
  rcases Prod.Lex.le_iff.mp h with h | ⟨h, -⟩
  · exact h.le
  · exact h.le

theorem ActiveTimer.eq_of {a : ActiveTimer} {p : Addr} {n : ℤ} (h1 : a.timer = p)
    (h2 : a.sequence = n) : a = toLex (p, n) := by
  subst h1 h2
  rfl

@[simp] theorem Entry.timer_toLex (time : DateTime) (p : Addr) :
    Entry.timer (toLex (time, p)) = p := rfl

@[simp] theorem ActiveTimer.timer_toLex (p : Addr) (n : ℤ) :
    ActiveTimer.timer (toLex (p, n)) = p := rfl

/-- Before the sentry of `getExpired` are exactly the earlier entries. -/
theorem Entry.lt_sentry {e : Entry} {now : DateTime} :
    e < toLex (now, (0 : Addr)) ↔ e.expiration < now := by
  rw [← toLex_ofLex e, Prod.Lex.toLex_lt_toLex]
  simp [Entry.expiration]

namespace TimerQueue

open Runs

/-- The timers of the entries in `P` are alive, under their expirations, and are the ones in
`activeTimers_`. -/
structure Matched (heap : Addr → Option Timer) (P : Entry → Prop)
    (activeTimers_ : OrdSet ActiveTimer) : Prop where
  timers : ∀ e, P e → ∃ t, heap e.timer = some t ∧ t.expiration_ = e.expiration ∧
    toLex (e.timer, t.sequence_) ∈ activeTimers_
  active : ∀ a ∈ activeTimers_, ∃ t, heap a.timer = some t ∧ t.sequence_ = a.sequence ∧
    P (toLex (t.expiration_, a.timer))

variable {heap heap' : Addr → Option Timer} {P Q : Entry → Prop} {T : OrdSet Entry}
  {A : OrdSet ActiveTimer} {p : Addr} {t : Timer}

theorem Matched.congr_mem (h : Matched heap P A) (hPQ : ∀ e, P e ↔ Q e) : Matched heap Q A where
  timers e he := h.timers e ((hPQ e).mpr he)
  active a ha := by
    obtain ⟨t, h1, h2, h3⟩ := h.active a ha
    exact ⟨t, h1, h2, (hPQ _).mp h3⟩

/-- An entry is determined by its address. -/
theorem Matched.eq_of_timer (h : Matched heap P A) {e : Entry} (he : P e) (ht : heap p = some t)
    (hp : e.timer = p) : e = toLex (t.expiration_, p) := by
  obtain ⟨u, hu, hexp, -⟩ := h.timers e he
  rw [hp, ht] at hu
  obtain rfl := Option.some.inj hu
  exact Entry.eq_of hexp.symm hp

/-- The sets do not look at other addresses. -/
theorem Matched.congr (h : Matched heap P A) (hh : ∀ e, P e → heap' e.timer = heap e.timer) :
    Matched heap' P A where
  timers e he := by
    obtain ⟨t, h1, h2, h3⟩ := h.timers e he
    exact ⟨t, (hh e he).trans h1, h2, h3⟩
  active a ha := by
    obtain ⟨t, h1, h2, h3⟩ := h.active a ha
    exact ⟨t, (hh _ h3).trans h1, h2, h3⟩

theorem Matched.size_eq (h : Matched heap (· ∈ T) A) : T.size = A.size := by
  refine OrdSet.size_eq_of_mem_iff Entry.timer ActiveTimer.timer ?_ ?_ fun p => ?_
  · intro e he f hf hef
    obtain ⟨t, ht, hexp, -⟩ := h.timers e he
    rw [h.eq_of_timer hf ht hef.symm]
    exact Entry.eq_of hexp.symm rfl
  · intro a ha b hb hab
    obtain ⟨t, ht, hseq, -⟩ := h.active a ha
    obtain ⟨u, hu, hseq', -⟩ := h.active b hb
    rw [← hab, ht] at hu
    obtain rfl := Option.some.inj hu
    rw [ActiveTimer.eq_of (a := a) rfl hseq.symm, ActiveTimer.eq_of (a := b) hab.symm hseq'.symm]
  · constructor
    · rintro ⟨e, he, rfl⟩
      obtain ⟨t, -, -, hA⟩ := h.timers e he
      exact ⟨_, hA, rfl⟩
    · rintro ⟨a, ha, rfl⟩
      obtain ⟨t, -, -, hT⟩ := h.active a ha
      exact ⟨_, hT, rfl⟩

theorem Matched.insert (h : Matched heap (· ∈ T) A) (ht : heap p = some t) :
    Matched heap (· ∈ T.insert (toLex (t.expiration_, p)))
      (A.insert (toLex (p, t.sequence_))) where
  timers e he := by
    rcases OrdSet.mem_insert.mp he with rfl | he
    · exact ⟨t, ht, rfl, OrdSet.mem_insert.mpr (Or.inl rfl)⟩
    · obtain ⟨u, h1, h2, h3⟩ := h.timers e he
      exact ⟨u, h1, h2, OrdSet.mem_insert.mpr (Or.inr h3)⟩
  active a ha := by
    rcases OrdSet.mem_insert.mp ha with rfl | ha
    · exact ⟨t, ht, rfl, OrdSet.mem_insert.mpr (Or.inl rfl)⟩
    · obtain ⟨u, h1, h2, h3⟩ := h.active a ha
      exact ⟨u, h1, h2, OrdSet.mem_insert.mpr (Or.inr h3)⟩

theorem Matched.erase (h : Matched heap P A) (ht : heap p = some t) :
    Matched heap (fun e => P e ∧ e ≠ toLex (t.expiration_, p))
      (A.erase (toLex (p, t.sequence_))) where
  timers e he := by
    obtain ⟨u, h1, h2, h3⟩ := h.timers e he.1
    refine ⟨u, h1, h2, OrdSet.mem_erase.mpr ⟨fun heq => he.2 ?_, h3⟩⟩
    exact h.eq_of_timer he.1 ht (congrArg ActiveTimer.timer heq)
  active a ha := by
    obtain ⟨hne, ha⟩ := OrdSet.mem_erase.mp ha
    obtain ⟨u, h1, h2, h3⟩ := h.active a ha
    refine ⟨u, h1, h2, h3, fun heq => hne ?_⟩
    have hp : a.timer = p := congrArg Entry.timer heq
    rw [hp, ht] at h1
    obtain rfl := Option.some.inj h1
    exact ActiveTimer.eq_of hp h2.symm

/-! ## `insert` -/

variable {q : TimerQueue}

theorem deref_eq (ht : q.heap p = some t) : q.deref p = .ok t := by
  rw [deref, ht]

theorem assertSizes_eq (h : Matched heap (· ∈ q.timers_) q.activeTimers_) :
    q.assertSizes = .ok () := by
  rw [assertSizes, if_pos h.size_eq]

/-- **`insert` of a live timer.** -/
theorem insert_spec (h : Matched q.heap (· ∈ q.timers_) q.activeTimers_)
    (ht : q.heap p = some t) :
    q.insert p = .ok ({ q with
        timers_ := q.timers_.insert (toLex (t.expiration_, p))
        activeTimers_ := q.activeTimers_.insert (toLex (p, t.sequence_)) },
      q.isEarliest t.expiration_) := by
  have h' := assertSizes_eq (q := { q with
    timers_ := q.timers_.insert (toLex (t.expiration_, p))
    activeTimers_ := q.activeTimers_.insert (toLex (p, t.sequence_)) }) (h.insert ht)
  unfold insert
  rw [assertSizes_eq h, deref_eq ht]
  change (do (TimerQueue.assertSizes _); _) = _
  rw [h']
  rfl

/-! ## `getExpired` -/

/-- The loop over expired entries takes them out of `activeTimers_`. -/
theorem eraseActive_spec (l : List Entry) : ∀ {q : TimerQueue} {P : Entry → Prop},
    Matched q.heap P q.activeTimers_ → l.Nodup → (∀ e ∈ l, P e) →
    ∃ A, l.foldlM eraseActive q = .ok { q with activeTimers_ := A } ∧
      Matched q.heap (fun e => P e ∧ e ∉ l) A := by
  induction l with
  | nil =>
    intro q P h _ _
    exact ⟨q.activeTimers_, rfl, h.congr_mem fun e => by simp⟩
  | cons e l ih =>
    intro q P h hn hl
    obtain ⟨hel, hn⟩ := List.nodup_cons.mp hn
    obtain ⟨t, ht, hexp, -⟩ := h.timers e (hl e List.mem_cons_self)
    have he : e = toLex (t.expiration_, e.timer) := Entry.eq_of hexp.symm rfl
    obtain ⟨A, hA, hm⟩ := ih (q := { q with
        activeTimers_ := q.activeTimers_.erase (toLex (e.timer, t.sequence_)) }) (h.erase ht) hn
      fun f hf => ⟨hl f (List.mem_cons_of_mem e hf), fun hfe => hel (by rw [he, ← hfe]; exact hf)⟩
    refine ⟨A, ?_, hm.congr_mem fun f => ?_⟩
    · rw [List.foldlM_cons, eraseActive, deref_eq ht]
      exact hA
    · rw [← he, List.mem_cons, not_or, and_assoc]

/-- **`getExpired`** takes the entries before `now` out of both sets. -/
theorem getExpired_spec (h : Matched q.heap (· ∈ q.timers_) q.activeTimers_) (now : DateTime) :
    ∃ A, q.getExpired now = .ok ({ q with
          timers_ := q.timers_.from_ (toLex (now, (0 : Addr))), activeTimers_ := A },
        q.timers_.below (toLex (now, (0 : Addr)))) ∧
      Matched q.heap (· ∈ q.timers_.from_ (toLex (now, (0 : Addr)))) A := by
  have hn : (q.timers_.below (toLex (now, (0 : Addr)))).Nodup :=
    (q.timers_.below_sorted _).imp fun h => ne_of_lt h
  obtain ⟨A, hA, hm⟩ := eraseActive_spec (q.timers_.below (toLex (now, (0 : Addr))))
    (q := { q with timers_ := q.timers_.from_ (toLex (now, (0 : Addr))) }) h hn
    fun e he => (OrdSet.mem_below.mp he).1
  have hm' : Matched q.heap (· ∈ q.timers_.from_ (toLex (now, (0 : Addr)))) A := by
    refine hm.congr_mem fun e => ?_
    rw [OrdSet.mem_from, OrdSet.mem_below]
    tauto
  refine ⟨A, ?_, hm'⟩
  unfold getExpired
  dsimp only
  rw [hA]
  change (do (TimerQueue.assertSizes _); _) = _
  rw [assertSizes_eq (q := { q with
    timers_ := q.timers_.from_ (toLex (now, (0 : Addr))), activeTimers_ := A }) hm']
  rfl

/-! ## The steps -/

theorem delete_eq (ht : q.heap p = some t) :
    q.delete p = .ok { q with
      heap := Function.update q.heap p none, notes := q.notes ++ [.deleted t.id] } := by
  unfold delete
  rw [deref_eq ht]
  rfl

theorem addTimerInLoop_spec (h : Matched q.heap (· ∈ q.timers_) q.activeTimers_)
    (ht : q.heap p = some t) (clock : DateTime) :
    q.addTimerInLoop p clock = .ok { q with
      unadded := q.unadded.erase p
      timerfd_ := if q.isEarliest t.expiration_ then resetTimerfd t.expiration_ clock
        else q.timerfd_
      timers_ := q.timers_.insert (toLex (t.expiration_, p))
      activeTimers_ := q.activeTimers_.insert (toLex (p, t.sequence_))
      notes := q.notes ++ [.added t.id] } := by
  have hderef : ∀ T A, TimerQueue.deref { q with timers_ := T, activeTimers_ := A } p = .ok t :=
    fun _ _ => deref_eq ht
  unfold addTimerInLoop
  rw [insert_spec h ht]
  change (do let t ← TimerQueue.deref _ p; _) = _
  rw [hderef]
  change (if q.isEarliest t.expiration_ = true then _ else _) = _
  split_ifs <;> rfl

theorem cancelInLoop_active (h : Matched q.heap (· ∈ q.timers_) q.activeTimers_)
    {timer : ActiveTimer} (hm : timer ∈ q.activeTimers_) :
    ∃ t, q.heap timer.timer = some t ∧ toLex (t.expiration_, timer.timer) ∈ q.timers_ ∧
      q.cancelInLoop timer = .ok { q with
        heap := Function.update q.heap timer.timer none
        timers_ := q.timers_.erase (toLex (t.expiration_, timer.timer))
        activeTimers_ := q.activeTimers_.erase timer
        notes := q.notes ++ [.deleted t.id] } ∧
      Matched (Function.update q.heap timer.timer none)
        (· ∈ q.timers_.erase (toLex (t.expiration_, timer.timer)))
        (q.activeTimers_.erase timer) := by
  obtain ⟨t, ht, hseq, hT⟩ := h.active timer hm
  have htimer : timer = toLex (timer.timer, t.sequence_) := ActiveTimer.eq_of rfl hseq.symm
  have hmatched : Matched (Function.update q.heap timer.timer none)
      (· ∈ q.timers_.erase (toLex (t.expiration_, timer.timer))) (q.activeTimers_.erase timer) := by
    have he := (h.erase ht).congr_mem
      (Q := (· ∈ q.timers_.erase (toLex (t.expiration_, timer.timer))))
      fun e => by rw [OrdSet.mem_erase, and_comm]
    rw [← htimer] at he
    refine he.congr fun e hm => Function.update_of_ne (fun hp => ?_) _ _
    exact (OrdSet.mem_erase.mp hm).1 (h.eq_of_timer (OrdSet.mem_erase.mp hm).2 ht hp)
  have hdelete : ∀ T, TimerQueue.delete { q with timers_ := T } timer.timer = .ok { q with
      timers_ := T, heap := Function.update q.heap timer.timer none
      notes := q.notes ++ [.deleted t.id] } := fun _ => delete_eq ht
  refine ⟨t, ht, hT, ?_, hmatched⟩
  unfold cancelInLoop
  rw [if_pos hm, deref_eq ht]
  change (do let q' ← TimerQueue.delete _ timer.timer; _) = _
  rw [hdelete]
  change (do (TimerQueue.assertSizes _); _) = _
  rw [assertSizes_eq (by exact hmatched)]
  rfl

theorem cancelInLoop_inactive (h : Matched q.heap (· ∈ q.timers_) q.activeTimers_)
    {timer : ActiveTimer} (hm : timer ∉ q.activeTimers_) :
    q.cancelInLoop timer = .ok { q with
      cancelingTimers_ :=
        if q.callingExpiredTimers_ then q.cancelingTimers_.insert timer else q.cancelingTimers_
      notes := q.notes ++ q.cancelNotes timer } := by
  unfold cancelInLoop
  rw [if_neg hm]
  dsimp only
  split_ifs
  · rw [assertSizes_eq (by exact h)]
    rfl
  · rw [assertSizes_eq (by exact h)]
    rfl

theorem handleRead_spec (h : Matched q.heap (· ∈ q.timers_) q.activeTimers_) (now : DateTime) :
    ∃ A, q.handleRead now = .ok { q with
        timerfd_ := q.timerfd_.read
        timers_ := q.timers_.from_ (toLex (now, (0 : Addr)))
        callingExpiredTimers_ := true
        activeTimers_ := A
        cancelingTimers_ := OrdSet.empty
        phase := .calling now (q.timers_.below (toLex (now, (0 : Addr)))) 0 } ∧
      Matched q.heap (· ∈ q.timers_.from_ (toLex (now, (0 : Addr)))) A := by
  obtain ⟨A, hA, hm⟩ := getExpired_spec (q := { q with timerfd_ := q.timerfd_.read }) h now
  refine ⟨A, ?_, hm⟩
  unfold handleRead
  rw [hA]
  rfl

theorem run_spec (ht : q.heap p = some t) {e : Entry} (he : e.timer = p) (now : DateTime)
    (expired : List Entry) (called : ℕ) :
    q.run now expired called e = .ok { q with
      phase := .calling now expired (called + 1), notes := q.notes ++ [.started t now] } := by
  unfold run
  rw [he, deref_eq ht]
  rfl

/-- A repeating timer that was not cancelled in the batch goes back into the queue. -/
theorem resetNext_repeat (h : Matched q.heap (· ∈ q.timers_) q.activeTimers_) {e : Entry}
    (ht : q.heap e.timer = some t) (hnot : ∀ f ∈ q.timers_, f.timer ≠ e.timer)
    (hr : t.repeat_ = true ∧ toLex (e.timer, t.sequence_) ∉ q.cancelingTimers_) (now : DateTime)
    (expired : List Entry) :
    q.resetNext now e expired = .ok { q with
        heap := Function.update q.heap e.timer (some (t.restart now))
        timers_ := q.timers_.insert (toLex ((t.restart now).expiration_, e.timer))
        activeTimers_ := q.activeTimers_.insert (toLex (e.timer, (t.restart now).sequence_))
        phase := .resetting now expired
        notes := q.notes ++ [.reinserted t.id] } ∧
      Matched (Function.update q.heap e.timer (some (t.restart now)))
        (· ∈ q.timers_.insert (toLex ((t.restart now).expiration_, e.timer)))
        (q.activeTimers_.insert (toLex (e.timer, (t.restart now).sequence_))) := by
  have hm : Matched (Function.update q.heap e.timer (some (t.restart now))) (· ∈ q.timers_)
      q.activeTimers_ := h.congr fun f hf => Function.update_of_ne (hnot f hf) _ _
  have hself : Function.update q.heap e.timer (some (t.restart now)) e.timer =
      some (t.restart now) := Function.update_self _ _ _
  refine ⟨?_, hm.insert hself⟩
  unfold resetNext
  rw [deref_eq ht]
  change (if t.repeat_ = true ∧ _ then _ else _) = _
  rw [if_pos hr, insert_spec (q := { q with
    heap := Function.update q.heap e.timer (some (t.restart now))
    phase := .resetting now expired }) hm hself]
  rfl

/-- Every other timer of the batch is deleted. -/
theorem resetNext_delete {e : Entry} (ht : q.heap e.timer = some t)
    (hr : ¬ (t.repeat_ = true ∧ toLex (e.timer, t.sequence_) ∉ q.cancelingTimers_)) (now : DateTime)
    (expired : List Entry) :
    q.resetNext now e expired = .ok { q with
      heap := Function.update q.heap e.timer none
      phase := .resetting now expired
      notes := q.notes ++ [.deleted t.id] } := by
  unfold resetNext
  rw [deref_eq ht]
  change (if t.repeat_ = true ∧ _ then _ else _) = _
  rw [if_neg hr]
  exact delete_eq (q := { q with phase := .resetting now expired }) ht

theorem resetEnd_spec (h : Matched q.heap (· ∈ q.timers_) q.activeTimers_) (clock : DateTime) :
    q.resetEnd clock = .ok { q with
      phase := .idle
      timerfd_ := match q.timers_.begin with
        | none => q.timerfd_
        | some e => if e.expiration.valid then resetTimerfd e.expiration clock
          else q.timerfd_ } := by
  unfold resetEnd
  cases hb : q.timers_.begin with
  | none => simp only [hb]; rfl
  | some e =>
    obtain ⟨t, ht, hexp, -⟩ := h.timers e (OrdSet.begin_mem hb)
    simp only [hb]
    rw [deref_eq (q := { q with phase := .idle }) ht]
    change (if t.expiration_.valid = true then _ else _) = _
    rw [hexp]
    split_ifs <;> rfl

end TimerQueue

end HighServer
