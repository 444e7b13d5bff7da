import HighServer.Net.TimerOwnership

/-!
# The history of timers

What can happen to one timer, and in which order, as it is noted down over a run.

* `Orderly`: in which order the notes about one timer may come;
* `Noted`: what the notes say, and what they cannot say about a timer that is alive;
  `Noted.of_state`, `Noted.snoc`, `Noted.free` keep it through a step without a note, with a note
  about a live timer, and with a deletion; `step_noted`;
* `Event.notes`, `step_notes`: what an event notes down; `added_iff_of_run`: the timers added;
* **`timers_owned`**: representation, ownership and the order of events, in every reachable state.
-/

namespace HighServer.TimerQueue

open Runs Heap

variable {q q' : TimerQueue} {p : Addr} {t : Timer} {e : Entry}

/-- Which note may come after which: nothing about a deleted timer, no second start of a one-shot
timer, no insertion of a timer that was cancelled in its batch. -/
def Orderly : Note → Note → Prop
  | .deleted id, n => n.id ≠ id
  | .started t _, .started u _ => t.id = u.id → u.repeat_ = true
  | .cancelled id, .reinserted id' => id ≠ id'
  | _, _ => True

/-- The part of the batch whose callbacks have been started. -/
def called (q : TimerQueue) : List Entry :=
  match q.phase with
  | .idle => []
  | .calling _ expired called => expired.take called
  | .resetting _ expired => expired

/-- What the notes say, and what they cannot say about a timer that is alive. -/
structure Noted (q : TimerQueue) : Prop where
  ids : ∀ n ∈ q.notes, n.id < q.s_numCreated_
  order : q.notes.Pairwise Orderly
  late : ∀ t now, .started t now ∈ q.notes → t.expiration_ < now
  added : ∀ i, .added i ∈ q.notes → .deleted i ∈ q.notes ∨
    ∃ p t, q.heap p = some t ∧ t.id = i ∧ p ∉ q.unadded
  deleted : ∀ p t, q.heap p = some t → .deleted t.id ∉ q.notes
  started : ∀ p t, q.heap p = some t → ∀ u now, .started u now ∈ q.notes → u.id = t.id →
    u.repeat_ = t.repeat_ ∧ (t.repeat_ = false → p ∈ q.called.map Entry.timer)
  cancelled : ∀ p t, q.heap p = some t → .cancelled t.id ∈ q.notes →
    p ∈ q.batch.map Entry.timer ∧ toLex (p, t.sequence_) ∈ q.cancelingTimers_

theorem noted_new : new.Noted where
  ids _ hn := absurd hn List.not_mem_nil
  order := List.Pairwise.nil
  late _ _ h := absurd h List.not_mem_nil
  added _ h := absurd h List.not_mem_nil
  deleted _ _ _ h := absurd h List.not_mem_nil
  started _ _ _ _ _ h := absurd h List.not_mem_nil
  cancelled _ _ _ h := absurd h List.not_mem_nil

/-- A step without a note. -/
theorem Noted.of_state (h : q.Noted) (hnotes : q'.notes = q.notes)
    (hnum : q'.s_numCreated_ = q.s_numCreated_)
    (hlive : ∀ p t', q'.heap p = some t' → ∃ t, q.heap p = some t ∧ t'.id = t.id ∧
      t'.repeat_ = t.repeat_ ∧ t'.sequence_ = t.sequence_ ∧
      (t.repeat_ = false → p ∈ q.called.map Entry.timer → p ∈ q'.called.map Entry.timer) ∧
      (p ∈ q.batch.map Entry.timer → toLex (p, t.sequence_) ∈ q.cancelingTimers_ →
        p ∈ q'.batch.map Entry.timer ∧ toLex (p, t.sequence_) ∈ q'.cancelingTimers_))
    (hadded : ∀ p t, q.heap p = some t → p ∉ q.unadded →
      ∃ t', q'.heap p = some t' ∧ t'.id = t.id ∧ p ∉ q'.unadded) : q'.Noted where
  ids := by rw [hnotes, hnum]; exact h.ids
  order := hnotes ▸ h.order
  late := hnotes ▸ h.late
  added i hi := by
    rw [hnotes] at hi ⊢
    rcases h.added i hi with hd | ⟨p, t, ht, hid, hp⟩
    · exact Or.inl hd
    · obtain ⟨t', ht', hid', hp'⟩ := hadded p t ht hp
      exact Or.inr ⟨p, t', ht', hid'.trans hid, hp'⟩
  deleted p t' ht' := by
    obtain ⟨t, ht, hid, -⟩ := hlive p t' ht'
    rw [hnotes, hid]
    exact h.deleted p t ht
  started p t' ht' u now hu huid := by
    obtain ⟨t, ht, hid, hrep, -, hcalled, -⟩ := hlive p t' ht'
    rw [hnotes] at hu
    obtain ⟨h1, h2⟩ := h.started p t ht u now hu (huid.trans hid)
    rw [hrep]
    exact ⟨h1, fun hf => hcalled hf (h2 hf)⟩
  cancelled p t' ht' hc := by
    obtain ⟨t, ht, hid, -, hseq, -, hb⟩ := hlive p t' ht'
    rw [hnotes, hid] at hc
    obtain ⟨h1, h2⟩ := h.cancelled p t ht hc
    rw [hseq]
    exact hb h1 h2

/-- What is to be known for a note about the live timer `t` at `p`. -/
def Fits (q : TimerQueue) (p : Addr) (t : Timer) : Note → Prop
  | .added _ => p ∉ q.unadded
  | .started u now => u = t ∧ t.expiration_ < now ∧ p ∈ q.called.map Entry.timer ∧
      (t.repeat_ = false → ∀ v now', .started v now' ∈ q.notes → v.id ≠ t.id)
  | .deleted _ => False
  | .cancelled _ => p ∈ q.batch.map Entry.timer ∧ toLex (p, t.sequence_) ∈ q.cancelingTimers_
  | .reinserted _ => .cancelled t.id ∉ q.notes

/-- It may come after all the notes so far. -/
theorem Noted.orderly (h : q.Noted) (ht : q.heap p = some t) {n : Note} (hid : n.id = t.id)
    (hfits : q.Fits p t n) {m : Note} (hm : m ∈ q.notes) : Orderly m n := by
  cases m with
  | added i => trivial
  | deleted i =>
    intro hni
    rw [hid] at hni
    exact h.deleted p t ht (hni ▸ hm)
  | started v now' =>
    cases n with
    | started u now =>
      intro hvu
      obtain ⟨rfl, -, -, hfirst⟩ := hfits
      by_contra hrep
      exact hfirst (by simpa using hrep) v now' hm hvu
    | _ => trivial
  | cancelled i =>
    cases n with
    | reinserted j =>
      intro hij
      have hjt : j = t.id := hid
      exact hfits (by rw [← hjt, ← hij]; exact hm)
    | _ => trivial
  | reinserted i => trivial

/-- A note about a live timer. -/
theorem Noted.snoc {q₀ : TimerQueue} (h : q.Noted) (ho : q₀.Owned) (hheap : q.heap = q₀.heap)
    (hnum : q.s_numCreated_ = q₀.s_numCreated_) (ht : q.heap p = some t) {n : Note}
    (hid : n.id = t.id) (hfits : q.Fits p t n) :
    Noted { q with notes := q.notes ++ [n] } := by
  have hsame : ∀ r u, q.heap r = some u → u.id = n.id → r = p ∧ u = t := by
    intro r u hu hun
    obtain rfl := ho.ids r p u t (hheap ▸ hu) (hheap ▸ ht) (hun.trans hid)
    exact ⟨rfl, Option.some.inj (hu.symm.trans ht)⟩
  refine ⟨fun m hm => ?_, ?_, fun u now hu => ?_, fun i hi => ?_, fun r u hu hd => ?_,
    fun r u hu v now hv hvid => ?_, fun r u hu hc => ?_⟩
  · rcases List.mem_append.mp hm with hm | hm
    · exact h.ids m hm
    · rw [List.mem_singleton.mp hm, hid, hnum]
      exact ho.fresh p t (hheap ▸ ht)
  · refine List.pairwise_append.mpr ⟨h.order, List.pairwise_singleton _ _, fun m hm k hk => ?_⟩
    rw [List.mem_singleton.mp hk]
    exact h.orderly ht hid hfits hm
  · rcases List.mem_append.mp hu with hu | hu
    · exact h.late u now hu
    · obtain rfl := List.mem_singleton.mp hu
      obtain ⟨rfl, hlt, -⟩ := hfits
      exact hlt
  · rcases List.mem_append.mp hi with hi | hi
    · exact (h.added i hi).imp (List.mem_append_left _) id
    · obtain rfl := List.mem_singleton.mp hi
      exact Or.inr ⟨p, t, ht, hid.symm, hfits⟩
  · rcases List.mem_append.mp hd with hd | hd
    · exact h.deleted r u hu hd
    · obtain rfl := List.mem_singleton.mp hd
      exact hfits
  · rcases List.mem_append.mp hv with hv | hv
    · exact h.started r u hu v now hv hvid
    · obtain rfl := List.mem_singleton.mp hv
      obtain ⟨rfl, rfl⟩ := hsame r u hu hvid.symm
      obtain ⟨rfl, -, hcalled, -⟩ := hfits
      exact ⟨rfl, fun _ => hcalled⟩
  · rcases List.mem_append.mp hc with hc | hc
    · exact h.cancelled r u hu hc
    · obtain rfl := List.mem_singleton.mp hc
      obtain ⟨rfl, rfl⟩ := hsame r u hu rfl
      exact hfits

/-- A timer is deleted. -/
theorem Noted.free (h : q.Noted) (ho : q.Owned) (ht : q.heap p = some t)
    (hheap : q'.heap = Function.update q.heap p none)
    (hnum : q'.s_numCreated_ = q.s_numCreated_) (hnotes : q'.notes = q.notes ++ [.deleted t.id])
    (hun : q'.unadded = q.unadded)
    (hcalled : ∀ r ≠ p, r ∈ q.called.map Entry.timer → r ∈ q'.called.map Entry.timer)
    (hb : ∀ r ≠ p, r ∈ q.batch.map Entry.timer → r ∈ q'.batch.map Entry.timer)
    (hc : q'.cancelingTimers_ = q.cancelingTimers_) : q'.Noted := by
  have hlive : ∀ r u, q'.heap r = some u → r ≠ p ∧ q.heap r = some u := by
    intro r u hu
    rw [hheap] at hu
    by_cases hr : r = p
    · subst hr
      rw [Function.update_self] at hu
      exact absurd hu (by simp)
    · rw [Function.update_of_ne hr] at hu
      exact ⟨hr, hu⟩
  have hmem : ∀ n : Note, n ≠ .deleted t.id → (n ∈ q'.notes ↔ n ∈ q.notes) := by
    intro n hn
    rw [hnotes, List.mem_append, List.mem_singleton]
    exact or_iff_left hn
  refine ⟨fun m hm => ?_, ?_, fun u now hu => ?_, fun i hi => ?_, fun r u hu hd => ?_,
    fun r u hu v now hv hvid => ?_, fun r u hu hcn => ?_⟩
  · rw [hnotes] at hm
    rw [hnum]
    rcases List.mem_append.mp hm with hm | hm
    · exact h.ids m hm
    · rw [List.mem_singleton.mp hm]
      exact ho.fresh p t ht
  · rw [hnotes]
    refine List.pairwise_append.mpr ⟨h.order, List.pairwise_singleton _ _, fun m hm k hk => ?_⟩
    obtain rfl := List.mem_singleton.mp hk
    cases m with
    | deleted i =>
      intro hki
      exact h.deleted p t ht ((show t.id = i from hki) ▸ hm)
    | _ => trivial
  · exact h.late u now ((hmem _ (by simp)).mp hu)
  · rcases h.added i ((hmem _ (by simp)).mp hi) with hd | ⟨r, u, hu, hid, hr⟩
    · exact Or.inl (by rw [hnotes]; exact List.mem_append_left _ hd)
    · by_cases hrp : r = p
      · subst hrp
        rw [ht] at hu
        obtain rfl := Option.some.inj hu
        exact Or.inl (by rw [hnotes, hid]; simp)
      · exact Or.inr ⟨r, u, by rw [hheap, Function.update_of_ne hrp]; exact hu, hid, hun ▸ hr⟩
  · obtain ⟨hr, hu⟩ := hlive r u hu
    rw [hnotes] at hd
    rcases List.mem_append.mp hd with hd | hd
    · exact h.deleted r u hu hd
    · exact hr (ho.ids r p u t hu ht (Note.deleted.inj (List.mem_singleton.mp hd)))
  · obtain ⟨hr, hu⟩ := hlive r u hu
    obtain ⟨h1, h2⟩ := h.started r u hu v now ((hmem _ (by simp)).mp hv) hvid
    exact ⟨h1, fun hf => hcalled r hr (h2 hf)⟩
  · obtain ⟨hr, hu⟩ := hlive r u hu
    obtain ⟨h1, h2⟩ := h.cancelled r u hu ((hmem _ (by simp)).mp hcn)
    exact ⟨hb r hr h1, hc ▸ h2⟩

/-! ## One step -/

theorem Noted.newTimer (h : q.Noted) (hp : q.heap p = none) (when_ : DateTime) (interval_ : ℤ)
    (repeat_ : Bool) : (q.newTimer p when_ interval_ repeat_).Noted := by
  -- no note can be about the new timer
  have hnew : ∀ r u, (q.newTimer p when_ interval_ repeat_).heap r = some u →
      (∀ n ∈ q.notes, n.id ≠ u.id) ∨ q.heap r = some u := by
    intro r u hu
    by_cases hr : r = p
    · subst hr
      simp only [TimerQueue.newTimer, Function.update_self, Option.some.injEq] at hu
      exact Or.inl fun n hn hid => absurd (h.ids n hn) (by rw [hid, ← hu]; exact lt_irrefl _)
    · simp only [TimerQueue.newTimer, Function.update_of_ne hr] at hu
      exact Or.inr hu
  refine ⟨fun n hn => (h.ids n hn).trans (Nat.lt_succ_self _), h.order, h.late, fun i hi => ?_,
    fun r u hu hd => ?_, fun r u hu v now hv hvid => ?_, fun r u hu hc => ?_⟩
  · rcases h.added i hi with hd | ⟨r, u, hu, hid, hr⟩
    · exact Or.inl hd
    · have hrp : r ≠ p := by rintro rfl; exact absurd (hp.symm.trans hu) (by simp)
      exact Or.inr ⟨r, u, (Function.update_of_ne hrp _ _).trans hu, hid,
        List.not_mem_cons_of_ne_of_not_mem hrp hr⟩
  · rcases hnew r u hu with hno | hu
    · exact hno _ hd rfl
    · exact h.deleted r u hu hd
  · rcases hnew r u hu with hno | hu
    · exact absurd hvid (hno _ hv)
    · exact h.started r u hu v now hv hvid
  · rcases hnew r u hu with hno | hu
    · exact absurd rfl (hno _ hc)
    · exact h.cancelled r u hu hc

/-- A step without a note that leaves the objects as they are. -/
theorem Noted.of_heap (h : q.Noted) (hheap : q'.heap = q.heap) (hnotes : q'.notes = q.notes)
    (hnum : q'.s_numCreated_ = q.s_numCreated_) (hun : ∀ r, r ∈ q'.unadded → r ∈ q.unadded)
    (hcalled : ∀ r, r ∈ q.called.map Entry.timer → r ∈ q'.called.map Entry.timer)
    (hb : ∀ r n, r ∈ q.batch.map Entry.timer → toLex (r, n) ∈ q.cancelingTimers_ →
      r ∈ q'.batch.map Entry.timer ∧ toLex (r, n) ∈ q'.cancelingTimers_) : q'.Noted :=
  h.of_state hnotes hnum
    (fun r u hu => ⟨u, hheap ▸ hu, rfl, rfl, rfl, fun _ => hcalled r, hb r u.sequence_⟩)
    fun r u hu hr => ⟨u, by rw [hheap]; exact hu, rfl, fun hr' => hr (hun r hr')⟩

theorem Noted.addTimerInLoop (h : q.Noted) (ho : q.Owned) (hp : p ∈ q.unadded) (clock : DateTime)
    (hq : q.addTimerInLoop p clock = .ok q') : q'.Noted := by
  obtain ⟨t, ht⟩ := ho.owns.live (mem_owners.mpr (Or.inl hp))
  rw [addTimerInLoop_spec ho.matched ht clock] at hq
  obtain rfl := Except.ok.inj hq
  refine Noted.snoc (q := { q with
      unadded := q.unadded.erase p
      timerfd_ := if q.isEarliest t.expiration_ then resetTimerfd t.expiration_ clock
        else q.timerfd_
      timers_ := q.timers_.insert (toLex (t.expiration_, p))
      activeTimers_ := q.activeTimers_.insert (toLex (p, t.sequence_)) })
    ?_ ho rfl rfl ht rfl ?_
  · exact h.of_heap rfl rfl rfl (fun r hr => List.mem_of_mem_erase hr) (fun _ => id)
      fun _ _ hb hc => ⟨hb, hc⟩
  · exact (List.nodup_append.mp ho.owns.nodup).1.not_mem_erase

theorem Noted.cancelInLoop (h : q.Noted) (ho : q.Owned) (huser : q.InUserCode)
    (timer : ActiveTimer) (hq : q.cancelInLoop timer = .ok q') : q'.Noted := by
  by_cases hm : timer ∈ q.activeTimers_
  · obtain ⟨t, ht, -, heq, -⟩ := cancelInLoop_active ho.matched hm
    obtain rfl := Except.ok.inj (heq.symm.trans hq)
    exact h.free ho ht rfl rfl rfl rfl (fun _ _ => id) (fun _ _ => id) rfl
  · rw [cancelInLoop_inactive ho.matched hm] at hq
    obtain rfl := Except.ok.inj hq
    have hs : Noted { q with cancelingTimers_ :=
        if q.callingExpiredTimers_ then q.cancelingTimers_.insert timer
        else q.cancelingTimers_ } := by
      refine h.of_heap rfl rfl rfl (fun _ => id) (fun _ => id) fun _ _ hb hc => ⟨hb, ?_⟩
      dsimp only
      split_ifs
      · exact OrdSet.mem_insert.mpr (Or.inr hc)
      · exact hc
    cases hbt : q.batchTimer timer with
    | none => simpa [cancelNotes, hbt] using hs
    | some t =>
      rw [batchTimer] at hbt
      split_ifs at hbt with hb
      obtain ⟨ht, hseq⟩ := Option.filter_eq_some_iff.mp hbt
      have htimer : timer = toLex (timer.timer, t.sequence_) :=
        ActiveTimer.eq_of rfl (of_decide_eq_true hseq).symm
      -- user code meets a batch only in the callbacks, where the flag is set
      have hflag : q.callingExpiredTimers_ = true := by
        have hphase := ho.phase
        rw [PhaseOk] at hphase
        rw [InUserCode] at huser
        cases hp : q.phase with
        | idle => rw [batch, hp] at hb; exact absurd hb List.not_mem_nil
        | calling now expired n => rw [hp] at hphase; exact hphase.1
        | resetting now expired => rw [hp] at huser; exact huser.elim
      have hnotes : q.cancelNotes timer = [.cancelled t.id] := by
        rw [cancelNotes, batchTimer, if_pos hb, hbt]
        rfl
      rw [hnotes]
      refine hs.snoc ho rfl rfl ht rfl ⟨hb, ?_⟩
      dsimp only
      rw [if_pos hflag, ← htimer]
      exact OrdSet.mem_insert.mpr (Or.inl rfl)

theorem Noted.handleRead (h : q.Noted) (ho : q.Owned) (hidle : q.phase = .idle) (now : DateTime)
    (hq : q.handleRead now = .ok q') : q'.Noted := by
  obtain ⟨A, heq, -⟩ := handleRead_spec ho.matched now
  obtain rfl := Except.ok.inj (heq.symm.trans hq)
  have hbatch : q.batch = [] := by rw [batch, hidle]
  have hcalled : q.called = [] := by rw [called, hidle]
  refine h.of_heap rfl rfl rfl (fun _ => id) (fun r hr => ?_) fun r n hb => ?_
  · rw [hcalled] at hr
    exact absurd hr List.not_mem_nil
  · rw [hbatch] at hb
    exact absurd hb List.not_mem_nil

theorem Noted.run (h : q.Noted) (ho : q.Owned) {now : DateTime} {expired : List Entry} {n : ℕ}
    (hp : q.phase = .calling now expired n) (he : expired[n]? = some e)
    (hq : q.run now expired n e = .ok q') : q'.Noted := by
  have hbatch : q.batch = expired := by rw [batch, hp]
  have hcalled : q.called = expired.take n := by rw [called, hp]
  have hphase := ho.phase
  simp only [PhaseOk, hp] at hphase
  have hmem := List.mem_of_getElem? he
  obtain ⟨hlt, hget⟩ := List.getElem?_eq_some_iff.mp he
  obtain ⟨t, ht, hexp⟩ := ho.expired e (hbatch ▸ hmem)
  rw [run_spec ht rfl now expired n] at hq
  obtain rfl := Except.ok.inj hq
  have htake : expired.take (n + 1) = expired.take n ++ [e] := by
    rw [List.take_succ_eq_append_getElem hlt, hget]
  refine Noted.snoc (q := { q with phase := .calling now expired (n + 1) }) ?_ ho rfl rfl ht rfl
    ⟨rfl, ?_, ?_, fun hrep v now' hv hvid => ?_⟩
  · refine h.of_heap rfl rfl rfl (fun _ => id) (fun r hr => ?_) fun r m hb hc => ⟨?_, hc⟩
    · simp only [called, htake, List.map_append, List.mem_append]
      exact Or.inl (hcalled ▸ hr)
    · rwa [hbatch] at hb
  · rw [hexp]
    exact hphase.2.2 e hmem
  · simp only [called, htake, List.map_append, List.mem_append]
    exact Or.inr (by simp)
  · -- a one-shot timer that was started before stands before `e` in the batch
    have hin := (h.started e.timer t ht v now' hv hvid).2 hrep
    have hn := ho.batch_nodup
    rw [hcalled] at hin
    rw [hbatch, ← List.take_append_drop (n + 1) expired, htake, List.map_append,
      List.map_append] at hn
    exact List.disjoint_of_nodup_append (List.nodup_append.mp hn).1 hin (by simp)

theorem Noted.endCalls (h : q.Noted) {now : DateTime} {expired : List Entry} {n : ℕ}
    (hp : q.phase = .calling now expired n) :
    Noted { q with callingExpiredTimers_ := false, phase := .resetting now expired } := by
  refine h.of_heap rfl rfl rfl (fun _ => id) (fun r hr => ?_) fun r m hb hc => ⟨?_, hc⟩
  · rw [called, hp] at hr
    obtain ⟨f, hf, rfl⟩ := List.mem_map.mp hr
    exact List.mem_map_of_mem (List.mem_of_mem_take hf)
  · rwa [batch, hp] at hb

theorem Noted.resetNext (h : q.Noted) (ho : q.Owned) {now : DateTime} {expired : List Entry}
    (hp : q.phase = .resetting now (e :: expired)) (hq : q.resetNext now e expired = .ok q') :
    q'.Noted := by
  have hbatch : q.batch = e :: expired := by rw [batch, hp]
  have hcalled : q.called = e :: expired := by rw [called, hp]
  have he : e ∈ q.batch := by rw [hbatch]; exact List.mem_cons_self
  have hrest : ∀ r ≠ e.timer, r ∈ (e :: expired).map Entry.timer →
      r ∈ expired.map Entry.timer := fun r hr hm => (List.mem_cons.mp hm).resolve_left hr
  obtain ⟨t, ht, -⟩ := ho.expired e he
  by_cases hr : t.repeat_ = true ∧ toLex (e.timer, t.sequence_) ∉ q.cancelingTimers_
  · obtain ⟨heq, -⟩ :=
      resetNext_repeat ho.matched ht (ho.not_timers_of_batch he) hr now expired
    obtain rfl := Except.ok.inj (heq.symm.trans hq)
    have hsnoc : Noted { q with notes := q.notes ++ [.reinserted t.id] } :=
      h.snoc ho rfl rfl ht rfl fun hc => hr.2 (h.cancelled e.timer t ht hc).2
    have hcl : toLex (e.timer, t.sequence_) ∉ q.cancelingTimers_ := hr.2
    refine hsnoc.of_state rfl rfl (fun r u hu => ?_) fun r u hu hr' => ?_
    · by_cases hre : r = e.timer
      · subst hre
        simp only [Function.update_self, Option.some.injEq] at hu
        subst hu
        refine ⟨t, ht, ?_, ?_, ?_, fun hf => absurd (hf.symm.trans hr.1) (by simp),
          fun _ hc => absurd hc hcl⟩
        · unfold Timer.restart; split_ifs <;> rfl
        · unfold Timer.restart; split_ifs <;> rfl
        · unfold Timer.restart; split_ifs <;> rfl
      · simp only [Function.update_of_ne hre] at hu
        exact ⟨u, hu, rfl, rfl, rfl, fun _ hm => hrest r hre (hcalled ▸ hm),
          fun hm hc => ⟨hrest r hre (hbatch ▸ hm), hc⟩⟩
    · by_cases hre : r = e.timer
      · subst hre
        obtain rfl := Option.some.inj (ht.symm.trans hu)
        refine ⟨t.restart now, by simp, ?_, hr'⟩
        unfold Timer.restart; split_ifs <;> rfl
      · exact ⟨u, by simpa [Function.update_of_ne hre] using hu, rfl, hr'⟩
  · rw [resetNext_delete ht hr now expired] at hq
    obtain rfl := Except.ok.inj hq
    exact h.free ho ht rfl rfl rfl rfl (fun r hre hm => hrest r hre (hcalled ▸ hm))
      (fun r hre hm => hrest r hre (hbatch ▸ hm)) rfl

theorem Noted.resetEnd (h : q.Noted) (ho : q.Owned) {now : DateTime}
    (hp : q.phase = .resetting now []) (clock : DateTime) (hq : q.resetEnd clock = .ok q') :
    q'.Noted := by
  rw [resetEnd_spec ho.matched clock] at hq
  obtain rfl := Except.ok.inj hq
  refine h.of_heap rfl rfl rfl (fun _ => id) (fun r hr => ?_) fun r m hb _ => ?_
  · rw [called, hp] at hr
    exact absurd hr List.not_mem_nil
  · rw [batch, hp] at hb
    exact absurd hb List.not_mem_nil

/-- **The notes** stay orderly. -/
theorem step_noted {ev : Event} (h : q.Noted) (ho : q.Owned) (hs : step q ev = some q') :
    q'.Noted := by
  obtain ⟨hen, hq⟩ := step_eq_some_iff.mp hs
  cases ev with
  | newTimer p when_ interval_ repeat_ =>
    obtain rfl := Except.ok.inj hq
    exact h.newTimer hen.2 when_ interval_ repeat_
  | addTimerInLoop timer clock => exact h.addTimerInLoop ho hen.2 clock hq
  | cancelInLoop timer => exact h.cancelInLoop ho hen timer hq
  | expire =>
    obtain rfl := Except.ok.inj hq
    exact h.of_heap rfl rfl rfl (fun _ => id) (fun _ => id) fun _ _ hb hc => ⟨hb, hc⟩
  | handleRead now => exact h.handleRead ho hen now hq
  | run =>
    simp only [Event.perform] at hq
    split at hq
    · rename_i now expired n hp
      split at hq
      · exact h.run ho hp ‹_› hq
      · obtain rfl := Except.ok.inj hq
        exact h.endCalls hp
    · obtain rfl := Except.ok.inj hq
      exact h
  | reset clock =>
    simp only [Event.perform] at hq
    split at hq
    · exact h.resetNext ho ‹_› hq
    · exact h.resetEnd ho ‹_› clock hq
    · obtain rfl := Except.ok.inj hq
      exact h

theorem noted_of_run {es : List Event} (h : Run step new es q) : q.Noted :=
  (h.inv (P := fun q => q.Owned ∧ q.Noted)
    (fun _ _ _ hq hs => ⟨step_owned hq.1 hs, step_noted hq.2 hq.1 hs⟩) ⟨owned_new, noted_new⟩).2

/-! ## The notes of a run -/

/-- What an event notes down about the timer it handles. -/
def Event.notes (q : TimerQueue) : Event → List Note
  | .addTimerInLoop timer _ => (q.heap timer).toList.map fun t => .added t.id
  | .cancelInLoop timer =>
    if timer ∈ q.activeTimers_ then (q.heap timer.timer).toList.map fun t => .deleted t.id
    else q.cancelNotes timer
  | .run =>
    match q.phase with
    | .calling now expired called =>
      (expired[called]?.bind fun e => q.heap e.timer).toList.map fun t => .started t now
    | _ => []
  | .reset _ =>
    match q.phase with
    | .resetting _ expired =>
      (expired.head?.bind fun e => (q.heap e.timer).map (e.timer, ·)).toList.map fun r =>
        if r.2.repeat_ = true ∧ toLex (r.1, r.2.sequence_) ∉ q.cancelingTimers_ then
          .reinserted r.2.id
        else .deleted r.2.id
    | _ => []
  | _ => []

/-- **One step** notes down what its event does, and nothing else. -/
theorem step_notes {ev : Event} (ho : q.Owned) (hs : step q ev = some q') :
    q'.notes = q.notes ++ ev.notes q := by
  obtain ⟨hen, hq⟩ := step_eq_some_iff.mp hs
  have same : q'.notes = q.notes → q'.notes = q.notes ++ [] := fun h =>
    h.trans (List.append_nil _).symm
  cases ev with
  | newTimer p when_ interval_ repeat_ => exact same (Except.ok.inj hq ▸ rfl)
  | expire => exact same (Except.ok.inj hq ▸ rfl)
  | addTimerInLoop timer clock =>
    obtain ⟨t, ht⟩ := (ho.owns.mem_iff timer).mp (mem_owners.mpr (Or.inl hen.2))
    obtain rfl := Except.ok.inj ((addTimerInLoop_spec ho.matched ht clock).symm.trans hq)
    rw [Event.notes, ht]
    rfl
  | cancelInLoop timer =>
    rw [Event.notes]
    split_ifs with hm
    · obtain ⟨t, ht, -, heq, -⟩ := cancelInLoop_active ho.matched hm
      obtain rfl := Except.ok.inj (heq.symm.trans hq)
      rw [ht]
      rfl
    · obtain rfl := Except.ok.inj ((cancelInLoop_inactive ho.matched hm).symm.trans hq)
      rfl
  | handleRead now =>
    obtain ⟨A, heq, -⟩ := handleRead_spec ho.matched now
    exact same (Except.ok.inj (heq.symm.trans hq) ▸ rfl)
  | run =>
    simp only [Event.perform] at hq
    split at hq
    · rename_i now expired n hp
      have hnotes : Event.run.notes q =
          (expired[n]?.bind fun e => q.heap e.timer).toList.map fun t => .started t now := by
        rw [Event.notes, hp]
      split at hq
      · rename_i e he
        obtain ⟨t, ht, -⟩ := ho.expired e (by rw [batch, hp]; exact List.mem_of_getElem? he)
        rw [run_spec ht rfl now expired n] at hq
        obtain rfl := Except.ok.inj hq
        rw [hnotes, he, Option.bind_some, ht]
        rfl
      · rename_i he
        rw [hnotes, he]
        exact same (Except.ok.inj hq ▸ rfl)
    · rename_i hp
      obtain ⟨now, expired, n, hcalling⟩ : ∃ now expired n, q.phase = .calling now expired n := by
        have hen : q.phase.isCalling = true := hen
        cases hphase : q.phase with
        | calling now expired n => exact ⟨now, expired, n, rfl⟩
        | idle | resetting now expired => rw [hphase] at hen; exact Bool.noConfusion hen
      exact absurd hcalling (hp now expired n)
  | reset clock =>
    simp only [Event.perform] at hq
    split at hq
    · rename_i now e expired hp
      obtain ⟨t, ht, -⟩ := ho.expired e (by rw [batch, hp]; exact List.mem_cons_self)
      have hnotes : (Event.reset clock).notes q =
          [if t.repeat_ = true ∧ toLex (e.timer, t.sequence_) ∉ q.cancelingTimers_ then
            .reinserted t.id else .deleted t.id] := by
        rw [Event.notes, hp]
        dsimp only [List.head?_cons, Option.bind_some]
        rw [ht]
        rfl
      rw [hnotes]
      split_ifs with hr
      · obtain ⟨heq, -⟩ := resetNext_repeat ho.matched ht (ho.not_timers_of_batch
          (by rw [batch, hp]; exact List.mem_cons_self)) hr now expired
        obtain rfl := Except.ok.inj (heq.symm.trans hq)
        rfl
      · rw [resetNext_delete ht hr now expired] at hq
        obtain rfl := Except.ok.inj hq
        rfl
    · rename_i now hp
      have hnotes : (Event.reset clock).notes q = [] := by rw [Event.notes, hp]; rfl
      rw [resetEnd_spec ho.matched clock] at hq
      rw [hnotes]
      exact same (Except.ok.inj hq ▸ rfl)
    · rename_i hcons hnil
      have hen : q.phase.isResetting = true := hen
      cases hphase : q.phase with
      | idle | calling now expired n => rw [hphase] at hen; exact Bool.noConfusion hen
      | resetting now expired =>
        cases expired with
        | nil => exact absurd hphase (hnil now)
        | cons e expired => exact absurd hphase (hcons now e expired)

/-- A timer is added by its `addTimerInLoop`, and by nothing else. -/
theorem added_mem_notes_iff {ev : Event} {i : ℕ} : .added i ∈ ev.notes q ↔
    ∃ p clock t, ev = .addTimerInLoop p clock ∧ q.heap p = some t ∧ t.id = i := by
  cases ev with
  | addTimerInLoop timer clock =>
    simp only [Event.notes, List.mem_map, Option.mem_toList, Note.added.injEq,
      Event.addTimerInLoop.injEq]
    constructor
    · rintro ⟨t, ht, hid⟩
      exact ⟨timer, clock, t, ⟨rfl, rfl⟩, ht, hid⟩
    · rintro ⟨p, c, t, ⟨rfl, rfl⟩, ht, hid⟩
      exact ⟨t, ht, hid⟩
  | cancelInLoop timer =>
    simp only [Event.notes, cancelNotes, reduceCtorEq, false_and, exists_false, iff_false]
    split_ifs <;> simp
  | run =>
    simp only [Event.notes, reduceCtorEq, false_and, exists_false, iff_false]
    split <;> simp
  | reset clock =>
    simp only [Event.notes, reduceCtorEq, false_and, exists_false, iff_false]
    split
    · rintro hmem
      obtain ⟨r, -, hr⟩ := List.mem_map.mp hmem
      split_ifs at hr
    · exact List.not_mem_nil
  | newTimer p when_ interval_ repeat_ => simp [Event.notes]
  | expire => simp [Event.notes]
  | handleRead now => simp [Event.notes]

/-- **The timers that are added** in a run are those of its `addTimerInLoop` events. -/
theorem added_iff_of_run {es : List Event} (h : Run step new es q) (i : ℕ) :
    .added i ∈ q.notes ↔ ∃ pre p clock post r t, es = pre ++ .addTimerInLoop p clock :: post ∧
      Run step new pre r ∧ r.heap p = some t ∧ t.id = i := by
  have hinv := h.history (P := fun es q => q.Owned ∧ Run step new es q ∧ (.added i ∈ q.notes ↔
    ∃ pre p clock post r t, es = pre ++ .addTimerInLoop p clock :: post ∧
      Run step new pre r ∧ r.heap p = some t ∧ t.id = i)) ?_ ⟨owned_new, Run.nil _, ?_⟩
  · exact hinv.2.2
  · rintro es q ev q' ⟨ho, hr, hadded⟩ hs
    refine ⟨step_owned ho hs, run_snoc_iff.mpr ⟨q, hr, hs⟩, ?_⟩
    rw [step_notes ho hs, List.mem_append, hadded, added_mem_notes_iff]
    constructor
    · rintro (⟨pre, p, clock, post, r, t, rfl, hpre, ht, hid⟩ | ⟨p, clock, t, rfl, ht, hid⟩)
      · exact ⟨pre, p, clock, post ++ [ev], r, t, List.append_assoc _ _ _, hpre, ht, hid⟩
      · exact ⟨es, p, clock, [], q, t, rfl, hr, ht, hid⟩
    · rintro ⟨pre, p, clock, post, r, t, hes, hpre, ht, hid⟩
      rcases List.eq_nil_or_concat' post with rfl | ⟨post, last, rfl⟩
      · obtain ⟨rfl, hev⟩ := List.append_inj' hes rfl
        obtain rfl := Option.some.inj (hpre.symm.trans hr)
        exact Or.inr ⟨p, clock, t, List.head_eq_of_cons_eq hev, ht, hid⟩
      · rw [← List.cons_append, ← List.append_assoc] at hes
        obtain ⟨rfl, -⟩ := List.append_inj' hes rfl
        exact Or.inl ⟨pre, p, clock, post, r, t, rfl, hpre, ht, hid⟩
  · constructor
    · exact fun hi => absurd hi List.not_mem_nil
    · rintro ⟨pre, p, clock, post, r, t, hes, -⟩
      exact absurd hes.symm (List.append_ne_nil_of_right_ne_nil _ (List.cons_ne_nil _ _))

/-! ## Runs -/

/-- The timer is in `timers_`. -/
def InQueue (q : TimerQueue) (id : ℕ) : Prop :=
  ∃ e ∈ q.timers_, ∃ t, q.heap e.timer = some t ∧ t.id = id

/-- The timer is in the part of the batch that `reset` has not come to. -/
def InBatch (q : TimerQueue) (id : ℕ) : Prop :=
  ∃ e ∈ q.batch, ∃ t, q.heap e.timer = some t ∧ t.id = id

def Deleted (q : TimerQueue) (id : ℕ) : Prop := .deleted id ∈ q.notes

theorem Owned.not_inBatch_of_inQueue (h : q.Owned) {i : ℕ} (hq : q.InQueue i) : ¬ q.InBatch i := by
  rintro ⟨f, hf, u, hu, hui⟩
  obtain ⟨e, he, t, ht, hti⟩ := hq
  exact h.not_timers_of_batch hf e he (h.ids _ _ t u ht hu (hti.trans hui.symm))

/-- An added timer is in one place. -/
theorem one_place (h : q.Noted) (ho : q.Owned) {i : ℕ} (hi : .added i ∈ q.notes) :
    (q.InQueue i ∧ ¬ q.InBatch i ∧ ¬ q.Deleted i) ∨ (¬ q.InQueue i ∧ q.InBatch i ∧ ¬ q.Deleted i) ∨
      (¬ q.InQueue i ∧ ¬ q.InBatch i ∧ q.Deleted i) := by
  have hq : q.InQueue i → ¬ q.Deleted i := by
    rintro ⟨e, -, t, ht, rfl⟩
    exact h.deleted _ t ht
  have hb : q.InBatch i → ¬ q.Deleted i := by
    rintro ⟨e, -, t, ht, rfl⟩
    exact h.deleted _ t ht
  have hqb : q.InQueue i → ¬ q.InBatch i := ho.not_inBatch_of_inQueue
  have hsome : q.Deleted i ∨ q.InQueue i ∨ q.InBatch i := by
    refine (h.added i hi).imp id fun ⟨p, t, ht, hid, hp⟩ => ?_
    rcases mem_owners.mp ((ho.owns.mem_iff p).mpr ⟨t, ht⟩) with hun | ⟨e, he, rfl⟩ | ⟨e, he, rfl⟩
    · exact absurd hun hp
    · exact Or.inl ⟨e, he, t, ht, hid⟩
    · exact Or.inr ⟨e, he, t, ht, hid⟩
  tauto

/-- **Representation and ownership.** In every reachable state the two sets hold the same live
timers under their expirations; an added timer is in the queue, in the batch or deleted; it is
deleted at most once and not started after that; a one-shot timer is started at most once, every
timer only after its expiration; a timer cancelled in its batch is not inserted again; and no step
is a fault. -/
theorem timers_owned {es : List Event} (h : Run step new es q) :
    (∀ time p, toLex (time, p) ∈ q.timers_ ↔
      ∃ t, q.heap p = some t ∧ toLex (p, t.sequence_) ∈ q.activeTimers_ ∧ time = t.expiration_) ∧
    (∀ a ∈ q.activeTimers_, ∃ t, q.heap a.timer = some t ∧ a.sequence = t.sequence_) ∧
    (∀ i, .added i ∈ q.notes →
      (q.InQueue i ∧ ¬ q.InBatch i ∧ ¬ q.Deleted i) ∨
      (¬ q.InQueue i ∧ q.InBatch i ∧ ¬ q.Deleted i) ∨
      (¬ q.InQueue i ∧ ¬ q.InBatch i ∧ q.Deleted i)) ∧
    q.notes.Pairwise Orderly ∧
    (∀ t now, .started t now ∈ q.notes → t.expiration_ < now) ∧
    ∀ ev : Event, ev.Enabled q → ∃ q', ev.perform q = .ok q' := by
  have ho := owned_of_run h
  have hn := noted_of_run h
  refine ⟨fun time p => ⟨fun hm => ?_, ?_⟩, fun a ha => ?_, fun i hi => one_place hn ho hi,
    hn.order, hn.late, fun ev hen => ?_⟩
  · obtain ⟨t, ht, hexp, ha⟩ := ho.matched.timers _ hm
    exact ⟨t, ht, ha, hexp.symm⟩
  · rintro ⟨t, ht, ha, rfl⟩
    obtain ⟨u, hu, -, hm⟩ := ho.matched.active _ ha
    obtain rfl := Option.some.inj (ht.symm.trans hu)
    exact hm
  · obtain ⟨t, ht, hseq, -⟩ := ho.matched.active a ha
    exact ⟨t, ht, hseq.symm⟩
  · obtain ⟨q', hq', -⟩ := Event.perform_owned ho hen
    exact ⟨q', hq'⟩

/-- Two timers expire together; the callback of the first, which repeats, cancels the second, and
the address of the second is used again. -/
def cancelInBatch : List Event :=
  [.newTimer 1 10 5 true, .addTimerInLoop 1 0, .newTimer 2 10 0 false, .addTimerInLoop 2 0,
    .handleRead 20, .run, .cancelInLoop (toLex (2, 1)), .run, .run, .reset 21, .reset 21,
    .newTimer 2 40 0 false, .reset 21, .addTimerInLoop 2 22]

theorem cancelInBatch_owned : ∃ q, Run step new cancelInBatch q ∧
    q.notes.map Note.id = [0, 1, 0, 1, 1, 0, 1, 2] ∧ q.notes.Pairwise Orderly := by
  have h : (cancelInBatch.foldlM step new).map (fun q => q.notes.map Note.id) =
      some [0, 1, 0, 1, 1, 0, 1, 2] := by decide +kernel
  obtain ⟨q, hq, hids⟩ := Option.map_eq_some_iff.mp h
  exact ⟨q, hq, hids, (timers_owned hq).2.2.2.1⟩

end HighServer.TimerQueue
