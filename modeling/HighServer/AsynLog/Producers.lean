import HighServer.AsynLog.Conservation

/-!
# Producers and the logging thread

The log with its `mutex_` and any number of front-end threads. An `append` takes `mutex_`, stores
its line, notifies `cond_` if a buffer was full, and releases `mutex_`. The logging thread takes
`mutex_` with a `lock_guard` and waits under it: `cond_.waitForSeconds` releases the mutex inside
`Condition`, which is another one.

* `Holder`, `FrontEnd`, `step`: the critical sections, with their beginnings and ends;
* `Exclusive`: who is where when `mutex_` is held; `step_exclusive`;
* `step_refines`: the steps are those of `AsyncLogging`, or change nothing of it;
* **`unblocked_iff`**: `mutex_` is free of the logging thread in all its waits exactly in the runs
  in which it never waits; `nothingLogged` is a run, for every `SIZE`, in which it does.
-/

namespace HighServer

/-- Who holds `mutex_`. -/
inductive Holder (T : Type) where
  | backEnd
  | frontEnd (t : T)
  deriving DecidableEq, Repr

/-- Where a front-end thread is in `append`. -/
inductive FrontEnd where
  | idle
  /-- it has taken `mutex_` -/
  | locked
  /-- its line is stored; whether `cond_.notify()` is still to be called -/
  | appended (full : Bool)
  deriving DecidableEq, Repr

structure Producers (T : Type) (SIZE : ℕ) where
  log : AsyncLogging SIZE
  mutex_ : Option (Holder T)
  frontEnds : T → FrontEnd

namespace Producers

open Runs
open AsyncLogging (garbage)

variable {T : Type} {SIZE : ℕ}

def new (memory : Memory SIZE) : Producers T SIZE where
  log := AsyncLogging.new memory
  mutex_ := none
  frontEnds _ := .idle

/-- Whether a line does not fit into the current buffer, so that `append` notifies. -/
def fills (a : AsyncLogging SIZE) (logline : List UInt8) : Bool :=
  match a.currentBuffer_ with
  | some current => !(logline.length < current.avail : Bool)
  | none => false

inductive Event (T : Type) (SIZE : ℕ) where
  | lock (t : T)
  | append (t : T) (logline : List UInt8) (memory : Memory SIZE)
  | notify (t : T)
  | unlock (t : T)
  /-- the logging thread takes `mutex_` -/
  | lockBack
  /-- it looks at `buffers_`, and waits or swaps the buffers -/
  | check
  /-- the wait ends, and the buffers are swapped -/
  | wake
  /-- it releases `mutex_` -/
  | unlockBack
  /-- what needs no `mutex_` -/
  | log (e : AsyncLogging.Event SIZE)

variable [DecidableEq T]

def step (s : Producers T SIZE) : Event T SIZE → Option (Producers T SIZE)
  | .lock t =>
    if s.frontEnds t = .idle ∧ s.mutex_ = none then
      some { s with
        mutex_ := some (.frontEnd t), frontEnds := Function.update s.frontEnds t .locked }
    else none
  | .append t logline memory =>
    if s.frontEnds t = .locked ∧ logline.length < SIZE then
      (s.log.append logline memory).toOption.map fun log => { s with
        log, frontEnds := Function.update s.frontEnds t (.appended (fills s.log logline)) }
    else none
  | .notify t =>
    if s.frontEnds t = .appended true then
      some { s with frontEnds := Function.update s.frontEnds t (.appended false) }
    else none
  | .unlock t =>
    if s.frontEnds t = .appended false then
      some { s with mutex_ := none, frontEnds := Function.update s.frontEnds t .idle }
    else none
  | .lockBack =>
    if s.log.backEnd = .lock ∧ s.mutex_ = none then some { s with mutex_ := some .backEnd }
    else none
  | .check =>
    if s.log.backEnd = .lock ∧ s.mutex_ = some .backEnd then some { s with log := s.log.lock }
    else none
  | .wake => if s.log.backEnd = .waiting then some { s with log := s.log.swapBuffers } else none
  | .unlockBack =>
    if s.log.backEnd.isWriting ∧ s.mutex_ = some .backEnd then some { s with mutex_ := none }
    else none
  | .log (.append _ _) => none
  | .log .lock => none
  | .log .wake => none
  | .log .write =>
    if s.mutex_ ≠ some .backEnd then
      (AsyncLogging.step s.log .write).map fun log => { s with log }
    else none
  | .log e => (AsyncLogging.step s.log e).map fun log => { s with log }

/-- In a wait of the logging thread, `mutex_` is not held by it. -/
def Unblocked (s : Producers T SIZE) : Prop :=
  s.log.backEnd = .waiting → s.mutex_ ≠ some .backEnd

/-- The logging thread finds `buffers_` filled, and goes on without a wait. -/
def FindsBuffers (s : Producers T SIZE) : Event T SIZE → Prop
  | .check => s.log.buffers_ ≠ []
  | _ => True

instance (s : Producers T SIZE) (e : Event T SIZE) : Decidable (FindsBuffers s e) :=
  match e with
  | .check => inferInstanceAs (Decidable (¬ _))
  | .lock _ | .append _ _ _ | .notify _ | .unlock _ | .lockBack | .wake | .unlockBack | .log _ =>
    .isTrue trivial

variable {s s' : Producers T SIZE}

/-! ## Who holds the mutex -/

structure Exclusive (s : Producers T SIZE) : Prop where
  front : ∀ t, s.frontEnds t ≠ .idle ↔ s.mutex_ = some (.frontEnd t)
  waiting : s.log.backEnd = .waiting → s.mutex_ = some .backEnd

omit [DecidableEq T] in
theorem exclusive_new (memory : Memory SIZE) : (new memory : Producers T SIZE).Exclusive where
  front t := iff_of_false (fun h => h rfl) (by simp [new])
  waiting h := by cases h

omit [DecidableEq T] in
/-- A front-end thread in its critical section keeps the logging thread out of a wait. -/
theorem Exclusive.not_waiting (h : s.Exclusive) {t : T} (ht : s.frontEnds t ≠ .idle) :
    s.log.backEnd ≠ .waiting := by
  intro hw
  have hm := h.waiting hw
  rw [(h.front t).mp ht] at hm
  cases hm

/-- A front-end thread goes on in its critical section. -/
theorem Exclusive.update (h : s.Exclusive) {t : T} {f : FrontEnd} (ht : s.frontEnds t ≠ .idle)
    (hf : f ≠ .idle) (hlog : s'.log.backEnd = s.log.backEnd) (hm : s'.mutex_ = s.mutex_)
    (hfront : s'.frontEnds = Function.update s.frontEnds t f) : s'.Exclusive where
  front u := by
    rw [hfront, hm, ← h.front u, Function.update_apply]
    split_ifs with hu
    · subst hu
      exact iff_of_true hf ht
    · rfl
  waiting hw := by
    rw [hm]
    exact h.waiting (hlog ▸ hw)

omit [DecidableEq T] in
/-- The logging thread goes on, and does not wait. -/
theorem Exclusive.of_log (h : s.Exclusive) (hlog : s'.log.backEnd ≠ .waiting)
    (hm : s'.mutex_ = s.mutex_) (hfront : s'.frontEnds = s.frontEnds) : s'.Exclusive where
  front t := by
    rw [hfront, hm]
    exact h.front t
  waiting hw := absurd hw hlog

/-! ## The steps of the log -/

theorem backEnd_append {a a' : AsyncLogging SIZE} {logline : List UInt8} {memory : Memory SIZE}
    (h : a.append logline memory = .ok a') : a'.backEnd = a.backEnd := by
  obtain ⟨current, -, h⟩ := except_bind_eq_ok_iff.mp h
  dsimp only at h
  split_ifs at h
  · obtain rfl := Except.ok.inj h
    rfl
  · obtain rfl := Except.ok.inj h
    rfl

theorem backEnd_swapBuffers (a : AsyncLogging SIZE) : a.swapBuffers.backEnd = .writing 0 := by
  rw [AsyncLogging.swapBuffers]
  dsimp only
  split_ifs <;> rfl

theorem backEnd_write {a a' : AsyncLogging SIZE} {i : ℕ} {p : BufferPtr SIZE}
    (h : a.write i p = .ok a') : a'.backEnd = .writing (i + 1) := by
  obtain ⟨b, -, h⟩ := except_bind_eq_ok_iff.mp h
  obtain rfl := Except.ok.inj h
  rfl

theorem backEnd_recycle {a a' : AsyncLogging SIZE} (h : a.recycle = .ok a') :
    a'.backEnd = .test := by
  obtain ⟨⟨p₁, v⟩, -, h⟩ := except_bind_eq_ok_iff.mp h
  obtain ⟨⟨p₂, w⟩, -, h⟩ := except_bind_eq_ok_iff.mp h
  obtain rfl := Except.ok.inj h
  rfl

/-- Only the critical section begins a wait. -/
theorem waiting_of_step {a a' : AsyncLogging SIZE} {e : AsyncLogging.Event SIZE} (he : e ≠ .lock)
    (h : AsyncLogging.step a e = some a') (hw : a'.backEnd = .waiting) : a.backEnd = .waiting := by
  obtain ⟨-, hp⟩ := AsyncLogging.step_eq_some_iff.mp h
  cases e with
  | lock => exact absurd rfl he
  | start memory =>
    obtain rfl := Except.ok.inj hp
    cases hw
  | append logline memory => exact (backEnd_append hp).symm.trans hw
  | test =>
    rw [AsyncLogging.Event.perform] at hp
    split_ifs at hp
    · obtain rfl := Except.ok.inj hp
      cases hw
    · obtain rfl := Except.ok.inj hp
      cases hw
  | wake =>
    obtain rfl := Except.ok.inj hp
    rw [backEnd_swapBuffers] at hw
    cases hw
  | write =>
    rw [AsyncLogging.Event.perform] at hp
    split at hp
    · split at hp
      · rw [backEnd_write hp] at hw
        cases hw
      · rw [backEnd_recycle hp] at hw
        cases hw
    · exact Except.ok.inj hp ▸ hw
  | stopCall | stopClear | stopNotify | stopReturn =>
    obtain rfl := Except.ok.inj hp
    exact hw

/-! ## What a step does -/

theorem step_lock_iff {t : T} : step s (.lock t) = some s' ↔
    (s.frontEnds t = .idle ∧ s.mutex_ = none) ∧ { s with
      mutex_ := some (.frontEnd t), frontEnds := Function.update s.frontEnds t .locked } = s' := by
  unfold step
  simp only [Option.ite_none_right_eq_some, Option.some.injEq]

theorem step_append_iff {t : T} {logline : List UInt8} {memory : Memory SIZE} :
    step s (.append t logline memory) = some s' ↔
      (s.frontEnds t = .locked ∧ logline.length < SIZE) ∧
        ∃ log, s.log.append logline memory = .ok log ∧ { s with
          log, frontEnds := Function.update s.frontEnds t
            (.appended (fills s.log logline)) } = s' := by
  unfold step
  simp only [Option.ite_none_right_eq_some, Option.map_eq_some_iff]
  refine and_congr_right fun _ => exists_congr fun log => and_congr ?_ Iff.rfl
  cases s.log.append logline memory <;> simp [Except.toOption]

theorem step_notify_iff {t : T} : step s (.notify t) = some s' ↔
    s.frontEnds t = .appended true ∧
      { s with frontEnds := Function.update s.frontEnds t (.appended false) } = s' := by
  unfold step
  simp only [Option.ite_none_right_eq_some, Option.some.injEq]

theorem step_unlock_iff {t : T} : step s (.unlock t) = some s' ↔
    s.frontEnds t = .appended false ∧
      { s with mutex_ := none, frontEnds := Function.update s.frontEnds t .idle } = s' := by
  unfold step
  simp only [Option.ite_none_right_eq_some, Option.some.injEq]

theorem step_lockBack_iff : step s .lockBack = some s' ↔
    (s.log.backEnd = .lock ∧ s.mutex_ = none) ∧ { s with mutex_ := some .backEnd } = s' := by
  unfold step
  simp only [Option.ite_none_right_eq_some, Option.some.injEq]

theorem step_check_iff : step s .check = some s' ↔
    (s.log.backEnd = .lock ∧ s.mutex_ = some .backEnd) ∧ { s with log := s.log.lock } = s' := by
  unfold step
  simp only [Option.ite_none_right_eq_some, Option.some.injEq]

theorem step_wake_iff : step s .wake = some s' ↔
    s.log.backEnd = .waiting ∧ { s with log := s.log.swapBuffers } = s' := by
  unfold step
  simp only [Option.ite_none_right_eq_some, Option.some.injEq]

theorem step_unlockBack_iff : step s .unlockBack = some s' ↔
    (s.log.backEnd.isWriting = true ∧ s.mutex_ = some .backEnd) ∧
      { s with mutex_ := none } = s' := by
  unfold step
  simp only [Option.ite_none_right_eq_some, Option.some.injEq]

/-- The other steps of the log. -/
theorem step_log {e : AsyncLogging.Event SIZE} (h : step s (.log e) = some s') :
    e ≠ .lock ∧ ∃ log, AsyncLogging.step s.log e = some log ∧ { s with log } = s' := by
  cases e with
  | append logline memory => cases h
  | lock => cases h
  | wake => cases h
  | write =>
    unfold step at h
    simp only [Option.ite_none_right_eq_some, Option.map_eq_some_iff] at h
    exact ⟨by simp, h.2⟩
  | _ => exact ⟨by simp, Option.map_eq_some_iff.mp h⟩

/-- **One step.** -/
theorem step_exclusive {e : Event T SIZE} (h : s.Exclusive) (hs : step s e = some s') :
    s'.Exclusive := by
  cases e with
  | lock t =>
    obtain ⟨⟨ht, hm⟩, rfl⟩ := step_lock_iff.mp hs
    refine ⟨fun u => ?_, fun hw => ?_⟩
    · dsimp only
      rw [Function.update_apply, Option.some.injEq, Holder.frontEnd.injEq]
      split_ifs with hu
      · exact iff_of_true (by decide) hu.symm
      · refine iff_of_false (fun hne => ?_) fun heq => hu heq.symm
        rw [(h.front u).mp hne] at hm
        cases hm
    · rw [h.waiting hw] at hm
      cases hm
  | append t logline memory =>
    obtain ⟨⟨ht, -⟩, log, hlog, rfl⟩ := step_append_iff.mp hs
    exact h.update (by rw [ht]; decide) (by simp) (backEnd_append hlog) rfl rfl
  | notify t =>
    obtain ⟨ht, rfl⟩ := step_notify_iff.mp hs
    exact h.update (by rw [ht]; decide) (by decide) rfl rfl rfl
  | unlock t =>
    obtain ⟨ht, rfl⟩ := step_unlock_iff.mp hs
    have hidle : s.frontEnds t ≠ .idle := by rw [ht]; decide
    refine ⟨fun u => ?_, fun hw => absurd hw (h.not_waiting hidle)⟩
    dsimp only
    rw [Function.update_apply]
    split_ifs with hu
    · exact iff_of_false (fun hne => hne rfl) (by simp)
    · refine iff_of_false (fun hne => hu ?_) (by simp)
      have hm := (h.front u).mp hne
      rw [(h.front t).mp hidle] at hm
      exact (Holder.frontEnd.inj (Option.some.inj hm)).symm
  | lockBack =>
    obtain ⟨⟨hb, hm⟩, rfl⟩ := step_lockBack_iff.mp hs
    refine ⟨fun t => iff_of_false (fun hne => ?_) (by simp), fun _ => rfl⟩
    rw [(h.front t).mp hne] at hm
    cases hm
  | check =>
    obtain ⟨⟨-, hm⟩, rfl⟩ := step_check_iff.mp hs
    exact ⟨h.front, fun _ => hm⟩
  | wake =>
    obtain ⟨-, rfl⟩ := step_wake_iff.mp hs
    exact h.of_log (by rw [backEnd_swapBuffers]; decide) rfl rfl
  | unlockBack =>
    obtain ⟨⟨hb, hm⟩, rfl⟩ := step_unlockBack_iff.mp hs
    refine ⟨fun t => ?_, fun hw => ?_⟩
    · rw [h.front t, hm]
      simp
    · rw [show s.log.backEnd = .waiting from hw] at hb
      cases hb
  | log e =>
    obtain ⟨he, log, hlog, rfl⟩ := step_log hs
    exact ⟨h.front, fun hw => h.waiting (waiting_of_step he hlog hw)⟩

/-- **The steps are those of the log**, or change nothing of it. -/
theorem step_refines {e : Event T SIZE} (h : s.Exclusive) (hs : step s e = some s') :
    s'.log = s.log ∨ ∃ ev, AsyncLogging.step s.log ev = some s'.log := by
  cases e with
  | append t logline memory =>
    obtain ⟨⟨ht, hlt⟩, log, hlog, rfl⟩ := step_append_iff.mp hs
    have hen : s.log.backEnd ≠ .waiting := h.not_waiting (t := t) (by rw [ht]; decide)
    exact Or.inr ⟨.append logline memory,
      AsyncLogging.step_eq_some_iff.mpr ⟨⟨hen, hlt⟩, hlog⟩⟩
  | check =>
    obtain ⟨⟨hb, -⟩, rfl⟩ := step_check_iff.mp hs
    exact Or.inr ⟨.lock, AsyncLogging.step_eq_some_iff.mpr ⟨hb, rfl⟩⟩
  | wake =>
    obtain ⟨hb, rfl⟩ := step_wake_iff.mp hs
    exact Or.inr ⟨.wake, AsyncLogging.step_eq_some_iff.mpr ⟨hb, rfl⟩⟩
  | log e =>
    obtain ⟨-, log, hlog, rfl⟩ := step_log hs
    exact Or.inr ⟨e, hlog⟩
  | lock t => exact Or.inl ((step_lock_iff.mp hs).2 ▸ rfl)
  | notify t => exact Or.inl ((step_notify_iff.mp hs).2 ▸ rfl)
  | unlock t => exact Or.inl ((step_unlock_iff.mp hs).2 ▸ rfl)
  | lockBack => exact Or.inl ((step_lockBack_iff.mp hs).2 ▸ rfl)
  | unlockBack => exact Or.inl ((step_unlockBack_iff.mp hs).2 ▸ rfl)

/-! ## Waits -/

/-- Without an empty `buffers_` in the critical section there is no wait. -/
theorem step_not_waiting {e : Event T SIZE} (h : s.log.backEnd ≠ .waiting)
    (hc : FindsBuffers s e) (hs : step s e = some s') : s'.log.backEnd ≠ .waiting := by
  cases e with
  | append t logline memory =>
    obtain ⟨-, log, hlog, rfl⟩ := step_append_iff.mp hs
    rw [backEnd_append hlog]
    exact h
  | check =>
    obtain ⟨-, rfl⟩ := step_check_iff.mp hs
    have hne : s.log.buffers_.isEmpty = false := List.isEmpty_eq_false_iff.mpr hc
    rw [AsyncLogging.lock, hne, if_neg (by decide), backEnd_swapBuffers]
    decide
  | wake =>
    obtain ⟨-, rfl⟩ := step_wake_iff.mp hs
    rw [backEnd_swapBuffers]
    decide
  | log e =>
    obtain ⟨he, log, hlog, rfl⟩ := step_log hs
    exact fun hw => h (waiting_of_step he hlog hw)
  | lock t => exact (step_lock_iff.mp hs).2 ▸ h
  | notify t => exact (step_notify_iff.mp hs).2 ▸ h
  | unlock t => exact (step_unlock_iff.mp hs).2 ▸ h
  | lockBack => exact (step_lockBack_iff.mp hs).2 ▸ h
  | unlockBack => exact (step_unlockBack_iff.mp hs).2 ▸ h

/-- **Blocked producers.** In a run, `mutex_` is never held by the logging thread while it waits,
exactly when that thread finds `buffers_` filled in each of its critical sections, and so does not
wait at all. -/
theorem unblocked_iff {memory : Memory SIZE} {es : List (Event T SIZE)}
    (h : Run step (new memory) es s) :
    (∀ pre post t, es = pre ++ post → Run step (new memory) pre t → t.Unblocked) ↔
      Along step FindsBuffers (new memory) es := by
  constructor
  · intro hall pre e post t hes ht
    cases e with
    | check =>
      -- an empty `buffers_` leads into a wait
      intro hempty
      rw [hes, run_append_iff] at h
      obtain ⟨t', ht', hrest⟩ := h
      obtain rfl := Option.some.inj (ht.symm.trans ht')
      obtain ⟨u, hu, -⟩ := run_cons_iff.mp hrest
      have hun := hall (pre ++ [.check]) post u (by rw [hes]; simp) (run_snoc_iff.mpr ⟨t, ht, hu⟩)
      obtain ⟨⟨-, hm⟩, rfl⟩ := step_check_iff.mp hu
      refine hun ?_ hm
      dsimp only
      rw [AsyncLogging.lock, hempty]
      rfl
    | _ => trivial
  · intro hc pre post t hes ht hw
    refine absurd hw (ht.inv_of (P := fun s => s.log.backEnd ≠ .waiting)
      (fun _ _ _ hs hc he => step_not_waiting hs hc he) ?_ (by simp [new, AsyncLogging.new]))
    exact Along.of_append (hes ▸ hc)

/-- A buffer is full before the first critical section of the logging thread. -/
def fullBuffer : List (Event Unit 4) :=
  [.log (.start garbage), .lock (), .append () [1, 2, 3] garbage, .unlock (), .lock (),
    .append () [4, 5] garbage, .notify (), .unlock (), .log .test, .lockBack, .check, .unlockBack]

theorem fullBuffer_unblocked : ∃ s : Producers Unit 4, Run step (new garbage) fullBuffer s ∧
    s.log.backEnd = .writing 0 ∧ s.Unblocked := by
  have h : (fullBuffer.foldlM step (new garbage)).map (fun s => s.log.backEnd) =
      some (.writing 0) := by decide +kernel
  obtain ⟨s, hs, hb⟩ := Option.map_eq_some_iff.mp h
  exact ⟨s, hs, hb, (unblocked_iff hs).mpr (along_of_check (by decide +kernel)) fullBuffer [] s
    (List.append_nil _).symm hs⟩

/-- The logging thread starts, and nothing has been logged. -/
def nothingLogged (memory : Memory SIZE) : List (Event Unit SIZE) :=
  [.log (.start memory), .log .test, .lockBack, .check]

theorem nothingLogged_waits (memory : Memory SIZE) : ∃ s,
    Run step (new memory) (nothingLogged memory) s ∧ s.log.backEnd = .waiting ∧
      s.mutex_ = some .backEnd := ⟨_, rfl, rfl, rfl⟩

/-- For no size of the buffers, and whatever their memory holds, is `mutex_` always free. -/
theorem waits_under_mutex : ¬ ∃ (SIZE : ℕ) (memory : Memory SIZE),
    ∀ es (s : Producers Unit SIZE), Run step (new memory) es s → s.Unblocked := by
  rintro ⟨SIZE, memory, hall⟩
  obtain ⟨s, hs, hb, hm⟩ := nothingLogged_waits memory
  exact hall (nothingLogged memory) s hs hb hm

end Producers

end HighServer
