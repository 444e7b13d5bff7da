import HighServer.Lib.Runs

/-!
# Starting the threads of a pool

`EventLoopThreadPool::start` starts its threads one after the other, and waits in `startLoop` until
`threadFunc` has stored `loop_`. The test of `loop_` is made under `mutex_`, but the wait uses the
mutex of `Condition`, and `mutex_` is released before it.

* `Owner`, `Child`: where `start` is, and one `EventLoopThread` with its thread;
* `step`: the critical sections and the operations on `cond_`, in any order, and spurious wakeups;
* `Missed`: `startLoop` waits, and the only `notify` came before the wait;
* `InTime`: a `notify` that does not come between the test and the wait;
* `step_inv`: what the two sides know of each other when every `notify` is `InTime`;
* **`startLoop_notified`**: then no `notify` is missed, and any other can be; `notify_before_wait`
  is a run in which one is.
-/

namespace HighServer

/-- Where `EventLoopThreadPool::start` is; `i` is the thread that it has come to. -/
inductive Owner where
  /-- before the test of `i < numThreads_` -/
  | loop (i : ℕ)
  /-- in `startLoop`, before it takes `mutex_` -/
  | test (i : ℕ)
  /-- `loop_` was null, and `mutex_` is released -/
  | unlocked (i : ℕ)
  /-- in `cond_.wait()`; `late` says whether `notify` had been called when the wait began -/
  | waiting (i : ℕ) (late : Bool)
  deriving DecidableEq, Repr

/-- Where `threadFunc` is. -/
inductive ThreadFunc where
  | notStarted
  /-- before it takes `mutex_` -/
  | started
  /-- `loop_` is stored, with `mutex_` taken -/
  | stored
  /-- `cond_.notify()` has returned, with `mutex_` taken -/
  | notified
  /-- `mutex_` is released -/
  | unlocked
  deriving DecidableEq, Repr

def ThreadFunc.hasNotified : ThreadFunc → Bool
  | .notStarted => false
  | .started => false
  | .stored => false
  | .notified => true
  | .unlocked => true

/-- An `EventLoopThread` of the pool. -/
structure Child where
  /-- `loop_ != NULL` -/
  loop_ : Bool
  /-- whether `threadFunc` has taken `mutex_` -/
  mutex_ : Bool
  threadFunc : ThreadFunc
  deriving DecidableEq, Repr

/-- `loop_` is stored before the `notify`. -/
def Child.Ordered (c : Child) : Prop :=
  c.threadFunc = .stored ∨ c.threadFunc.hasNotified = true → c.loop_ = true

/-- The pool during `start`; `loops_` holds the numbers of the threads. -/
structure PoolStart where
  numThreads_ : ℕ
  threads_ : ℕ → Child
  loops_ : List ℕ
  owner : Owner

namespace PoolStart

open Runs

def new (numThreads : ℕ) : PoolStart where
  numThreads_ := numThreads
  threads_ _ := ⟨false, false, .notStarted⟩
  loops_ := []
  owner := .loop 0

inductive Event where
  /-- `new EventLoopThread()` and `thread_.start()` -/
  | start
  /-- the test of `loop_` in a critical section -/
  | test
  /-- `cond_.wait()` begins -/
  | wait
  /-- it ends without a `notify` -/
  | wake
  | store (i : ℕ)
  | notify (i : ℕ)
  | unlock (i : ℕ)
  deriving DecidableEq, Repr

/-- The rest of the loop of `start`: the test of `loop_`, and `loops_.push_back`. -/
def testLoop (s : PoolStart) (i : ℕ) : PoolStart :=
  if (s.threads_ i).loop_ then { s with loops_ := s.loops_ ++ [i], owner := .loop (i + 1) }
  else { s with owner := .unlocked i }

/-- `notify_one` wakes the owner when it waits for this thread. -/
def woken (o : Owner) (i : ℕ) : Owner :=
  match o with
  | .waiting j late => if j = i then .test i else .waiting j late
  | o => o

def step (s : PoolStart) : Event → Option PoolStart
  | .start =>
    match s.owner with
    | .loop i =>
      if i < s.numThreads_ then
        some { s with
          threads_ := Function.update s.threads_ i ⟨false, false, .started⟩
          owner := .test i }
      else none
    | _ => none
  | .test =>
    match s.owner with
    | .test i => if (s.threads_ i).mutex_ then none else some (s.testLoop i)
    | _ => none
  | .wait =>
    match s.owner with
    | .unlocked i =>
      some { s with owner := .waiting i (s.threads_ i).threadFunc.hasNotified }
    | _ => none
  | .wake =>
    match s.owner with
    | .waiting i _ => some { s with owner := .test i }
    | _ => none
  | .store i =>
    if (s.threads_ i).threadFunc = .started then
      some { s with threads_ := Function.update s.threads_ i ⟨true, true, .stored⟩ }
    else none
  | .notify i =>
    if (s.threads_ i).threadFunc = .stored then
      some { s with
        threads_ := Function.update s.threads_ i { s.threads_ i with threadFunc := .notified }
        owner := woken s.owner i }
    else none
  | .unlock i =>
    if (s.threads_ i).threadFunc = .notified then
      some { s with
        threads_ := Function.update s.threads_ i
          { s.threads_ i with mutex_ := false, threadFunc := .unlocked } }
    else none

/-- `startLoop` waits, although the thread had stored `loop_` and called `notify` before. -/
def Missed (s : PoolStart) : Prop := ∃ i, s.owner = .waiting i true

/-- A `notify` does not come between the owner's test and its wait. -/
def InTime (s : PoolStart) : Event → Prop
  | .notify i => s.owner ≠ .unlocked i
  | _ => True

instance (s : PoolStart) (e : Event) : Decidable (s.InTime e) :=
  match e with
  | .notify _ => inferInstanceAs (Decidable (¬ _))
  | .start | .test | .wait | .wake | .store _ | .unlock _ => .isTrue trivial

variable {s s' : PoolStart}

/-! ## What a step does -/

theorem step_start_iff : step s .start = some s' ↔ ∃ i, s.owner = .loop i ∧ i < s.numThreads_ ∧
    { s with threads_ := Function.update s.threads_ i ⟨false, false, .started⟩
             owner := .test i } = s' := by
  unfold step
  dsimp only
  cases s.owner <;> simp

theorem step_test_iff : step s .test = some s' ↔
    ∃ i, s.owner = .test i ∧ (s.threads_ i).mutex_ = false ∧ s.testLoop i = s' := by
  unfold step
  dsimp only
  cases s.owner <;> simp

theorem step_wait_iff : step s .wait = some s' ↔ ∃ i, s.owner = .unlocked i ∧
    { s with owner := .waiting i (s.threads_ i).threadFunc.hasNotified } = s' := by
  unfold step
  dsimp only
  cases s.owner <;> simp

theorem step_wake_iff : step s .wake = some s' ↔
    ∃ i late, s.owner = .waiting i late ∧ { s with owner := .test i } = s' := by
  unfold step
  dsimp only
  cases s.owner <;> simp

theorem step_store_iff {i : ℕ} : step s (.store i) = some s' ↔
    (s.threads_ i).threadFunc = .started ∧
      { s with threads_ := Function.update s.threads_ i ⟨true, true, .stored⟩ } = s' := by
  unfold step
  simp

theorem step_notify_iff {i : ℕ} : step s (.notify i) = some s' ↔
    (s.threads_ i).threadFunc = .stored ∧
      { s with
        threads_ := Function.update s.threads_ i { s.threads_ i with threadFunc := .notified }
        owner := woken s.owner i } = s' := by
  unfold step
  simp

theorem step_unlock_iff {i : ℕ} : step s (.unlock i) = some s' ↔
    (s.threads_ i).threadFunc = .notified ∧
      { s with
        threads_ := Function.update s.threads_ i
          { s.threads_ i with mutex_ := false, threadFunc := .unlocked } } = s' := by
  unfold step
  simp

/-! ## The two sides -/

structure Inv (s : PoolStart) : Prop where
  ordered : ∀ i, (s.threads_ i).Ordered
  unlocked : ∀ i, s.owner = .unlocked i → (s.threads_ i).threadFunc.hasNotified = false
  waiting : ¬ s.Missed

theorem inv_new (n : ℕ) : (new n).Inv where
  ordered i h := by
    rcases h with h | h
    · cases h
    · cases h
  unlocked i h := by cases h
  waiting := by
    rintro ⟨i, h⟩
    cases h

/-- A thread's step keeps `ordered`. -/
theorem ordered_update (h : ∀ i, (s.threads_ i).Ordered) (i : ℕ) {c : Child} (hc : c.Ordered) :
    ∀ j, (Function.update s.threads_ i c j).Ordered :=
  (Function.forall_update_iff s.threads_ fun _ c => c.Ordered).mpr ⟨hc, fun j _ => h j⟩

theorem woken_eq_unlocked_iff {o : Owner} {i j : ℕ} :
    woken o i = .unlocked j ↔ o = .unlocked j := by
  cases o with
  | waiting k late => simp only [woken]; split_ifs <;> simp
  | _ => simp [woken]

theorem waiting_of_woken {o : Owner} {i j : ℕ} {late : Bool} (h : woken o i = .waiting j late) :
    o = .waiting j late := by
  cases o with
  | waiting k late' =>
    simp only [woken] at h
    split_ifs at h
    exact h
  | _ => exact h

/-- **One step.** -/
theorem step_inv {e : Event} (h : s.Inv) (hc : s.InTime e) (hs : step s e = some s') : s'.Inv := by
  cases e with
  | start =>
    obtain ⟨i, -, -, rfl⟩ := step_start_iff.mp hs
    exact ⟨ordered_update h.ordered i (by simp [Child.Ordered, ThreadFunc.hasNotified]),
      fun j hj => by simp at hj, by simp [Missed]⟩
  | test =>
    obtain ⟨i, -, hm, rfl⟩ := step_test_iff.mp hs
    unfold testLoop
    split_ifs with hloop
    · exact ⟨h.ordered, fun j hj => by simp at hj, by simp [Missed]⟩
    · refine ⟨h.ordered, fun j hj => ?_, by simp [Missed]⟩
      obtain rfl := Owner.unlocked.inj hj
      by_contra hn
      exact hloop (h.ordered i (Or.inr (Bool.of_not_eq_false hn)))
  | wait =>
    obtain ⟨i, ho, rfl⟩ := step_wait_iff.mp hs
    refine ⟨h.ordered, fun j hj => by simp at hj, ?_⟩
    rintro ⟨j, hj⟩
    have := h.unlocked i ho
    obtain ⟨-, hlate⟩ := Owner.waiting.inj hj
    rw [this] at hlate
    cases hlate
  | wake =>
    obtain ⟨i, late, -, rfl⟩ := step_wake_iff.mp hs
    exact ⟨h.ordered, fun j hj => by simp at hj, by simp [Missed]⟩
  | store i =>
    obtain ⟨-, rfl⟩ := step_store_iff.mp hs
    refine ⟨ordered_update h.ordered i fun _ => rfl, ?_, h.waiting⟩
    exact (Function.forall_update_iff s.threads_ fun j c => s.owner = .unlocked j →
      c.threadFunc.hasNotified = false).mpr ⟨fun _ => rfl, fun j _ => h.unlocked j⟩
  | notify i =>
    obtain ⟨hst, rfl⟩ := step_notify_iff.mp hs
    refine ⟨ordered_update h.ordered i fun _ => h.ordered i (Or.inl hst), ?_, ?_⟩
    · refine (Function.forall_update_iff s.threads_ fun j c => woken s.owner i = .unlocked j →
        c.threadFunc.hasNotified = false).mpr ⟨fun hj => ?_, fun j _ hj => ?_⟩
      · exact absurd (woken_eq_unlocked_iff.mp hj) hc
      · exact h.unlocked j (woken_eq_unlocked_iff.mp hj)
    · rintro ⟨j, hj⟩
      exact h.waiting ⟨j, waiting_of_woken hj⟩
  | unlock i =>
    obtain ⟨hst, rfl⟩ := step_unlock_iff.mp hs
    have hn : (s.threads_ i).threadFunc.hasNotified = true := by rw [hst]; rfl
    refine ⟨ordered_update h.ordered i fun _ => h.ordered i (Or.inr hn), ?_, h.waiting⟩
    refine (Function.forall_update_iff s.threads_ fun j c => s.owner = .unlocked j →
      c.threadFunc.hasNotified = false).mpr ⟨fun ho => ?_, fun j _ => h.unlocked j⟩
    have := h.unlocked i ho
    rw [hn] at this
    cases this

/-- **No missed `notify`.** When every `notify` finds the owner before its test, or waiting, none is
missed. After any other `notify`, the owner can go into its wait. -/
theorem startLoop_notified {n : ℕ} {es : List Event} (h : Run step (new n) es s) :
    (Along step InTime (new n) es → ¬ s.Missed) ∧
    ∀ i s', step s (.notify i) = some s' → ¬ s.InTime (.notify i) →
      ∃ s'', Run step (new n) (es ++ [.notify i, .wait]) s'' ∧ s''.Missed := by
  constructor
  · intro hc
    exact (h.inv_of (P := Inv) (fun _ _ _ hi hc hs => step_inv hi hc hs) hc (inv_new n)).waiting
  · intro i s' hs hc
    have ho : s.owner = .unlocked i := not_ne_iff.mp hc
    have ho' : s'.owner = .unlocked i := by
      obtain ⟨-, rfl⟩ := step_notify_iff.mp hs
      exact woken_eq_unlocked_iff.mpr ho
    have hwait := Run.cons (step_wait_iff.mpr ⟨i, ho', rfl⟩) (Run.nil _)
    refine ⟨_, h.append (Run.cons hs hwait), i, ?_⟩
    obtain ⟨-, rfl⟩ := step_notify_iff.mp hs
    simp [ThreadFunc.hasNotified]

/-- The owner waits when the thread notifies. -/
def notifyInWait : List Event := [.start, .test, .wait, .store 0, .notify 0, .unlock 0, .test]

theorem notifyInWait_notified : ∃ s, Run step (new 1) notifyInWait s ∧ s.loops_ = [0] ∧
    ¬ s.Missed := by
  have h : (notifyInWait.foldlM step (new 1)).map (fun s => s.loops_) = some [0] := by
    decide +kernel
  obtain ⟨s, hs, hq⟩ := Option.map_eq_some_iff.mp h
  exact ⟨s, hs, hq, (startLoop_notified hs).1 (along_of_check (by decide +kernel))⟩

/-- The thread stores and notifies between the test and the wait. -/
def notifyBeforeWait : List Event := [.start, .test, .store 0, .notify 0, .unlock 0, .wait]

theorem notify_before_wait : ¬ ∀ n es s, Run step (new n) es s → ¬ s.Missed := by
  intro hall
  have h : (notifyBeforeWait.foldlM step (new 1)).map (fun s => s.owner) =
      some (.waiting 0 true) := by decide +kernel
  obtain ⟨s, hs, hq⟩ := Option.map_eq_some_iff.mp h
  exact hall 1 notifyBeforeWait s hs ⟨0, hq⟩

end PoolStart

end HighServer
