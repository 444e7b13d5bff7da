import HighServer.Net.Quit

/-!
# The end of an `EventLoopThread`

`threadFunc` has its loop on the stack; behind `loop.loop()` it asserts `exiting_`. The owner has a
pointer to the loop from `startLoop`, and its destructor sets `exiting_` and calls `loop_->quit()`.

* `Shutdown`, `step`: the thread of `EventLoopThread`, the rest of `threadFunc`, and the owner;
* `Safe`: the assertion holds where it is reached, and the destructor calls `quit()` on a loop that
  is alive; the rest of that call, behind the store of `quit_`, can still meet a loop that is gone;
* `Early`: a `quit()` through the pointer comes before the store `quit_ = false` of `loop()`;
* `Held`: until the destructor has called `quit()`, the thread stays in the loop;
* `exists_run_assertion`: a loop with `quit_` set can come to its end;
* **`shutdown_safe`**: runs in which every `quit()` is `Early` are safe, and any other `quit()` can
  make the assertion fail; `quit_first` has a run for each of the two failures.
-/

namespace HighServer

/-- Where `~EventLoopThread` is. -/
inductive Destructor where
  | notCalled
  /-- `exiting_` is set -/
  | exiting
  /-- `loop_->quit()` is called -/
  | quitting
  /-- `thread_.join()` has returned -/
  | returned
  deriving DecidableEq, Repr

/-- What is left of `threadFunc` behind `loop.loop()`. -/
inductive Tail where
  | assertion
  /-- the destructor of `loop` -/
  | destroy
  | done
  deriving DecidableEq, Repr

/-- An `EventLoopThread` whose `startLoop` was called. -/
structure Shutdown (T F : Type) where
  thread : EventLoopThread T F
  tail : Tail
  exiting_ : Bool
  destructor : Destructor

namespace Shutdown

open Runs

variable {T F : Type}

def new : Shutdown T F where
  thread := EventLoopThread.new
  tail := .assertion
  exiting_ := false
  destructor := .notCalled

/-- `startLoop` has returned. -/
def Started (s : Shutdown T F) : Prop := s.thread.stage = .published ∨ s.thread.stage = .entered

instance (s : Shutdown T F) : Decidable s.Started := inferInstanceAs (Decidable (_ ∨ _))

/-- `loop.loop()` has returned, and the assertion comes next. -/
def AtAssertion (s : Shutdown T F) : Prop :=
  s.thread.stage = .entered ∧ s.thread.loop.phase = .outside ∧ s.tail = .assertion

instance [DecidableEq F] (s : Shutdown T F) : Decidable s.AtAssertion :=
  inferInstanceAs (Decidable (_ ∧ _))

inductive Event (T F : Type) where
  /-- a step of the thread up to the end of `loop()`, or of another thread's `queueInLoop` or
  `wakeup` -/
  | thread (e : EventLoopThread.Event T F)
  /-- `assert(exiting_)` -/
  | assertion
  | destroyLoop
  /-- the owner's `loop->quit()` -/
  | quit
  | setExiting
  /-- the destructor's `loop_->quit()` -/
  | destructorQuit
  | join
  deriving DecidableEq, Repr

/-- A call of `quit()` is an event of the owner. -/
def calls : EventLoopThread.Event T F → Bool
  | .loop .quit => true
  | .loop (.quitFrom _) => true
  | _ => false

variable [DecidableEq T] [DecidableEq F]

def step (owner : T) (s : Shutdown T F) : Event T F → Option (Shutdown T F)
  | .thread e =>
    if calls e then none
    else (EventLoopThread.step s.thread e).map fun thread => { s with thread }
  | .assertion =>
    if s.AtAssertion ∧ s.exiting_ = true then some { s with tail := .destroy } else none
  | .destroyLoop => if s.tail = .destroy then some { s with tail := .done } else none
  | .quit =>
    if s.Started ∧ s.tail ≠ .done ∧ s.destructor = .notCalled then
      (EventLoopThread.step s.thread (.loop (.quitFrom owner))).map fun thread =>
        { s with thread }
    else none
  | .setExiting =>
    if s.Started ∧ s.thread.loop.callers owner = .idle ∧ s.destructor = .notCalled then
      some { s with exiting_ := true, destructor := .exiting }
    else none
  | .destructorQuit =>
    if s.destructor = .exiting ∧ s.tail ≠ .done then
      (EventLoopThread.step s.thread (.loop (.quitFrom owner))).map fun thread =>
        { s with thread, destructor := .quitting }
    else none
  | .join =>
    if s.destructor = .quitting ∧ s.thread.loop.callers owner = .idle ∧ s.tail = .done then
      some { s with destructor := .returned }
    else none

omit [DecidableEq T] [DecidableEq F] in
/-- `exiting_` is set when the assertion is reached, and the loop exists when the destructor calls
its `quit()`. What `quit()` does after its store, `isInLoopThread()` and `wakeup()`, is not asked
about: the loop may have come to its end by then. -/
def Safe (s : Shutdown T F) : Event T F → Prop
  | .assertion => s.AtAssertion → s.exiting_ = true
  | .destructorQuit => s.destructor = .exiting → s.tail ≠ .done
  | _ => True

omit [DecidableEq T] [DecidableEq F] in
/-- A `quit()` through the pointer stores `quit_` before `loop()` does. -/
def Early (s : Shutdown T F) : Event T F → Prop
  | .quit => s.thread.stage ≠ .entered
  | _ => True

instance (s : Shutdown T F) (e : Event T F) : Decidable (s.Early e) :=
  match e with
  | .quit => inferInstanceAs (Decidable (¬ _))
  | .thread _ | .assertion | .destroyLoop | .setExiting | .destructorQuit | .join => .isTrue trivial

variable {owner : T} {s s' : Shutdown T F}

/-! ## What a step does -/

theorem step_thread_iff {e : EventLoopThread.Event T F} : step owner s (.thread e) = some s' ↔
    calls e = false ∧ ∃ t, EventLoopThread.step s.thread e = some t ∧
      { s with thread := t } = s' := by
  cases h : calls e <;> simp [step, h, Option.map_eq_some_iff]

theorem step_assertion_iff : step owner s .assertion = some s' ↔
    (s.AtAssertion ∧ s.exiting_ = true) ∧ { s with tail := .destroy } = s' := by
  unfold step
  simp

theorem step_destroyLoop_iff : step owner s .destroyLoop = some s' ↔
    s.tail = .destroy ∧ { s with tail := .done } = s' := by
  unfold step
  simp

theorem step_quit_iff : step owner s .quit = some s' ↔
    (s.Started ∧ s.tail ≠ .done ∧ s.destructor = .notCalled) ∧
      ∃ t, EventLoopThread.step s.thread (.loop (.quitFrom owner)) = some t ∧
        { s with thread := t } = s' := by
  unfold step
  simp only [Option.ite_none_right_eq_some, Option.map_eq_some_iff]

theorem step_setExiting_iff : step owner s .setExiting = some s' ↔
    (s.Started ∧ s.thread.loop.callers owner = .idle ∧ s.destructor = .notCalled) ∧
      { s with exiting_ := true, destructor := .exiting } = s' := by
  unfold step
  simp only [Option.ite_none_right_eq_some, Option.some.injEq]

theorem step_destructorQuit_iff : step owner s .destructorQuit = some s' ↔
    (s.destructor = .exiting ∧ s.tail ≠ .done) ∧
      ∃ t, EventLoopThread.step s.thread (.loop (.quitFrom owner)) = some t ∧
        { s with thread := t, destructor := .quitting } = s' := by
  unfold step
  simp only [Option.ite_none_right_eq_some, Option.map_eq_some_iff]

theorem step_join_iff : step owner s .join = some s' ↔
    (s.destructor = .quitting ∧ s.thread.loop.callers owner = .idle ∧ s.tail = .done) ∧
      { s with destructor := .returned } = s' := by
  unfold step
  simp only [Option.ite_none_right_eq_some, Option.some.injEq]

/-! ## Runs under the condition -/

/-- The thread is in the `while` loop, with nothing to end it. -/
def Inside (t : EventLoopThread T F) : Prop :=
  t.stage = .entered → t.loop.quit_ = false ∧ t.loop.phase ≠ .outside

omit [DecidableEq F] in
theorem inside_loop {l l' : EventLoop T F} {e : EventLoop.Event T F} (he : e ≠ .loop)
    (hc : calls (.loop e : EventLoopThread.Event T F) = false) (h : EventLoop.step l e = some l')
    (hq : l.quit_ = false) (hp : l.phase ≠ .outside) :
    l'.quit_ = false ∧ l'.phase ≠ .outside := by
  cases e with
  | loop => exact absurd rfl he
  | test =>
    obtain ⟨-, rfl⟩ := EventLoop.step_test_iff.mp h
    rw [if_neg (by simp [hq])]
    exact ⟨hq, by simp⟩
  | poll woken => obtain ⟨-, -, rfl⟩ := EventLoop.step_poll_iff.mp h; exact ⟨hq, by simp⟩
  | handleRead => obtain ⟨-, rfl⟩ := EventLoop.step_handleRead_iff.mp h; exact ⟨hq, by simp⟩
  | swap => obtain ⟨-, rfl⟩ := EventLoop.step_swap_iff.mp h; exact ⟨hq, by simp⟩
  | run => obtain ⟨_, _, _, -, rfl⟩ := EventLoop.step_run_iff.mp h; exact ⟨hq, by simp⟩
  | finish => obtain ⟨-, rfl⟩ := EventLoop.step_finish_iff.mp h; exact ⟨hq, by simp⟩
  | queueInLoop cb =>
    obtain ⟨-, rfl⟩ := EventLoop.step_queueInLoop_iff.mp h
    unfold EventLoop.queueInLoop EventLoop.wakeup
    split_ifs <;> exact ⟨hq, hp⟩
  | quit => cases hc
  | push t cb => obtain ⟨-, rfl⟩ := EventLoop.step_push_iff.mp h; exact ⟨hq, hp⟩
  | quitFrom t => cases hc
  | wakeup t =>
    obtain ⟨-, rfl⟩ := EventLoop.step_wakeup_iff.mp h
    unfold EventLoop.wakeup
    split_ifs <;> exact ⟨hq, hp⟩

omit [DecidableEq F] in
theorem inside_thread {t t' : EventLoopThread T F} {e : EventLoopThread.Event T F}
    (hc : calls e = false) (h : EventLoopThread.step t e = some t') (hi : Inside t) :
    Inside t' := by
  cases e with
  | construct =>
    obtain ⟨-, rfl⟩ := EventLoopThread.step_construct_iff.mp h
    exact fun hst => by cases hst
  | publish =>
    obtain ⟨-, rfl⟩ := EventLoopThread.step_publish_iff.mp h
    exact fun hst => by cases hst
  | loop e =>
    by_cases he : e = .loop
    · subst he
      obtain ⟨-, l, hl, rfl⟩ := EventLoopThread.step_enter_iff.mp h
      obtain ⟨-, rfl⟩ := EventLoop.step_loop_iff.mp hl
      exact fun _ => ⟨rfl, by simp⟩
    · obtain ⟨-, l, hl, rfl⟩ := (EventLoopThread.step_loop_iff he).mp h
      intro hst
      obtain ⟨hq, hp⟩ := hi hst
      exact inside_loop he hc hl hq hp

/-- Until the destructor has called `quit()`, the thread does not leave the loop. -/
def Held (s : Shutdown T F) : Prop :=
  s.destructor = .notCalled ∨ s.destructor = .exiting → s.tail = .assertion ∧ Inside s.thread

/-- `exiting_` is set by the destructor, and the assertion sees it. -/
structure Order (s : Shutdown T F) : Prop where
  exiting_ : s.exiting_ = true ↔ s.destructor ≠ .notCalled
  tail : s.tail ≠ .assertion → s.exiting_ = true

omit [DecidableEq T] [DecidableEq F] in
theorem held_new : (new : Shutdown T F).Held :=
  fun _ => ⟨rfl, fun hst => by cases hst⟩

omit [DecidableEq T] [DecidableEq F] in
theorem order_new : (new : Shutdown T F).Order where
  exiting_ := by simp [new]
  tail h := absurd rfl h

theorem step_order {e : Event T F} (h : s.Order) (hs : step owner s e = some s') : s'.Order := by
  cases e with
  | thread e =>
    obtain ⟨-, t, -, rfl⟩ := step_thread_iff.mp hs
    exact ⟨h.exiting_, h.tail⟩
  | assertion =>
    obtain ⟨⟨-, hexiting⟩, rfl⟩ := step_assertion_iff.mp hs
    exact ⟨h.exiting_, fun _ => hexiting⟩
  | destroyLoop =>
    obtain ⟨htail, rfl⟩ := step_destroyLoop_iff.mp hs
    exact ⟨h.exiting_, fun _ => h.tail (by simp [htail])⟩
  | quit =>
    obtain ⟨-, t, -, rfl⟩ := step_quit_iff.mp hs
    exact ⟨h.exiting_, h.tail⟩
  | setExiting =>
    obtain ⟨-, rfl⟩ := step_setExiting_iff.mp hs
    exact ⟨by simp, fun _ => rfl⟩
  | destructorQuit =>
    obtain ⟨⟨hd, -⟩, t, -, rfl⟩ := step_destructorQuit_iff.mp hs
    have := h.exiting_.mpr (by simp [hd])
    exact ⟨by simp [this], h.tail⟩
  | join =>
    obtain ⟨⟨hd, -⟩, rfl⟩ := step_join_iff.mp hs
    have := h.exiting_.mpr (by simp [hd])
    exact ⟨by simp [this], h.tail⟩

/-- **One step.** -/
theorem step_held {e : Event T F} (h : s.Held) (hc : s.Early e) (hs : step owner s e = some s') :
    s'.Held := by
  cases e with
  | thread e =>
    obtain ⟨hcalls, t, ht, rfl⟩ := step_thread_iff.mp hs
    intro hd
    obtain ⟨htail, hinside⟩ := h hd
    exact ⟨htail, inside_thread hcalls ht hinside⟩
  | assertion =>
    obtain ⟨⟨⟨hst, hp, -⟩, -⟩, rfl⟩ := step_assertion_iff.mp hs
    intro hd
    exact absurd hp ((h hd).2 hst).2
  | destroyLoop =>
    obtain ⟨htail, rfl⟩ := step_destroyLoop_iff.mp hs
    intro hd
    have := (h hd).1
    rw [htail] at this
    cases this
  | quit =>
    obtain ⟨-, t, ht, rfl⟩ := step_quit_iff.mp hs
    intro hd
    refine ⟨(h hd).1, fun hst => ?_⟩
    -- a store before the entry of `loop()`
    obtain ⟨-, l, -, rfl⟩ := (EventLoopThread.step_loop_iff (by simp)).mp ht
    exact absurd hst hc
  | setExiting =>
    obtain ⟨⟨-, -, hd⟩, rfl⟩ := step_setExiting_iff.mp hs
    exact fun _ => h (Or.inl hd)
  | destructorQuit =>
    obtain ⟨-, t, -, rfl⟩ := step_destructorQuit_iff.mp hs
    rintro (hd | hd)
    · cases hd
    · cases hd
  | join =>
    obtain ⟨-, rfl⟩ := step_join_iff.mp hs
    rintro (hd | hd)
    · cases hd
    · cases hd

omit [DecidableEq T] [DecidableEq F] in
theorem Held.safe (h : s.Held) (ho : s.Order) (e : Event T F) : s.Safe e := by
  cases e with
  | assertion =>
    rintro ⟨hst, hp, -⟩
    rw [ho.exiting_]
    intro hd
    exact ((h (Or.inl hd)).2 hst).2 hp
  | destructorQuit =>
    intro hd htail
    have := (h (Or.inr hd)).1
    rw [htail] at this
    cases this
  | _ => trivial

/-! ## A `quit()` that ends the loop -/

/-- Steps of the loop thread only, in `loop()`. -/
def Quiet (es : List (EventLoop.Event T F)) : Prop :=
  ∀ e ∈ es, e ≠ .loop ∧ calls (.loop e : EventLoopThread.Event T F) = false

/-- The loop can come to the test of `quit_`. -/
def ReachesTest (l : EventLoop T F) : Prop :=
  ∃ es l', Run EventLoop.step l es l' ∧ l'.phase = .test ∧ l'.quit_ = l.quit_ ∧ Quiet es

omit [DecidableEq F] in
theorem ReachesTest.of_step {l l' : EventLoop T F} {e : EventLoop.Event T F}
    (he : e ≠ .loop ∧ calls (.loop e : EventLoopThread.Event T F) = false)
    (h : EventLoop.step l e = some l') (hq : l'.quit_ = l.quit_) (hr : ReachesTest l') :
    ReachesTest l := by
  obtain ⟨es, l'', hrun, hp, hq', hes⟩ := hr
  refine ⟨e :: es, l'', hrun.cons h, hp, hq'.trans hq, fun e' he' => ?_⟩
  rcases List.mem_cons.mp he' with rfl | he'
  · exact he
  · exact hes e' he'

omit [DecidableEq F] in
/-- The functors that are left are called. -/
theorem reachesTest_running {functions : List F} {l : EventLoop T F} {current : Option F}
    (hp : l.phase = .running current functions) : ReachesTest l := by
  induction functions generalizing l current with
  | nil =>
    have hstep := EventLoop.step_finish_iff.mpr ⟨⟨current, hp⟩, rfl⟩
    exact .of_step ⟨by simp, rfl⟩ hstep rfl ⟨[], _, Run.nil _, rfl, rfl, by simp [Quiet]⟩
  | cons f functions ih =>
    have hstep := EventLoop.step_run_iff.mpr ⟨current, f, functions, hp, rfl⟩
    exact .of_step ⟨by simp, rfl⟩ hstep rfl (ih rfl)

omit [DecidableEq F] in
theorem reachesTest_handled {l : EventLoop T F} (hp : l.phase = .handling false) :
    ReachesTest l :=
  .of_step ⟨by simp, rfl⟩ (EventLoop.step_swap_iff.mpr ⟨hp, rfl⟩) rfl (reachesTest_running rfl)

omit [DecidableEq F] in
theorem reachesTest {l : EventLoop T F} (hp : l.phase ≠ .outside) : ReachesTest l := by
  cases h : l.phase with
  | outside => exact absurd h hp
  | test => exact ⟨[], l, Run.nil l, h, rfl, by simp [Quiet]⟩
  | polling =>
    -- `epoll_wait` times out
    have hstep : EventLoop.step l (.poll false) = some { l with phase := .handling false } :=
      EventLoop.step_poll_iff.mpr ⟨h, by simp, rfl⟩
    exact .of_step ⟨by simp, rfl⟩ hstep rfl (reachesTest_handled rfl)
  | handling woken =>
    cases woken with
    | false => exact reachesTest_handled h
    | true =>
      have hstep := EventLoop.step_handleRead_iff.mpr ⟨h, rfl⟩
      exact .of_step ⟨by simp, rfl⟩ hstep rfl (reachesTest_handled rfl)
  | running current functions => exact reachesTest_running h

/-- The thread runs the loop `l`, and the rest of the system is as in `s`. -/
def Follows (s : Shutdown T F) (l : EventLoop T F) (s' : Shutdown T F) : Prop :=
  s'.thread.stage = .entered ∧ s'.thread.loop = l ∧ s'.tail = s.tail ∧ s'.exiting_ = s.exiting_

/-- A step of the loop, as a step of the system. -/
theorem step_follows {e : EventLoop.Event T F} {l l' : EventLoop T F} {s' : Shutdown T F}
    (he : e ≠ .loop ∧ calls (.loop e : EventLoopThread.Event T F) = false)
    (hs' : Follows s l s') (h : EventLoop.step l e = some l') :
    ∃ d s'', step owner s' d = some s'' ∧ True ∧ Follows s l' s'' := by
  obtain ⟨hst, rfl, htail, hex⟩ := hs'
  have hthread := (EventLoopThread.step_loop_iff he.1).mpr ⟨by simp [hst], l', h, rfl⟩
  exact ⟨_, _, step_thread_iff.mpr ⟨he.2, _, hthread, rfl⟩, trivial, hst, rfl, htail, hex⟩

/-- Steps of the loop, as steps of the system. -/
theorem run_thread {es : List (EventLoop.Event T F)} {l : EventLoop T F} (hes : Quiet es)
    (hst : s.thread.stage = .entered) (h : Run EventLoop.step s.thread.loop es l) :
    ∃ fs s', Run (step owner) s fs s' ∧ s'.thread.stage = .entered ∧ s'.thread.loop = l ∧
      s'.tail = s.tail ∧ s'.exiting_ = s.exiting_ := by
  obtain ⟨fs, s', hr, -, hs'⟩ := h.simulate (R := Follows s) (D := fun _ _ => True)
    (fun _ _ _ _ hR he hl => Or.inr (step_follows he hR hl))
    (along_of_forall fun e he _ => hes e he) ⟨hst, rfl, rfl, rfl⟩
  exact ⟨fs, s', hr, hs'⟩

/-- With `quit_` set the thread can come to the assertion. -/
theorem exists_run_assertion (hst : s.thread.stage = .entered) (hq : s.thread.loop.quit_ = true)
    (htail : s.tail = .assertion) : ∃ fs s', Run (step owner) s fs s' ∧ s'.AtAssertion ∧
      s'.exiting_ = s.exiting_ := by
  by_cases hp : s.thread.loop.phase = .outside
  · exact ⟨[], s, Run.nil s, ⟨hst, hp, htail⟩, rfl⟩
  · obtain ⟨es, l, hr, hpl, hql, hes⟩ := reachesTest hp
    have htest := EventLoop.step_test_iff.mpr ⟨hpl, if_pos (hql.trans hq)⟩
    have hquiet : Quiet (es ++ [.test]) := by
      intro e he
      rcases List.mem_append.mp he with he | he
      · exact hes e he
      · rw [List.mem_singleton.mp he]
        exact ⟨by simp, rfl⟩
    obtain ⟨fs, s', hr', hst', hl, htail', hex⟩ :=
      run_thread hquiet hst (run_snoc_iff.mpr ⟨l, hr, htest⟩)
    exact ⟨fs, s', hr', ⟨hst', by rw [hl], htail'.trans htail⟩, hex⟩

/-- **Shutdown.** When the owner calls `quit()` through the pointer only before `loop()` stores
`quit_ = false`, the assertion holds and the destructor finds the loop, whatever the order of the
steps. After any other `quit()` the thread can come to the assertion before the destructor. -/
theorem shutdown_safe (owner : T) (es : List (Event T F)) :
    (Along (step owner) Early new es → Along (step owner) Safe new es) ∧
    ∀ s s', Run (step owner) new es s → step owner s .quit = some s' → ¬ s.Early .quit →
      ∃ fs s'', Run (step owner) new (es ++ .quit :: fs) s'' ∧ ¬ s''.Safe .assertion := by
  constructor
  · intro hc pre e post s hes hr
    have hheld : s.Held := hr.inv_of (fun _ _ _ hs hc he => step_held hs hc he)
      (Along.of_append (hes ▸ hc)) held_new
    have horder : s.Order := hr.inv (fun _ _ _ hs he => step_order hs he) order_new
    exact hheld.safe horder e
  · intro s s' hr hs hc
    have horder : s.Order := hr.inv (fun _ _ _ hs he => step_order hs he) order_new
    have hst : s.thread.stage = .entered := not_ne_iff.mp hc
    obtain ⟨⟨-, -, hd⟩, t, ht, rfl⟩ := step_quit_iff.mp hs
    have hex : s.exiting_ = false := by
      rw [← Bool.not_eq_true, horder.exiting_]
      exact fun h => h hd
    have htail : s.tail = .assertion := by
      by_contra h
      rw [horder.tail h] at hex
      cases hex
    obtain ⟨-, l, hl, rfl⟩ := (EventLoopThread.step_loop_iff (by simp)).mp ht
    have hq : l.quit_ = true := by
      obtain ⟨-, rfl⟩ := EventLoop.step_quitFrom_iff.mp hl
      rfl
    obtain ⟨fs, s'', hr', hat, hex'⟩ := exists_run_assertion
      (s := { s with thread := { s.thread with loop := l, returned := _ } }) hst hq htail
    refine ⟨fs, s'', hr.append (hr'.cons hs), fun hsafe => ?_⟩
    have := hsafe hat
    rw [hex', hex] at this
    cases this

/-- The thread comes into its loop; the destructor ends it. -/
def destructorOnly : List (Event Unit ℕ) :=
  [.thread .construct, .thread .publish, .thread (.loop .loop), .thread (.loop .test), .setExiting,
    .destructorQuit, .thread (.loop (.wakeup ())), .thread (.loop (.poll true)),
    .thread (.loop .handleRead), .thread (.loop .swap), .thread (.loop .finish),
    .thread (.loop .test), .assertion, .destroyLoop, .join]

theorem destructorOnly_safe : (∃ s : Shutdown Unit ℕ, Run (step ()) new destructorOnly s ∧
    s.destructor = .returned) ∧ Along (step ()) Safe new destructorOnly := by
  refine ⟨?_, (shutdown_safe () _).1 (along_of_check (by decide +kernel))⟩
  have h : (destructorOnly.foldlM (step ()) (new : Shutdown Unit ℕ)).map (fun s => s.destructor) =
      some .returned := by decide +kernel
  obtain ⟨s, hs, hq⟩ := Option.map_eq_some_iff.mp h
  exact ⟨s, hs, hq⟩

/-- The owner calls `quit()`, and `loop()` returns. -/
def quitFirst : List (Event Unit ℕ) :=
  [.thread .construct, .thread .publish, .thread (.loop .loop), .quit,
    .thread (.loop (.wakeup ())), .thread (.loop .test)]

/-- The destructor comes between the end of `loop()` and the assertion. -/
def destructorLate : List (Event Unit ℕ) :=
  quitFirst ++ [.setExiting, .assertion, .destroyLoop]

/-- The assertion comes before the destructor; or the destructor comes before the assertion, and
calls `quit()` on a loop that is destroyed. -/
theorem quit_first :
    ¬ Along (step ()) Safe (new : Shutdown Unit ℕ) (quitFirst ++ [.assertion]) ∧
    ¬ Along (step ()) Safe (new : Shutdown Unit ℕ)
      (destructorLate ++ [.destructorQuit]) := by
  constructor
  · intro ha
    have h : (quitFirst.foldlM (step ()) (new : Shutdown Unit ℕ)).map
        (fun s => decide (s.AtAssertion ∧ s.exiting_ = false)) = some true := by decide +kernel
    obtain ⟨s, hs, hq⟩ := Option.map_eq_some_iff.mp h
    obtain ⟨hat, hex⟩ := of_decide_eq_true hq
    have := ha quitFirst .assertion [] s rfl hs hat
    rw [hex] at this
    cases this
  · intro ha
    have h : (destructorLate.foldlM (step ()) (new : Shutdown Unit ℕ)).map
        (fun s => (s.destructor, s.tail)) = some (.exiting, .done) := by decide +kernel
    obtain ⟨s, hs, hq⟩ := Option.map_eq_some_iff.mp h
    obtain ⟨hd, htail⟩ := Prod.mk.inj hq
    exact ha destructorLate .destructorQuit [] s rfl hs hd htail

end Shutdown

end HighServer
