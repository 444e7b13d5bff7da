import HighServer.Net.Wakeup

/-!
# Lost quits

The thread of an `EventLoopThread` builds the loop, publishes it and calls `loop()`. Other threads
may call `quit()` as soon as the loop is built, but `loop()` begins with `quit_ = false`.

* `EventLoopThread`, `step`: the loop with the program of `threadFunc`;
* `QuitLost`: a `quit()` has returned, `quit_` is false and the thread is in the `while` loop;
* `AfterEntry`: a `quit()` of another thread stores `quit_` after the store of `loop()`;
* `step_kept`: under that condition a `quit()` is `Kept`;
* **`quit_kept_of_afterEntry`**: runs under the condition lose no `quit()`, and every `quit()` that
  comes too early can be lost; `quit_before_entry` is a run in which one is.
-/

namespace HighServer

/-- How far `threadFunc` is. -/
inductive Stage where
  | unbuilt
  /-- `EventLoop loop;` -/
  | constructed
  /-- `loop_ = &loop` -/
  | published
  /-- in `loop.loop()`, or behind it -/
  | entered
  deriving DecidableEq, Repr

/-- A thread with an event loop. -/
structure EventLoopThread (T F : Type) where
  stage : Stage
  loop : EventLoop T F
  /-- whether a `quit()` of another thread has returned -/
  returned : Bool

namespace EventLoopThread

open Runs EventLoop

variable {T F : Type}

def new : EventLoopThread T F := ⟨.unbuilt, EventLoop.new, false⟩

inductive Event (T F : Type) where
  | construct
  | publish
  | loop (e : EventLoop.Event T F)
  deriving DecidableEq, Repr

/-- Whether a step is the end of another thread's `quit()`. -/
def quitReturns (l : EventLoop T F) : EventLoop.Event T F → Bool
  | .wakeup t => l.callers t = .quitting
  | _ => false

variable [DecidableEq T]

def step (s : EventLoopThread T F) : Event T F → Option (EventLoopThread T F)
  | .construct => if s.stage = .unbuilt then some { s with stage := .constructed } else none
  | .publish => if s.stage = .constructed then some { s with stage := .published } else none
  | .loop .loop =>
    if s.stage = .published then
      (EventLoop.step s.loop .loop).map fun loop => { s with stage := .entered, loop }
    else none
  | .loop e =>
    if s.stage ≠ .unbuilt then
      (EventLoop.step s.loop e).map fun loop =>
        { s with loop, returned := s.returned || quitReturns s.loop e }
    else none

/-- A `quit()` has returned, and the thread stays in the `while` loop all the same. -/
def QuitLost (s : EventLoopThread T F) : Prop :=
  s.returned = true ∧ s.loop.quit_ = false ∧ s.loop.phase ≠ .outside

/-- Another thread's store of `quit_` comes after that of `loop()`. -/
def AfterEntry (s : EventLoopThread T F) : Event T F → Prop
  | .loop (.quitFrom _) => s.stage = .entered
  | _ => True

instance (s : EventLoopThread T F) (e : Event T F) : Decidable (s.AfterEntry e) :=
  match e with
  | .construct => .isTrue trivial
  | .publish => .isTrue trivial
  | .loop e =>
    match e with
    | .quitFrom _ => inferInstanceAs (Decidable (s.stage = .entered))
    | .loop | .test | .poll _ | .handleRead | .swap | .run | .finish | .queueInLoop _ | .quit
    | .push _ _ | .wakeup _ => .isTrue trivial

/-- A `quit()` that has stored `quit_` finds it stored. -/
def Kept (s : EventLoopThread T F) : Prop :=
  (s.returned = true ∨ ∃ t, s.loop.callers t = .quitting) →
    s.stage = .entered ∧ s.loop.quit_ = true

variable {s s' : EventLoopThread T F}

/-! ## What a step does -/

theorem step_construct_iff : step s .construct = some s' ↔
    s.stage = .unbuilt ∧ { s with stage := .constructed } = s' := by
  simp [step]

theorem step_publish_iff : step s .publish = some s' ↔
    s.stage = .constructed ∧ { s with stage := .published } = s' := by
  simp [step]

theorem step_enter_iff : step s (.loop .loop) = some s' ↔ s.stage = .published ∧
    ∃ l, EventLoop.step s.loop .loop = some l ∧ { s with stage := .entered, loop := l } = s' := by
  simp only [step, Option.ite_none_right_eq_some, Option.map_eq_some_iff]

theorem step_loop_iff {e : EventLoop.Event T F} (he : e ≠ .loop) :
    step s (.loop e) = some s' ↔ s.stage ≠ .unbuilt ∧ ∃ l, EventLoop.step s.loop e = some l ∧
      { s with loop := l, returned := s.returned || quitReturns s.loop e } = s' := by
  cases e <;> first
    | exact absurd rfl he
    | simp only [step, Option.ite_none_right_eq_some, Option.map_eq_some_iff]

/-- Only `loop()` clears `quit_`. -/
theorem quit_of_step {l l' : EventLoop T F} {e : EventLoop.Event T F} (he : e ≠ .loop)
    (h : EventLoop.step l e = some l') (hq : l.quit_ = true) : l'.quit_ = true := by
  cases e with
  | loop => exact absurd rfl he
  | test =>
    obtain ⟨-, rfl⟩ := step_test_iff.mp h
    split_ifs
    exact hq
  | poll woken => obtain ⟨-, -, rfl⟩ := step_poll_iff.mp h; exact hq
  | handleRead => obtain ⟨-, rfl⟩ := step_handleRead_iff.mp h; exact hq
  | swap => obtain ⟨-, rfl⟩ := step_swap_iff.mp h; exact hq
  | run => obtain ⟨_, _, _, -, rfl⟩ := step_run_iff.mp h; exact hq
  | finish => obtain ⟨-, rfl⟩ := step_finish_iff.mp h; exact hq
  | queueInLoop cb =>
    obtain ⟨-, rfl⟩ := step_queueInLoop_iff.mp h
    unfold queueInLoop wakeup
    split_ifs <;> exact hq
  | quit => obtain ⟨-, rfl⟩ := step_quit_iff.mp h; rfl
  | push t cb => obtain ⟨-, rfl⟩ := step_push_iff.mp h; exact hq
  | quitFrom t => obtain ⟨-, rfl⟩ := step_quitFrom_iff.mp h; rfl
  | wakeup t =>
    obtain ⟨-, rfl⟩ := step_wakeup_iff.mp h
    unfold wakeup
    split_ifs <;> exact hq

/-- Only `quitFrom` puts a thread into `quit()`. -/
theorem quitting_of_step {l l' : EventLoop T F} {e : EventLoop.Event T F}
    (h : EventLoop.step l e = some l') {t : T} (ht : l'.callers t = .quitting) :
    l.callers t = .quitting ∨ e = .quitFrom t := by
  have update : ∀ {u : T} {c : Caller}, c ≠ .quitting →
      Function.update l.callers u c t = .quitting → l.callers t = .quitting := by
    intro u c hc hu
    by_cases htu : t = u
    · subst htu
      rw [Function.update_self] at hu
      exact absurd hu hc
    · rwa [Function.update_of_ne htu] at hu
  cases e with
  | loop => obtain ⟨-, rfl⟩ := EventLoop.step_loop_iff.mp h; exact Or.inl ht
  | test =>
    obtain ⟨-, rfl⟩ := step_test_iff.mp h
    split_ifs at ht <;> exact Or.inl ht
  | poll woken => obtain ⟨-, -, rfl⟩ := step_poll_iff.mp h; exact Or.inl ht
  | handleRead => obtain ⟨-, rfl⟩ := step_handleRead_iff.mp h; exact Or.inl ht
  | swap => obtain ⟨-, rfl⟩ := step_swap_iff.mp h; exact Or.inl ht
  | run => obtain ⟨_, _, _, -, rfl⟩ := step_run_iff.mp h; exact Or.inl ht
  | finish => obtain ⟨-, rfl⟩ := step_finish_iff.mp h; exact Or.inl ht
  | queueInLoop cb =>
    obtain ⟨-, rfl⟩ := step_queueInLoop_iff.mp h
    unfold queueInLoop wakeup at ht
    split_ifs at ht <;> exact Or.inl ht
  | quit => obtain ⟨-, rfl⟩ := step_quit_iff.mp h; exact Or.inl ht
  | push u cb =>
    obtain ⟨-, rfl⟩ := step_push_iff.mp h
    exact Or.inl (update (by decide) ht)
  | quitFrom u =>
    obtain ⟨-, rfl⟩ := step_quitFrom_iff.mp h
    by_cases htu : t = u
    · exact Or.inr (by rw [htu])
    · exact Or.inl ((Function.update_of_ne htu _ _).symm.trans ht)
  | wakeup u =>
    obtain ⟨-, rfl⟩ := step_wakeup_iff.mp h
    exact Or.inl (update (by decide) ht)

omit [DecidableEq T] in
theorem quitting_of_quitReturns {l : EventLoop T F} {e : EventLoop.Event T F}
    (h : quitReturns l e = true) : ∃ t, l.callers t = .quitting := by
  unfold quitReturns at h
  split at h
  · exact ⟨_, of_decide_eq_true h⟩
  · cases h

/-! ## Runs under the condition -/

omit [DecidableEq T] in
theorem kept_new : (new : EventLoopThread T F).Kept := by
  rintro (h | ⟨t, h⟩)
  · cases h
  · cases h

/-- **One step.** -/
theorem step_kept {e : Event T F} (h : s.Kept) (hc : s.AfterEntry e) (hs : step s e = some s') :
    s'.Kept := by
  cases e with
  | construct =>
    obtain ⟨hst, rfl⟩ := step_construct_iff.mp hs
    intro hq
    have := (h hq).1
    rw [hst] at this
    cases this
  | publish =>
    obtain ⟨hst, rfl⟩ := step_publish_iff.mp hs
    intro hq
    have := (h hq).1
    rw [hst] at this
    cases this
  | loop e =>
    by_cases he : e = .loop
    · subst he
      obtain ⟨hst, l, hl, rfl⟩ := step_enter_iff.mp hs
      intro hq
      -- nobody has called `quit()` before the entry
      have hbefore : s.returned = true ∨ ∃ t, s.loop.callers t = .quitting := by
        refine hq.imp id ?_
        rintro ⟨t, ht⟩
        exact ⟨t, (quitting_of_step hl ht).resolve_right (by simp)⟩
      have := (h hbefore).1
      rw [hst] at this
      cases this
    · obtain ⟨-, l, hl, rfl⟩ := (step_loop_iff he).mp hs
      intro hq
      by_cases hbefore : s.returned = true ∨ ∃ t, s.loop.callers t = .quitting
      · obtain ⟨hst, hquit⟩ := h hbefore
        exact ⟨hst, quit_of_step he hl hquit⟩
      · -- the step is the first `quit()`
        push Not at hbefore
        obtain ⟨t, ht⟩ : ∃ t, l.callers t = .quitting := by
          refine hq.resolve_left fun hr => ?_
          rcases Bool.or_eq_true_iff.mp hr with hr | hr
          · exact hbefore.1 hr
          · obtain ⟨t, ht⟩ := quitting_of_quitReturns hr
            exact hbefore.2 t ht
        obtain rfl := (quitting_of_step hl ht).resolve_left (hbefore.2 t)
        obtain ⟨-, rfl⟩ := step_quitFrom_iff.mp hl
        exact ⟨hc, rfl⟩

/-! ## A `quit()` that comes too early -/

theorem outside_of_step {l l' : EventLoop T F} {e : EventLoop.Event T F} (he : e ≠ .loop)
    (h : EventLoop.step l e = some l') (hp : l.phase = .outside) : l'.phase = .outside := by
  cases e with
  | loop => exact absurd rfl he
  | test => obtain ⟨hp', -⟩ := step_test_iff.mp h; simp [hp] at hp'
  | poll woken => obtain ⟨hp', -⟩ := step_poll_iff.mp h; simp [hp] at hp'
  | handleRead => obtain ⟨hp', -⟩ := step_handleRead_iff.mp h; simp [hp] at hp'
  | swap => obtain ⟨hp', -⟩ := step_swap_iff.mp h; simp [hp] at hp'
  | run => obtain ⟨_, _, _, hp', -⟩ := step_run_iff.mp h; simp [hp] at hp'
  | finish => obtain ⟨⟨_, hp'⟩, -⟩ := step_finish_iff.mp h; simp [hp] at hp'
  | queueInLoop cb =>
    obtain ⟨-, rfl⟩ := step_queueInLoop_iff.mp h
    exact (phase_queueInLoop l cb).trans hp
  | quit => obtain ⟨-, rfl⟩ := step_quit_iff.mp h; exact hp
  | push t cb => obtain ⟨-, rfl⟩ := step_push_iff.mp h; exact hp
  | quitFrom t => obtain ⟨-, rfl⟩ := step_quitFrom_iff.mp h; exact hp
  | wakeup t =>
    obtain ⟨-, rfl⟩ := step_wakeup_iff.mp h
    exact (phase_wakeup l).trans hp

/-- The thread is outside of `loop()` until it has entered it. -/
theorem step_outside {e : Event T F} (h : s.stage ≠ .entered → s.loop.phase = .outside)
    (hs : step s e = some s') : s'.stage ≠ .entered → s'.loop.phase = .outside := by
  cases e with
  | construct =>
    obtain ⟨hst, rfl⟩ := step_construct_iff.mp hs
    exact fun _ => h (by simp [hst])
  | publish =>
    obtain ⟨hst, rfl⟩ := step_publish_iff.mp hs
    exact fun _ => h (by simp [hst])
  | loop e =>
    by_cases he : e = .loop
    · subst he
      obtain ⟨-, l, -, rfl⟩ := step_enter_iff.mp hs
      exact fun hst => absurd rfl hst
    · obtain ⟨-, l, hl, rfl⟩ := (step_loop_iff he).mp hs
      exact fun hst => outside_of_step he hl (h hst)

/-- The `quit()` returns, and `loop()` is entered. -/
theorem lost_of_quitting {t : T} (hst : s.stage = .published) (hph : s.loop.phase = .outside)
    (ht : s.loop.callers t = .quitting) :
    ∃ s', Run step s [.loop (.wakeup t), .loop .loop] s' ∧ s'.QuitLost := by
  obtain ⟨l, hw⟩ : ∃ l, EventLoop.step s.loop (.wakeup t) = some l :=
    ⟨_, step_wakeup_iff.mpr ⟨by simp [ht], rfl⟩⟩
  have hl := EventLoop.step_loop_iff.mpr ⟨outside_of_step (by simp) hw hph, rfl⟩
  refine ⟨_, Run.cons ((step_loop_iff (by simp)).mpr ⟨by simp [hst], l, hw, rfl⟩)
    (Run.cons (step_enter_iff.mpr ⟨hst, _, hl, rfl⟩) (Run.nil _)), ?_⟩
  exact ⟨by simp [quitReturns, ht], rfl, by simp⟩

/-- **A `quit()` before the entry of `loop()`** can be lost. -/
theorem lost_of_early {t : T} (hph : s.stage ≠ .entered → s.loop.phase = .outside)
    (hs : step s (.loop (.quitFrom t)) = some s') (hc : ¬ s.AfterEntry (.loop (.quitFrom t))) :
    ∃ fs s'', Run step s' fs s'' ∧ s''.QuitLost := by
  obtain ⟨hst, l, hl, rfl⟩ := (step_loop_iff (by simp)).mp hs
  have hout : l.phase = .outside := outside_of_step (by simp) hl (hph hc)
  have hquit : l.callers t = .quitting := by
    obtain ⟨-, rfl⟩ := step_quitFrom_iff.mp hl
    exact Function.update_self ..
  generalize (s.returned || quitReturns s.loop (.quitFrom t)) = returned
  cases hsg : s.stage with
  | unbuilt => exact absurd hsg hst
  | entered => exact absurd hsg hc
  | published =>
    obtain ⟨s'', hr, hlost⟩ := lost_of_quitting (s := ⟨.published, l, returned⟩) rfl hout hquit
    exact ⟨_, s'', hr, hlost⟩
  | constructed =>
    obtain ⟨s'', hr, hlost⟩ := lost_of_quitting (s := ⟨.published, l, returned⟩) rfl hout hquit
    exact ⟨_, s'', Run.cons (step_publish_iff.mpr ⟨rfl, rfl⟩) hr, hlost⟩

/-- **No lost `quit()`.** When every other thread stores `quit_` after `loop()` has, no `quit()` is
lost. After any `quit()` that is not so, it can be. -/
theorem quit_kept_of_afterEntry {es : List (Event T F)} (h : Run step new es s) :
    (Along step AfterEntry new es → ¬ s.QuitLost) ∧
    ∀ t s', step s (.loop (.quitFrom t)) = some s' → ¬ s.AfterEntry (.loop (.quitFrom t)) →
      ∃ fs s'', Run step new (es ++ .loop (.quitFrom t) :: fs) s'' ∧ s''.QuitLost := by
  constructor
  · intro hc hlost
    have hk : s.Kept := h.inv_of (fun _ _ _ hs hc he => step_kept hs hc he) hc kept_new
    have hq := (hk (Or.inl hlost.1)).2
    rw [hlost.2.1] at hq
    cases hq
  · intro t s' hs hc
    have hph := h.inv (P := fun s => s.stage ≠ .entered → s.loop.phase = .outside)
      (fun _ _ _ hs he => step_outside hs he) (fun _ => rfl)
    obtain ⟨fs, s'', hr, hlost⟩ := lost_of_early hph hs hc
    exact ⟨fs, s'', h.append (hr.cons hs), hlost⟩

/-- A `quit()` in the first iteration. -/
def quitInLoop : List (Event Unit ℕ) :=
  [.construct, .publish, .loop .loop, .loop .test, .loop (.quitFrom ()), .loop (.wakeup ())]

theorem quitInLoop_kept : ∃ s : EventLoopThread Unit ℕ, Run step new quitInLoop s ∧
    s.returned = true ∧ ¬ s.QuitLost := by
  have h : (quitInLoop.foldlM step (new : EventLoopThread Unit ℕ)).map
      (fun s => s.returned) = some true := by decide +kernel
  obtain ⟨s, hs, hq⟩ := Option.map_eq_some_iff.mp h
  refine ⟨s, hs, hq, (quit_kept_of_afterEntry hs).1 (along_of_check (by decide +kernel))⟩

/-- The destructor's `quit()` as soon as `startLoop` has returned. -/
def quitBeforeLoop : List (Event Unit ℕ) :=
  [.construct, .publish, .loop (.quitFrom ()), .loop (.wakeup ()), .loop .loop, .loop .test]

theorem quit_before_entry :
    ¬ ∀ es (s : EventLoopThread Unit ℕ), Run step new es s → ¬ s.QuitLost := by
  intro hall
  have h : (quitBeforeLoop.foldlM step (new : EventLoopThread Unit ℕ)).map
      (fun s => (s.returned, s.loop.quit_, s.loop.phase)) = some (true, false, .polling) := by
    decide +kernel
  obtain ⟨s, hs, hq⟩ := Option.map_eq_some_iff.mp h
  simp only [Prod.mk.injEq] at hq
  exact hall _ s hs ⟨hq.1, hq.2.1, by simp [hq.2.2]⟩

end EventLoopThread

end HighServer
