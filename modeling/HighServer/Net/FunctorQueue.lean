import HighServer.Net.EventLoop

/-!
# The functor queue: exactly once, in order

`Ledger` keeps, next to a loop, what was pushed, what the rounds of `doPendingFunctors` swapped out
and what they called. A functor carries its place in the push order and the number of rounds that
had begun at its push.

* `step_pending`, `swap_pending`, `run_rest`: the two ends of the queue, by event;
* `Ordered`: the calls, the rest of the batch and `pendingFunctors_` are the pushes in order, and
  the calls of each round are its batch;
* **`step_ordered`**: every step keeps it;
* **`functorQueue_fifo`**: so do all runs.
-/

namespace HighServer

namespace EventLoop

variable {T F G : Type}

/-- The functors of the current batch that are still to be called. -/
def restOfBatch (l : EventLoop T F) : List F :=
  match l.phase with
  | .running _ functions => functions
  | _ => []

/-- The functor that an event calls. -/
def called (l : EventLoop T F) : Event T F → List F
  | .run => l.restOfBatch.take 1
  | _ => []

/-- The batch that an event swaps out. -/
def swapped (l : EventLoop T F) : Event T F → List (List F)
  | .swap => [l.pendingFunctors_]
  | _ => []

def Event.map (g : F → G) : Event T F → Event T G
  | .loop => .loop
  | .test => .test
  | .poll woken => .poll woken
  | .handleRead => .handleRead
  | .swap => .swap
  | .run => .run
  | .finish => .finish
  | .queueInLoop cb => .queueInLoop (g cb)
  | .quit => .quit
  | .push t cb => .push t (g cb)
  | .quitFrom t => .quitFrom t
  | .wakeup t => .wakeup t

theorem Event.queued_map (g : F → G) (e : Event T F) : (e.map g).queued = e.queued.map g := by
  cases e <;> rfl

theorem uncalled_eq (l : EventLoop T F) : l.uncalled = l.restOfBatch ++ l.pendingFunctors_ := by
  unfold uncalled restOfBatch
  cases l.phase <;> rfl

theorem restOfBatch_wakeup (l : EventLoop T F) : l.wakeup.restOfBatch = l.restOfBatch := by
  unfold wakeup
  split_ifs <;> rfl

theorem pendingFunctors_wakeup (l : EventLoop T F) :
    l.wakeup.pendingFunctors_ = l.pendingFunctors_ := by
  unfold wakeup
  split_ifs <;> rfl

variable [DecidableEq T] {l l' : EventLoop T F}

/-- Between a swap and a call, only pushes change the queue, and only behind the batch. -/
theorem step_pending {e : Event T F} (h : step l e = some l') (hs : e ≠ .swap) (hr : e ≠ .run) :
    l'.restOfBatch = l.restOfBatch ∧
      l'.pendingFunctors_ = l.pendingFunctors_ ++ e.queued := by
  cases e with
  | swap => exact absurd rfl hs
  | run => exact absurd rfl hr
  | queueInLoop cb =>
    obtain ⟨-, rfl⟩ := step_queueInLoop_iff.mp h
    unfold queueInLoop
    split_ifs
    · exact ⟨restOfBatch_wakeup _, pendingFunctors_wakeup _⟩
    · exact ⟨rfl, rfl⟩
  | push t cb =>
    obtain ⟨-, rfl⟩ := step_push_iff.mp h
    exact ⟨rfl, rfl⟩
  | wakeup t =>
    obtain ⟨-, rfl⟩ := step_wakeup_iff.mp h
    exact ⟨restOfBatch_wakeup l, (pendingFunctors_wakeup l).trans (List.append_nil _).symm⟩
  | quit =>
    obtain ⟨-, rfl⟩ := step_quit_iff.mp h
    exact ⟨rfl, (List.append_nil _).symm⟩
  | quitFrom t =>
    obtain ⟨-, rfl⟩ := step_quitFrom_iff.mp h
    exact ⟨rfl, (List.append_nil _).symm⟩
  | loop =>
    obtain ⟨hp, rfl⟩ := step_loop_iff.mp h
    exact ⟨by simp [restOfBatch, hp], (List.append_nil _).symm⟩
  | test =>
    obtain ⟨hp, rfl⟩ := step_test_iff.mp h
    split_ifs
    · exact ⟨by simp [restOfBatch, hp], (List.append_nil _).symm⟩
    · exact ⟨by simp [restOfBatch, hp], (List.append_nil _).symm⟩
  | poll woken =>
    obtain ⟨hp, -, rfl⟩ := step_poll_iff.mp h
    exact ⟨by simp [restOfBatch, hp], (List.append_nil _).symm⟩
  | handleRead =>
    obtain ⟨hp, rfl⟩ := step_handleRead_iff.mp h
    exact ⟨by simp [restOfBatch, hp], (List.append_nil _).symm⟩
  | finish =>
    obtain ⟨⟨current, hp⟩, rfl⟩ := step_finish_iff.mp h
    exact ⟨by simp [restOfBatch, hp], (List.append_nil _).symm⟩

/-- A swap comes after the batch before it, and takes all that is pending. -/
theorem swap_pending (h : step l .swap = some l') :
    l.restOfBatch = [] ∧ l'.restOfBatch = l.pendingFunctors_ ∧ l'.pendingFunctors_ = [] := by
  obtain ⟨hp, rfl⟩ := step_swap_iff.mp h
  exact ⟨by simp [restOfBatch, hp], rfl, rfl⟩

/-- A call takes the first functor of the batch. -/
theorem run_rest (h : step l .run = some l') :
    l.restOfBatch = l.called .run ++ l'.restOfBatch ∧
      l'.pendingFunctors_ = l.pendingFunctors_ := by
  obtain ⟨current, f, functions, hp, rfl⟩ := step_run_iff.mp h
  exact ⟨by simp [called, restOfBatch, hp], rfl⟩

end EventLoop

/-- A functor in the queue. -/
structure Queued (F : Type) where
  cb : F
  /-- how many functors were pushed before it -/
  number : ℕ
  /-- how many rounds had begun when it was pushed -/
  rounds : ℕ
  deriving DecidableEq, Repr

/-- A loop, and what has happened to its functors. -/
structure Ledger (T F : Type) where
  loop : EventLoop T (Queued F)
  pushed : List (Queued F)
  /-- the batches swapped out by `doPendingFunctors`, a round each -/
  batches : List (List (Queued F))
  /-- the functors called by `doPendingFunctors`, each with its round -/
  executed : List (ℕ × Queued F)
  /-- the functors that `runInLoop` called in the loop thread -/
  inline : List F

namespace Ledger

open Runs EventLoop

variable {T F : Type}

def new : Ledger T F := ⟨EventLoop.new, [], [], [], []⟩

/-- The number of the round that has begun last. -/
def round (s : Ledger T F) : ℕ := s.batches.length

/-- What a push puts into the queue. -/
def entry (s : Ledger T F) (cb : F) : Queued F := ⟨cb, s.pushed.length, s.round⟩

inductive Event (T F : Type) where
  | loop (e : EventLoop.Event T F)
  /-- `runInLoop`, called in the loop thread -/
  | runInLoop (cb : F)
  /-- `runInLoop` of another thread up to the end of the critical section of `queueInLoop` -/
  | runInLoopFrom (t : T) (cb : F)
  deriving DecidableEq, Repr

variable [DecidableEq T]

/-- A step of the loop, written down. -/
def stepLoop (s : Ledger T F) (e : EventLoop.Event T F) : Option (Ledger T F) :=
  (EventLoop.step s.loop (e.map s.entry)).map fun loop =>
    { s with
      loop
      pushed := s.pushed ++ e.queued.map s.entry
      batches := s.batches ++ s.loop.swapped (e.map s.entry)
      executed := s.executed ++ (s.loop.called (e.map s.entry)).map (s.round, ·) }

def step (s : Ledger T F) : Event T F → Option (Ledger T F)
  | .loop e => s.stepLoop e
  | .runInLoop cb => if s.loop.InUserCode then some { s with inline := s.inline ++ [cb] } else none
  | .runInLoopFrom t cb => s.stepLoop (.push t cb)

/-- The functors that an event pushes. -/
def Event.queued : Event T F → List F
  | .loop e => e.queued
  | .runInLoop _ => []
  | .runInLoopFrom _ cb => [cb]

/-- The calls that are due for the batches: all of the first, then all of the second, … -/
def calls (batches : List (List (Queued F))) : List (ℕ × Queued F) :=
  batches.zipIdx.flatMap fun b => b.1.map (b.2 + 1, ·)

omit [DecidableEq T] in
theorem calls_snoc (batches : List (List (Queued F))) (b : List (Queued F)) :
    calls (batches ++ [b]) = calls batches ++ b.map (batches.length + 1, ·) := by
  simp [calls, List.zipIdx_append]

/-- The order of the functors. -/
structure Ordered (s : Ledger T F) : Prop where
  /-- called, in the batch, or pending, in push order -/
  conserved : s.executed.map (·.2) ++ s.loop.restOfBatch ++ s.loop.pendingFunctors_ = s.pushed
  numbered : s.pushed.map (·.number) = List.range s.pushed.length
  /-- the calls so far and the rest of the batch are the batches, each in its round -/
  due : s.executed ++ s.loop.restOfBatch.map (s.round, ·) = calls s.batches
  /-- a batch holds what was pushed since the round before it began -/
  next : ∀ p ∈ calls s.batches, p.1 = p.2.rounds + 1
  pending : ∀ f ∈ s.loop.pendingFunctors_, f.rounds = s.round

omit [DecidableEq T] in
theorem ordered_new : (new : Ledger T F).Ordered where
  conserved := rfl
  numbered := rfl
  due := rfl
  next _ hp := by simp [new, calls] at hp
  pending _ hf := by simp [new, EventLoop.new] at hf

variable {s s' : Ledger T F}

omit [DecidableEq T] in
/-- Pushed functors continue the numbering. -/
theorem Ordered.numbered_push (h : s.Ordered) (e : EventLoop.Event T F) :
    (s.pushed ++ e.queued.map s.entry).map (·.number) =
      List.range (s.pushed ++ e.queued.map s.entry).length := by
  cases e <;>
    simp [EventLoop.Event.queued, h.numbered, entry, List.range_succ]

theorem swap_ordered (h : s.Ordered) (hs : s.stepLoop .swap = some s') : s'.Ordered := by
  obtain ⟨l, hl, rfl⟩ := Option.map_eq_some_iff.mp hs
  obtain ⟨hrest, hbatch, hpend⟩ := swap_pending hl
  have hdue := h.due
  have hcons := h.conserved
  rw [hrest, List.map_nil, List.append_nil] at hdue
  rw [hrest, List.append_nil] at hcons
  refine ⟨?_, h.numbered_push .swap, ?_, ?_, ?_⟩
  · simpa [called, hbatch, hpend, EventLoop.Event.queued, EventLoop.Event.map] using hcons
  · simp [called, hbatch, swapped, round, EventLoop.Event.map, calls_snoc, hdue]
  · intro p hp
    simp only [swapped, EventLoop.Event.map, calls_snoc, List.mem_append, List.mem_map] at hp
    rcases hp with hp | ⟨f, hf, rfl⟩
    · exact h.next p hp
    · simp only [h.pending f hf, round]
  · intro f hf
    simp [hpend] at hf

theorem run_ordered (h : s.Ordered) (hs : s.stepLoop .run = some s') : s'.Ordered := by
  obtain ⟨l, hl, rfl⟩ := Option.map_eq_some_iff.mp hs
  obtain ⟨hrest, hpend⟩ := run_rest hl
  have hdue := h.due
  have hcons := h.conserved
  have hnum := h.numbered_push .run
  rw [hrest] at hdue hcons
  simp only [EventLoop.Event.queued, EventLoop.Event.map, List.map_nil, List.append_nil, swapped]
    at hnum ⊢
  refine ⟨?_, hnum, ?_, h.next, ?_⟩
  · simpa [hpend, List.map_map, Function.comp_def] using hcons
  · simpa [round] using hdue
  · rw [hpend]
    exact h.pending

/-- **A step of the loop** keeps the order. -/
theorem stepLoop_ordered {e : EventLoop.Event T F} (h : s.Ordered)
    (hs : s.stepLoop e = some s') : s'.Ordered := by
  by_cases hsw : e = .swap
  · subst hsw
    exact swap_ordered h hs
  by_cases hrun : e = .run
  · subst hrun
    exact run_ordered h hs
  obtain ⟨l, hl, rfl⟩ := Option.map_eq_some_iff.mp hs
  have hmap : e.map s.entry ≠ .swap ∧ e.map s.entry ≠ .run := by
    cases e <;> simp_all [EventLoop.Event.map]
  obtain ⟨hrest, hpend⟩ := step_pending hl hmap.1 hmap.2
  have hswapped : s.loop.swapped (e.map s.entry) = [] := by
    unfold swapped
    split
    · exact absurd ‹_› hmap.1
    · rfl
  have hcalled : s.loop.called (e.map s.entry) = [] := by
    unfold called
    split
    · exact absurd ‹_› hmap.2
    · rfl
  rw [Event.queued_map] at hpend
  rw [hswapped, hcalled]
  simp only [List.map_nil, List.append_nil]
  refine ⟨?_, h.numbered_push e, ?_, h.next, ?_⟩
  · rw [hrest, hpend, ← List.append_assoc, h.conserved]
  · rw [hrest]
    exact h.due
  · intro f hf
    rw [hpend, List.mem_append, List.mem_map] at hf
    rcases hf with hf | ⟨cb, -, rfl⟩
    · exact h.pending f hf
    · rfl

theorem step_ordered {e : Event T F} (h : s.Ordered) (hs : s.step e = some s') : s'.Ordered := by
  cases e with
  | loop e => exact stepLoop_ordered h hs
  | runInLoopFrom t cb => exact stepLoop_ordered h hs
  | runInLoop cb =>
    simp only [step, Option.ite_none_right_eq_some, Option.some.injEq] at hs
    obtain ⟨-, rfl⟩ := hs
    exact ⟨h.conserved, h.numbered, h.due, h.next, h.pending⟩

theorem step_pushed {e : Event T F} (hs : s.step e = some s') :
    s'.pushed.map (·.cb) = s.pushed.map (·.cb) ++ e.queued := by
  have loop : ∀ e : EventLoop.Event T F, s.stepLoop e = some s' →
      s'.pushed.map (·.cb) = s.pushed.map (·.cb) ++ e.queued := by
    intro e he
    obtain ⟨l, hl, rfl⟩ := Option.map_eq_some_iff.mp he
    simp [List.map_map, Function.comp_def, entry]
  cases e with
  | loop e => exact loop e hs
  | runInLoopFrom t cb => exact loop (.push t cb) hs
  | runInLoop cb =>
    simp only [step, Option.ite_none_right_eq_some, Option.some.injEq] at hs
    obtain ⟨-, rfl⟩ := hs
    exact (List.append_nil _).symm

/-- **The functor queue is first in, first out, and exactly once.** In every run:
the functors called by `doPendingFunctors`, the rest of the batch and `pendingFunctors_` are the
functors pushed, in push order; no push is called twice; the calls of each round are the batch that
it swapped out, up to the rest of the last one; and a call comes in the round after the last one
that had begun at the push, so never in the round of the functor that queued it. -/
theorem functorQueue_fifo {es : List (Event T F)} (h : Run step new es s) :
    s.pushed.map (·.cb) = es.flatMap Event.queued ∧
    s.executed.map (·.2) ++ s.loop.restOfBatch ++ s.loop.pendingFunctors_ = s.pushed ∧
    (s.executed.map (·.2.number)).Nodup ∧
    s.executed ++ s.loop.restOfBatch.map (s.round, ·) = calls s.batches ∧
    ∀ p ∈ s.executed, p.1 = p.2.rounds + 1 := by
  have ho : s.Ordered := h.inv (P := Ordered) (fun _ _ _ hs he => step_ordered hs he) ordered_new
  refine ⟨?_, ho.conserved, ?_, ho.due, ?_⟩
  · refine Run.history (P := fun es s => s.pushed.map (·.cb) = es.flatMap Event.queued) ?_ h rfl
    intro es s e s' hs he
    rw [step_pushed he, hs, List.flatMap_append, List.flatMap_singleton]
  · have hnodup : (s.pushed.map (·.number)).Nodup := by
      rw [ho.numbered]
      exact List.nodup_range
    have hpre : s.executed.map (·.2) <+: s.pushed := by
      rw [← ho.conserved, List.append_assoc]
      exact List.prefix_append _ _
    have hmap := hpre.map (·.number)
    rw [List.map_map] at hmap
    exact hnodup.sublist hmap.sublist
  · intro p hp
    exact ho.next p (by rw [← ho.due]; exact List.mem_append_left _ hp)

/-- The functor running queues one and runs one inline, while another thread pushes. -/
def reentrant : List (Event Unit ℕ) :=
  [.loop (.push () 0), .loop (.wakeup ()), .loop .loop, .loop .test, .loop (.poll true),
    .loop .handleRead, .loop .swap, .loop .run, .loop (.queueInLoop 1), .runInLoop 2,
    .runInLoopFrom () 3, .loop .finish, .loop (.wakeup ()), .loop .test, .loop (.poll true),
    .loop .handleRead, .loop .swap, .loop .run]

theorem reentrant_fifo : ∃ s : Ledger Unit ℕ, Run step new reentrant s ∧
    s.pushed.map (·.cb) = [0, 1, 3] ∧ (s.executed.map (·.2.number)).Nodup ∧
    s.executed ≠ [] ∧ ∀ p ∈ s.executed, p.1 = p.2.rounds + 1 := by
  have h : (reentrant.foldlM step (new : Ledger Unit ℕ)).map (fun s => s.executed) =
      some [(1, ⟨0, 0, 0⟩), (2, ⟨1, 1, 1⟩)] := by decide +kernel
  obtain ⟨s, hs, hq⟩ := Option.map_eq_some_iff.mp h
  obtain ⟨hp, -, hn, -, hr⟩ := functorQueue_fifo hs
  exact ⟨s, hs, hp, hn, by rw [hq]; simp, hr⟩

end Ledger

end HighServer
