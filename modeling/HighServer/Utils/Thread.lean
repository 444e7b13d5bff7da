import HighServer.Lib.Runs

/-!
# A thread and its owner

`Thread::start` makes a `ThreadData`, creates the pthread and waits for the promise `latch_`, which
`startThread` satisfies when it has stored its id. The new thread reaches into the `Thread` object
by the pointer and the reference in its `ThreadData`, which it deletes at its end. The owner may
join the thread, or destroy the object while the thread still runs. `set_value` is one step.

* `Thread`, `Pthread`: the object, and what the system knows of the thread;
* `StartThread`, `ThreadOwner`: where `startThread` and the caller of the members are;
* `Event.Enabled`, `Event.perform`, `step`: the transition system; the assertions of `start` and
  `join` are conditions on the caller;
* `Shaped`: what the two sides know of each other; `perform_shaped`: one step;
* **`start_join_safe`**: over all runs, no step is undefined and no exception is thrown, and what is
  known when `start` and `join` have returned.
-/

namespace HighServer

/-- Undefined behaviour, or an exception. -/
inductive ThreadFault where
  /-- a `Thread` is used after its destruction -/
  | deadThread
  /-- a `ThreadData` is used or deleted after it was deleted -/
  | deadData
  /-- `std::future_error`: the promise is satisfied, or the future retrieved, a second time -/
  | future
  /-- `pthread_join` or `pthread_detach` of a thread that is not joinable -/
  | notJoinable
  deriving DecidableEq, Repr

/-- `name` is not used. -/
structure Thread where
  started_ : Bool
  joined_ : Bool
  tid_ : ℕ
  /-- the promise `latch_` has its value -/
  satisfied : Bool
  /-- `latch_.get_future()` has been called -/
  retrieved : Bool
  deriving DecidableEq, Repr

/-- What becomes of the resources of a pthread. -/
inductive Pthread where
  | notCreated
  | joinable
  | joined
  | detached
  deriving DecidableEq, Repr

/-- Where `startThread` is. -/
inductive StartThread where
  | notCreated
  /-- before `*data->tid_ = gettid()` -/
  | created
  /-- before `data->latch_.set_value()` -/
  | stored
  /-- in `data->func_()` -/
  | func
  /-- before `delete data` -/
  | finished
  | returned
  deriving DecidableEq, Repr

/-- It has still to delete its `ThreadData`. -/
def StartThread.running : StartThread → Bool
  | .notCreated => false
  | .returned => false
  | _ => true

/-- It has satisfied the promise. -/
def StartThread.told : StartThread → Bool
  | .notCreated => false
  | .created => false
  | .stored => false
  | _ => true

/-- Where the owner of the object is. -/
inductive ThreadOwner where
  | idle
  /-- in `start`, behind a `pthread_create` that succeeded -/
  | starting
  /-- in `rst.get()` -/
  | getting
  /-- in `pthread_join` -/
  | joining
  /-- the object is destroyed -/
  | gone
  deriving DecidableEq, Repr

structure ThreadSystem where
  object : Option Thread
  owner : ThreadOwner
  child : StartThread
  /-- the id that the system gives to the new thread -/
  tid : ℕ
  pthread : Pthread
  /-- the `ThreadData` objects made so far, and those of them that are not deleted -/
  made : ℕ
  data : List ℕ

namespace ThreadSystem

open Runs

/-- The constructor of `Thread`. -/
def new : ThreadSystem where
  object := some ⟨false, false, 0, false, false⟩
  owner := .idle
  child := .notCreated
  tid := 0
  pthread := .notCreated
  made := 0
  data := []

inductive Event where
  /-- `start` up to `pthread_create`, which fails -/
  | startFails
  /-- `start` up to `pthread_create`, which makes a thread with this id -/
  | start (tid : ℕ)
  | getFuture
  /-- `rst.get()` returns -/
  | get
  | join
  /-- `pthread_join` returns -/
  | joined
  | destroy
  /-- the next line of `startThread` -/
  | child
  deriving DecidableEq, Repr

/-- `*this` -/
def deref (s : ThreadSystem) : Except ThreadFault Thread :=
  match s.object with
  | some t => .ok t
  | none => .error .deadThread

/-- `delete data` -/
def delete (s : ThreadSystem) (data : ℕ) : Except ThreadFault ThreadSystem :=
  if data ∈ s.data then .ok { s with data := s.data.erase data } else .error .deadData

/-- `new ThreadData(func_, &tid_, latch_)` -/
def newData (s : ThreadSystem) : ThreadSystem :=
  { s with data := s.made :: s.data, made := s.made + 1 }

/-- The object as the caller of a member finds it. -/
def Finds (s : ThreadSystem) (p : Thread → Prop) : Prop := s.owner = .idle ∧ ∃ t ∈ s.object, p t

instance (s : ThreadSystem) (p : Thread → Prop) [DecidablePred p] : Decidable (s.Finds p) :=
  inferInstanceAs (Decidable (_ ∧ _))

/-- Two threads of one process have two ids, and none of them is 0; `assert(!started_)` in `start`,
`assert(started_)` and `assert(!joined_)` in `join`. -/
def Event.Enabled (s : ThreadSystem) : Event → Prop
  | .startFails => s.Finds fun t => t.started_ = false
  | .start tid => s.Finds (fun t => t.started_ = false) ∧ tid ≠ 0
  | .getFuture => s.owner = .starting
  | .get => s.owner = .getting ∧ ∀ t ∈ s.object, t.satisfied = true
  | .join => s.Finds fun t => t.started_ = true ∧ t.joined_ = false
  | .joined => s.owner = .joining ∧ s.child = .returned
  | .destroy => s.owner = .idle
  | .child => s.child ≠ .notCreated ∧ s.child ≠ .returned

instance (s : ThreadSystem) (e : Event) : Decidable (e.Enabled s) :=
  match e with
  | .startFails => inferInstanceAs (Decidable (s.Finds _))
  | .start _ => inferInstanceAs (Decidable (_ ∧ _))
  | .getFuture => inferInstanceAs (Decidable (_ = _))
  | .get => inferInstanceAs (Decidable (_ ∧ _))
  | .join => inferInstanceAs (Decidable (s.Finds _))
  | .joined => inferInstanceAs (Decidable (_ ∧ _))
  | .destroy => inferInstanceAs (Decidable (_ = _))
  | .child => inferInstanceAs (Decidable (_ ∧ _))

/-- One line of `startThread`; the `ThreadData` is the last one made. -/
def childStep (s : ThreadSystem) : Except ThreadFault ThreadSystem :=
  match s.child with
  | .created => do
    let t ← s.deref
    pure { s with object := some { t with tid_ := s.tid }, child := .stored }
  | .stored => do
    let t ← s.deref
    if t.satisfied then .error .future
    else pure { s with object := some { t with satisfied := true }, child := .func }
  | .func => pure { s with child := .finished }
  | .finished => do
    let s ← s.delete (s.made - 1)
    pure { s with child := .returned }
  | _ => pure s

/-- `pthread_detach` in the destructor, `pthread_join` in `join`. -/
def reclaim (s : ThreadSystem) (how : Pthread) : Except ThreadFault ThreadSystem :=
  if s.pthread = .joinable then .ok { s with pthread := how } else .error .notJoinable

def Event.perform (s : ThreadSystem) : Event → Except ThreadFault ThreadSystem
  | .startFails => do
    let t ← s.deref
    let s ← s.newData.delete s.made
    pure { s with object := some { t with started_ := false } }
  | .start tid => do
    let t ← s.deref
    pure { s.newData with
      object := some { t with started_ := true }
      owner := .starting, child := .created, tid, pthread := .joinable }
  | .getFuture => do
    let t ← s.deref
    if t.retrieved then .error .future
    else pure { s with object := some { t with retrieved := true }, owner := .getting }
  | .get => pure { s with owner := .idle }
  | .join => do
    let t ← s.deref
    pure { s with object := some { t with joined_ := true }, owner := .joining }
  | .joined => do
    let s ← s.reclaim .joined
    pure { s with owner := .idle }
  | .destroy => do
    let t ← s.deref
    let s ← if t.started_ && !t.joined_ then s.reclaim .detached else pure s
    pure { s with object := none, owner := .gone }
  | .child => s.childStep

def step (s : ThreadSystem) (e : Event) : Option ThreadSystem :=
  if e.Enabled s then (e.perform s).toOption else none

theorem step_eq_some_iff {s s' : ThreadSystem} {e : Event} :
    step s e = some s' ↔ e.Enabled s ∧ e.perform s = .ok s' :=
  ite_toOption_eq_some_iff

/-! ## One step -/

variable {s s' : ThreadSystem} {e : Event} {t : Thread}

/-- A thread that has been created, and what it has stored in the object. -/
structure Started (s : ThreadSystem) (t : Thread) : Prop where
  started_ : t.started_ = true
  created : s.child ≠ .notCreated
  tid : s.tid ≠ 0
  tid_ : s.child ≠ .created → t.tid_ = s.tid
  satisfied : t.satisfied = s.child.told

/-- What the owner and the thread know of each other. -/
def Shape (s : ThreadSystem) : Prop :=
  match s.owner, s.object with
  | .idle, some t =>
    t = ⟨false, false, 0, false, false⟩ ∧ s.child = .notCreated ∧ s.pthread = .notCreated ∨
      Started s t ∧ s.child.told = true ∧
        (t.joined_ = false ∧ s.pthread = .joinable ∨
          t.joined_ = true ∧ s.pthread = .joined ∧ s.child = .returned)
  | .starting, some t =>
    Started s t ∧ t.joined_ = false ∧ t.retrieved = false ∧ s.pthread = .joinable
  | .getting, some t => Started s t ∧ t.joined_ = false ∧ s.pthread = .joinable
  | .joining, some t =>
    Started s t ∧ s.child.told = true ∧ t.joined_ = true ∧ s.pthread = .joinable
  | .gone, none =>
    s.child = .notCreated ∧ s.pthread = .notCreated ∨
      s.child.told = true ∧ (s.pthread = .detached ∨ s.pthread = .joined ∧ s.child = .returned)
  | _, _ => False

structure Shaped (s : ThreadSystem) : Prop where
  shape : s.Shape
  made : s.child.running = true → 0 < s.made
  data : s.data = if s.child.running then [s.made - 1] else []

theorem shaped_new : new.Shaped where
  shape := Or.inl ⟨rfl, rfl, rfl⟩
  made h := Bool.noConfusion h
  data := rfl

/-- A step of the owner that leaves the thread and its data alone. -/
theorem Shaped.of_shape (h : s.Shaped) (hs : s'.Shape) (hchild : s'.child = s.child)
    (hmade : s'.made = s.made) (hdata : s'.data = s.data) : s'.Shaped where
  shape := hs
  made := by rw [hchild, hmade]; exact h.made
  data := by rw [hdata, hchild, hmade]; exact h.data

theorem Shape.object (h : s.Shape) (ho : s.owner ≠ .gone) : ∃ t, s.object = some t := by
  unfold Shape at h
  cases hobj : s.object with
  | some t => exact ⟨t, rfl⟩
  | none => cases howner : s.owner <;> simp_all

/-- `start` has created the thread and has not returned. -/
structure InStart (s : ThreadSystem) (t : Thread) : Prop where
  started : Started s t
  joined_ : t.joined_ = false
  joinable : s.pthread = .joinable
  owner : s.owner = .starting ∧ t.retrieved = false ∨ s.owner = .getting

/-- Before the promise is satisfied, the owner is in `start`, so the object is alive. -/
theorem Shape.inStart (h : s.Shape) (hc : s.child ≠ .notCreated) (ht : s.child.told = false) :
    ∃ t, s.object = some t ∧ InStart s t := by
  unfold Shape at h
  split at h
  · rcases h with ⟨-, hn, -⟩ | ⟨-, htold, -⟩
    · exact absurd hn hc
    · rw [ht] at htold
      cases htold
  · rename_i t howner hobj
    exact ⟨t, hobj, h.1, h.2.1, h.2.2.2, Or.inl ⟨howner, h.2.2.1⟩⟩
  · rename_i t howner hobj
    exact ⟨t, hobj, h.1, h.2.1, h.2.2, Or.inr howner⟩
  · rw [ht] at h
    cases h.2.1
  · rcases h with ⟨hn, -⟩ | ⟨htold, -⟩
    · exact absurd hn hc
    · rw [ht] at htold
      cases htold
  · exact h.elim

theorem InStart.shape (h : InStart s t) (hobj : s.object = some t) : s.Shape := by
  unfold Shape
  rcases h.owner with ⟨ho, hr⟩ | ho <;> rw [ho, hobj]
  · exact ⟨h.started, h.joined_, hr, h.joinable⟩
  · exact ⟨h.started, h.joined_, h.joinable⟩

/-- Behind the promise, the thread leaves the object alone. -/
theorem Shape.of_told (h : s.Shape) (ht : s.child.told = true) (hret : s.child ≠ .returned)
    (hobj : s'.object = s.object) (howner : s'.owner = s.owner) (htid : s'.tid = s.tid)
    (hp : s'.pthread = s.pthread) (ht' : s'.child.told = true) : s'.Shape := by
  have hstarted : ∀ t, Started s t → Started s' t := fun t hs =>
    ⟨hs.started_, fun hn => (by rw [hn] at ht'; cases ht'), by rw [htid]; exact hs.tid,
      fun _ => by
        rw [htid]
        exact hs.tid_ fun hn => (by rw [hn] at ht; cases ht),
      by rw [ht', ← ht]; exact hs.satisfied⟩
  unfold Shape at h ⊢
  rw [howner, hobj, hp, ht']
  split at h
  · rcases h with ⟨-, hn, -⟩ | ⟨hs, -, hj | ⟨-, -, hr⟩⟩
    · rw [hn] at ht
      cases ht
    · exact Or.inr ⟨hstarted _ hs, rfl, Or.inl hj⟩
    · exact absurd hr hret
  · exact ⟨hstarted _ h.1, h.2⟩
  · exact ⟨hstarted _ h.1, h.2⟩
  · exact ⟨hstarted _ h.1, rfl, h.2.2⟩
  · rcases h with ⟨hn, -⟩ | ⟨-, hd | ⟨-, hr⟩⟩
    · rw [hn] at ht
      cases ht
    · exact Or.inr ⟨rfl, Or.inl hd⟩
    · exact absurd hr hret
  · exact h.elim

/-- **The lines of `startThread`.** -/
theorem childStep_shaped (h : s.Shaped) (hen : s.child ≠ .notCreated ∧ s.child ≠ .returned) :
    ∃ s', s.childStep = .ok s' ∧ s'.Shaped := by
  have hmade := h.made
  have hdata := h.data
  unfold childStep
  cases hc : s.child with
  | notCreated => exact absurd hc hen.1
  | returned => exact absurd hc hen.2
  | created =>
    obtain ⟨t, hobj, hin⟩ := h.shape.inStart hen.1 (by rw [hc]; rfl)
    rw [hc] at hmade hdata
    refine ⟨_, by rw [deref, hobj]; rfl, ?_, hmade, hdata⟩
    refine InStart.shape (t := { t with tid_ := s.tid }) ⟨⟨hin.started.started_, nofun,
      hin.started.tid, fun _ => rfl, ?_⟩, hin.joined_, hin.joinable, hin.owner⟩ rfl
    rw [show t.satisfied = _ from hin.started.satisfied, hc]
    rfl
  | stored =>
    obtain ⟨t, hobj, hin⟩ := h.shape.inStart hen.1 (by rw [hc]; rfl)
    rw [hc] at hmade hdata
    have hsat : t.satisfied = false := by rw [hin.started.satisfied, hc]; rfl
    refine ⟨{ s with object := some { t with satisfied := true }, child := .func },
      by rw [deref, hobj]; simp [bind, Except.bind, hsat, pure, Except.pure], ?_, hmade, hdata⟩
    refine InStart.shape (t := { t with satisfied := true }) ⟨⟨hin.started.started_, nofun,
      hin.started.tid, fun _ => ?_, rfl⟩, hin.joined_, hin.joinable, hin.owner⟩ rfl
    exact hin.started.tid_ (by rw [hc]; nofun)
  | func =>
    rw [hc] at hmade hdata
    refine ⟨_, rfl, ?_, hmade, hdata⟩
    exact h.shape.of_told (by rw [hc]; rfl) (by rw [hc]; nofun) rfl rfl rfl rfl rfl
  | finished =>
    rw [hc] at hdata
    refine ⟨{ s with data := [], child := .returned }, ?_, ?_, nofun, rfl⟩
    · simp [delete, hdata, StartThread.running, bind, Except.bind, pure, Except.pure]
    · exact h.shape.of_told (by rw [hc]; rfl) (by rw [hc]; nofun) rfl rfl rfl rfl rfl

/-- What a caller finds in the object of a thread that has not been started. -/
theorem Shape.unstarted (h : s.Shape) (hf : s.Finds fun t => t.started_ = false) :
    s.owner = .idle ∧ s.object = some ⟨false, false, 0, false, false⟩ ∧ s.child = .notCreated ∧
      s.pthread = .notCreated := by
  obtain ⟨ho, t, hobj, ht⟩ := hf
  obtain hobj : s.object = some t := hobj
  unfold Shape at h
  rw [ho, hobj] at h
  rcases h with ⟨rfl, hc, hp⟩ | ⟨hs, -⟩
  · exact ⟨ho, hobj, hc, hp⟩
  · rw [hs.started_] at ht
    cases ht

/-- And of one that has. -/
theorem Shape.started (h : s.Shape) (ho : s.owner = .idle) (hobj : s.object = some t)
    (ht : t.started_ = true) : Started s t ∧ s.child.told = true ∧
      (t.joined_ = false ∧ s.pthread = .joinable ∨
        t.joined_ = true ∧ s.pthread = .joined ∧ s.child = .returned) := by
  unfold Shape at h
  rw [ho, hobj] at h
  rcases h with ⟨rfl, -⟩ | h
  · cases ht
  · exact h

/-- **One step**: nothing is used that is gone, and nothing is thrown. -/
theorem perform_shaped (h : s.Shaped) (hen : e.Enabled s) :
    ∃ s', e.perform s = .ok s' ∧ s'.Shaped := by
  have hshape := h.shape
  have hdata := h.data
  cases e with
  | startFails =>
    obtain ⟨ho, hobj, hc, hp⟩ := hshape.unstarted hen
    rw [hc] at hdata
    refine ⟨{ s with made := s.made + 1, object := some ⟨false, false, 0, false, false⟩ }, ?_,
      ?_, by rw [show _ = s.child from rfl, hc]; nofun,
      by rw [show _ = s.child from rfl, hc]; exact hdata⟩
    · simp [Event.perform, deref, hobj, newData, delete, bind, Except.bind, pure, Except.pure]
    · unfold Shape
      dsimp only
      rw [ho]
      exact Or.inl ⟨rfl, hc, hp⟩
  | start tid =>
    obtain ⟨ho, hobj, hc, hp⟩ := hshape.unstarted hen.1
    rw [hc] at hdata
    refine ⟨_, by simp only [Event.perform, deref, hobj]; rfl, ?_, fun _ => Nat.succ_pos _, ?_⟩
    · exact InStart.shape (t := ⟨true, false, 0, false, false⟩)
        ⟨⟨rfl, nofun, hen.2, fun hne => absurd rfl hne, rfl⟩, rfl, rfl, Or.inl ⟨rfl, rfl⟩⟩ rfl
    · change s.made :: s.data = _
      rw [hdata]
      rfl
  | getFuture =>
    have ho : s.owner = .starting := hen
    obtain ⟨t, hobj⟩ := hshape.object (by rw [ho]; nofun)
    unfold Shape at hshape
    rw [ho, hobj] at hshape
    obtain ⟨hs, hj, hr, hp⟩ := hshape
    refine ⟨{ s with object := some { t with retrieved := true }, owner := .getting }, ?_,
      h.of_shape ?_ rfl rfl rfl⟩
    · simp [Event.perform, deref, hobj, hr, bind, Except.bind, pure, Except.pure]
    · exact ⟨⟨hs.1, hs.2, hs.3, hs.4, hs.5⟩, hj, hp⟩
  | get =>
    obtain ⟨ho, hsat⟩ : s.owner = .getting ∧ _ := hen
    obtain ⟨t, hobj⟩ := hshape.object (by rw [ho]; nofun)
    unfold Shape at hshape
    rw [ho, hobj] at hshape
    obtain ⟨hs, hj, hp⟩ := hshape
    refine ⟨_, rfl, h.of_shape ?_ rfl rfl rfl⟩
    unfold Shape
    dsimp only
    rw [hobj]
    exact Or.inr ⟨⟨hs.1, hs.2, hs.3, hs.4, hs.5⟩, hs.satisfied ▸ hsat t hobj, Or.inl ⟨hj, hp⟩⟩
  | join =>
    obtain ⟨ho, t, hobj, ht, hj⟩ := hen
    obtain hobj : s.object = some t := hobj
    obtain ⟨hs, htold, hcase⟩ := hshape.started ho hobj ht
    have hp : s.pthread = .joinable := by
      rcases hcase with ⟨-, hp⟩ | ⟨hj', -⟩
      · exact hp
      · rw [hj] at hj'
        cases hj'
    refine ⟨{ s with object := some { t with joined_ := true }, owner := .joining }, ?_,
      h.of_shape ?_ rfl rfl rfl⟩
    · simp [Event.perform, deref, hobj, bind, Except.bind, pure, Except.pure]
    · exact ⟨⟨hs.1, hs.2, hs.3, hs.4, hs.5⟩, htold, rfl, hp⟩
  | joined =>
    obtain ⟨ho, hret⟩ : s.owner = .joining ∧ _ := hen
    obtain ⟨t, hobj⟩ := hshape.object (by rw [ho]; nofun)
    unfold Shape at hshape
    rw [ho, hobj] at hshape
    obtain ⟨hs, htold, hj, hp⟩ := hshape
    refine ⟨{ s with pthread := .joined, owner := .idle }, ?_, h.of_shape ?_ rfl rfl rfl⟩
    · simp [Event.perform, reclaim, hp, bind, Except.bind, pure, Except.pure]
    · unfold Shape
      dsimp only
      rw [hobj]
      exact Or.inr ⟨⟨hs.1, hs.2, hs.3, hs.4, hs.5⟩, htold, Or.inr ⟨hj, rfl, hret⟩⟩
  | destroy =>
    have ho : s.owner = .idle := hen
    obtain ⟨t, hobj⟩ := hshape.object (by rw [ho]; nofun)
    cases ht : t.started_ with
    | false =>
      obtain ⟨-, hobj', hc, hp⟩ := hshape.unstarted ⟨ho, t, hobj, ht⟩
      refine ⟨{ s with object := none, owner := .gone }, ?_,
        h.of_shape (Or.inl ⟨hc, hp⟩) rfl rfl rfl⟩
      simp [Event.perform, deref, hobj, ht, bind, Except.bind, pure, Except.pure]
    | true =>
      obtain ⟨-, htold, ⟨hj, hp⟩ | ⟨hj, hp, hret⟩⟩ := hshape.started ho hobj ht
      · refine ⟨{ s with object := none, owner := .gone, pthread := .detached }, ?_,
          h.of_shape (Or.inr ⟨htold, Or.inl rfl⟩) rfl rfl rfl⟩
        simp [Event.perform, deref, hobj, ht, hj, hp, reclaim, bind, Except.bind, pure, Except.pure]
      · refine ⟨{ s with object := none, owner := .gone }, ?_,
          h.of_shape (Or.inr ⟨htold, Or.inr ⟨hp, hret⟩⟩) rfl rfl rfl⟩
        simp [Event.perform, deref, hobj, ht, hj, bind, Except.bind, pure, Except.pure]
  | child => exact childStep_shaped h hen

/-! ## Runs -/

theorem shaped_of_run {es : List Event} (h : Run step new es s) : s.Shaped := by
  refine h.inv (P := Shaped) (fun u e u' hu hs => ?_) shaped_new
  obtain ⟨hen, hp⟩ := step_eq_some_iff.mp hs
  obtain ⟨v, hv, hshaped⟩ := perform_shaped hu hen
  exact Except.ok.inj (hv.symm.trans hp) ▸ hshaped

/-- **A thread and its owner.** For every way in which an owner starts (again after a failure),
joins and destroys a `Thread`, and every interleaving with the new thread: no step uses an object or
a `ThreadData` that is gone, satisfies the promise or retrieves its future twice, or joins or
detaches a thread that is not joinable. Outside of `start`, the thread does not reach into the
object any more; a `Thread` that is started has the id of its thread, and one that is joined has
come to its end. `start` and `join` do not wait for a thread that cannot go on. Every `ThreadData`
is deleted, but for that of a running thread, and so are the resources of the thread when the object
is destroyed, or they will be at its end. -/
theorem start_join_safe {es : List Event} (h : Run step new es s) :
    (∀ e : Event, e.Enabled s → ∃ s', e.perform s = .ok s') ∧
    (s.owner ≠ .starting → s.owner ≠ .getting → s.child ≠ .created ∧ s.child ≠ .stored) ∧
    (s.owner = .idle → ∀ t ∈ s.object, t.started_ = true →
      t.tid_ = s.tid ∧ t.tid_ ≠ 0 ∧ (t.joined_ = true → s.child = .returned)) ∧
    (s.owner = .getting → Event.get.Enabled s ∨ Event.child.Enabled s) ∧
    (s.owner = .joining → Event.joined.Enabled s ∨ Event.child.Enabled s) ∧
    s.data = (if s.child.running then [s.made - 1] else []) ∧
    (s.owner = .gone → s.pthread ≠ .joinable) := by
  have hs := shaped_of_run h
  have hshape := hs.shape
  refine ⟨fun e hen => ?_, fun hn hn' => ?_, fun ho t hobj ht => ?_, fun ho => ?_, fun ho => ?_,
    hs.data, fun ho => ?_⟩
  · obtain ⟨s', hs', -⟩ := perform_shaped hs hen
    exact ⟨s', hs'⟩
  · have hout : s.child ≠ .notCreated → s.child.told = false → False := by
      intro hc ht
      obtain ⟨t, -, hin⟩ := hshape.inStart hc ht
      rcases hin.owner with ⟨ho, -⟩ | ho
      · exact hn ho
      · exact hn' ho
    constructor <;> intro hc <;> exact hout (by rw [hc]; nofun) (by rw [hc]; rfl)
  · obtain ⟨hstarted, htold, hcase⟩ := hshape.started ho hobj ht
    have htid := hstarted.tid_ (by intro hc; rw [hc] at htold; cases htold)
    refine ⟨htid, htid ▸ hstarted.tid, fun hj => ?_⟩
    rcases hcase with ⟨hj', -⟩ | ⟨-, -, hret⟩
    · rw [hj] at hj'
      cases hj'
    · exact hret
  · obtain ⟨t, hobj⟩ := hshape.object (by rw [ho]; nofun)
    unfold Shape at hshape
    rw [ho, hobj] at hshape
    by_cases hsat : t.satisfied = true
    · exact Or.inl ⟨ho, fun u hu => by rw [hobj] at hu; exact Option.some.inj hu ▸ hsat⟩
    · refine Or.inr ⟨hshape.1.created, fun hret => hsat ?_⟩
      rw [hshape.1.satisfied, hret]
      rfl
  · obtain ⟨t, hobj⟩ := hshape.object (by rw [ho]; nofun)
    unfold Shape at hshape
    rw [ho, hobj] at hshape
    by_cases hret : s.child = .returned
    · exact Or.inl ⟨ho, hret⟩
    · exact Or.inr ⟨hshape.1.created, hret⟩
  · unfold Shape at hshape
    rw [ho] at hshape
    cases hobj : s.object with
    | some t =>
      rw [hobj] at hshape
      exact hshape.elim
    | none =>
      rw [hobj] at hshape
      rcases hshape with ⟨-, hp⟩ | ⟨-, hp | ⟨hp, -⟩⟩ <;> rw [hp] <;> nofun

/-- The first attempt fails; the object is destroyed while the thread runs. -/
def detachedRun : List Event :=
  [.startFails, .start 42, .child, .getFuture, .child, .get, .destroy, .child, .child]

theorem detachedRun_safe : ∃ s, Run step new detachedRun s ∧ s.owner = .gone ∧
    s.pthread ≠ .joinable ∧ s.data = [] := by
  have h : (detachedRun.foldlM step new).map (fun s => (s.owner, s.child)) =
      some (.gone, .returned) := by decide +kernel
  obtain ⟨s, hs, hq⟩ := Option.map_eq_some_iff.mp h
  obtain ⟨ho, hc⟩ := Prod.mk.inj hq
  obtain ⟨-, -, -, -, -, hdata, hgone⟩ := start_join_safe hs
  rw [hc] at hdata
  exact ⟨s, hs, ho, hgone ho, hdata⟩

end ThreadSystem

end HighServer
