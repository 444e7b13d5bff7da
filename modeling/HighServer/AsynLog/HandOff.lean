import HighServer.AsynLog.Producers

/-!
# The buffers in the hand-over

`append` and `threadFunc` move buffers out of `currentBuffer_`, `nextBuffer_`, `newBuffer1` and
`newBuffer2`, and each of them refills some. Here a line may have any length, a negative `len`
included; the front-end threads and the logging thread are those of `Producers`.

* `LineEvent`, `lineStep`: the steps of `Producers`, with lines of any length;
* `lineStep_exclusive`, `lineStep_slots`: a step keeps who holds `mutex_`, and `Slots`;
* **`handOff_safe`**: no pointer that is dereferenced is null, and no `back()` is called on an empty
  vector.
-/

namespace HighServer.Producers

open Runs AsyncLogging

variable {T : Type} {SIZE : ℕ}

inductive LineEvent (T : Type) (SIZE : ℕ) where
  | event (e : Event T SIZE)
  /-- the critical section of `append`, with a line that need not fit into a buffer -/
  | append (t : T) (logline : List UInt8) (memory : Memory SIZE)
  /-- the same with a negative `len` -/
  | appendNegative (t : T)

variable [DecidableEq T]

/-- With a negative `len`, the test of `append` holds, and the `append` of the buffer converts it to
a `size_t` that does not fit. -/
def lineStep (s : Producers T SIZE) : LineEvent T SIZE → Option (Producers T SIZE)
  | .event e => step s e
  | .append t logline memory =>
    if s.frontEnds t = .locked then
      (s.log.append logline memory).toOption.map fun log => { s with
        log, frontEnds := Function.update s.frontEnds t (.appended (fills s.log logline)) }
    else none
  | .appendNegative t =>
    if s.frontEnds t = .locked then
      (deref s.log.currentBuffer_).toOption.map fun _ => { s with
        frontEnds := Function.update s.frontEnds t (.appended false) }
    else none

variable {s s' : Producers T SIZE}

theorem lineStep_append {t : T} {logline : List UInt8} {memory : Memory SIZE}
    (h : lineStep s (.append t logline memory) = some s') :
    s.frontEnds t = .locked ∧ ∃ log, s.log.append logline memory = .ok log ∧ { s with
      log, frontEnds := Function.update s.frontEnds t (.appended (fills s.log logline)) } = s' := by
  simp only [lineStep, Option.ite_none_right_eq_some, Option.map_eq_some_iff,
    toOption_eq_some_iff] at h
  exact h

theorem lineStep_appendNegative {t : T} (h : lineStep s (.appendNegative t) = some s') :
    s.frontEnds t = .locked ∧
      { s with frontEnds := Function.update s.frontEnds t (.appended false) } = s' := by
  simp only [lineStep, Option.ite_none_right_eq_some, Option.map_eq_some_iff] at h
  obtain ⟨ht, -, -, hs⟩ := h
  exact ⟨ht, hs⟩

theorem lineStep_exclusive {e : LineEvent T SIZE} (h : s.Exclusive)
    (hs : lineStep s e = some s') : s'.Exclusive := by
  cases e with
  | event e => exact step_exclusive h hs
  | append t logline memory =>
    obtain ⟨ht, log, hlog, rfl⟩ := lineStep_append hs
    exact h.update (by rw [ht]; decide) (by simp) (backEnd_append hlog) rfl rfl
  | appendNegative t =>
    obtain ⟨ht, rfl⟩ := lineStep_appendNegative hs
    exact h.update (by rw [ht]; decide) (by decide) rfl rfl rfl

theorem lineStep_slots {e : LineEvent T SIZE} (he : s.Exclusive) (h : s.log.Slots)
    (hs : lineStep s e = some s') : s'.log.Slots := by
  cases e with
  | event e =>
    rcases step_refines he hs with hlog | ⟨ev, hlog⟩
    · rw [hlog]
      exact h
    · exact step_slots h hlog
  | append t logline memory =>
    obtain ⟨-, log, hlog, rfl⟩ := lineStep_append hs
    obtain ⟨a, ha, hslots, -⟩ := append_slots h logline memory
    exact Except.ok.inj (ha.symm.trans hlog) ▸ hslots
  | appendNegative t =>
    obtain ⟨-, rfl⟩ := lineStep_appendNegative hs
    exact h

theorem slots_of_run {memory : Memory SIZE} {es : List (LineEvent T SIZE)}
    (h : Run lineStep (new memory) es s) : s.log.Slots :=
  (h.inv (P := fun s => s.Exclusive ∧ s.log.Slots)
    (fun _ _ _ ht hs => ⟨lineStep_exclusive ht.1 hs, lineStep_slots ht.1 ht.2 hs⟩)
    ⟨exclusive_new memory, (conserves_new memory).slots⟩).2

/-- **The hand-over.** In every run: `currentBuffer_` is set, whoever holds `mutex_`; `nextBuffer_`
is set unless `buffers_` has a buffer; both spare buffers are set and empty at the top of an
iteration; and no critical section of `append`, no write and no end of an iteration dereferences a
null pointer or calls `back()` on an empty vector. The end of an iteration leaves both spare buffers
refilled. -/
theorem handOff_safe {memory : Memory SIZE} {es : List (LineEvent T SIZE)}
    (h : Run lineStep (new memory) es s) :
    (∃ b, s.log.currentBuffer_ = some b) ∧
    (s.log.nextBuffer_ = none → s.log.buffers_ ≠ []) ∧
    (s.log.backEnd = .test → Empty s.log.newBuffer1 ∧ Empty s.log.newBuffer2) ∧
    (∀ logline memory, ∃ log, s.log.append logline memory = .ok log) ∧
    ∀ i, s.log.backEnd = .writing i →
      match s.log.buffersToWrite[i]? with
      | some buffer => ∃ log, s.log.write i buffer = .ok log
      | none => ∃ log, s.log.recycle = .ok log ∧ log.backEnd = .test ∧ Empty log.newBuffer1 ∧
          Empty log.newBuffer2 := by
  have hs := slots_of_run h
  have hlocals := hs.locals
  refine ⟨hs.current, hs.reserve, fun hbe => ?_, fun logline memory => ?_, fun i hbe => ?_⟩
  · simp only [LocalsOk, hbe] at hlocals
    exact ⟨hlocals.1, hlocals.2.1⟩
  · obtain ⟨log, hlog, -⟩ := append_slots hs logline memory
    exact ⟨log, hlog⟩
  · cases hget : s.log.buffersToWrite[i]? with
    | some buffer =>
      obtain ⟨log, hlog, -⟩ := write_slots hs hbe hget
      exact ⟨log, hlog⟩
    | none =>
      simp only [LocalsOk, hbe] at hlocals
      have hi : i = s.log.buffersToWrite.length :=
        le_antisymm hlocals.1 (List.getElem?_eq_none_iff.mp hget)
      obtain ⟨log, hlog, hslots, -, -, hbe', -⟩ := recycle_slots hs (hi ▸ hbe)
      have hafter := hslots.locals
      simp only [LocalsOk, hbe'] at hafter
      exact ⟨log, hlog, hbe', hafter.1, hafter.2.1⟩

/-- Two threads, a line longer than a buffer, and an iteration that takes two buffers. -/
def longLine : List (LineEvent Bool 4) :=
  [.event (.log (.start garbage)), .event (.lock true), .append true [1, 2, 3, 4, 5] garbage,
    .event (.notify true), .event (.unlock true), .event (.lock false), .appendNegative false,
    .event (.unlock false), .event (.log .test), .event .lockBack, .event .check,
    .event .unlockBack, .event (.log .write), .event (.log .write)]

theorem longLine_safe : ∃ s : Producers Bool 4, Run lineStep (new garbage) longLine s ∧
    s.log.nextBuffer_.isSome = true ∧
    ∃ log, s.log.recycle = .ok log ∧ log.backEnd = .test ∧ Empty log.newBuffer1 ∧
      Empty log.newBuffer2 := by
  have h : (longLine.foldlM lineStep (new garbage)).map (fun s =>
      (s.log.nextBuffer_.isSome, s.log.backEnd, s.log.buffersToWrite.length)) =
      some (true, .writing 2, 2) := by decide +kernel
  obtain ⟨s, hs, hq⟩ := Option.map_eq_some_iff.mp h
  obtain ⟨hnext, hq⟩ := Prod.mk.inj hq
  obtain ⟨hbe, hlen⟩ := Prod.mk.inj hq
  have hsafe := (handOff_safe hs).2.2.2.2 2 hbe
  rw [List.getElem?_eq_none (le_of_eq hlen)] at hsafe
  exact ⟨s, hs, hnext, hsafe⟩

end HighServer.Producers
