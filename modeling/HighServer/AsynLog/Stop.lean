import HighServer.AsynLog.Conservation

/-!
# What `stop` leaves behind

`threadFunc` tests `running_` at the top of an iteration, before it takes the buffers. When `stop`
clears `running_` while the back end writes, the loop ends without another look at `buffers_` and
`currentBuffer_`, and what was appended since the last swap is lost.

* `WillSwap`: the back end is on its way into a swap;
* `Ending`: it is not, and never will be again; `step_ending` keeps it, and what is written in it;
* `step_willSwap`: a back end on its way into a swap gets there;
* **`stop_drains_iff`**: which lines are in the log when `stop` returns;
  `not_stop_drains_writing` is a run that loses one.
-/

namespace HighServer.AsyncLogging

open Runs Packing

variable {SIZE : ℕ} {a a' : AsyncLogging SIZE} {e : Event SIZE}

/-- The first iteration has not been tested for, or an iteration has not swapped yet. -/
def WillSwap (a : AsyncLogging SIZE) : Prop :=
  match a.backEnd with
  | .test => a.first = true
  | .lock => True
  | .waiting => True
  | _ => False

instance (a : AsyncLogging SIZE) : Decidable a.WillSwap := by
  unfold WillSwap
  split <;> infer_instance

/-- What has been written, and what this iteration will still write. -/
def taken (a : AsyncLogging SIZE) : List (List UInt8) := a.output ++ a.unwritten.map text

/-- The lines that `stop` finds when it is called are in the log. -/
def Drained (a : AsyncLogging SIZE) : Prop :=
  (a.appended.take a.appendedBefore).flatten <+: a.output.flatten

/-- `running_` is cleared, and no swap comes any more. -/
structure Ending (a : AsyncLogging SIZE) : Prop where
  running_ : a.running_ = false
  first : a.first = false
  backEnd : a.backEnd = .test ∨ a.backEnd.isWriting = true ∨ a.backEnd = .returned

/-- What the steps of `stop` and `threadFunc` know about each other. -/
structure Order (a : AsyncLogging SIZE) : Prop where
  called : a.stop ≠ .notCalled →
    a.backEnd ≠ .notStarted ∧ a.appendedBefore ≤ a.appended.length
  cleared : a.stop ≠ .notCalled → a.stop ≠ .called → a.running_ = false
  returned : a.stop = .returned → a.backEnd = .returned
  first : a.first = true → a.backEnd = .notStarted ∨ a.backEnd = .test

theorem order_new (memory : Memory SIZE) : (new memory).Order where
  called h := absurd rfl h
  cleared h := absurd rfl h
  returned h := Stop.noConfusion h
  first _ := Or.inl rfl

/-! ## The back end, step by step -/

theorem write_step (h : a.Conserves) (hs : step a .write = some a') :
    SameControl a a' ∧ a'.appended = a.appended ∧ a'.taken = a.taken ∧
      a.backEnd.isWriting = true ∧ (a'.backEnd = .test ∨ a'.backEnd.isWriting = true) := by
  obtain ⟨hen, hp⟩ := step_eq_some_iff.mp hs
  have hw : a.backEnd.isWriting = true := hen
  have hlocals := h.locals
  simp only [Event.perform] at hp
  split at hp
  · rename_i i hbe
    split at hp
    · obtain ⟨b, hb, -, hsame, happ, hbe', htaken⟩ := write_conserves h hbe ‹_›
      obtain rfl := Except.ok.inj (hb.symm.trans hp)
      exact ⟨hsame, happ, htaken, hw, Or.inr (by rw [hbe']; rfl)⟩
    · rename_i hnone
      simp only [LocalsOk, hbe] at hlocals
      have hi : i = a.buffersToWrite.length :=
        le_antisymm hlocals.1 (List.getElem?_eq_none_iff.mp hnone)
      obtain ⟨b, hb, -, hsame, happ, hbe', hout⟩ := recycle_conserves h (hi ▸ hbe)
      obtain rfl := Except.ok.inj (hb.symm.trans hp)
      refine ⟨hsame, happ, ?_, hw, Or.inl hbe'⟩
      simp [taken, unwritten, hbe, hbe', hi, hout]
  · rename_i hne
    cases hbe : a.backEnd with
    | writing i => exact absurd hbe (hne i)
    | _ => rw [hbe] at hw; exact Bool.noConfusion hw

/-- The swap takes every line appended so far. -/
theorem swap_step (h : a.Conserves) (hbe : a.backEnd = .lock ∨ a.backEnd = .waiting) :
    SameControl a a.swapBuffers ∧ a.swapBuffers.appended = a.appended ∧
      a.swapBuffers.backEnd = .writing 0 ∧ a.swapBuffers.taken.flatten = a.appended.flatten := by
  have hlocals := h.locals
  have hun : a.unwritten = [] := by rcases hbe with hbe | hbe <;> simp [unwritten, hbe]
  have hl : Empty a.newBuffer1 ∧ Empty a.newBuffer2 ∧ a.buffersToWrite = [] := by
    rcases hbe with hbe | hbe <;> simpa only [LocalsOk, hbe] using hlocals
  obtain ⟨-, hsame, hbe', happ, hout, hun'⟩ := swapBuffers_conserves h hl.1 hl.2.1 hl.2.2 hun
  refine ⟨hsame, happ, hbe', ?_⟩
  rw [taken, hun', hout, ← h.packs.flatten_eq, chunks, hun]
  simp

/-! ## One step -/

theorem Order.swap (h : a.Order) (hc : a.Conserves)
    (hbe : a.backEnd = .lock ∨ a.backEnd = .waiting) : a.swapBuffers.Order := by
  obtain ⟨hsame, happ, hbe', -⟩ := swap_step hc hbe
  refine ⟨fun hne => ⟨by simp [hbe'], ?_⟩, ?_, fun hr => ?_, fun hf => ?_⟩
  · rw [hsame.appendedBefore, happ]
    exact (h.called (hsame.stop ▸ hne)).2
  · rw [hsame.stop, hsame.running_]; exact h.cleared
  · rw [hsame.stop] at hr
    rcases hbe with hbe | hbe <;> exact absurd (hbe.symm.trans (h.returned hr)) (by decide)
  · rw [hsame.first] at hf
    rcases hbe with hbe | hbe <;> exact absurd (h.first hf) (by simp [hbe])

theorem step_order (hc : a.Conserves) (h : a.Order) (hs : step a e = some a') : a'.Order := by
  obtain ⟨hen, hp⟩ := step_eq_some_iff.mp hs
  cases e with
  | start memory =>
    obtain rfl := Except.ok.inj hp
    have hn : a.stop = .notCalled := by
      by_contra hne
      exact (h.called hne).1 hen
    exact ⟨fun hne => absurd hn hne, fun hne => absurd hn hne, fun hr => absurd (hn.symm.trans hr)
      (by decide), fun _ => Or.inr rfl⟩
  | append logline memory =>
    obtain ⟨b, hb, -, hsame, hbe, -, -, happ⟩ := append_conserves hc hen.2 memory
    obtain rfl := Except.ok.inj (hb.symm.trans hp)
    refine ⟨?_, ?_, ?_, ?_⟩
    · rw [hsame.stop, hbe, hsame.appendedBefore, happ, List.length_append]
      exact fun hne => ⟨(h.called hne).1, (h.called hne).2.trans (Nat.le_add_right _ _)⟩
    · rw [hsame.stop, hsame.running_]; exact h.cleared
    · rw [hsame.stop, hbe]; exact h.returned
    · rw [hsame.first, hbe]; exact h.first
  | test =>
    simp only [Event.perform] at hp
    split_ifs at hp
    · obtain rfl := Except.ok.inj hp
      refine ⟨fun hne => ⟨by simp, (h.called hne).2⟩, h.cleared, fun hr => ?_, fun hf => ?_⟩
      · have hbe : a.backEnd = .test := hen
        rw [h.returned hr] at hbe
        exact BackEnd.noConfusion hbe
      · exact Bool.noConfusion hf
    · obtain rfl := Except.ok.inj hp
      rename_i hrf
      refine ⟨fun hne => ⟨by simp, (h.called hne).2⟩, h.cleared, fun _ => rfl, fun hf => ?_⟩
      have hf : a.first = true := hf
      simp [hf] at hrf
  | lock =>
    have hbe : a.backEnd = .lock := hen
    simp only [Event.perform, AsyncLogging.lock] at hp
    split_ifs at hp
    · obtain rfl := Except.ok.inj hp
      refine ⟨fun hne => ⟨by simp, (h.called hne).2⟩, h.cleared, fun hr => ?_, fun hf => ?_⟩
      · exact absurd (hbe.symm.trans (h.returned hr)) (by decide)
      · exact absurd (h.first hf) (by simp [hbe])
    · obtain rfl := Except.ok.inj hp
      exact h.swap hc (Or.inl hbe)
  | wake =>
    obtain rfl := Except.ok.inj hp
    exact h.swap hc (Or.inr hen)
  | write =>
    obtain ⟨hsame, happ, -, hw, hw'⟩ := write_step hc hs
    have hno : a.stop ≠ .returned := fun hr => by
      rw [h.returned hr] at hw
      exact Bool.noConfusion hw
    have hf : a.first ≠ true := fun hf => by
      rcases h.first hf with hbe | hbe <;> (rw [hbe] at hw; exact Bool.noConfusion hw)
    refine ⟨fun hne => ⟨?_, ?_⟩, ?_, fun hr => absurd (hsame.stop ▸ hr) hno,
      fun hf' => absurd (hsame.first ▸ hf') hf⟩
    · rcases hw' with hbe | hbe <;> intro hn <;> rw [hn] at hbe <;> simp [BackEnd.isWriting] at hbe
    · rw [hsame.appendedBefore, happ]
      exact (h.called (hsame.stop ▸ hne)).2
    · rw [hsame.stop, hsame.running_]; exact h.cleared
  | stopCall =>
    obtain rfl := Except.ok.inj hp
    exact ⟨fun _ => ⟨hen.1, le_rfl⟩, fun _ hc => absurd rfl hc, fun hr => Stop.noConfusion hr,
      h.first⟩
  | stopClear =>
    obtain rfl := Except.ok.inj hp
    have hst : a.stop = .called := hen
    exact ⟨fun _ => h.called (by simp [hst]), fun _ _ => rfl, fun hr => Stop.noConfusion hr,
      h.first⟩
  | stopNotify =>
    obtain rfl := Except.ok.inj hp
    have hst : a.stop = .cleared := hen
    exact ⟨fun _ => h.called (by simp [hst]), fun _ _ => h.cleared (by simp [hst]) (by simp [hst]),
      fun hr => Stop.noConfusion hr, h.first⟩
  | stopReturn =>
    obtain rfl := Except.ok.inj hp
    have hst : a.stop = .joining := hen.1
    exact ⟨fun _ => h.called (by simp [hst]), fun _ _ => h.cleared (by simp [hst]) (by simp [hst]),
      fun _ => hen.2, h.first⟩

/-- **After the last swap** nothing more is taken. -/
theorem step_ending (hc : a.Conserves) (h : a.Ending) (hs : step a e = some a') :
    a'.Ending ∧ a'.taken = a.taken := by
  obtain ⟨hen, hp⟩ := step_eq_some_iff.mp hs
  cases e with
  | start memory =>
    have hbe : a.backEnd = .notStarted := hen
    exact absurd h.backEnd (by simp [hbe, BackEnd.isWriting])
  | append logline memory =>
    obtain ⟨b, hb, -, hsame, hbe, hw, hout, -⟩ := append_conserves hc hen.2 memory
    obtain rfl := Except.ok.inj (hb.symm.trans hp)
    refine ⟨⟨hsame.running_.trans h.running_, hsame.first.trans h.first, ?_⟩, ?_⟩
    · rw [hbe]; exact h.backEnd
    · rw [taken, taken, unwritten, unwritten, hbe, hw, hout]
  | test =>
    have hbe : a.backEnd = .test := hen
    simp only [Event.perform] at hp
    rw [if_neg (by simp [h.running_, h.first])] at hp
    obtain rfl := Except.ok.inj hp
    exact ⟨⟨h.running_, h.first, Or.inr (Or.inr rfl)⟩, by simp [taken, unwritten, hbe]⟩
  | lock =>
    have hbe : a.backEnd = .lock := hen
    exact absurd h.backEnd (by simp [hbe, BackEnd.isWriting])
  | wake =>
    have hbe : a.backEnd = .waiting := hen
    exact absurd h.backEnd (by simp [hbe, BackEnd.isWriting])
  | write =>
    obtain ⟨hsame, -, htaken, -, hw⟩ := write_step hc hs
    refine ⟨⟨hsame.running_.trans h.running_, hsame.first.trans h.first, ?_⟩, htaken⟩
    exact hw.imp id Or.inl
  | stopCall => obtain rfl := Except.ok.inj hp; exact ⟨⟨h.running_, h.first, h.backEnd⟩, rfl⟩
  | stopClear => obtain rfl := Except.ok.inj hp; exact ⟨⟨rfl, h.first, h.backEnd⟩, rfl⟩
  | stopNotify => obtain rfl := Except.ok.inj hp; exact ⟨⟨h.running_, h.first, h.backEnd⟩, rfl⟩
  | stopReturn => obtain rfl := Except.ok.inj hp; exact ⟨⟨h.running_, h.first, h.backEnd⟩, rfl⟩

theorem WillSwap.congr (h : a.WillSwap) (hbe : a'.backEnd = a.backEnd)
    (hf : a'.first = a.first) : a'.WillSwap := by
  rw [WillSwap, hbe, hf]
  exact h

/-- The swap of a loop whose `running_` is cleared is the last one. -/
theorem ending_swapBuffers (hc : a.Conserves) (h : a.Order) (hr : a.running_ = false)
    (hbe : a.backEnd = .lock ∨ a.backEnd = .waiting) :
    a.swapBuffers.Ending ∧ a.swapBuffers.taken.flatten = a.swapBuffers.appended.flatten := by
  obtain ⟨hsame, happ, hbe', htaken⟩ := swap_step hc hbe
  have hf : a.first = false := by
    by_contra hf
    have := h.first (by simpa using hf)
    rcases hbe with hbe | hbe <;> simp [hbe] at this
  exact ⟨⟨hsame.running_.trans hr, hsame.first.trans hf, Or.inr (Or.inl (by rw [hbe']; rfl))⟩,
    by rw [htaken, happ]⟩

/-- **Before the last swap** the back end gets into it. -/
theorem step_willSwap (hc : a.Conserves) (ho : a.Order) (hr : a.running_ = false)
    (h : a.WillSwap) (hs : step a e = some a') :
    a'.WillSwap ∨ a'.Ending ∧ a'.taken.flatten = a'.appended.flatten := by
  obtain ⟨hen, hp⟩ := step_eq_some_iff.mp hs
  cases e with
  | start memory =>
    have hbe : a.backEnd = .notStarted := hen
    rw [WillSwap, hbe] at h
    exact h.elim
  | append logline memory =>
    obtain ⟨b, hb, -, hsame, hbe, -⟩ := append_conserves hc hen.2 memory
    obtain rfl := Except.ok.inj (hb.symm.trans hp)
    exact Or.inl (h.congr hbe hsame.first)
  | test =>
    have hbe : a.backEnd = .test := hen
    rw [WillSwap, hbe] at h
    simp only [Event.perform] at hp
    rw [if_pos (by rw [show a.first = true from h, Bool.or_true])] at hp
    obtain rfl := Except.ok.inj hp
    exact Or.inl trivial
  | lock =>
    simp only [Event.perform, AsyncLogging.lock] at hp
    split_ifs at hp
    · obtain rfl := Except.ok.inj hp
      exact Or.inl trivial
    · obtain rfl := Except.ok.inj hp
      exact Or.inr (ending_swapBuffers hc ho hr (Or.inl hen))
  | wake =>
    obtain rfl := Except.ok.inj hp
    exact Or.inr (ending_swapBuffers hc ho hr (Or.inr hen))
  | write =>
    have hw : a.backEnd.isWriting = true := hen
    rw [WillSwap] at h
    cases hbe : a.backEnd with
    | writing i => rw [hbe] at h; exact h.elim
    | _ => rw [hbe] at hw; exact Bool.noConfusion hw
  | stopCall => obtain rfl := Except.ok.inj hp; exact Or.inl h
  | stopClear => obtain rfl := Except.ok.inj hp; exact Or.inl h
  | stopNotify => obtain rfl := Except.ok.inj hp; exact Or.inl h
  | stopReturn => obtain rfl := Except.ok.inj hp; exact Or.inl h

/-! ## Runs -/

/-- After the store of `stop`; `lines` are those that it has to leave in the log. -/
structure Cleared (lines : List (List UInt8)) (a : AsyncLogging SIZE) : Prop where
  conserves : a.Conserves
  order : a.Order
  stop : a.stop ≠ .notCalled
  running_ : a.running_ = false
  lines : a.appended.take a.appendedBefore = lines

theorem Cleared.of_same {lines : List (List UInt8)} (h : Cleared lines a) (hc : a'.Conserves)
    (ho : a'.Order) (hsame : SameControl a a') (happ : a'.appended = a.appended) :
    Cleared lines a' := by
  refine ⟨hc, ho, ?_, hsame.running_.trans h.running_, ?_⟩
  · rw [hsame.stop]; exact h.stop
  · rw [hsame.appendedBefore, happ]; exact h.lines

theorem step_cleared {lines : List (List UInt8)} (h : Cleared lines a) (hs : step a e = some a') :
    Cleared lines a' := by
  have hc := step_conserves h.conserves hs
  have ho := step_order h.conserves h.order hs
  obtain ⟨hen, hp⟩ := step_eq_some_iff.mp hs
  cases e with
  | start memory => exact absurd hen (h.order.called h.stop).1
  | append logline memory =>
    obtain ⟨b, hb, -, hsame, -, -, -, happ⟩ := append_conserves h.conserves hen.2 memory
    obtain rfl := Except.ok.inj (hb.symm.trans hp)
    refine ⟨hc, ho, ?_, hsame.running_.trans h.running_, ?_⟩
    · rw [hsame.stop]; exact h.stop
    · rw [hsame.appendedBefore, happ, List.take_append_of_le_length (h.order.called h.stop).2]
      exact h.lines
  | test =>
    simp only [Event.perform] at hp
    split_ifs at hp
    · obtain rfl := Except.ok.inj hp; exact ⟨hc, ho, h.stop, h.running_, h.lines⟩
    · obtain rfl := Except.ok.inj hp; exact ⟨hc, ho, h.stop, h.running_, h.lines⟩
  | lock =>
    simp only [Event.perform, AsyncLogging.lock] at hp
    split_ifs at hp
    · obtain rfl := Except.ok.inj hp
      exact ⟨hc, ho, h.stop, h.running_, h.lines⟩
    · obtain rfl := Except.ok.inj hp
      obtain ⟨hsame, happ, -⟩ := swap_step h.conserves (Or.inl hen)
      exact h.of_same hc ho hsame happ
  | wake =>
    obtain rfl := Except.ok.inj hp
    obtain ⟨hsame, happ, -⟩ := swap_step h.conserves (Or.inr hen)
    exact h.of_same hc ho hsame happ
  | write =>
    obtain ⟨hsame, happ, -⟩ := write_step h.conserves hs
    exact h.of_same hc ho hsame happ
  | stopCall => exact absurd hen.2 h.stop
  | stopClear =>
    obtain rfl := Except.ok.inj hp
    exact ⟨hc, ho, Stop.noConfusion, rfl, h.lines⟩
  | stopNotify =>
    obtain rfl := Except.ok.inj hp
    exact ⟨hc, ho, Stop.noConfusion, h.running_, h.lines⟩
  | stopReturn =>
    obtain rfl := Except.ok.inj hp
    exact ⟨hc, ho, Stop.noConfusion, h.running_, h.lines⟩

theorem order_of_run {memory : Memory SIZE} {es : List (Event SIZE)}
    (h : Run step (new memory) es a) : a.Order :=
  (h.inv (P := fun a => a.Conserves ∧ a.Order)
    (fun _ _ _ hb hs => ⟨step_conserves hb.1 hs, step_order hb.1 hb.2 hs⟩)
    ⟨conserves_new memory, order_new memory⟩).2

/-- When `stop` has returned, everything that was taken is written. -/
theorem Cleared.taken_eq {lines : List (List UInt8)} (h : Cleared lines a)
    (hr : a.stop = .returned) : a.taken = a.output := by
  simp [taken, unwritten, h.order.returned hr]

/-- The run after a store that comes before the last swap. -/
theorem drained_of_willSwap {lines : List (List UInt8)} (h : Cleared lines a) (hw : a.WillSwap)
    {es : List (Event SIZE)} (hr : Run step a es a') (hret : a'.stop = .returned) :
    lines.flatten <+: a'.output.flatten := by
  have hstep : ∀ (b : AsyncLogging SIZE) e b',
      (Cleared lines b ∧ (b.WillSwap ∨ b.Ending ∧ lines.flatten <+: b.taken.flatten)) →
      step b e = some b' →
        Cleared lines b' ∧ (b'.WillSwap ∨ b'.Ending ∧ lines.flatten <+: b'.taken.flatten) := by
    rintro b e b' ⟨hb, hcase⟩ hs
    have hb' := step_cleared hb hs
    refine ⟨hb', ?_⟩
    rcases hcase with hw | ⟨hend, hpre⟩
    · refine (step_willSwap hb.conserves hb.order hb.running_ hw hs).imp id fun ⟨hend, htaken⟩ => ?_
      refine ⟨hend, ?_⟩
      rw [htaken, ← hb'.lines]
      exact (List.take_prefix _ _).flatten
    · obtain ⟨hend', htaken⟩ := step_ending hb.conserves hend hs
      exact Or.inr ⟨hend', htaken ▸ hpre⟩
  obtain ⟨hc, hcase⟩ := hr.inv hstep ⟨h, Or.inl hw⟩
  rcases hcase with hw | ⟨-, htaken⟩
  · rw [WillSwap, hc.order.returned hret] at hw
    exact hw.elim
  · rwa [hc.taken_eq hret] at htaken

/-- The run after a store that comes behind the last swap. -/
theorem output_of_ending {lines : List (List UInt8)} (h : Cleared lines a) (hend : a.Ending)
    {es : List (Event SIZE)} (hr : Run step a es a') (hret : a'.stop = .returned) :
    a'.output = a.taken := by
  have hstep : ∀ (b : AsyncLogging SIZE) e b', (Cleared lines b ∧ b.Ending ∧ b.taken = a.taken) →
      step b e = some b' → Cleared lines b' ∧ b'.Ending ∧ b'.taken = a.taken := by
    rintro b e b' ⟨hb, hend, ht⟩ hs
    obtain ⟨hend', htaken⟩ := step_ending hb.conserves hend hs
    exact ⟨step_cleared hb hs, hend', htaken.trans ht⟩
  obtain ⟨hc, -, htaken⟩ := hr.inv hstep ⟨h, hend, rfl⟩
  rw [← hc.taken_eq hret, htaken]

/-- **What is in the log when `stop` returns**: all the lines appended before it was called are,
exactly when its store to `running_` came while the back end was on its way into a swap, or when
the back end had written or taken all of them already. -/
theorem stop_drains_iff {memory : Memory SIZE} {pre post : List (Event SIZE)}
    {b : AsyncLogging SIZE} (h : Run step (new memory) pre a) (hclear : step a .stopClear = some b)
    (hpost : Run step b post a') (hret : a'.stop = .returned) :
    a'.Drained ↔
      a.WillSwap ∨ (a.appended.take a.appendedBefore).flatten <+: a.taken.flatten := by
  obtain ⟨hen, hp⟩ := step_eq_some_iff.mp hclear
  have hst : a.stop = .called := hen
  have hc := conserves_of_run h
  have ho := order_of_run h
  have hb : Cleared (a.appended.take a.appendedBefore) b := by
    obtain rfl := Except.ok.inj hp
    exact ⟨step_conserves hc hclear, step_order hc ho hclear, Stop.noConfusion, rfl, rfl⟩
  have hlast := hpost.inv (P := Cleared (a.appended.take a.appendedBefore))
    (fun _ _ _ hb hs => step_cleared hb hs) hb
  rw [Drained, hlast.lines]
  by_cases hw : a.WillSwap
  · refine iff_of_true (drained_of_willSwap hb ?_ hpost hret) (Or.inl hw)
    obtain rfl := Except.ok.inj hp
    exact hw
  · have hend : b.Ending := by
      obtain rfl := Except.ok.inj hp
      have hns := (ho.called (by simp [hst])).1
      have hfirst := ho.first
      rw [WillSwap] at hw
      cases hbe : a.backEnd with
      | notStarted => exact absurd hbe hns
      | test => rw [hbe] at hw; exact ⟨rfl, by simpa using hw, Or.inl rfl⟩
      | lock => rw [hbe] at hw; exact absurd trivial hw
      | waiting => rw [hbe] at hw; exact absurd trivial hw
      | writing i => exact ⟨rfl, by simpa [hbe] using hfirst, Or.inr (Or.inl rfl)⟩
      | returned => exact ⟨rfl, by simpa [hbe] using hfirst, Or.inr (Or.inr rfl)⟩
    have htaken : b.taken = a.taken := by obtain rfl := Except.ok.inj hp; rfl
    rw [output_of_ending hb hend hpost hret, htaken]
    exact (or_iff_right hw).symm

/-- `stop` is called while the back end waits for lines, and while it writes. -/
theorem stop_drains_waiting : ∃ a b a' : AsyncLogging 4,
    Run step (new garbage) [.start garbage, .append [1] garbage, .test, .lock, .stopCall] a ∧
    step a .stopClear = some b ∧
    Run step b [.stopNotify, .wake, .write, .write, .test, .stopReturn] a' ∧ a'.Drained := by
  have h : (([Event.start garbage, .append [1] garbage, .test, .lock, .stopCall, .stopClear].foldlM
      step (new garbage)).bind fun b =>
        [Event.stopNotify, .wake, .write, .write, .test, .stopReturn].foldlM step b).map stop =
      some .returned := by decide +kernel
  obtain ⟨a', hrun, hret⟩ := Option.map_eq_some_iff.mp h
  obtain ⟨b, hb, hpost⟩ := Option.bind_eq_some_iff.mp hrun
  obtain ⟨a, ha, hclear⟩ := run_snoc_iff.mp
    (show Run step (new garbage) ([Event.start garbage, .append [1] garbage, .test, .lock,
      .stopCall] ++ [.stopClear]) b from hb)
  have hw : (([Event.start garbage, .append [1] garbage, .test, .lock, .stopCall].foldlM step
      (new garbage)).map fun a => decide a.WillSwap) = some true := by decide +kernel
  rw [show [Event.start garbage, .append [1] garbage, .test, .lock, .stopCall].foldlM step
    (new garbage) = some a from ha] at hw
  exact ⟨a, b, a', ha, hclear, hpost, (stop_drains_iff ha hclear hpost hret).mpr
    (Or.inl (of_decide_eq_true (Option.some.inj hw)))⟩

/-- A line is appended while the back end writes, and `stop` is called. -/
def stopWhileWriting (memory : Memory SIZE) : List (Event SIZE) :=
  [.start memory, .test, .lock, .wake, .append [1] memory, .stopCall, .stopClear, .stopNotify,
    .write, .write, .test, .stopReturn]

theorem not_stop_drains_writing :
    ¬ ∀ (memory : Memory kLargeBuffer) (es : List (Event kLargeBuffer))
      (a : AsyncLogging kLargeBuffer),
      Run step (new memory) es a → a.stop = .returned → a.Drained := by
  intro h
  let memory : Memory kLargeBuffer := ⟨List.replicate kLargeBuffer 0, List.length_replicate⟩
  have hrun : ((stopWhileWriting memory).foldlM step (new memory)).map (fun a =>
      (a.stop, a.appended, a.appendedBefore, a.output)) =
      some (.returned, [[1]], 1, [[]]) := by decide +kernel
  obtain ⟨a, ha, hq⟩ := Option.map_eq_some_iff.mp hrun
  simp only [Prod.mk.injEq] at hq
  obtain ⟨hret, happ, hn, hout⟩ := hq
  have hd := h memory _ a ha hret
  rw [Drained, happ, hn, hout] at hd
  exact absurd hd (by decide)

end HighServer.AsyncLogging
