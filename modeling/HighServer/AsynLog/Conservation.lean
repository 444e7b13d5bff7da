import HighServer.AsynLog.AsyncLogging
import HighServer.Lib.Packing

/-!
# The log loses, repeats and splits no line

* `chunks`: what has been written, then the rest of `buffersToWrite`, `buffers_` and
  `currentBuffer_`;
* `Conserves`: the chunks pack the lines appended, the buffers in reserve are empty, and every
  pointer that will be dereferenced is set;
* `Slots`: the part of it that is about pointers;
* `append_slots`, `swapBuffers_slots`, `write_slots`, `recycle_slots`: one lemma for each step that
  moves buffers;
* `step_appended`, `appended_of_run`: `appended` is what the events of a run append;
* **`lines_conserved`**: it holds in every reachable state, and no step is undefined.
-/

namespace HighServer.AsyncLogging

open Runs Packing

variable {SIZE : ℕ} {a a' : AsyncLogging SIZE}

/-- The bytes of a buffer that will be written. -/
def text (p : BufferPtr SIZE) : List UInt8 :=
  match p with
  | some b => b.toString
  | none => []

/-- The part of `buffersToWrite` that is still to be written. -/
def unwritten (a : AsyncLogging SIZE) : List (BufferPtr SIZE) :=
  match a.backEnd with
  | .writing i => a.buffersToWrite.drop i
  | _ => []

/-- What has been written, and what the buffers hold, in order. -/
def chunks (a : AsyncLogging SIZE) : List (List UInt8) :=
  a.output ++ (a.unwritten.map text ++ a.buffers_.map text) ++ [text a.currentBuffer_]

/-- The pointer is set, to a buffer without bytes. -/
def Empty (p : BufferPtr SIZE) : Prop := ∃ b, p = some b ∧ b.toString = []

/-- The local variables of `threadFunc`, from step to step. -/
def LocalsOk (a : AsyncLogging SIZE) : Prop :=
  match a.backEnd with
  | .notStarted => a.buffersToWrite = []
  | .writing i => i ≤ a.buffersToWrite.length ∧ a.newBuffer1 = none ∧
      (∀ p ∈ a.buffersToWrite, p ≠ none) ∧ a.buffersToWrite ≠ [] ∧
      (Empty a.newBuffer2 ∨ a.newBuffer2 = none ∧ 2 ≤ a.buffersToWrite.length)
  | _ => Empty a.newBuffer1 ∧ Empty a.newBuffer2 ∧ a.buffersToWrite = []

structure Conserves (a : AsyncLogging SIZE) : Prop where
  current : ∃ b, a.currentBuffer_ = some b
  next : ∀ b, a.nextBuffer_ = some b → b.toString = []
  reserve : a.nextBuffer_ = none → a.buffers_ ≠ []
  full : ∀ p ∈ a.buffers_, p ≠ none
  locals : a.LocalsOk
  packs : Packs a.appended a.chunks

/-- What the back end and `append` rely on when they hand buffers over. -/
structure Slots (a : AsyncLogging SIZE) : Prop where
  current : ∃ b, a.currentBuffer_ = some b
  next : ∀ b, a.nextBuffer_ = some b → b.toString = []
  reserve : a.nextBuffer_ = none → a.buffers_ ≠ []
  full : ∀ p ∈ a.buffers_, p ≠ none
  locals : a.LocalsOk

theorem Conserves.slots (h : a.Conserves) : a.Slots :=
  ⟨h.current, h.next, h.reserve, h.full, h.locals⟩

theorem Slots.conserves (h : a.Slots) (hp : Packs a.appended a.chunks) : a.Conserves :=
  ⟨h.current, h.next, h.reserve, h.full, h.locals, hp⟩

/-- A step that only moves buffers. -/
structure SameControl (a a' : AsyncLogging SIZE) : Prop where
  running_ : a'.running_ = a.running_
  first : a'.first = a.first
  stop : a'.stop = a.stop
  appendedBefore : a'.appendedBefore = a.appendedBefore

theorem conserves_new (memory : Memory SIZE) : (new memory).Conserves where
  current := ⟨_, rfl⟩
  next b hb := by
    obtain rfl := Option.some.inj hb
    exact FixedBuffer.toString_bzero_new memory
  reserve h := absurd h (by simp [new])
  full p hp := absurd hp (by simp [new])
  locals := rfl
  packs := by
    rw [chunks]
    simp only [new, unwritten, text, FixedBuffer.toString_bzero_new, List.map_nil, List.append_nil]
    exact packs_empty

/-! ## The front end -/

/-- A line that goes into an empty buffer. -/
theorem toString_append_empty {b : FixedBuffer SIZE} (h : b.toString = []) {logline : List UInt8}
    (hl : logline.length < SIZE) : (b.append logline).toString = logline := by
  have h0 := FixedBuffer.cur_eq_zero_of_toString h
  rw [FixedBuffer.toString_append (by rw [FixedBuffer.avail, h0]; exact hl), h, List.nil_append]

/-- **`append`**, of a line of any length; one that is shorter than a buffer is not lost. -/
theorem append_slots (h : a.Slots) (logline : List UInt8) (memory : Memory SIZE) :
    ∃ a', a.append logline memory = .ok a' ∧ a'.Slots ∧
      SameControl a a' ∧ a'.backEnd = a.backEnd ∧ a'.buffersToWrite = a.buffersToWrite ∧
      a'.output = a.output ∧ a'.appended = a.appended ++ [logline] ∧
      (logline.length < SIZE → Packs a.appended a.chunks → Packs a'.appended a'.chunks) := by
  obtain ⟨b, hb⟩ := h.current
  rw [append, hb]
  dsimp only [deref]
  change ∃ a', ite _ _ _ = _ ∧ _
  split_ifs with hroom
  · refine ⟨_, rfl, ⟨⟨_, rfl⟩, h.next, h.reserve, h.full, h.locals⟩, ⟨rfl, rfl, rfl, rfl⟩,
      rfl, rfl, rfl, rfl, fun _ hpacks => ?_⟩
    rw [chunks, hb] at hpacks
    rw [chunks]
    simp only [text, FixedBuffer.toString_append hroom]
    exact hpacks.fill logline
  · have hfresh : (a.nextBuffer_.getD (FixedBuffer.new memory)).toString = [] := by
      cases hn : a.nextBuffer_ with
      | none => exact FixedBuffer.toString_new memory
      | some nb => exact h.next nb hn
    refine ⟨_, rfl, ⟨⟨_, rfl⟩, fun _ hn => absurd hn (by simp), fun _ => by simp, ?_, h.locals⟩,
      ⟨rfl, rfl, rfl, rfl⟩, rfl, rfl, rfl, rfl, fun hl hpacks => ?_⟩
    · intro p hp
      rcases List.mem_append.mp hp with hp | hp
      · exact h.full p hp
      · rw [List.mem_singleton.mp hp]
        exact Option.some_ne_none b
    · rw [chunks, hb] at hpacks
      rw [chunks]
      simp only [text, toString_append_empty hfresh hl, List.map_append, List.map_cons,
        List.map_nil]
      simpa [unwritten, text] using hpacks.open_chunk.fill logline

theorem append_conserves (h : a.Conserves) {logline : List UInt8} (hl : logline.length < SIZE)
    (memory : Memory SIZE) : ∃ a', a.append logline memory = .ok a' ∧ a'.Conserves ∧
      SameControl a a' ∧ a'.backEnd = a.backEnd ∧ a'.buffersToWrite = a.buffersToWrite ∧
      a'.output = a.output ∧ a'.appended = a.appended ++ [logline] := by
  obtain ⟨a', ha', hs, hsame, hbe, hw, hout, happ, hpacks⟩ := append_slots h.slots logline memory
  exact ⟨a', ha', hs.conserves (hpacks hl h.packs), hsame, hbe, hw, hout, happ⟩

/-! ## The back end -/

theorem swapBuffers_slots (h : a.Slots) (h₁ : Empty a.newBuffer1) (h₂ : Empty a.newBuffer2)
    (hw : a.buffersToWrite = []) (hun : a.unwritten = []) :
    a.swapBuffers.Slots ∧ SameControl a a.swapBuffers ∧ a.swapBuffers.backEnd = .writing 0 ∧
      a.swapBuffers.appended = a.appended ∧ a.swapBuffers.output = a.output ∧
      a.swapBuffers.unwritten = a.buffers_ ++ [a.currentBuffer_] ∧
      (Packs a.appended a.chunks → Packs a.swapBuffers.appended a.swapBuffers.chunks) := by
  obtain ⟨b, hb⟩ := h.current
  obtain ⟨b₁, hb₁, ht₁⟩ := h₁
  obtain ⟨b₂, hb₂, ht₂⟩ := h₂
  have hpacks : Packs a.appended a.chunks → Packs a.appended
      (a.output ++ ((a.buffers_ ++ [a.currentBuffer_]).map text ++
        List.map text ([] : List (BufferPtr SIZE))) ++ [text (some b₁)]) := by
    intro hp
    have hc := hp.open_chunk
    rw [chunks, hun] at hc
    simpa [text, ht₁] using hc
  have hfull : ∀ p ∈ a.buffers_ ++ [a.currentBuffer_], p ≠ none := by
    intro p hp
    rcases List.mem_append.mp hp with hp | hp
    · exact h.full p hp
    · rw [List.mem_singleton.mp hp, hb]
      exact Option.some_ne_none b
  have hne : a.buffers_ ++ [a.currentBuffer_] ≠ [] := by simp
  unfold swapBuffers
  dsimp only
  rw [hb₁, hb₂, hw]
  split_ifs with hn
  · -- `nextBuffer_` was used up, so a full buffer is among those taken
    have htwo : 2 ≤ (a.buffers_ ++ [a.currentBuffer_]).length := by
      have := List.length_pos_iff.mpr (h.reserve (Option.isNone_iff_eq_none.mp hn))
      rw [List.length_append, List.length_singleton]
      omega
    refine ⟨⟨⟨b₁, rfl⟩, fun nb hnb => ?_, fun hnn => absurd hnn (by simp),
      fun p hp => absurd hp (by simp),
      ⟨Nat.zero_le _, rfl, hfull, hne, Or.inr ⟨rfl, htwo⟩⟩⟩,
      ⟨rfl, rfl, rfl, rfl⟩, rfl, rfl, rfl, rfl, hpacks⟩
    rw [← Option.some.inj hnb]
    exact ht₂
  · refine ⟨⟨⟨b₁, rfl⟩, h.next, fun hnn => absurd hnn (by simpa using hn),
      fun p hp => absurd hp (by simp),
      ⟨Nat.zero_le _, rfl, hfull, hne, Or.inl ⟨b₂, rfl, ht₂⟩⟩⟩,
      ⟨rfl, rfl, rfl, rfl⟩, rfl, rfl, rfl, rfl, hpacks⟩

theorem swapBuffers_conserves (h : a.Conserves) (h₁ : Empty a.newBuffer1) (h₂ : Empty a.newBuffer2)
    (hw : a.buffersToWrite = []) (hun : a.unwritten = []) :
    a.swapBuffers.Conserves ∧ SameControl a a.swapBuffers ∧ a.swapBuffers.backEnd = .writing 0 ∧
      a.swapBuffers.appended = a.appended ∧ a.swapBuffers.output = a.output ∧
      a.swapBuffers.unwritten = a.buffers_ ++ [a.currentBuffer_] := by
  obtain ⟨hs, hsame, hbe, happ, hout, hun', hpacks⟩ := swapBuffers_slots h.slots h₁ h₂ hw hun
  exact ⟨hs.conserves (hpacks h.packs), hsame, hbe, happ, hout, hun'⟩

theorem write_slots (h : a.Slots) {i : ℕ} (hbe : a.backEnd = .writing i)
    {p : BufferPtr SIZE} (hp : a.buffersToWrite[i]? = some p) :
    ∃ a', a.write i p = .ok a' ∧ a'.Slots ∧ SameControl a a' ∧ a'.appended = a.appended ∧
      a'.backEnd = .writing (i + 1) ∧
      a'.output ++ a'.unwritten.map text = a.output ++ a.unwritten.map text ∧
      (Packs a.appended a.chunks → Packs a'.appended a'.chunks) := by
  have hlocals := h.locals
  simp only [LocalsOk, hbe] at hlocals
  obtain ⟨-, h₁, hall, hne, h₂⟩ := hlocals
  obtain ⟨hi, hget⟩ := List.getElem?_eq_some_iff.mp hp
  have hdrop : a.buffersToWrite.drop i = p :: a.buffersToWrite.drop (i + 1) := by
    rw [List.drop_eq_getElem_cons hi, hget]
  obtain ⟨b, rfl⟩ := Option.ne_none_iff_exists'.mp (hall p (List.mem_of_getElem? hp))
  have hout : a.output ++ [text (some b)] ++ (a.buffersToWrite.drop (i + 1)).map text =
      a.output ++ a.unwritten.map text := by
    simp only [unwritten, hbe, hdrop, List.map_cons, List.append_assoc, List.singleton_append]
  refine ⟨{ a with output := a.output ++ [text (some b)], backEnd := .writing (i + 1) }, rfl,
    ⟨h.current, h.next, h.reserve, h.full, ⟨hi, h₁, hall, hne, h₂⟩⟩,
    ⟨rfl, rfl, rfl, rfl⟩, rfl, rfl, hout, fun hpacks => ?_⟩
  rw [chunks, ← List.append_assoc, ← hout] at hpacks
  rw [chunks, ← List.append_assoc]
  exact hpacks

theorem write_conserves (h : a.Conserves) {i : ℕ} (hbe : a.backEnd = .writing i)
    {p : BufferPtr SIZE} (hp : a.buffersToWrite[i]? = some p) :
    ∃ a', a.write i p = .ok a' ∧ a'.Conserves ∧ SameControl a a' ∧ a'.appended = a.appended ∧
      a'.backEnd = .writing (i + 1) ∧
      a'.output ++ a'.unwritten.map text = a.output ++ a.unwritten.map text := by
  obtain ⟨a', ha', hs, hsame, happ, hbe', hout, hpacks⟩ := write_slots h.slots hbe hp
  exact ⟨a', ha', hs.conserves (hpacks h.packs), hsame, happ, hbe', hout⟩

theorem refill_of_empty {p : BufferPtr SIZE} (h : Empty p) (v : List (BufferPtr SIZE)) :
    refill p v = .ok (p, v) := by
  obtain ⟨b, rfl, -⟩ := h
  rfl

theorem refill_none {v : List (BufferPtr SIZE)} (hv : ∀ p ∈ v, p ≠ none) (hne : v ≠ []) :
    ∃ p, refill none v = .ok (p, v.dropLast) ∧ Empty p := by
  obtain ⟨b, hb⟩ := Option.ne_none_iff_exists'.mp (hv _ (List.getLast_mem hne))
  refine ⟨some b.reset, ?_, b.reset, rfl, FixedBuffer.toString_reset b⟩
  simp only [refill, List.getLast?_eq_some_getLast hne, hb]
  rfl

theorem recycle_slots (h : a.Slots) (hbe : a.backEnd = .writing a.buffersToWrite.length) :
    ∃ a', a.recycle = .ok a' ∧ a'.Slots ∧ SameControl a a' ∧ a'.appended = a.appended ∧
      a'.backEnd = .test ∧ a'.output = a.output ∧
      (Packs a.appended a.chunks → Packs a'.appended a'.chunks) := by
  have hlocals := h.locals
  simp only [LocalsOk, hbe] at hlocals
  obtain ⟨-, h₁, hall, hne, h₂⟩ := hlocals
  have hpos := List.length_pos_iff.mpr hne
  -- `resize(2)` leaves a buffer for every pointer that has to be set again
  obtain ⟨v, hv, hvall, hvne, hvlen⟩ : ∃ v,
      (if 2 < a.buffersToWrite.length then a.buffersToWrite.take 2 else a.buffersToWrite) = v ∧
      (∀ p ∈ v, p ≠ none) ∧ v ≠ [] ∧ (2 ≤ a.buffersToWrite.length → 2 ≤ v.length) := by
    refine ⟨_, rfl, ?_⟩
    split_ifs with hlen
    · refine ⟨fun p hp => hall p (List.mem_of_mem_take hp), ?_, fun _ => ?_⟩
      · exact List.ne_nil_of_length_pos (by rw [List.length_take]; omega)
      · rw [List.length_take]; omega
    · exact ⟨hall, hne, id⟩
  obtain ⟨p₁, hp₁, he₁⟩ := refill_none hvall hvne
  have hrest : ∀ p ∈ v.dropLast, p ≠ none := fun p hp => hvall p (List.mem_of_mem_dropLast hp)
  obtain ⟨p₂, w, hp₂, he₂⟩ : ∃ p₂ w, refill a.newBuffer2 v.dropLast = .ok (p₂, w) ∧ Empty p₂ := by
    rcases h₂ with he | ⟨hnone, htwo⟩
    · exact ⟨_, _, refill_of_empty he _, he⟩
    · have hd : v.dropLast ≠ [] := by
        have := hvlen htwo
        exact List.ne_nil_of_length_pos (by rw [List.length_dropLast]; omega)
      obtain ⟨p₂, hp₂, he₂⟩ := refill_none hrest hd
      exact ⟨p₂, _, by rw [hnone]; exact hp₂, he₂⟩
  refine ⟨{ a with newBuffer1 := p₁, newBuffer2 := p₂, buffersToWrite := [], backEnd := .test },
    ?_, ⟨h.current, h.next, h.reserve, h.full, ⟨he₁, he₂, rfl⟩⟩,
    ⟨rfl, rfl, rfl, rfl⟩, rfl, rfl, rfl, fun hpacks => ?_⟩
  · unfold recycle
    dsimp only
    rw [hv, h₁, hp₁]
    change (do let x ← refill a.newBuffer2 v.dropLast; _) = _
    rw [hp₂]
    rfl
  · rw [chunks, show a.unwritten = [] by simp [unwritten, hbe]] at hpacks
    exact hpacks

theorem recycle_conserves (h : a.Conserves) (hbe : a.backEnd = .writing a.buffersToWrite.length) :
    ∃ a', a.recycle = .ok a' ∧ a'.Conserves ∧ SameControl a a' ∧ a'.appended = a.appended ∧
      a'.backEnd = .test ∧ a'.output = a.output := by
  obtain ⟨a', ha', hs, hsame, happ, hbe', hout, hpacks⟩ := recycle_slots h.slots hbe
  exact ⟨a', ha', hs.conserves (hpacks h.packs), hsame, happ, hbe', hout⟩

/-! ## Runs -/

/-- **One step.** -/
theorem Event.perform_slots {e : Event SIZE} (h : a.Slots) (hen : e.Enabled a) :
    ∃ a', e.perform a = .ok a' ∧ a'.Slots ∧
      (Packs a.appended a.chunks → Packs a'.appended a'.chunks) := by
  have hlocals := h.locals
  cases e with
  | start memory =>
    have hbe : a.backEnd = .notStarted := hen
    refine ⟨_, rfl, ⟨h.current, h.next, h.reserve, h.full, ⟨⟨_, rfl, ?_⟩, ⟨_, rfl, ?_⟩, rfl⟩⟩,
      fun hpacks => ?_⟩
    · exact FixedBuffer.toString_bzero_new memory
    · exact FixedBuffer.toString_bzero_new memory
    · rw [chunks, show a.unwritten = [] by simp [unwritten, hbe]] at hpacks
      exact hpacks
  | append logline memory =>
    obtain ⟨a', ha', hs, -, -, -, -, -, hpacks⟩ := append_slots h logline memory
    exact ⟨a', ha', hs, hpacks hen.2⟩
  | test =>
    have hbe : a.backEnd = .test := hen
    simp only [LocalsOk, hbe] at hlocals
    have hchunks : a.chunks =
        a.output ++ ([] ++ a.buffers_.map text) ++ [text a.currentBuffer_] := by
      rw [chunks, show a.unwritten = [] by simp [unwritten, hbe], List.map_nil]
    rw [Event.perform, hchunks]
    split_ifs
    · exact ⟨_, rfl, ⟨h.current, h.next, h.reserve, h.full, hlocals⟩, id⟩
    · exact ⟨_, rfl, ⟨h.current, h.next, h.reserve, h.full, hlocals⟩, id⟩
  | lock =>
    have hbe : a.backEnd = .lock := hen
    simp only [LocalsOk, hbe] at hlocals
    have hun : a.unwritten = [] := by simp [unwritten, hbe]
    rw [Event.perform, AsyncLogging.lock]
    split_ifs
    · refine ⟨_, rfl, ⟨h.current, h.next, h.reserve, h.full, hlocals⟩, fun hpacks => ?_⟩
      rw [chunks, hun] at hpacks
      exact hpacks
    · obtain ⟨hs, -, -, -, -, -, hpacks⟩ :=
        swapBuffers_slots h hlocals.1 hlocals.2.1 hlocals.2.2 hun
      exact ⟨_, rfl, hs, hpacks⟩
  | wake =>
    have hbe : a.backEnd = .waiting := hen
    simp only [LocalsOk, hbe] at hlocals
    have hun : a.unwritten = [] := by simp [unwritten, hbe]
    obtain ⟨hs, -, -, -, -, -, hpacks⟩ :=
      swapBuffers_slots h hlocals.1 hlocals.2.1 hlocals.2.2 hun
    exact ⟨_, rfl, hs, hpacks⟩
  | write =>
    simp only [Event.perform]
    split
    · rename_i i hbe
      split
      · obtain ⟨a', ha', hs, -, -, -, -, hpacks⟩ := write_slots h hbe ‹_›
        exact ⟨a', ha', hs, hpacks⟩
      · rename_i hnone
        simp only [LocalsOk, hbe] at hlocals
        have hi : i = a.buffersToWrite.length :=
          le_antisymm hlocals.1 (List.getElem?_eq_none_iff.mp hnone)
        obtain ⟨a', ha', hs, -, -, -, -, hpacks⟩ := recycle_slots h (hi ▸ hbe)
        exact ⟨a', ha', hs, hpacks⟩
    · exact ⟨a, rfl, h, id⟩
  | stopCall => exact ⟨_, rfl, ⟨h.current, h.next, h.reserve, h.full, hlocals⟩, id⟩
  | stopClear => exact ⟨_, rfl, ⟨h.current, h.next, h.reserve, h.full, hlocals⟩, id⟩
  | stopNotify => exact ⟨_, rfl, ⟨h.current, h.next, h.reserve, h.full, hlocals⟩, id⟩
  | stopReturn => exact ⟨_, rfl, ⟨h.current, h.next, h.reserve, h.full, hlocals⟩, id⟩

theorem Event.perform_conserves {e : Event SIZE} (h : a.Conserves) (hen : e.Enabled a) :
    ∃ a', e.perform a = .ok a' ∧ a'.Conserves := by
  obtain ⟨a', ha', hs, hpacks⟩ := Event.perform_slots h.slots hen
  exact ⟨a', ha', hs.conserves (hpacks h.packs)⟩

theorem step_slots {e : Event SIZE} (h : a.Slots) (hs : step a e = some a') : a'.Slots := by
  obtain ⟨hen, hp⟩ := step_eq_some_iff.mp hs
  obtain ⟨a'', ha'', hslots, -⟩ := Event.perform_slots h hen
  exact Except.ok.inj (ha''.symm.trans hp) ▸ hslots

theorem step_conserves {e : Event SIZE} (h : a.Conserves) (hs : step a e = some a') :
    a'.Conserves := by
  obtain ⟨hen, hp⟩ := step_eq_some_iff.mp hs
  obtain ⟨a'', ha'', hc⟩ := Event.perform_conserves h hen
  exact Except.ok.inj (ha''.symm.trans hp) ▸ hc

theorem conserves_of_run {memory : Memory SIZE} {es : List (Event SIZE)}
    (h : Run step (new memory) es a) : a.Conserves :=
  h.inv (P := Conserves) (fun _ _ _ hb hs => step_conserves hb hs) (conserves_new memory)

/-! ## The lines of a run -/

/-- The line that an event appends. -/
def Event.line? : Event SIZE → Option (List UInt8)
  | .append logline _ => some logline
  | _ => none

theorem append_appended {logline : List UInt8} {memory : Memory SIZE}
    (h : a.append logline memory = .ok a') : a'.appended = a.appended ++ [logline] := by
  obtain ⟨current, -, h⟩ := except_bind_eq_ok_iff.mp h
  split_ifs at h <;> obtain rfl := Except.ok.inj h
  · rfl
  · rfl

theorem write_appended {i : ℕ} {buffer : BufferPtr SIZE} (h : a.write i buffer = .ok a') :
    a'.appended = a.appended := by
  obtain ⟨b, -, h⟩ := except_bind_eq_ok_iff.mp h
  obtain rfl := Except.ok.inj h
  rfl

theorem recycle_appended (h : a.recycle = .ok a') : a'.appended = a.appended := by
  obtain ⟨r₁, -, h⟩ := except_bind_eq_ok_iff.mp h
  obtain ⟨r₂, -, h⟩ := except_bind_eq_ok_iff.mp h
  obtain rfl := Except.ok.inj h
  rfl

theorem swapBuffers_appended (a : AsyncLogging SIZE) : a.swapBuffers.appended = a.appended := by
  unfold swapBuffers
  dsimp only
  split_ifs <;> rfl

theorem lock_appended (a : AsyncLogging SIZE) : a.lock.appended = a.appended := by
  unfold AsyncLogging.lock
  split_ifs
  · rfl
  · exact swapBuffers_appended a

/-- **One step** appends the line of its event. -/
theorem step_appended {e : Event SIZE} (hs : step a e = some a') :
    a'.appended = a.appended ++ e.line?.toList := by
  obtain ⟨-, hp⟩ := step_eq_some_iff.mp hs
  have same : a'.appended = a.appended → a'.appended = a.appended ++ [] := fun h =>
    h.trans (List.append_nil _).symm
  cases e with
  | append logline memory => exact append_appended hp
  | lock => exact same (Except.ok.inj hp ▸ lock_appended a)
  | wake => exact same (Except.ok.inj hp ▸ swapBuffers_appended a)
  | test =>
    simp only [Event.perform] at hp
    split_ifs at hp <;> exact same (Except.ok.inj hp ▸ rfl)
  | write =>
    simp only [Event.perform] at hp
    split at hp
    · split at hp
      · exact same (write_appended hp)
      · exact same (recycle_appended hp)
    · exact same (Except.ok.inj hp ▸ rfl)
  | start | stopCall | stopClear | stopNotify | stopReturn =>
    exact same (Except.ok.inj hp ▸ rfl)

/-- `appended` is the list of the lines that the events of the run append. -/
theorem appended_of_run {memory : Memory SIZE} {es : List (Event SIZE)}
    (h : Run step (new memory) es a) : a.appended = es.filterMap Event.line? :=
  h.history (P := fun es b => b.appended = es.filterMap Event.line?) (fun es b e b' hb hs => by
    rw [step_appended hs, hb, List.filterMap_append]
    cases e <;> rfl) rfl

/-- **Conservation of the log.** At every moment, what `LogFile::append` has been given, what is
left of `buffersToWrite`, `buffers_` and `currentBuffer_` are the lines in the order in which they
were appended; each of these chunks is made of whole lines; and no step is undefined. -/
theorem lines_conserved {memory : Memory SIZE} {es : List (Event SIZE)}
    (h : Run step (new memory) es a) :
    a.output.flatten ++ (a.unwritten.map text).flatten ++ (a.buffers_.map text).flatten ++
        text a.currentBuffer_ = a.appended.flatten ∧
    Packs a.appended a.chunks ∧
    ∀ e : Event SIZE, e.Enabled a → ∃ a', e.perform a = .ok a' := by
  have hc := conserves_of_run h
  refine ⟨?_, hc.packs, fun e hen => ?_⟩
  · rw [← hc.packs.flatten_eq, chunks]
    simp
  · obtain ⟨a', ha', -⟩ := Event.perform_conserves hc hen
    exact ⟨a', ha'⟩

def garbage : Memory 4 := ⟨[9, 9, 9, 9], rfl⟩

/-- Two full buffers are handed over, one of them is written, and a line comes in between. -/
def handOver : List (Event 4) :=
  [.start garbage, .append [1, 2, 3] garbage, .append [4, 5] garbage, .test, .lock,
    .append [6] garbage, .write]

theorem handOver_conserved : ∃ a : AsyncLogging 4, Run step (new garbage) handOver a ∧
    a.output = [[1, 2, 3]] ∧
    a.output.flatten ++ (a.unwritten.map text).flatten ++ (a.buffers_.map text).flatten ++
      text a.currentBuffer_ = [1, 2, 3, 4, 5, 6] := by
  have h : (handOver.foldlM step (new garbage)).map (fun a => (a.output, a.appended)) =
      some ([[1, 2, 3]], [[1, 2, 3], [4, 5], [6]]) := by decide +kernel
  obtain ⟨a, ha, hq⟩ := Option.map_eq_some_iff.mp h
  obtain ⟨hout, happ⟩ := Prod.mk.inj hq
  refine ⟨a, ha, hout, ?_⟩
  rw [(lines_conserved ha).1, happ]
  rfl

end HighServer.AsyncLogging
