import HighServer.AsynLog.LogFile
import HighServer.AsynLog.Stop

/-!
# What a crash leaves in the log files

`threadFunc` with its local variable `output`, a `LogFile`. The bytes that a `FILE` still holds in
its buffer when the process dies are lost in part or as a whole; `fflush` and `fclose` hand them
over. `LogFile` is given `nullptr` for a mutex, so `append` is `append_unlocked`.

Assumed of the host: no `fwrite_unlocked` sets the error flag, so `AppendFile::append` writes the
whole line (`Stdio.append_matches`); `fflush` and `fclose` succeed; the clock shows a positive time.

* `LogFile.bytes`, `LogFile.safe`: what the files have been given, and the part of it that no crash
  can take away; `LogFile.Leaves`: the outcomes of a crash;
* `Call`: what a step of `threadFunc` does with `output`; `step_call`: the state around it;
* `step`: the back end with its files; `Stored`: the invariant;
* **`crash_keeps`**: what is found on disk after a crash at any moment of any such run.
-/

namespace HighServer

open Runs Packing

/-! ## The files -/

namespace LogFile

variable {host : Host} {f f' : LogFile} {e : Append} {disk line : List UInt8}

/-- The contents of the files, one after the other. -/
def bytes (f : LogFile) : List UInt8 := (f.files.map (·.content)).flatten

/-- The closed files, and what `fflush` has handed over of the last one. -/
def safe (f : LogFile) : List UInt8 :=
  (f.closed.map (·.content)).flatten ++
    (f.file_.map fun file => file.content.take file.flushed).getD []

/-- What is found in the files when the process dies: of the last one, some more bytes than
`fflush` has handed over may have left the buffer. -/
def Leaves (f : LogFile) (disk : List UInt8) : Prop :=
  ∃ k, (∀ file ∈ f.file_, file.flushed ≤ k) ∧
    disk = (f.closed.map (·.content)).flatten ++
      (f.file_.map fun file => file.content.take k).getD []

/-- `append_unlocked` before it may roll the file. -/
def fill (f : LogFile) (line : List UInt8) : LogFile :=
  { f with file_ := f.file_.map (·.append line) }

theorem bytes_eq (f : LogFile) :
    f.bytes = (f.closed.map (·.content)).flatten ++ (f.file_.map (·.content)).getD [] := by
  unfold bytes files
  cases f.file_ <;> simp

theorem safe_prefix_bytes (f : LogFile) : f.safe <+: f.bytes := by
  rw [bytes_eq]
  unfold safe
  cases f.file_ with
  | none => exact List.prefix_refl _
  | some file => exact (List.prefix_append_right_inj _).mpr (List.take_prefix _ _)

theorem Leaves.bounds (h : f.Leaves disk) : f.safe <+: disk ∧ disk <+: f.bytes := by
  obtain ⟨k, hk, rfl⟩ := h
  rw [bytes_eq]
  unfold safe
  cases hfile : f.file_ with
  | none => exact ⟨List.prefix_refl _, List.prefix_refl _⟩
  | some file =>
    refine ⟨(List.prefix_append_right_inj _).mpr ?_,
      (List.prefix_append_right_inj _).mpr (List.take_prefix _ _)⟩
    exact List.take_prefix_take_left (hk file hfile)

theorem bytes_fill (hfile : f.file_ ≠ none) (line : List UInt8) :
    (f.fill line).bytes = f.bytes ++ line := by
  obtain ⟨file, hfile⟩ := Option.ne_none_iff_exists'.mp hfile
  simp [bytes_eq, fill, hfile, AppendFile.append]

theorem bytes_fill_prefix (f : LogFile) (line : List UInt8) :
    (f.fill line).bytes <+: f.bytes ++ line := by
  by_cases hfile : f.file_ = none
  · simp [bytes_eq, fill, hfile]
  · rw [bytes_fill hfile]

theorem safe_fill (f : LogFile) (line : List UInt8) : f.safe <+: (f.fill line).safe := by
  unfold safe fill
  cases f.file_ with
  | none => exact List.prefix_refl _
  | some file =>
    exact (List.prefix_append_right_inj _).mpr ((List.prefix_append _ _).take _)

theorem rollFile_bytes (host : Host) (f : LogFile) (now : ℕ) :
    (f.rollFile host now).2.bytes = f.bytes ∧ f.safe <+: (f.rollFile host now).2.safe := by
  unfold rollFile
  dsimp only
  split_ifs with h
  · refine ⟨by simp [bytes, files, AppendFile.new], ?_⟩
    exact (safe_prefix_bytes f).trans (List.prefix_append _ _)
  · exact ⟨rfl, List.prefix_refl _⟩

/-- `fflush`: everything is safe. -/
theorem safe_flush (h : f.flush = some f') : f'.bytes = f.bytes ∧ f'.safe = f'.bytes := by
  obtain ⟨file, hfile, rfl⟩ := Option.map_eq_some_iff.mp h
  simp [bytes_eq, safe, hfile, AppendFile.flush, file.written]

theorem safe_destroy (f : LogFile) : f.destroy.bytes = f.bytes ∧ f.destroy.safe = f.bytes := by
  simp [bytes, safe, files, destroy]

/-- **A line** is put behind the bytes before, and nothing that was safe is lost. -/
theorem step_bytes (h : step host f e = some f') :
    f'.bytes = f.bytes ++ e.logline ∧ f.safe <+: f'.safe := by
  obtain ⟨file, hfile⟩ := exists_file h
  have hfill := bytes_fill (f := f) (by rw [hfile]; exact Option.some_ne_none file) e.logline
  have hsafe := safe_fill f e.logline
  simp only [fill, hfile, Option.map_some] at hfill hsafe
  simp only [step, append_unlocked, hfile] at h
  split_ifs at h with hsize hcheck hday hflush <;> obtain rfl := Option.some.inj h
  · obtain ⟨hbytes, hroll⟩ := rollFile_bytes host { f with file_ := some (file.append e.logline) }
      e.roll
    exact ⟨hbytes.trans hfill, hsafe.trans hroll⟩
  · obtain ⟨hbytes, hroll⟩ := rollFile_bytes host
      { f with file_ := some (file.append e.logline), count_ := 0 } e.roll
    exact ⟨hbytes.trans hfill, hsafe.trans hroll⟩
  · refine ⟨by rw [← hfill]; simp [bytes, files, AppendFile.flush], hsafe.trans ?_⟩
    unfold safe
    refine (List.prefix_append_right_inj _).mpr ?_
    simp [AppendFile.flush, (file.append e.logline).written, List.take_prefix]
  · exact ⟨hfill, hsafe⟩
  · exact ⟨hfill, hsafe⟩

end LogFile

/-! ## The calls of `threadFunc` -/

namespace AsyncLogging

variable {SIZE : ℕ} {a a' : AsyncLogging SIZE} {e : Event SIZE}

/-- What a step does with `output`. -/
inductive Call where
  | nothing
  /-- `LogFile output(basename_, rollSize_, false)` -/
  | construct
  /-- `output.append(buffer->data(), buffer->length())` -/
  | append (logline : List UInt8)
  /-- `output.flush()` -/
  | flush
  /-- `threadFunc` returns -/
  | destroy
  deriving DecidableEq

/-- The call of a step from the state `a`. -/
def call (a : AsyncLogging SIZE) : Event SIZE → Call
  | .start _ => .construct
  | .test => if a.running_ || a.first then .nothing else .destroy
  | .write =>
    match a.backEnd with
    | .writing i =>
      match a.buffersToWrite[i]? with
      | some buffer => .append (text buffer)
      | none => .flush
    | _ => .nothing
  | _ => .nothing

/-- The buffers are taken with this step. -/
def Swaps (a : AsyncLogging SIZE) : Event SIZE → Prop
  | .lock => a.buffers_ ≠ []
  | .wake => True
  | _ => False

/-- `output` before and after the call of a step. -/
def Around (a a' : AsyncLogging SIZE) : Call → Prop
  | .nothing => a'.output = a.output ∧ (a'.backEnd = .notStarted ↔ a.backEnd = .notStarted) ∧
      (a'.backEnd = .returned ↔ a.backEnd = .returned)
  | .construct => a.backEnd = .notStarted ∧ a'.backEnd = .test ∧ a'.output = a.output
  | .append logline => a.backEnd.isWriting = true ∧ a'.backEnd.isWriting = true ∧
      a'.output = a.output ++ [logline]
  | .flush => a.backEnd.isWriting = true ∧ a'.backEnd = .test ∧ a'.output = a.output ∧
      a.taken = a.output
  | .destroy => a.backEnd = .test ∧ a'.backEnd = .returned ∧ a'.output = a.output

theorem swapBuffers_around (hbe : a.backEnd = .lock ∨ a.backEnd = .waiting) :
    Around a a.swapBuffers .nothing := by
  have hne : a.backEnd ≠ .notStarted ∧ a.backEnd ≠ .returned := by
    rcases hbe with hbe | hbe <;> simp [hbe]
  unfold swapBuffers Around
  dsimp only
  split_ifs <;> simp [hne]

/-- **The call of a step** and the state around it. -/
theorem step_call (h : a.Conserves) (hs : step a e = some a') : Around a a' (a.call e) := by
  obtain ⟨hen, hp⟩ := step_eq_some_iff.mp hs
  cases e with
  | start memory =>
    obtain rfl := Except.ok.inj hp
    exact ⟨hen, rfl, rfl⟩
  | append logline memory =>
    obtain ⟨b, hb, -, -, hbe, -, hout, -⟩ := append_conserves h hen.2 memory
    obtain rfl := Except.ok.inj (hb.symm.trans hp)
    exact ⟨hout, by rw [hbe], by rw [hbe]⟩
  | test =>
    have hbe : a.backEnd = .test := hen
    simp only [Event.perform] at hp
    unfold call
    dsimp only
    split_ifs at hp ⊢ with hrun <;> obtain rfl := Except.ok.inj hp
    · exact ⟨rfl, by simp [hbe], by simp [hbe]⟩
    · exact ⟨hbe, rfl, rfl⟩
  | lock =>
    have hbe : a.backEnd = .lock := hen
    obtain rfl := Except.ok.inj hp
    unfold AsyncLogging.lock
    split_ifs
    · exact ⟨rfl, by simp [hbe], by simp [hbe]⟩
    · exact swapBuffers_around (Or.inl hbe)
  | wake =>
    have hbe : a.backEnd = .waiting := hen
    obtain rfl := Except.ok.inj hp
    exact swapBuffers_around (Or.inr hbe)
  | write =>
    obtain ⟨-, -, htaken, hw, -⟩ := write_step h hs
    cases hbe : a.backEnd with
    | writing i =>
      simp only [Event.perform, hbe] at hp
      simp only [call, hbe]
      cases hget : a.buffersToWrite[i]? with
      | some buffer =>
        simp only [hget] at hp
        obtain ⟨b, hb, hp⟩ := except_bind_eq_ok_iff.mp hp
        obtain rfl := Except.ok.inj hp
        obtain ⟨c, rfl⟩ : ∃ c, buffer = some c := by
          cases buffer with
          | none => cases hb
          | some c => exact ⟨c, rfl⟩
        obtain rfl := Except.ok.inj hb
        exact ⟨hw, rfl, rfl⟩
      | none =>
        simp only [hget] at hp
        have hlocals := h.locals
        simp only [LocalsOk, hbe] at hlocals
        have hi : i = a.buffersToWrite.length :=
          le_antisymm hlocals.1 (List.getElem?_eq_none_iff.mp hget)
        obtain ⟨b, hb, -, -, -, hbe', hout⟩ := recycle_conserves h (hi ▸ hbe)
        obtain rfl := Except.ok.inj (hb.symm.trans hp)
        refine ⟨hw, hbe', hout, ?_⟩
        simp [taken, unwritten, hbe, hi]
    | _ => rw [hbe] at hw; exact Bool.noConfusion hw
  | stopCall | stopClear | stopNotify | stopReturn =>
    obtain rfl := Except.ok.inj hp
    exact ⟨rfl, Iff.rfl, Iff.rfl⟩

theorem taken_prefix (h : a.Conserves) : a.taken.flatten <+: a.appended.flatten := by
  rw [← h.packs.flatten_eq, chunks, taken]
  simp only [List.flatten_append, List.append_assoc, List.prefix_append_right_inj]
  exact List.prefix_append _ _

/-- Lines that have been taken stay taken. -/
theorem step_taken (h : a.Conserves) (hs : step a e = some a') :
    a.taken.flatten <+: a'.taken.flatten := by
  have hsame : ∀ b : AsyncLogging SIZE, b.output = a.output → b.unwritten = a.unwritten →
      a.taken.flatten <+: b.taken.flatten := fun b ho hu => by rw [taken, taken, ho, hu]
  obtain ⟨hen, hp⟩ := step_eq_some_iff.mp hs
  cases e with
  | start memory =>
    obtain rfl := Except.ok.inj hp
    exact hsame _ rfl (by simp [unwritten, start, show a.backEnd = .notStarted from hen])
  | append logline memory =>
    obtain ⟨b, hb, -, -, hbe, hw, hout, -⟩ := append_conserves h hen.2 memory
    obtain rfl := Except.ok.inj (hb.symm.trans hp)
    exact hsame _ hout (by rw [unwritten, unwritten, hbe, hw])
  | test =>
    have hbe : a.backEnd = .test := hen
    simp only [Event.perform] at hp
    split_ifs at hp <;> obtain rfl := Except.ok.inj hp
    all_goals exact hsame _ rfl (by simp [unwritten, hbe])
  | lock =>
    have hbe : a.backEnd = .lock := hen
    obtain rfl := Except.ok.inj hp
    unfold AsyncLogging.lock
    split_ifs
    · exact hsame _ rfl (by simp [unwritten, hbe])
    · rw [(swap_step h (Or.inl hbe)).2.2.2]
      exact taken_prefix h
  | wake =>
    obtain rfl := Except.ok.inj hp
    rw [(swap_step h (Or.inr hen)).2.2.2]
    exact taken_prefix h
  | write => rw [(write_step h hs).2.2.1]
  | stopCall | stopClear | stopNotify | stopReturn =>
    obtain rfl := Except.ok.inj hp
    exact hsame _ rfl rfl

theorem taken_of_swaps (h : a.Conserves) (hswap : a.Swaps e) (hs : step a e = some a') :
    a'.taken.flatten = a.appended.flatten := by
  obtain ⟨hen, hp⟩ := step_eq_some_iff.mp hs
  cases e with
  | lock =>
    obtain rfl := Except.ok.inj hp
    unfold AsyncLogging.lock
    rw [if_neg (List.isEmpty_eq_false_iff.mpr hswap ▸ Bool.false_ne_true)]
    exact (swap_step h (Or.inl hen)).2.2.2
  | wake =>
    obtain rfl := Except.ok.inj hp
    exact (swap_step h (Or.inr hen)).2.2.2
  | _ => exact hswap.elim

end AsyncLogging

/-! ## The back end with its files -/

/-- The log and the local variable `output` of `threadFunc`. -/
structure LoggingThread (SIZE : ℕ) where
  log : AsyncLogging SIZE
  output : Option LogFile

namespace LoggingThread

open AsyncLogging (Call)

variable {SIZE : ℕ}

def new (memory : Memory SIZE) : LoggingThread SIZE where
  log := AsyncLogging.new memory
  output := none

/-- A step, with what `time` returns in `append_unlocked` and in `getLogFileName`. -/
structure Event (SIZE : ℕ) where
  what : AsyncLogging.Event SIZE
  check : ℕ
  roll : ℕ

/-- The defaults of `flushInterval` and `checkEveryN`. -/
def construct (host : Host) (basename : String) (rollSize roll : ℕ) : LogFile :=
  LogFile.new host basename rollSize 3 1024 roll

/-- `none` for a call on a file that is not there. -/
def perform (host : Host) (basename : String) (rollSize : ℕ) (check roll : ℕ)
    (output : Option LogFile) : Call → Option (Option LogFile)
  | .nothing => some output
  | .construct => some (some (construct host basename rollSize roll))
  | .append logline => (output.bind fun f => f.append_unlocked host logline check roll).map some
  | .flush => (output.bind LogFile.flush).map some
  | .destroy => some (output.map LogFile.destroy)

def step (host : Host) (basename : String) (rollSize : ℕ) (s : LoggingThread SIZE)
    (e : Event SIZE) : Option (LoggingThread SIZE) :=
  (AsyncLogging.step s.log e.what).bind fun log =>
    (perform host basename rollSize e.check e.roll s.output (s.log.call e.what)).map fun output =>
      { log, output }

variable {host : Host} {basename : String} {rollSize : ℕ} {s s' : LoggingThread SIZE}
  {e : Event SIZE}

theorem step_eq_some_iff : step host basename rollSize s e = some s' ↔
    AsyncLogging.step s.log e.what = some s'.log ∧
      perform host basename rollSize e.check e.roll s.output (s.log.call e.what) =
        some s'.output := by
  unfold step
  rw [Option.bind_eq_some_iff]
  constructor
  · rintro ⟨log, hlog, h⟩
    obtain ⟨output, houtput, rfl⟩ := Option.map_eq_some_iff.mp h
    exact ⟨hlog, houtput⟩
  · rintro ⟨hlog, houtput⟩
    exact ⟨_, hlog, by rw [houtput]; rfl⟩

/-! ## The invariant -/

/-- Between the constructor and the destructor the files are sound; behind it they are closed. -/
structure Stored (host : Host) (s : LoggingThread SIZE) : Prop where
  conserves : s.log.Conserves
  idle : s.log.backEnd = .notStarted → s.output = none ∧ s.log.output = []
  alive : s.log.backEnd ≠ .notStarted → s.log.backEnd ≠ .returned →
    ∃ f, s.output = some f ∧ f.Sound host s.log.output
  ended : s.log.backEnd = .returned → ∃ f, s.output = some f ∧ f.file_ = none ∧
    Packs s.log.output (f.files.map (·.content))

theorem stored_new (memory : Memory SIZE) : (new memory).Stored host where
  conserves := AsyncLogging.conserves_new memory
  idle _ := ⟨rfl, rfl⟩
  alive h := absurd rfl h
  ended h := BackEnd.noConfusion h

theorem Stored.writing (h : s.Stored host) (hw : s.log.backEnd.isWriting = true) :
    ∃ f, s.output = some f ∧ f.Sound host s.log.output := by
  refine h.alive ?_ ?_ <;> intro hbe <;> rw [hbe] at hw <;> cases hw

/-- The files, once there are any, pack what has been written. -/
theorem Stored.packs (h : s.Stored host) {f : LogFile} (hf : s.output = some f) :
    Packs s.log.output (f.files.map (·.content)) := by
  by_cases hn : s.log.backEnd = .notStarted
  · rw [(h.idle hn).1] at hf
    cases hf
  · by_cases hr : s.log.backEnd = .returned
    · obtain ⟨g, hg, -, hpacks⟩ := h.ended hr
      rw [hg] at hf
      exact Option.some.inj hf ▸ hpacks
    · obtain ⟨g, hg, hsound⟩ := h.alive hn hr
      rw [hg] at hf
      exact Option.some.inj hf ▸ hsound.packs

theorem sound_flush {f f' : LogFile} {lines : List (List UInt8)} (h : f.Sound host lines)
    (hflush : f.flush = some f') : f'.Sound host lines := by
  obtain ⟨file, hfile, rfl⟩ := Option.map_eq_some_iff.mp hflush
  have hcontent : (f.closed ++ [file.flush]).map (·.content) = f.files.map (·.content) := by
    simp [LogFile.files, hfile, AppendFile.flush]
  have hname : (f.closed ++ [file.flush]).map (·.filename) = f.files.map (·.filename) := by
    simp [LogFile.files, hfile, AppendFile.flush]
  exact ⟨⟨_, rfl⟩, hcontent ▸ h.packs, hname ▸ h.names, h.period, h.count_lt⟩

/-- A step keeps the invariant, given that the clock shows a time when the first file is made. -/
theorem step_stored (h : s.Stored host) (hclock : 0 < e.roll)
    (hs : step host basename rollSize s e = some s') : s'.Stored host := by
  obtain ⟨hlog, hout⟩ := step_eq_some_iff.mp hs
  have hc := AsyncLogging.step_conserves h.conserves hlog
  have haround := AsyncLogging.step_call h.conserves hlog
  obtain ⟨log', output'⟩ := s'
  dsimp only at hlog hout hc haround
  cases hcall : s.log.call e.what <;> rw [hcall] at haround hout
  case nothing =>
    obtain ⟨hsame, hn, hr⟩ := haround
    obtain rfl := Option.some.inj hout
    refine ⟨hc, fun hbe => ?_, fun hbe hbe' => ?_, fun hbe => ?_⟩
    · exact ⟨(h.idle (hn.mp hbe)).1, hsame.trans (h.idle (hn.mp hbe)).2⟩
    · obtain ⟨f, hf, hsound⟩ := h.alive (fun hx => hbe (hn.mpr hx)) fun hx => hbe' (hr.mpr hx)
      exact ⟨f, hf, hsame ▸ hsound⟩
    · obtain ⟨f, hf, hfile, hpacks⟩ := h.ended (hr.mp hbe)
      exact ⟨f, hf, hfile, hsame ▸ hpacks⟩
  case construct =>
    obtain ⟨hbe, hbe', hsame⟩ := haround
    obtain rfl := Option.some.inj hout
    refine ⟨hc, fun hx => ?_, fun _ _ => ⟨_, rfl, ?_⟩, fun hx => ?_⟩
    · exact absurd (hbe'.symm.trans hx) (by decide)
    · rw [hsame, (h.idle hbe).2]
      exact LogFile.sound_new basename rollSize 3 (by decide) hclock
    · exact absurd (hbe'.symm.trans hx) (by decide)
  case append logline =>
    obtain ⟨hw, hw', hsame⟩ := haround
    obtain ⟨f, hf, hsound⟩ := h.writing hw
    rw [hf] at hout
    obtain ⟨f', hf', rfl⟩ := Option.map_eq_some_iff.mp hout
    refine ⟨hc, fun hx => ?_, fun _ _ => ⟨f', rfl, ?_⟩, fun hx => ?_⟩
    · rw [show log'.backEnd = _ from hx] at hw'
      cases hw'
    · rw [hsame]
      exact LogFile.step_sound (e := ⟨logline, 0, e.check, e.roll⟩) hsound hf'
    · rw [show log'.backEnd = _ from hx] at hw'
      cases hw'
  case flush =>
    obtain ⟨hw, hbe', hsame, -⟩ := haround
    obtain ⟨f, hf, hsound⟩ := h.writing hw
    rw [hf] at hout
    obtain ⟨f', hf', rfl⟩ := Option.map_eq_some_iff.mp hout
    refine ⟨hc, fun hx => ?_, fun _ _ => ⟨f', rfl, ?_⟩, fun hx => ?_⟩
    · exact absurd (hbe'.symm.trans hx) (by decide)
    · rw [hsame]
      exact sound_flush hsound hf'
    · exact absurd (hbe'.symm.trans hx) (by decide)
  case destroy =>
    obtain ⟨hbe, hbe', hsame⟩ := haround
    obtain ⟨f, hf, hsound⟩ := h.alive (by simp [hbe]) (by simp [hbe])
    rw [hf] at hout
    obtain rfl := Option.some.inj hout
    refine ⟨hc, fun hx => ?_, fun _ hx => absurd hbe' hx, fun _ => ⟨_, rfl, rfl, ?_⟩⟩
    · exact absurd (hbe'.symm.trans hx) (by decide)
    · rw [hsame]
      simpa [LogFile.files, LogFile.destroy] using hsound.packs

/-- No call is made on a file that is not there. -/
theorem exists_step (h : s.Stored host) {log : AsyncLogging SIZE}
    (hlog : AsyncLogging.step s.log e.what = some log) :
    ∃ output, step host basename rollSize s e = some ⟨log, output⟩ := by
  have haround := AsyncLogging.step_call h.conserves hlog
  suffices hout : ∃ output, perform host basename rollSize e.check e.roll s.output
      (s.log.call e.what) = some output by
    obtain ⟨output, hout⟩ := hout
    exact ⟨output, step_eq_some_iff.mpr ⟨hlog, hout⟩⟩
  cases hcall : s.log.call e.what <;> rw [hcall] at haround
  case nothing | construct | destroy => exact ⟨_, rfl⟩
  case append logline =>
    obtain ⟨f, hf, hsound⟩ := h.writing haround.1
    obtain ⟨file, hfile⟩ := hsound.isOpen
    obtain ⟨f', hf'⟩ := LogFile.exists_step hfile ⟨logline, 0, e.check, e.roll⟩
    exact ⟨some f', by rw [hf]; exact congrArg (Option.map some) hf'⟩
  case flush =>
    obtain ⟨f, hf, hsound⟩ := h.writing haround.1
    obtain ⟨file, hfile⟩ := hsound.isOpen
    exact ⟨_, by rw [hf, perform, Option.bind_some, LogFile.flush, hfile]; rfl⟩

/-! ## What is safe -/

def bytes (s : LoggingThread SIZE) : List UInt8 := (s.output.map LogFile.bytes).getD []

def safe (s : LoggingThread SIZE) : List UInt8 := (s.output.map LogFile.safe).getD []

/-- What is found on disk when the process dies between two steps, or in the middle of
`append_unlocked`, when a buffer has been handed over and the file has not been rolled. -/
def Leaves (s : LoggingThread SIZE) (disk : List UInt8) : Prop :=
  match s.output with
  | none => disk = []
  | some f => f.Leaves disk ∨
      ∃ p ∈ s.log.unwritten.head?, (f.fill (AsyncLogging.text p)).Leaves disk

theorem Stored.bytes_eq (h : s.Stored host) : s.bytes = s.log.output.flatten := by
  unfold bytes
  cases hf : s.output with
  | none =>
    have hn : s.log.backEnd = .notStarted := by
      by_contra hn
      by_cases hr : s.log.backEnd = .returned
      · obtain ⟨f, hsome, -⟩ := h.ended hr
        exact absurd (hf.symm.trans hsome) (by simp)
      · obtain ⟨f, hsome, -⟩ := h.alive hn hr
        exact absurd (hf.symm.trans hsome) (by simp)
    rw [(h.idle hn).2]
    rfl
  | some f => exact (h.packs hf).flatten_eq

theorem Stored.bounds (h : s.Stored host) {disk : List UInt8} (hdisk : s.Leaves disk) :
    s.safe <+: disk ∧ disk <+: s.log.taken.flatten := by
  have hbytes := h.bytes_eq
  unfold bytes at hbytes
  unfold Leaves at hdisk
  unfold safe AsyncLogging.taken
  cases hf : s.output with
  | none =>
    rw [hf] at hdisk
    obtain rfl := hdisk
    exact ⟨List.prefix_refl _, List.nil_prefix⟩
  | some f =>
    rw [hf] at hdisk hbytes
    change f.bytes = _ at hbytes
    rw [List.flatten_append, ← hbytes]
    rcases hdisk with hdisk | ⟨p, hp, hdisk⟩
    · exact ⟨hdisk.bounds.1, hdisk.bounds.2.trans (List.prefix_append _ _)⟩
    · obtain ⟨rest, hrest⟩ := List.head?_eq_some_iff.mp hp
      refine ⟨(LogFile.safe_fill f _).trans hdisk.bounds.1, hdisk.bounds.2.trans ?_⟩
      rw [hrest, List.map_cons, List.flatten_cons, ← List.append_assoc]
      exact (LogFile.bytes_fill_prefix f _).trans (List.prefix_append _ _)

theorem step_safe (h : s.Stored host) (hs : step host basename rollSize s e = some s') :
    s.safe <+: s'.safe ∧
      (s.log.call e.what = .flush → s'.safe = s.log.taken.flatten) ∧
      (s.log.call e.what = .destroy → s'.safe = s.log.output.flatten) := by
  obtain ⟨hlog, hout⟩ := step_eq_some_iff.mp hs
  have haround := AsyncLogging.step_call h.conserves hlog
  have hbytes := h.bytes_eq
  obtain ⟨log', output'⟩ := s'
  dsimp only at hout haround
  unfold bytes at hbytes
  unfold safe
  cases hcall : s.log.call e.what <;> rw [hcall] at haround hout
  case nothing =>
    obtain rfl := Option.some.inj hout
    exact ⟨List.prefix_refl _, Call.noConfusion, Call.noConfusion⟩
  case construct =>
    rw [(h.idle haround.1).1]
    exact ⟨List.nil_prefix, Call.noConfusion, Call.noConfusion⟩
  case append logline =>
    obtain ⟨f, hf, -⟩ := h.writing haround.1
    rw [hf] at hout ⊢
    obtain ⟨f', hf', rfl⟩ := Option.map_eq_some_iff.mp hout
    exact ⟨(LogFile.step_bytes (e := ⟨logline, 0, e.check, e.roll⟩) hf').2, Call.noConfusion,
      Call.noConfusion⟩
  case flush =>
    obtain ⟨f, hf, -⟩ := h.writing haround.1
    rw [hf] at hout hbytes ⊢
    change f.bytes = _ at hbytes
    obtain ⟨f', hf', rfl⟩ := Option.map_eq_some_iff.mp hout
    obtain ⟨hsame, hsafe⟩ := LogFile.safe_flush hf'
    change f.safe <+: f'.safe ∧ (_ → f'.safe = _) ∧ _
    rw [hsafe, hsame, haround.2.2.2]
    exact ⟨LogFile.safe_prefix_bytes f, fun _ => hbytes, Call.noConfusion⟩
  case destroy =>
    obtain ⟨f, hf, -⟩ := h.alive (by simp [haround.1]) (by simp [haround.1])
    rw [hf] at hout hbytes ⊢
    change f.bytes = _ at hbytes
    obtain rfl := Option.some.inj hout
    change f.safe <+: f.destroy.safe ∧ _ ∧ (_ → f.destroy.safe = _)
    rw [(LogFile.safe_destroy f).2]
    exact ⟨LogFile.safe_prefix_bytes f, Call.noConfusion, fun _ => hbytes⟩

/-! ## Runs -/

variable {memory : Memory SIZE} {es : List (Event SIZE)}

theorem stored_of_run (h : s.Stored host) (hr : Run (step host basename rollSize) s es s')
    (hclock : ∀ e ∈ es, 0 < e.roll) : s'.Stored host :=
  hr.inv_of (C := fun _ e => 0 < e.roll) (P := Stored host)
    (fun _ _ _ hb he hs => step_stored hb he hs) (along_of_forall fun e he _ => hclock e he) h

/-- Lines that have been taken reach the disk with the next `flush`, and stay there. -/
theorem taken_of_run (h : s.Stored host) (hr : Run (step host basename rollSize) s es s')
    (hclock : ∀ e ∈ es, 0 < e.roll) : s.log.taken.flatten <+: s'.log.taken.flatten ∧
      s.safe <+: s'.safe := by
  refine (hr.inv_of (C := fun _ e => 0 < e.roll)
    (P := fun t => t.Stored host ∧ s.log.taken.flatten <+: t.log.taken.flatten ∧
      s.safe <+: t.safe) ?_ (along_of_forall fun e he _ => hclock e he)
    ⟨h, List.prefix_refl _, List.prefix_refl _⟩).2
  rintro t e t' ⟨ht, htaken, hsafe⟩ he hs
  exact ⟨step_stored ht he hs,
    htaken.trans (AsyncLogging.step_taken ht.conserves (step_eq_some_iff.mp hs).1),
    hsafe.trans (step_safe ht hs).1⟩

/-- **What a crash leaves**, where no write fails. When the process dies at any moment of any run,
the bytes found in the log files are the lines in the order in which they were appended, cut
somewhere behind the last line that was there when the buffers were taken for an iteration that has
come to its end; when `threadFunc` has returned, it is all that was written. No line is in two
files, and no call is made on a file that is not there. -/
theorem crash_keeps (hclock : ∀ e ∈ es, 0 < e.roll)
    (hr : Run (step host basename rollSize) (new memory) es s) :
    (∀ disk, s.Leaves disk → disk <+: s.log.appended.flatten ∧
      (∀ pre e mid d post t u, es = pre ++ e :: (mid ++ d :: post) →
        Run (step host basename rollSize) (new memory) pre t → t.log.Swaps e.what →
        Run (step host basename rollSize) t (e :: mid) u → u.log.call d.what = .flush →
        t.log.appended.flatten <+: disk) ∧
      (s.log.backEnd = .returned → disk = s.log.output.flatten)) ∧
    (∀ f ∈ s.output, ∃ n, Packs (s.log.appended.take n) (f.files.map (·.content))) ∧
    ∀ (e : Event SIZE) log, AsyncLogging.step s.log e.what = some log →
      ∃ output, step host basename rollSize s e = some ⟨log, output⟩ := by
  have hs := stored_of_run (stored_new memory) hr hclock
  refine ⟨fun disk hdisk => ⟨?_, ?_, fun hret => ?_⟩, fun f hf => ?_, fun e log => exists_step hs⟩
  · exact (hs.bounds hdisk).2.trans (AsyncLogging.taken_prefix hs.conserves)
  · intro pre e mid d post t u hes hpre hswap hmid hflush
    subst hes
    obtain ⟨t', hpre', hr⟩ := run_append_iff.mp hr
    obtain rfl : t = t' := Option.some.inj (hpre.symm.trans hpre')
    obtain ⟨u', hmid', hr⟩ := run_append_iff.mp (show Run _ t ((e :: mid) ++ d :: post) s from hr)
    obtain rfl : u = u' := Option.some.inj (hmid.symm.trans hmid')
    obtain ⟨t₁, he, hmid⟩ := run_cons_iff.mp hmid
    obtain ⟨v, hd, hpost⟩ := run_cons_iff.mp hr
    have hclock' : ∀ x ∈ pre ++ e :: mid, 0 < x.roll :=
      fun x hx => hclock x (by simp at hx ⊢; tauto)
    have ht := stored_of_run (stored_new memory) hpre fun x hx => hclock' x (by simp [hx])
    have ht₁ := step_stored ht (hclock' e (by simp)) he
    have hu := stored_of_run ht₁ hmid fun x hx => hclock' x (by simp [hx])
    have hv := step_stored hu (hclock d (by simp)) hd
    rw [← AsyncLogging.taken_of_swaps ht.conserves hswap (step_eq_some_iff.mp he).1]
    calc t₁.log.taken.flatten
      _ <+: u.log.taken.flatten := (taken_of_run ht₁ hmid fun x hx => hclock' x (by simp [hx])).1
      _ <+: v.safe := by rw [(step_safe hu hd).2.1 hflush]
      _ <+: s.safe := (taken_of_run hv hpost fun x hx => hclock x (by simp [hx])).2
      _ <+: disk := (hs.bounds hdisk).1
  · obtain ⟨f, hf, hfile, hpacks⟩ := hs.ended hret
    have htaken : s.log.taken = s.log.output := by
      simp [AsyncLogging.taken, AsyncLogging.unwritten, hret]
    have hsafe : s.safe = s.log.output.flatten := by
      rw [← hpacks.flatten_eq]
      simp [safe, hf, LogFile.safe, LogFile.files, hfile]
    obtain ⟨hlo, hhi⟩ := hs.bounds hdisk
    rw [htaken, ← hsafe] at hhi
    exact (hhi.eq_of_length_le hlo.length_le).trans hsafe
  · obtain ⟨n, hn⟩ := Packs.of_append (show Packs s.log.appended (s.log.output ++ _) by
      have hpacks := hs.conserves.packs
      rwa [AsyncLogging.chunks, List.append_assoc] at hpacks)
    exact ⟨n, hn.trans (hs.packs hf)⟩

/-- A line is appended before the back end waits. -/
def lineAppended : List (Event 4) :=
  [⟨.start AsyncLogging.garbage, 1, 1⟩, ⟨.append [1, 2, 3] AsyncLogging.garbage, 2, 2⟩,
    ⟨.test, 2, 2⟩, ⟨.lock, 2, 2⟩]

/-- The line is taken and flushed; another one comes behind it. -/
def lineFlushed : List (Event 4) :=
  lineAppended ++ ⟨.wake, 3, 3⟩ :: ([⟨.write, 4, 4⟩] ++ ⟨.write, 5, 5⟩ ::
    [⟨.append [5] AsyncLogging.garbage, 6, 6⟩])

/-- The first line is too large for a file of two bytes. -/
theorem lineFlushed_kept : ∃ s,
    Run (step LogFile.strokes "log" 2) (new AsyncLogging.garbage) lineFlushed s ∧
    (∀ f ∈ s.output, f.files.map (·.content) = [[1, 2, 3], []]) ∧
    ∀ disk, s.Leaves disk → [1, 2, 3] <+: disk ∧ disk <+: [1, 2, 3, 5] := by
  have h : (lineFlushed.foldlM (step LogFile.strokes "log" 2) (new AsyncLogging.garbage)).map
      (fun s => (s.log.appended, s.output.map fun f => f.files.map (·.content))) =
        some ([[1, 2, 3], [5]], some [[1, 2, 3], []]) := by decide +kernel
  have hpre : (lineAppended.foldlM (step LogFile.strokes "log" 2) (new AsyncLogging.garbage)).map
      (fun t => t.log.appended) = some [[1, 2, 3]] := by decide +kernel
  have hmid : ((lineFlushed.take 6).foldlM (step LogFile.strokes "log" 2)
      (new AsyncLogging.garbage)).map (fun u => u.log.call .write) = some .flush := by
    decide +kernel
  obtain ⟨s, hs, hq⟩ := Option.map_eq_some_iff.mp h
  obtain ⟨happ, hfiles⟩ := Prod.mk.inj hq
  obtain ⟨t, ht, hlines⟩ := Option.map_eq_some_iff.mp hpre
  obtain ⟨u, hu, hflush⟩ := Option.map_eq_some_iff.mp hmid
  obtain ⟨t', ht', hu⟩ := run_append_iff.mp
    (show Run _ _ (lineAppended ++ [⟨.wake, 3, 3⟩, ⟨.write, 4, 4⟩]) u from hu)
  obtain rfl : t = t' := Option.some.inj (ht.symm.trans ht')
  refine ⟨s, hs, fun f hf => ?_, fun disk hd => ?_⟩
  · rw [show s.output = some f from hf] at hfiles
    exact Option.some.inj hfiles
  · obtain ⟨hhi, hlo, -⟩ := (crash_keeps (by decide) hs).1 disk hd
    have hkept := hlo lineAppended ⟨.wake, 3, 3⟩ [⟨.write, 4, 4⟩] ⟨.write, 5, 5⟩
      [⟨.append [5] AsyncLogging.garbage, 6, 6⟩] t u rfl ht trivial hu hflush
    rw [hlines] at hkept
    rw [happ] at hhi
    exact ⟨hkept, hhi⟩

end LoggingThread

end HighServer
