import HighServer.Lib.Packing
import HighServer.Lib.Runs

/-!
# Rolling log files

`LogFile` writes to one `AppendFile` at a time. A line goes to the current file; then the file is
rolled because of its size, or, at every `checkEveryN_`th line that did not make it too large,
because of the day. A clock reading is an argument: `check` is what `time` returns in
`append_unlocked`, `roll` what it returns in `getLogFileName`.

* `rollFile`, `append_unlocked`: the two functions; `step`: an append that comes to its end;
* `Sound`: the invariant; `rollFile_cases` and `append_cases`: what the functions do;
* `length_le_of_sameFile`: how long a file goes on into a later day;
* **`rolling`**: the contents and the names of the files, and when one is left for the next.
-/

namespace HighServer

open Packing

structure AppendFile where
  filename : String
  content : List UInt8
  writtenBytes_ : ℕ
  /-- how many bytes the last `fflush` has handed over -/
  flushed : ℕ
  written : writtenBytes_ = content.length

namespace AppendFile

/-- The constructor. -/
def new (filename : String) : AppendFile where
  filename
  content := []
  writtenBytes_ := 0
  flushed := 0
  written := rfl

def append (f : AppendFile) (logline : List UInt8) : AppendFile where
  filename := f.filename
  content := f.content ++ logline
  writtenBytes_ := f.writtenBytes_ + logline.length
  flushed := f.flushed
  written := by rw [List.length_append, f.written]

def flush (f : AppendFile) : AppendFile := { f with flushed := f.writtenBytes_ }

end AppendFile

/-- What `getLogFileName` asks the system: `gmtime_r` with `strftime` of a second, `gethostname`
and `getpid`. -/
structure Host where
  strftime : ℕ → String
  hostname : String
  pid : String

structure LogFile where
  basename_ : String
  rollSize_ : ℕ
  flushInterval_ : ℤ
  checkEveryN_ : ℕ
  count_ : ℕ
  startOfPeriod_ : ℕ
  lastRoll_ : ℕ
  lastFlush_ : ℕ
  file_ : Option AppendFile
  /-- the files before `file_`, in the order of their creation -/
  closed : List AppendFile

namespace LogFile

open Runs

def kRollPerSeconds_ : ℕ := 60 * 60 * 24

/-- The beginning of the day. -/
def periodOf (now : ℕ) : ℕ := now / kRollPerSeconds_ * kRollPerSeconds_

def getLogFileName (host : Host) (basename : String) (now : ℕ) : String :=
  basename ++ host.strftime now ++ host.hostname ++ ("." ++ host.pid ++ ".log")

/-- All the files, in the order of their creation. -/
def files (f : LogFile) : List AppendFile := f.closed ++ f.file_.toList

/-- `rollFile`; `now` is what `time` returns in `getLogFileName`. -/
def rollFile (host : Host) (f : LogFile) (now : ℕ) : Bool × LogFile :=
  let filename := getLogFileName host f.basename_ now
  let start := periodOf now
  if f.lastRoll_ < now then
    (true, { f with
      lastRoll_ := now
      lastFlush_ := now
      startOfPeriod_ := start
      closed := f.files
      file_ := some (AppendFile.new filename) })
  else (false, f)

/-- The constructor. -/
def new (host : Host) (basename : String) (rollSize : ℕ) (flushInterval : ℤ) (checkEveryN : ℕ)
    (now : ℕ) : LogFile :=
  (rollFile host
    { basename_ := basename
      rollSize_ := rollSize
      flushInterval_ := flushInterval
      checkEveryN_ := checkEveryN
      count_ := 0
      startOfPeriod_ := 0
      lastRoll_ := 0
      lastFlush_ := 0
      file_ := none
      closed := [] } now).2

/-- `append_unlocked`; a null `file_` is dereferenced in the other case. -/
def append_unlocked (host : Host) (f : LogFile) (logline : List UInt8) (check roll : ℕ) :
    Option LogFile :=
  match f.file_ with
  | none => none
  | some file =>
    let file := file.append logline
    let f := { f with file_ := some file }
    if f.rollSize_ < file.writtenBytes_ then some (f.rollFile host roll).2
    else
      let f := { f with count_ := f.count_ + 1 }
      if f.checkEveryN_ ≤ f.count_ then
        let f := { f with count_ := 0 }
        if periodOf check ≠ f.startOfPeriod_ then some (f.rollFile host roll).2
        else if f.flushInterval_ < (check : ℤ) - f.lastFlush_ then
          some { f with lastFlush_ := check, file_ := some file.flush }
        else some f
      else some f

/-- `flush`; a null `file_` is dereferenced in the other case. -/
def flush (f : LogFile) : Option LogFile :=
  f.file_.map fun file => { f with file_ := some file.flush }

/-- The destructor closes the last file. -/
def destroy (f : LogFile) : LogFile := { f with closed := f.files, file_ := none }

/-- A call of `append`, at the time `made`. -/
structure Append where
  logline : List UInt8
  made : ℕ
  check : ℕ
  roll : ℕ

def step (host : Host) (f : LogFile) (e : Append) : Option LogFile :=
  f.append_unlocked host e.logline e.check e.roll

variable {host : Host} {f f' : LogFile} {e : Append}

/-! ## One call -/

structure SameConfig (f f' : LogFile) : Prop where
  basename_ : f'.basename_ = f.basename_
  rollSize_ : f'.rollSize_ = f.rollSize_
  checkEveryN_ : f'.checkEveryN_ = f.checkEveryN_

/-- The files before and after a roll, and the times that it sets. -/
structure Rolled (host : Host) (now : ℕ) (f f' : LogFile) : Prop where
  lt : f.lastRoll_ < now
  files : f'.closed = f.files
  file_ : f'.file_ = some (AppendFile.new (getLogFileName host f.basename_ now))
  lastRoll_ : f'.lastRoll_ = now
  startOfPeriod_ : f'.startOfPeriod_ = periodOf now

/-- The file goes on. -/
structure Stayed (f f' : LogFile) (logline : List UInt8) : Prop where
  closed : f'.closed = f.closed
  file_ : ∃ file file', f.file_ = some file ∧ f'.file_ = some file' ∧
    file'.filename = file.filename ∧ file'.content = file.content ++ logline
  lastRoll_ : f'.lastRoll_ = f.lastRoll_
  startOfPeriod_ : f'.startOfPeriod_ = f.startOfPeriod_

theorem rollFile_cases (host : Host) (f : LogFile) (now : ℕ) :
    SameConfig f (f.rollFile host now).2 ∧ (f.rollFile host now).2.count_ = f.count_ ∧
      (Rolled host now f (f.rollFile host now).2 ∨
        now ≤ f.lastRoll_ ∧ (f.rollFile host now).2 = f) := by
  unfold rollFile
  dsimp only
  split_ifs with h
  · exact ⟨⟨rfl, rfl, rfl⟩, rfl, Or.inl ⟨h, rfl, rfl, rfl, rfl⟩⟩
  · exact ⟨⟨rfl, rfl, rfl⟩, rfl, Or.inr ⟨not_lt.mp h, rfl⟩⟩

/-- The current file holds at most `rollSize_` bytes. -/
def Small (f : LogFile) : Prop :=
  ∃ file, f.file_ = some file ∧ file.writtenBytes_ ≤ f.rollSize_

/-- A line that leaves the file as it is, but for the line. -/
structure Kept (f f' : LogFile) (e : Append) : Prop where
  stayed : Stayed f f' e.logline
  why : e.roll ≤ f.lastRoll_ ∧ (f'.count_ = f.count_ ∨ f'.count_ = 0) ∨
    f'.Small ∧ (f'.count_ = f.count_ + 1 ∧ f'.count_ < f'.checkEveryN_ ∨
      f'.count_ = 0 ∧ periodOf e.check = f.startOfPeriod_)

/-- A line after which there is a new file. -/
structure Left (host : Host) (f f' : LogFile) (e : Append) : Prop where
  rolled : ∃ g, SameConfig f g ∧ Stayed f g e.logline ∧ Rolled host e.roll g f'
  count_ : f'.count_ = f.count_ ∨ f'.count_ = 0

/-- The end of a call that tries to roll. -/
theorem rollFile_outcome {g : LogFile} (hc : SameConfig f g) (hs : Stayed f g e.logline)
    (hn : g.count_ = f.count_ ∨ g.count_ = 0) :
    SameConfig f (g.rollFile host e.roll).2 ∧
      (Left host f (g.rollFile host e.roll).2 e ∨ Kept f (g.rollFile host e.roll).2 e) := by
  obtain ⟨hsame, hcount, hr | ⟨hle, heq⟩⟩ := rollFile_cases host g e.roll
  · refine ⟨⟨hsame.1.trans hc.1, hsame.2.trans hc.2, hsame.3.trans hc.3⟩,
      Or.inl ⟨⟨g, hc, hs, hr⟩, ?_⟩⟩
    rw [hcount]
    exact hn
  · rw [heq]
    exact ⟨hc, Or.inr ⟨hs, Or.inl ⟨hs.lastRoll_ ▸ hle, hn⟩⟩⟩

theorem exists_file (h : step host f e = some f') : ∃ file, f.file_ = some file := by
  cases hfile : f.file_ with
  | none => simp [step, append_unlocked, hfile] at h
  | some file => exact ⟨file, rfl⟩

/-- **What a call does.** -/
theorem append_cases (h : step host f e = some f') :
    SameConfig f f' ∧ (Left host f f' e ∨ Kept f f' e) := by
  obtain ⟨file, hfile⟩ := exists_file h
  have hstayed : ∀ file' : AppendFile, file'.filename = file.filename →
      file'.content = file.content ++ e.logline → ∃ a b, f.file_ = some a ∧ some file' = some b ∧
        b.filename = a.filename ∧ b.content = a.content ++ e.logline :=
    fun file' hname hcontent => ⟨file, file', hfile, rfl, hname, hcontent⟩
  have happ := hstayed (file.append e.logline) rfl rfl
  simp only [step, append_unlocked, hfile] at h
  split_ifs at h with hsize hcheck hday hflush
  · exact Option.some.inj h ▸
      rollFile_outcome ⟨rfl, rfl, rfl⟩ ⟨rfl, happ, rfl, rfl⟩ (Or.inl rfl)
  · exact Option.some.inj h ▸
      rollFile_outcome ⟨rfl, rfl, rfl⟩ ⟨rfl, happ, rfl, rfl⟩ (Or.inr rfl)
  · obtain rfl := Option.some.inj h
    have hflushed := hstayed (file.append e.logline).flush rfl rfl
    exact ⟨⟨rfl, rfl, rfl⟩, Or.inr ⟨⟨rfl, hflushed, rfl, rfl⟩,
      Or.inr ⟨⟨_, rfl, not_lt.mp hsize⟩, Or.inr ⟨rfl, not_ne_iff.mp hday⟩⟩⟩⟩
  · obtain rfl := Option.some.inj h
    exact ⟨⟨rfl, rfl, rfl⟩, Or.inr ⟨⟨rfl, happ, rfl, rfl⟩,
      Or.inr ⟨⟨_, rfl, not_lt.mp hsize⟩, Or.inr ⟨rfl, not_ne_iff.mp hday⟩⟩⟩⟩
  · obtain rfl := Option.some.inj h
    exact ⟨⟨rfl, rfl, rfl⟩, Or.inr ⟨⟨rfl, happ, rfl, rfl⟩,
      Or.inr ⟨⟨_, rfl, not_lt.mp hsize⟩, Or.inl ⟨rfl, not_le.mp hcheck⟩⟩⟩⟩

/-- A call with a file comes to its end. -/
theorem exists_step {file : AppendFile} (hfile : f.file_ = some file) (e : Append) :
    ∃ f', step host f e = some f' := by
  simp only [step, append_unlocked, hfile]
  split_ifs <;> exact ⟨_, rfl⟩

/-! ## Runs -/

structure Sound (host : Host) (lines : List (List UInt8)) (f : LogFile) : Prop where
  isOpen : ∃ file, f.file_ = some file
  packs : Packs lines (f.files.map (·.content))
  names : ∃ rolls : List ℕ, rolls.Pairwise (· < ·) ∧ (∀ r ∈ rolls, r ≤ f.lastRoll_) ∧
    f.files.map (·.filename) = rolls.map (getLogFileName host f.basename_)
  period : f.startOfPeriod_ = periodOf f.lastRoll_
  count_lt : f.count_ < f.checkEveryN_

theorem sound_new (basename : String) (rollSize : ℕ) (flushInterval : ℤ) {checkEveryN now : ℕ}
    (hN : 1 ≤ checkEveryN) (hnow : 0 < now) :
    Sound host [] (new host basename rollSize flushInterval checkEveryN now) := by
  unfold new rollFile
  dsimp only
  rw [if_pos hnow]
  exact ⟨⟨_, rfl⟩, packs_empty, ⟨[now], by simp, by simp, rfl⟩, rfl, hN⟩

theorem Stayed.packs {logline : List UInt8} {lines : List (List UInt8)} (h : Stayed f f' logline)
    (hp : Packs lines (f.files.map (·.content))) :
    Packs (lines ++ [logline]) (f'.files.map (·.content)) := by
  obtain ⟨file, file', hf, hf', -, hcontent⟩ := h.file_
  simp only [files, hf, Option.toList_some, List.map_append, List.map_cons, List.map_nil] at hp
  simp only [files, hf', h.closed, Option.toList_some, List.map_append, List.map_cons,
    List.map_nil, hcontent]
  exact hp.fill logline

theorem Stayed.names {logline : List UInt8} (h : Stayed f f' logline) :
    f'.files.map (·.filename) = f.files.map (·.filename) := by
  obtain ⟨file, file', hf, hf', hname, -⟩ := h.file_
  simp only [files, hf, hf', h.closed, Option.toList_some, List.map_append, List.map_cons,
    List.map_nil, hname]

theorem Rolled.files_eq {now : ℕ} (h : Rolled host now f f') :
    f'.files = f.files ++ [AppendFile.new (getLogFileName host f.basename_ now)] := by
  rw [LogFile.files, h.files, h.file_]
  rfl

/-- **One call keeps the files sound.** -/
theorem step_sound {lines : List (List UInt8)} (hs : Sound host lines f)
    (h : step host f e = some f') : Sound host (lines ++ [e.logline]) f' := by
  obtain ⟨hc, hcase⟩ := append_cases h
  obtain ⟨rolls, hsorted, hle, hnames⟩ := hs.names
  have hcount := hs.count_lt
  rcases hcase with ⟨⟨g, hg, hst, hr⟩, hn⟩ | ⟨hst, hwhy⟩
  · refine ⟨⟨_, hr.file_⟩, ?_, ⟨rolls ++ [e.roll], ?_, ?_, ?_⟩, ?_, ?_⟩
    · rw [hr.files_eq, List.map_append]
      exact (hst.packs hs.packs).open_chunk
    · refine List.pairwise_append.mpr ⟨hsorted, List.pairwise_singleton _ _, ?_⟩
      intro a ha b hb
      rw [List.mem_singleton.mp hb]
      exact lt_of_le_of_lt (hle a ha) (hst.lastRoll_ ▸ hr.lt)
    · intro r hmem
      rw [hr.lastRoll_]
      rcases List.mem_append.mp hmem with hmem | hmem
      · exact (lt_of_le_of_lt (hle r hmem) (hst.lastRoll_ ▸ hr.lt)).le
      · rw [List.mem_singleton.mp hmem]
    · rw [hr.files_eq, List.map_append, hst.names, hnames, List.map_append, hc.basename_,
        hg.basename_]
      rfl
    · rw [hr.startOfPeriod_, hr.lastRoll_]
    · rw [hc.checkEveryN_]
      omega
  · obtain ⟨file, file', -, hf', -⟩ := hst.file_
    refine ⟨⟨file', hf'⟩, hst.packs hs.packs, ⟨rolls, hsorted, ?_, ?_⟩, ?_, ?_⟩
    · rw [hst.lastRoll_]
      exact hle
    · rw [hst.names, hnames, hc.basename_]
    · rw [hst.startOfPeriod_, hst.lastRoll_, hs.period]
    · rw [hc.checkEveryN_]
      rcases hwhy with ⟨-, hn⟩ | ⟨-, ⟨-, hlt⟩ | ⟨hn, -⟩⟩
      · omega
      · rw [← hc.checkEveryN_]
        exact hlt
      · omega

theorem exists_run {lines : List (List UInt8)} (hs : Sound host lines f) (es : List Append) :
    ∃ f', Run (step host) f es f' ∧ Sound host (lines ++ es.map (·.logline)) f' := by
  induction es generalizing f lines with
  | nil => exact ⟨f, Run.nil f, by simpa using hs⟩
  | cons e es ih =>
    obtain ⟨file, hfile⟩ := hs.isOpen
    obtain ⟨g, hg⟩ : ∃ g, step host f e = some g := exists_step hfile e
    obtain ⟨f', hr, hs'⟩ := ih (step_sound hs hg)
    refine ⟨f', Run.cons hg hr, ?_⟩
    rwa [List.append_assoc] at hs'

theorem getLogFileName_injective (h : Function.Injective host.strftime) (basename : String) :
    Function.Injective (getLogFileName host basename) := by
  intro a b hab
  apply h
  have := congrArg String.toList hab
  simp only [getLogFileName, String.toList_append, List.append_assoc, List.append_cancel_left_eq]
    at this
  exact String.toList_inj.mp (List.append_cancel_right this)

/-- No two files have one name. -/
theorem Sound.nodup {lines : List (List UInt8)} (hs : Sound host lines f)
    (h : Function.Injective host.strftime) : (f.files.map (·.filename)).Nodup := by
  obtain ⟨rolls, hsorted, -, hnames⟩ := hs.names
  rw [hnames]
  exact (hsorted.imp ne_of_lt).map _ fun a b hab hname =>
    hab (getLogFileName_injective h f.basename_ hname)

/-- A new file has a later `lastRoll_`; otherwise the last file goes on. -/
def Forward (f f' : LogFile) : Prop :=
  f'.files.length = f.files.length ∧ f'.lastRoll_ = f.lastRoll_ ∨
    f'.files.length = f.files.length + 1 ∧ f.lastRoll_ < f'.lastRoll_

/-- The last file is small, or it was to be rolled, at a time that is not past `lastRoll_`. -/
def Bounded (f f' : LogFile) (e : Append) : Prop :=
  f'.Small ∨ ∃ file, f.file_ = some file ∧
    f.rollSize_ < (file.append e.logline).writtenBytes_ ∧ e.roll ≤ f'.lastRoll_

theorem Stayed.length {logline : List UInt8} (h : Stayed f f' logline) :
    f'.files.length = f.files.length := by
  obtain ⟨file, file', hf, hf', -⟩ := h.file_
  simp [files, hf, hf', h.closed]

theorem Left.forward (h : Left host f f' e) :
    f'.files.length = f.files.length + 1 ∧ f.lastRoll_ < f'.lastRoll_ := by
  obtain ⟨g, -, hst, hr⟩ := h.rolled
  rw [hr.files_eq, hr.lastRoll_, List.length_append, hst.length, ← hst.lastRoll_]
  exact ⟨rfl, hr.lt⟩

theorem step_forward (h : step host f e = some f') : Forward f f' := by
  obtain ⟨-, hl | hk⟩ := append_cases h
  · exact Or.inr hl.forward
  · exact Or.inl ⟨hk.stayed.length, hk.stayed.lastRoll_⟩

theorem step_bounded (h : step host f e = some f') : Bounded f f' e := by
  obtain ⟨hc, hl | hk⟩ := append_cases h
  · obtain ⟨g, -, -, hr⟩ := hl.rolled
    exact Or.inl ⟨_, hr.file_, Nat.zero_le _⟩
  · obtain ⟨file, file', hf, hf', -, hcontent⟩ := hk.stayed.file_
    by_cases hsmall : f'.Small
    · exact Or.inl hsmall
    · rcases hk.why with ⟨hroll, -⟩ | ⟨h, -⟩
      · refine Or.inr ⟨file, hf, ?_, by rw [hk.stayed.lastRoll_]; exact hroll⟩
        have hsize : (file.append e.logline).writtenBytes_ = file'.writtenBytes_ := by
          rw [(file.append e.logline).written, file'.written, hcontent]
          rfl
        rw [hsize, ← hc.rollSize_]
        exact not_le.mp fun hle => hsmall ⟨file', hf', hle⟩
      · exact absurd h hsmall

/-! ## A later day -/

theorem periodOf_mono {a b : ℕ} (h : a ≤ b) : periodOf a ≤ periodOf b :=
  Nat.mul_le_mul_right _ (Nat.div_le_div_right h)

/-- In a later day, a file goes on only below the next check. -/
theorem Kept.count_of_laterDay (h : Kept f f' e) (hp : f.startOfPeriod_ = periodOf f.lastRoll_)
    (hlater : f.startOfPeriod_ < periodOf e.made) (hcheck : e.made ≤ e.check)
    (hroll : e.made ≤ e.roll) : f'.count_ = f.count_ + 1 ∧ f'.count_ < f'.checkEveryN_ := by
  rcases h.why with ⟨hle, -⟩ | ⟨-, hcount | ⟨-, hday⟩⟩
  · have := periodOf_mono (hroll.trans hle)
    omega
  · exact hcount
  · have := periodOf_mono hcheck
    omega

/-- **How long a file goes on into a later day.** -/
theorem length_le_of_sameFile {lines : List (List UInt8)} (hs : Sound host lines f)
    {es : List Append} (hr : Run (step host) f es f')
    (htime : ∀ e ∈ es, e.made ≤ e.check ∧ e.made ≤ e.roll) {n : ℕ}
    (ha : Along (step host) (fun g e => g.startOfPeriod_ < periodOf e.made ∧ g.files.length = n)
      f es) : es.length ≤ f.checkEveryN_ - f.count_ := by
  induction es generalizing f lines with
  | nil => exact Nat.zero_le _
  | cons e es ih =>
    obtain ⟨g, hg, hr⟩ := run_cons_iff.mp hr
    obtain ⟨⟨hlater, hn⟩, ha⟩ := (along_cons_iff hg).mp ha
    have hlt := hs.count_lt
    have htimes := htime e List.mem_cons_self
    obtain ⟨hc, hl | hk⟩ := append_cases hg
    · -- the next line goes to another file, so this was the last one
      cases es with
      | nil => rw [List.length_singleton]; omega
      | cons e' es =>
        have := (ha [] e' es g rfl (Run.nil g)).2
        have := hl.forward.1
        omega
    · obtain ⟨hcount, hlt'⟩ := hk.count_of_laterDay hs.period hlater htimes.1 htimes.2
      have := ih (step_sound hs hg) hr (fun e' he' => htime e' (List.mem_cons_of_mem e he')) ha
      rw [hc.checkEveryN_] at this hlt'
      rw [List.length_cons]
      omega

/-- **Rolling.** For any clock readings, the appends come to their end, and the files hold the lines
in order, none of them cut; `lastRoll_` grows whenever a file is created, so that, with one name for
each second, no name comes twice; after an append the file is small, or the clock was not past
`lastRoll_`; and, when the clock does not go back during an append, at most `checkEveryN_` appends
in a row that are made in a later day than `startOfPeriod_` go to one file. -/
theorem rolling (host : Host) (basename : String) (rollSize : ℕ) (flushInterval : ℤ)
    {checkEveryN now : ℕ} (hN : 1 ≤ checkEveryN) (hnow : 0 < now) (es : List Append) :
    (∃ f, Run (step host) (new host basename rollSize flushInterval checkEveryN now) es f ∧
      Packs (es.map (·.logline)) (f.files.map (·.content)) ∧
      (Function.Injective host.strftime → (f.files.map (·.filename)).Nodup)) ∧
    Along (step host) (fun f e => ∀ f', step host f e = some f' → Forward f f' ∧ Bounded f f' e)
      (new host basename rollSize flushInterval checkEveryN now) es ∧
    ∀ pre mid post f, es = pre ++ mid ++ post →
      Run (step host) (new host basename rollSize flushInterval checkEveryN now) pre f →
      (∀ e ∈ mid, e.made ≤ e.check ∧ e.made ≤ e.roll) →
      Along (step host) (fun g e => g.startOfPeriod_ < periodOf e.made ∧
        g.files.length = f.files.length) f mid → mid.length ≤ checkEveryN := by
  have hnew : Sound host [] (new host basename rollSize flushInterval checkEveryN now) :=
    sound_new basename rollSize flushInterval hN hnow
  refine ⟨?_, ?_, ?_⟩
  · obtain ⟨f, hr, hs⟩ := exists_run hnew es
    exact ⟨f, hr, hs.packs, hs.nodup⟩
  · exact fun _ _ _ _ _ _ f' h => ⟨step_forward h, step_bounded h⟩
  · intro pre mid post f hes hr htime ha
    obtain ⟨g, hg, hs⟩ := exists_run hnew pre
    obtain rfl := Option.some.inj (hg.symm.trans hr)
    obtain ⟨f', hr', -⟩ := exists_run hs mid
    have hlen := length_le_of_sameFile hs hr' htime ha
    have hconfig : g.checkEveryN_ = checkEveryN := by
      refine hr.inv (P := fun f => f.checkEveryN_ = checkEveryN) (fun f e f' h hstep => ?_) ?_
      · exact (append_cases hstep).1.checkEveryN_.trans h
      · unfold new
        exact (rollFile_cases host _ now).1.checkEveryN_
    omega

/-- A second is written as a row of strokes. -/
def strokes : Host where
  strftime n := String.ofList (List.replicate n 'I')
  hostname := "host"
  pid := "1"

theorem strokes_injective : Function.Injective strokes.strftime := by
  intro a b h
  have := congrArg (fun s => s.toList.length) h
  simpa [strokes] using this

/-- The first line is too long for a file of `3` bytes; the others come on the next day, and the
second of them is checked. -/
def twoRolls : List Append :=
  [⟨[1, 2, 3, 4], 1, 1, 2⟩, ⟨[5], 86400, 86400, 86400⟩, ⟨[6], 86401, 86401, 86401⟩]

theorem twoRolls_rolling : ∃ f, Run (step strokes) (new strokes "log" 3 3 2 1) twoRolls f ∧
    f.files.map (·.content) = [[1, 2, 3, 4], [5, 6], []] ∧ (f.files.map (·.filename)).Nodup := by
  obtain ⟨⟨f, hr, -, hnodup⟩, -, -⟩ :=
    @rolling strokes "log" 3 3 2 1 (by decide) (by decide) twoRolls
  refine ⟨f, hr, ?_, hnodup strokes_injective⟩
  have h : (twoRolls.foldlM (step strokes) (new strokes "log" 3 3 2 1)).map
      (fun f => f.files.map (·.content)) = some [[1, 2, 3, 4], [5, 6], []] := by decide +kernel
  rw [show twoRolls.foldlM (step strokes) (new strokes "log" 3 3 2 1) = some f from hr] at h
  exact Option.some.inj h

end LogFile

end HighServer
