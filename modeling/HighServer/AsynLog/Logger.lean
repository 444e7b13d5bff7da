import HighServer.AsynLog.Conservation

/-!
# Log records of many threads

`g_output` is one for the process, but the function that `AsyncLogging::start` sets it to uses
`g_asyncLog`, which is `__thread`: the constructor of `AsyncLogging` sets it in its own thread only.
The objects are numbered in the order of their construction.

* `construct`, `start`, `emit`: the constructor, `start`, and a log statement with `~Logger`;
* `step`: these in any threads, with the steps of the logging threads;
* `lastMade`: the object that a thread has constructed last; `g_asyncLog_eq`: its `g_asyncLog`;
* `Delivered`: a record is appended, once, to the object started, and to no other;
* **`delivered_iff`**: the records of a run are delivered exactly when all of them come from a
  thread that has constructed the object started; `other_thread` is a run with another.
-/

namespace HighServer

/-- `Logger::LogLevel` -/
inductive LogLevel where
  | TRACE
  | DEBUG
  | INFO
  | WARN
  | ERROR
  | FATAL
  deriving DecidableEq, Repr

def LogLevel.toNat : LogLevel → ℕ
  | .TRACE => 0
  | .DEBUG => 1
  | .INFO => 2
  | .WARN => 3
  | .ERROR => 4
  | .FATAL => 5

/-- The functions that `g_output` and `g_flush` are set to. -/
inductive OutputFunc where
  | defaultOutput
  /-- the lambda of `AsyncLogging::start` -/
  | asyncLog
  deriving DecidableEq, Repr

inductive LogFault where
  /-- a null `g_asyncLog` is dereferenced -/
  | nullAsyncLog
  /-- `AsyncLogging::start`: `g_asyncLog != nullptr` -/
  | start
  | log (f : Fault)
  deriving DecidableEq, Repr

structure Logging (T : Type) (SIZE : ℕ) where
  g_asyncLog : T → Option ℕ
  g_output : OutputFunc
  g_flush : OutputFunc
  g_logLevel : LogLevel
  logs : ℕ → AsyncLogging SIZE
  /-- how many objects were constructed -/
  made : ℕ
  /-- the object whose `start` was called -/
  started : Option ℕ
  stdout : List (List UInt8)
  aborted : Bool

namespace Logging

open Runs
open AsyncLogging (garbage)

variable {T : Type} {SIZE : ℕ}

/-- The beginning of the process; `memory` stands for the objects that are not constructed. -/
def new (memory : Memory SIZE) (g_logLevel : LogLevel) : Logging T SIZE where
  g_asyncLog _ := none
  g_output := .defaultOutput
  g_flush := .defaultOutput
  g_logLevel
  logs _ := AsyncLogging.new memory
  made := 0
  started := none
  stdout := []
  aborted := false

/-- The condition of the log macro; from `LOG_WARN` on there is none. -/
def enabled (s : Logging T SIZE) : LogLevel → Bool
  | .TRACE => s.g_logLevel.toNat ≤ LogLevel.TRACE.toNat
  | .DEBUG => s.g_logLevel.toNat ≤ LogLevel.DEBUG.toNat
  | .INFO => s.g_logLevel.toNat ≤ LogLevel.INFO.toNat
  | .WARN => true
  | .ERROR => true
  | .FATAL => true

/-- `AsyncLogging::append` on one of the objects. -/
def append (s : Logging T SIZE) (i : ℕ) (record : List UInt8) (memory : Memory SIZE) :
    Except LogFault (Logging T SIZE) :=
  match (s.logs i).append record memory with
  | .ok log => .ok { s with logs := Function.update s.logs i log }
  | .error f => .error (.log f)

/-- `g_output(buf.data(), buf.length())` -/
def output (s : Logging T SIZE) (g_asyncLog : Option ℕ) (record : List UInt8)
    (memory : Memory SIZE) : Except LogFault (Logging T SIZE) :=
  match s.g_output with
  | .defaultOutput => .ok { s with stdout := s.stdout ++ [record] }
  | .asyncLog =>
    match g_asyncLog with
    | some i => s.append i record memory
    | none => .error .nullAsyncLog

/-- `g_flush()` and `abort()` -/
def fatal (s : Logging T SIZE) (g_asyncLog : Option ℕ) : Except LogFault (Logging T SIZE) :=
  if s.g_flush = .asyncLog ∧ g_asyncLog = none then .error .nullAsyncLog
  else .ok { s with aborted := true }

/-- A log statement; `record` is what `~Logger` finds in the stream. -/
def emit (s : Logging T SIZE) (t : T) (level : LogLevel) (record : List UInt8)
    (memory : Memory SIZE) : Except LogFault (Logging T SIZE) :=
  if s.enabled level then do
    let s' ← s.output (s.g_asyncLog t) record memory
    if level = .FATAL then s'.fatal (s.g_asyncLog t) else pure s'
  else .ok s

variable [DecidableEq T]

/-- The constructor of `AsyncLogging`, in the thread `t`. -/
def construct (s : Logging T SIZE) (t : T) (memory : Memory SIZE) : Logging T SIZE :=
  { s with
    logs := Function.update s.logs s.made (AsyncLogging.new memory)
    g_asyncLog := Function.update s.g_asyncLog t (some s.made)
    made := s.made + 1 }

omit [DecidableEq T] in
/-- `AsyncLogging::start` on the object `i`, in the thread `t`. -/
def start (s : Logging T SIZE) (t : T) (i : ℕ) (memory : Memory SIZE) :
    Except LogFault (Logging T SIZE) :=
  if s.g_asyncLog t = none then .error .start
  else .ok { s with
    g_output := .asyncLog
    g_flush := .asyncLog
    logs := Function.update s.logs i ((s.logs i).start memory)
    started := some i }

inductive Event (T : Type) (SIZE : ℕ) where
  | construct (t : T) (memory : Memory SIZE)
  | start (t : T) (i : ℕ) (memory : Memory SIZE)
  | setLogLevel (level : LogLevel)
  | emit (t : T) (level : LogLevel) (record : List UInt8) (memory : Memory SIZE)
  /-- a step of the logging thread of the object, or of its `stop` -/
  | log (i : ℕ) (e : AsyncLogging.Event SIZE)

/-- Not an `append` or a `start`. -/
def Background : AsyncLogging.Event SIZE → Bool
  | .append _ _ => false
  | .start _ => false
  | _ => true

/-- A record has the size of a `LogStream` at most, and `append` waits for `mutex_`. `start` is
called once. -/
def Event.Enabled (s : Logging T SIZE) : Event T SIZE → Prop
  | .construct _ _ => s.aborted = false
  | .start _ i _ => s.aborted = false ∧ s.started = none ∧ i < s.made
  | .setLogLevel _ => s.aborted = false
  | .emit t level record _ => s.aborted = false ∧ record.length < SIZE ∧
      (s.enabled level = true → ∀ i ∈ s.g_asyncLog t, (s.logs i).backEnd ≠ .waiting)
  | .log i e => s.aborted = false ∧ s.started = some i ∧ Background e = true

instance (s : Logging T SIZE) (e : Event T SIZE) : Decidable (e.Enabled s) :=
  match e with
  | .construct _ _ => inferInstanceAs (Decidable (_ = _))
  | .start _ _ _ => inferInstanceAs (Decidable (_ ∧ _))
  | .setLogLevel _ => inferInstanceAs (Decidable (_ = _))
  | .emit _ _ _ _ => inferInstanceAs (Decidable (_ ∧ _))
  | .log _ _ => inferInstanceAs (Decidable (_ ∧ _))

def step (s : Logging T SIZE) (e : Event T SIZE) : Option (Logging T SIZE) :=
  if e.Enabled s then
    match e with
    | .construct t memory => some (s.construct t memory)
    | .start t i memory => (s.start t i memory).toOption
    | .setLogLevel g_logLevel => some { s with g_logLevel }
    | .emit t level record memory => (s.emit t level record memory).toOption
    | .log i e =>
      (AsyncLogging.step (s.logs i) e).map fun log =>
        { s with logs := Function.update s.logs i log }
  else none

/-- The object that a thread has constructed last, with the number of objects so far. -/
def lastMade (t : T) (es : List (Event T SIZE)) : ℕ × Option ℕ :=
  es.foldl (fun r e => match e with
    | .construct u _ => (r.1 + 1, if u = t then some r.1 else r.2)
    | _ => r) (0, none)

/-- What is expected of a log statement after `start`, when the level is enabled: no null pointer,
and one `append`, to the object started. -/
def Delivered (s : Logging T SIZE) : Event T SIZE → Prop
  | .emit t level record memory =>
    (Event.emit t level record memory).Enabled s → s.enabled level = true →
      ∀ i, s.started = some i → ∃ s', s.emit t level record memory = .ok s' ∧
        (s'.logs i).appended = (s.logs i).appended ++ [record] ∧
        ∀ j, j ≠ i → (s'.logs j).appended = (s.logs j).appended
  | _ => True

/-! ## The steps -/

omit [DecidableEq T] in
theorem append_ok {s s' : Logging T SIZE} {i : ℕ} {record : List UInt8} {memory : Memory SIZE}
    (h : s.append i record memory = .ok s') :
    ∃ log, (s.logs i).append record memory = .ok log ∧
      s' = { s with logs := Function.update s.logs i log } := by
  unfold append at h
  split at h
  · next log hlog => exact ⟨log, hlog, (Except.ok.inj h).symm⟩
  · cases h

/-- What a log statement leaves. -/
structure SameLogging (s s' : Logging T SIZE) : Prop where
  g_asyncLog : s'.g_asyncLog = s.g_asyncLog
  g_output : s'.g_output = s.g_output
  g_flush : s'.g_flush = s.g_flush
  made : s'.made = s.made
  started : s'.started = s.started

omit [DecidableEq T] in
theorem output_ok {s s' : Logging T SIZE} {g_asyncLog : Option ℕ} {record : List UInt8}
    {memory : Memory SIZE} (h : s.output g_asyncLog record memory = .ok s') :
    SameLogging s s' ∧ (s'.logs = s.logs ∨ ∃ i log,
      (s.logs i).append record memory = .ok log ∧ s'.logs = Function.update s.logs i log) := by
  unfold output at h
  split at h
  · obtain rfl := Except.ok.inj h
    exact ⟨⟨rfl, rfl, rfl, rfl, rfl⟩, Or.inl rfl⟩
  · split at h
    · next i =>
      obtain ⟨log, hlog, rfl⟩ := append_ok h
      exact ⟨⟨rfl, rfl, rfl, rfl, rfl⟩, Or.inr ⟨i, log, hlog, rfl⟩⟩
    · cases h

omit [DecidableEq T] in
theorem fatal_ok {s s' : Logging T SIZE} {g_asyncLog : Option ℕ}
    (h : s.fatal g_asyncLog = .ok s') : s' = { s with aborted := true } := by
  unfold fatal at h
  split_ifs at h
  exact (Except.ok.inj h).symm

omit [DecidableEq T] in
theorem emit_ok {s s' : Logging T SIZE} {t : T} {level : LogLevel} {record : List UInt8}
    {memory : Memory SIZE} (h : s.emit t level record memory = .ok s') :
    SameLogging s s' ∧ (s'.logs = s.logs ∨ ∃ i log,
      (s.logs i).append record memory = .ok log ∧ s'.logs = Function.update s.logs i log) := by
  unfold emit at h
  split_ifs at h with hen hfatal
  · obtain ⟨u, hu, hf⟩ := except_bind_eq_ok_iff.mp h
    obtain rfl := fatal_ok hf
    obtain ⟨hsame, hlogs⟩ := output_ok hu
    exact ⟨⟨hsame.1, hsame.2, hsame.3, hsame.4, hsame.5⟩, hlogs⟩
  · obtain ⟨u, hu, hf⟩ := except_bind_eq_ok_iff.mp h
    obtain rfl := Except.ok.inj hf
    exact output_ok hu
  · obtain rfl := Except.ok.inj h
    exact ⟨⟨rfl, rfl, rfl, rfl, rfl⟩, Or.inl rfl⟩

/-- What `step` does, event by event. -/
theorem step_eq_some_iff {s s' : Logging T SIZE} {e : Event T SIZE} :
    step s e = some s' ↔ e.Enabled s ∧ match e with
      | .construct t memory => s' = s.construct t memory
      | .start t i memory => s.start t i memory = .ok s'
      | .setLogLevel g_logLevel => s' = { s with g_logLevel }
      | .emit t level record memory => s.emit t level record memory = .ok s'
      | .log i e => ∃ log, AsyncLogging.step (s.logs i) e = some log ∧
          s' = { s with logs := Function.update s.logs i log } := by
  unfold step
  split_ifs with hen
  · cases e with
    | construct t memory => simp [hen, eq_comm]
    | start t i memory => simp [hen, toOption_eq_some_iff]
    | setLogLevel level => simp [hen, eq_comm]
    | emit t level record memory => simp [hen, toOption_eq_some_iff]
    | log i e => simp [hen, eq_comm]
  · simp [hen]

/-! ## Invariants -/

structure Inv (s : Logging T SIZE) : Prop where
  conserves : ∀ i, (s.logs i).Conserves
  output : ∀ i, s.started = some i → s.g_output = .asyncLog ∧ s.g_flush = .asyncLog
  rest : ∀ i, s.started ≠ some i → (s.logs i).backEnd = .notStarted

/-- The objects of `Inv`, when one of them changes. -/
theorem objects_update {logs : ℕ → AsyncLogging SIZE} {started : Option ℕ}
    (hc : ∀ i, (logs i).Conserves) (hr : ∀ i, started ≠ some i → (logs i).backEnd = .notStarted)
    {i : ℕ} {log : AsyncLogging SIZE} (hlog : log.Conserves)
    (hrest : started ≠ some i → log.backEnd = .notStarted) :
    (∀ j, (Function.update logs i log j).Conserves) ∧
      ∀ j, started ≠ some j → (Function.update logs i log j).backEnd = .notStarted :=
  ⟨(Function.forall_update_iff logs fun _ a => a.Conserves).mpr ⟨hlog, fun j _ => hc j⟩,
    (Function.forall_update_iff logs fun j a => started ≠ some j → a.backEnd = .notStarted).mpr
      ⟨hrest, fun j _ => hr j⟩⟩

/-- `start` is a step of the object. -/
theorem start_conserves {a : AsyncLogging SIZE} (h : a.Conserves) (hrest : a.backEnd = .notStarted)
    (memory : Memory SIZE) : (a.start memory).Conserves :=
  AsyncLogging.step_conserves h (e := .start memory)
    (AsyncLogging.step_eq_some_iff.mpr ⟨hrest, rfl⟩)

omit [DecidableEq T] in
theorem inv_new (memory : Memory SIZE) (g_logLevel : LogLevel) :
    Inv (new memory g_logLevel : Logging T SIZE) where
  conserves _ := AsyncLogging.conserves_new memory
  output _ h := by cases h
  rest _ _ := rfl

omit [DecidableEq T] in
theorem emit_inv {s s' : Logging T SIZE} (hi : Inv s) {t : T} {level : LogLevel}
    {record : List UInt8} {memory : Memory SIZE} (hr : record.length < SIZE)
    (h : s.emit t level record memory = .ok s') : Inv s' := by
  obtain ⟨hsame, hlogs⟩ := emit_ok h
  have houtput : ∀ i, s'.started = some i → s'.g_output = .asyncLog ∧ s'.g_flush = .asyncLog := by
    rw [hsame.started, hsame.g_output, hsame.g_flush]
    exact hi.output
  rcases hlogs with hlogs | ⟨i, log, hlog, hlogs⟩
  · refine ⟨?_, houtput, ?_⟩
    · rw [hlogs]
      exact hi.conserves
    · rw [hlogs, hsame.started]
      exact hi.rest
  · obtain ⟨a, ha, hc, -, hbe, -⟩ := AsyncLogging.append_conserves (hi.conserves i) hr memory
    obtain rfl := Except.ok.inj (ha.symm.trans hlog)
    obtain ⟨hconserves, hrest⟩ := objects_update hi.conserves hi.rest hc
      fun hne => hbe.trans (hi.rest i hne)
    refine ⟨?_, houtput, ?_⟩
    · rw [hlogs]
      exact hconserves
    · rw [hlogs, hsame.started]
      exact hrest

theorem step_inv {s s' : Logging T SIZE} {e : Event T SIZE} (hi : Inv s)
    (h : step s e = some s') : Inv s' := by
  obtain ⟨hen, h⟩ := step_eq_some_iff.mp h
  cases e with
  | construct t memory =>
    obtain rfl := h
    obtain ⟨hconserves, hrest⟩ := objects_update hi.conserves hi.rest
      (AsyncLogging.conserves_new memory) fun _ => rfl
    exact ⟨hconserves, hi.output, hrest⟩
  | start t i memory =>
    obtain ⟨-, hnone, -⟩ := hen
    simp only [start] at h
    split_ifs at h
    obtain rfl := Except.ok.inj h
    have hall : ∀ j, (s.logs j).backEnd = .notStarted := fun j => hi.rest j (by rw [hnone]; simp)
    obtain ⟨hconserves, hrest⟩ := objects_update hi.conserves
      (fun j _ => hall j) (start_conserves (hi.conserves i) (hall i) memory)
      fun hne => absurd rfl hne
    exact ⟨hconserves, fun _ _ => ⟨rfl, rfl⟩, hrest⟩
  | setLogLevel level =>
    obtain rfl := h
    exact ⟨hi.conserves, hi.output, hi.rest⟩
  | emit t level record memory => exact emit_inv hi hen.2.1 h
  | log i e =>
    obtain ⟨log, hlog, rfl⟩ := h
    obtain ⟨hconserves, hrest⟩ := objects_update hi.conserves hi.rest
      (AsyncLogging.step_conserves (hi.conserves i) hlog) fun hne => absurd hen.2.1 hne
    exact ⟨hconserves, hi.output, hrest⟩

theorem inv_of_run {memory : Memory SIZE} {g_logLevel : LogLevel} {es : List (Event T SIZE)}
    {s : Logging T SIZE} (h : Run step (new memory g_logLevel) es s) : Inv s :=
  h.inv (P := Inv) (fun _ _ _ hi hs => step_inv hi hs) (inv_new memory g_logLevel)

/-- What `lastMade` computes from the events is what the thread's `g_asyncLog` holds. -/
theorem g_asyncLog_eq {memory : Memory SIZE} {g_logLevel : LogLevel} {es : List (Event T SIZE)}
    {s : Logging T SIZE} (h : Run step (new memory g_logLevel) es s) (t : T) :
    lastMade t es = (s.made, s.g_asyncLog t) := by
  refine h.history (P := fun es s => lastMade t es = (s.made, s.g_asyncLog t)) ?_ rfl
  intro es s e s' ih hs
  obtain ⟨-, hs⟩ := step_eq_some_iff.mp hs
  simp only [lastMade, List.foldl_append, List.foldl_cons, List.foldl_nil] at ih ⊢
  rw [ih]
  cases e with
  | construct u memory =>
    obtain rfl := hs
    simp only [construct, Function.update_apply, eq_comm (a := u)]
  | start u i memory =>
    simp only [start] at hs
    split_ifs at hs
    obtain rfl := Except.ok.inj hs
    rfl
  | setLogLevel level =>
    obtain rfl := hs
    rfl
  | emit u level record memory =>
    obtain ⟨hsame, -⟩ := emit_ok hs
    rw [hsame.made, hsame.g_asyncLog]
  | log i e =>
    obtain ⟨log, -, rfl⟩ := hs
    rfl

/-! ## Delivery -/

omit [DecidableEq T] in
/-- A log statement of a thread whose `g_asyncLog` is set. -/
theorem emit_of_some {s : Logging T SIZE} (hi : Inv s) {t : T} {level : LogLevel}
    {record : List UInt8} {i j : ℕ} (hj : s.started = some j) (ht : s.g_asyncLog t = some i)
    (hlevel : s.enabled level = true) (hr : record.length < SIZE) (memory : Memory SIZE) :
    ∃ s', s.emit t level record memory = .ok s' ∧
      (s'.logs i).appended = (s.logs i).appended ++ [record] ∧
      ∀ k, k ≠ i → s'.logs k = s.logs k := by
  obtain ⟨log, hlog, -, -, -, -, -, happ⟩ :=
    AsyncLogging.append_conserves (hi.conserves i) hr memory
  have hout : s.output (some i) record memory =
      .ok { s with logs := Function.update s.logs i log } := by
    simp only [output, (hi.output j hj).1, append, hlog]
  have hlogs : ((Function.update s.logs i log) i).appended = (s.logs i).appended ++ [record] := by
    rw [Function.update_self, happ]
  have hother : ∀ k, k ≠ i → Function.update s.logs i log k = s.logs k :=
    fun k hk => Function.update_of_ne hk log s.logs
  rw [emit, if_pos hlevel, ht, hout]
  by_cases hf : level = .FATAL
  · refine ⟨{ s with logs := Function.update s.logs i log, aborted := true }, ?_, hlogs, hother⟩
    change (if level = .FATAL then _ else _) = _
    rw [if_pos hf, fatal, if_neg (fun h => by cases h.2)]
  · refine ⟨{ s with logs := Function.update s.logs i log }, ?_, hlogs, hother⟩
    change (if level = .FATAL then _ else _) = _
    rw [if_neg hf]
    rfl

omit [DecidableEq T] in
/-- A log statement of a thread whose `g_asyncLog` is null. -/
theorem emit_of_none {s : Logging T SIZE} (hi : Inv s) {t : T} {level : LogLevel} {j : ℕ}
    (hj : s.started = some j) (ht : s.g_asyncLog t = none) (hlevel : s.enabled level = true)
    (record : List UInt8) (memory : Memory SIZE) :
    s.emit t level record memory = .error .nullAsyncLog := by
  rw [emit, if_pos hlevel, ht]
  simp only [output, (hi.output j hj).1]
  rfl

omit [DecidableEq T] in
/-- **One log statement.** -/
theorem delivered_emit_iff {s : Logging T SIZE} (hi : Inv s) {t : T} {level : LogLevel}
    {record : List UInt8} {memory : Memory SIZE}
    (hen : (Event.emit t level record memory).Enabled s) (hlevel : s.enabled level = true) {i : ℕ}
    (hs : s.started = some i) :
    Delivered s (.emit t level record memory) ↔ s.g_asyncLog t = some i := by
  constructor
  · intro hd
    obtain ⟨s', hs', happ, hother⟩ := hd hen hlevel i hs
    cases ht : s.g_asyncLog t with
    | none =>
      rw [emit_of_none hi hs ht hlevel] at hs'
      cases hs'
    | some j =>
      obtain ⟨u, hu, happ', -⟩ := emit_of_some hi hs ht hlevel hen.2.1 memory
      obtain rfl := Except.ok.inj (hs'.symm.trans hu)
      by_contra hne
      have := hother j fun hji => hne (by rw [hji])
      rw [happ'] at this
      exact absurd this (by simp)
  · intro ht _ _ j hj
    obtain rfl := Option.some.inj (hs.symm.trans hj)
    obtain ⟨u, hu, happ, hother⟩ := emit_of_some hi hs ht hlevel hen.2.1 memory
    exact ⟨u, hu, happ, fun k hk => by rw [hother k hk]⟩

/-- **Who may log.** In any threads, with any interleaving: every record of an enabled level that
is emitted after `start` is appended once, to the object started and to no other, and no null
pointer is dereferenced, exactly when each of these records comes from a thread that has
constructed an object itself, the last time the one that was started. -/
theorem delivered_iff (memory : Memory SIZE) (g_logLevel : LogLevel) (es : List (Event T SIZE)) :
    Along step Delivered (new memory g_logLevel) es ↔
      ∀ pre t level record fresh post s i, es = pre ++ .emit t level record fresh :: post →
        Run step (new memory g_logLevel) pre s →
        (Event.emit t level record fresh).Enabled s → s.enabled level = true →
        s.started = some i → (lastMade t pre).2 = some i := by
  constructor
  · intro ha pre t level record fresh post s i hes hr hen hlevel hs
    rw [g_asyncLog_eq hr]
    exact (delivered_emit_iff (inv_of_run hr) hen hlevel hs).mp (ha pre _ post s hes hr)
  · intro hc pre e post s hes hr
    cases e with
    | emit t level record fresh =>
      intro hen hlevel i hs
      have hlast := hc pre t level record fresh post s i hes hr hen hlevel hs
      rw [g_asyncLog_eq hr] at hlast
      exact (delivered_emit_iff (inv_of_run hr) hen hlevel hs).mpr hlast hen hlevel i hs
    | _ => trivial

/-- The thread `0` constructs and starts the log, and logs a record; then the thread `1` does. -/
def twoThreads : List (Event ℕ 4) :=
  [.construct 0 garbage, .start 0 0 garbage, .log 0 .test, .emit 0 .INFO [1, 2] garbage,
    .emit 1 .INFO [3] garbage]

/-- The record of the thread that constructed the log is there; with the other's record the output
function dereferences a null pointer. -/
theorem other_thread :
    (∃ s, Run step (new garbage .INFO) (twoThreads.take 4) s ∧ (s.logs 0).appended = [[1, 2]] ∧
      s.enabled .INFO = true ∧ s.emit 1 .INFO [3] garbage = .error .nullAsyncLog) ∧
    ¬ Along step Delivered (new garbage .INFO) twoThreads := by
  have h : ((twoThreads.take 4).foldlM step (new garbage .INFO)).map (fun s =>
        (s.started, s.g_asyncLog 1, (s.logs 0).appended, s.enabled .INFO, s.aborted)) =
      some (some 0, none, [[1, 2]], true, false) := by decide +kernel
  obtain ⟨s, hs, hq⟩ := Option.map_eq_some_iff.mp h
  simp only [Prod.mk.injEq] at hq
  obtain ⟨hstarted, hnull, happ, hlevel, haborted⟩ := hq
  refine ⟨⟨s, hs, happ, hlevel, emit_of_none (inv_of_run hs) hstarted hnull hlevel _ _⟩, ?_⟩
  intro ha
  have hen : (Event.emit 1 .INFO [3] garbage).Enabled s :=
    ⟨haborted, by decide, fun _ i hi => by rw [hnull] at hi; cases hi⟩
  have hd := ha (twoThreads.take 4) (.emit 1 .INFO [3] garbage) [] s rfl hs
  have := (delivered_emit_iff (inv_of_run hs) hen hlevel hstarted).mp hd
  rw [hnull] at this
  cases this

end Logging

end HighServer
