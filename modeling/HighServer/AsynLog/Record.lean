import HighServer.AsynLog.Logger
import HighServer.AsynLog.LogStream

/-!
# Log records

A `Logger` streams the time, the thread and the level into its `LogStream` when it is constructed,
and the place of the log statement when it is destroyed; between them come the values of the
statement. What does not fit is dropped, each insertion for itself.

* `kept`: what a row of insertions leaves, from the number of free bytes alone;
  **`insertAll_kept`**: the stream has it behind its contents;
* `Logger.construct`, `Logger.finish`, `Logger.record`: from the constructors to what `~Logger`
  hands to `g_output`;
* `header`, `trailer`: how a record begins and ends; `Supplied`: a text that ends with what the
  trailer loses;
* **`record_wellFormed_iff`**: when a record is well formed.
-/

namespace HighServer

namespace LogStream

variable {P : Printf} {s : LogStream}

/-! ## What insertions leave -/

/-- Whether an insertion is dropped, with `avail` bytes free. -/
def Insertion.dropped (avail : ℕ) (e : Insertion P) : Bool :=
  match e.len with
  | none => avail < kMaxNumericSize
  | some len => len < 0 ∨ (avail : ℤ) ≤ len

theorem Insertion.dropped_iff (e : Insertion P) :
    e.dropped s.buffer_.avail = true ↔ e.Rejected s := by
  unfold dropped Rejected
  cases e.len <;> simp

/-- The text that a row of insertions leaves, with `avail` bytes free. -/
def kept (avail : ℕ) : List (Insertion P) → Bytes
  | [] => []
  | e :: es => if e.dropped avail then kept avail es else e.text ++ kept (avail - e.text.length) es

theorem kept_string (avail : ℕ) {e : Insertion P} (h : e.len = some (e.text.length : ℤ))
    (es : List (Insertion P)) : kept avail (e :: es) =
      if e.text.length < avail then e.text ++ kept (avail - e.text.length) es
      else kept avail es := by
  have hiff : e.dropped avail = true ↔ ¬ e.text.length < avail := by
    rw [Insertion.dropped, h, decide_eq_true_iff]
    omega
  rw [kept, if_congr hiff rfl rfl, ite_not]

theorem kept_number (avail : ℕ) {e : Insertion P} (h : e.len = none) (es : List (Insertion P)) :
    kept avail (e :: es) =
      if kMaxNumericSize ≤ avail then e.text ++ kept (avail - e.text.length) es
      else kept avail es := by
  have hiff : e.dropped avail = true ↔ ¬ kMaxNumericSize ≤ avail := by
    rw [Insertion.dropped, h, decide_eq_true_iff, not_le]
  rw [kept, if_congr hiff rfl rfl, ite_not]

variable (avail : ℕ) (es : List (Insertion P))

theorem kept_char (v : UInt8) : kept avail (.char v :: es) =
    if 1 < avail then [v] ++ kept (avail - 1) es else kept avail es :=
  kept_string avail (e := .char v) rfl es

theorem kept_chars (v : Bytes) : kept avail (.chars (some v) :: es) =
    if v.length < avail then v ++ kept (avail - v.length) es else kept avail es :=
  kept_string avail (e := .chars (some v)) rfl es

theorem kept_integer {T : IntegerType} (v : Value T) : kept avail (.integer T v :: es) =
    if 48 ≤ avail then decimal v.val ++ kept (avail - (decimal v.val).length) es
    else kept avail es :=
  kept_number avail (e := .integer T v) rfl es

theorem length_kept_le (es : List (Insertion P)) : ∀ avail : ℕ,
    (kept avail es).length ≤ (es.map Insertion.text).flatten.length := by
  induction es with
  | nil => exact fun avail => le_rfl
  | cons e es ih =>
    intro avail
    rw [List.map_cons, List.flatten_cons, List.length_append, kept]
    split_ifs with h
    · exact (ih avail).trans (Nat.le_add_left _ _)
    · rw [List.length_append]
      exact Nat.add_le_add_left (ih _) _

/-- **A row of insertions** puts what is kept of it behind the contents of the stream. -/
theorem insertAll_kept (hP : ∀ v, (P.format v).length < kMaxNumericSize)
    (es : List (Insertion P)) : ∀ s : LogStream, ∃ s', s.insertAll es = .ok s' ∧
      s'.text = s.text ++ kept s.buffer_.avail es ∧
      s'.buffer_.length = s.buffer_.length + (kept s.buffer_.avail es).length := by
  induction es with
  | nil => exact fun s => ⟨s, rfl, (List.append_nil _).symm, rfl⟩
  | cons e es ih =>
    intro s
    obtain ⟨t, ht, hins⟩ := perform_spec hP s e
    obtain ⟨s', hs', htext, hlen⟩ := ih t
    have hall : s.insertAll (e :: es) = .ok s' := by
      rw [insertAll, List.foldlM_cons, ht]
      exact hs'
    refine ⟨s', hall, ?_⟩
    rw [kept]
    split_ifs with hdrop
    · obtain rfl := hins.dropped (e.dropped_iff.mp hdrop)
      exact ⟨htext, hlen⟩
    · have hr : ¬ e.Rejected s := fun hr => hdrop (e.dropped_iff.mpr hr)
      have hgrown := hins.grown hr
      have havail : t.buffer_.avail = s.buffer_.avail - e.text.length := by
        change kSmallBuffer - t.buffer_.length = kSmallBuffer - s.buffer_.length - e.text.length
        omega
      rw [havail] at htext hlen
      refine ⟨?_, ?_⟩
      · rw [htext, hins.appended hr, List.append_assoc]
      · rw [hlen, hgrown, List.length_append]
        omega

end LogStream

/-! ## The logger -/

/-- The broken-down time of `DateTime::parse`. -/
structure Date where
  year : ℤ
  month : ℤ
  day : ℤ
  hour : ℤ
  minute : ℤ
  second : ℤ

/-- A base name: what `SourceFile` finds behind the last `/`. -/
structure SourceFile where
  data_ : Bytes
  short : (data_.length : ℤ) < 2 ^ 31

namespace SourceFile

/-- The constructor; `strrchr` looks for the last `/`. -/
def new (filename : Bytes) (h : (filename.length : ℤ) < 2 ^ 31) : SourceFile where
  data_ := (filename.reverse.takeWhile (· ≠ 47)).reverse
  short := by
    have hle := (List.takeWhile_prefix (l := filename.reverse) (· ≠ (47 : UInt8))).length_le
    rw [List.length_reverse] at hle ⊢
    omega

def chars (file : SourceFile) : LogStream.Chars where
  data := file.data_
  len := file.data_.length
  int := by
    have := file.short
    omega
  fits _ := rfl

end SourceFile

namespace Logger

open LogStream Numeral Runs

/-- `"%0*d"` -/
def padded (width : ℕ) (v : ℤ) : Bytes :=
  let sign := if v < 0 then [minus] else []
  let digits := decimal v.natAbs
  sign ++ List.replicate (width - sign.length - digits.length) 48 ++ digits

/-- `DateTime::toIsoString`, into an array of 64 bytes. -/
def toIsoString (da : Date) : Bytes :=
  (padded 4 da.year ++ ascii "-" ++ padded 2 da.month ++ ascii "-" ++ padded 2 da.day ++
    ascii " " ++ padded 2 da.hour ++ ascii ":" ++ padded 2 da.minute ++ ascii ":" ++
    padded 2 da.second).take 63

def LogLevelName : LogLevel → Bytes
  | .TRACE => ascii " [TRACE] "
  | .DEBUG => ascii " [DEBUG] "
  | .INFO => ascii " [INFO]  "
  | .WARN => ascii " [WARN]  "
  | .ERROR => ascii " [ERROR] "
  | .FATAL => ascii " [FATAL] "

/-- What a log statement finds when it comes to it: the local time, `t_cachedTid`, `errno`, and the
texts of `strerror_tl`. -/
structure Context where
  time_ : Date
  t_cachedTid : Value .int
  errno : Value .int
  strerror_tl : ℤ → Bytes

/-- The four constructors. -/
inductive Constructor where
  | info
  | level (level : LogLevel)
  | func (level : LogLevel) (func : Bytes)
  | sys (toAbort : Bool)

namespace Constructor

def level_ : Constructor → LogLevel
  | .info => .INFO
  | .level l => l
  | .func l _ => l
  | .sys toAbort => if toAbort then .FATAL else .ERROR

def savedErrno (x : Context) : Constructor → Value .int
  | .sys _ => x.errno
  | _ => ⟨0, by decide⟩

end Constructor

variable {P : Printf}

/-- The constructor of `Impl` streams this. -/
def implInsertions (x : Context) (level : LogLevel) (savedErrno : Value .int) :
    List (Insertion P) :=
  [.string (toIsoString x.time_), .integer .int x.t_cachedTid,
    .chars (some (LogLevelName level))] ++
  if savedErrno.val ≠ 0 then
    [.chars (some (x.strerror_tl savedErrno.val)), .chars (some (ascii " (errno=")),
      .integer .int savedErrno, .chars (some (ascii ") "))]
  else []

/-- A constructor of `Logger`. -/
def construct (memory : Memory kSmallBuffer) (x : Context) (c : Constructor) :
    Except OutOfBounds LogStream := do
  let s ← (LogStream.new memory).insertAll
    (implInsertions (P := P) x c.level_ (c.savedErrno x))
  match c with
  | .func _ f => s.insertAll (P := P) [.chars (some f), .char 32]
  | _ => pure s

/-- `Impl::finish` streams this. -/
def finishInsertions (basename_ : SourceFile) (line_ : Value .int) : List (Insertion P) :=
  [.chars (some (ascii " - ")), .sourceFile basename_.chars, .char 58, .integer .int line_,
    .char 10]

/-- `Impl::finish` -/
def finish (s : LogStream) (basename_ : SourceFile) (line_ : Value .int) :
    Except OutOfBounds LogStream :=
  s.insertAll (finishInsertions (P := P) basename_ line_)

/-- A log statement up to the destructor: the constructor and the values. -/
def statement (memory : Memory kSmallBuffer) (x : Context) (c : Constructor)
    (values : List (Insertion P)) : Except OutOfBounds LogStream := do
  let s ← construct (P := P) memory x c
  s.insertAll values

/-- The record that `~Logger` hands to `g_output`. -/
def record (memory : Memory kSmallBuffer) (x : Context) (c : Constructor)
    (values : List (Insertion P)) (basename_ : SourceFile) (line_ : Value .int) :
    Except OutOfBounds Bytes := do
  let s ← statement memory x c values
  let s ← finish (P := P) s basename_ line_
  pure s.text

/-! ## Well-formed records -/

def header (x : Context) (level : LogLevel) : Bytes :=
  toIsoString x.time_ ++ decimal x.t_cachedTid.val ++ LogLevelName level

def trailer (basename_ : SourceFile) (line_ : Value .int) : Bytes :=
  ascii " - " ++ basename_.data_ ++ ascii ":" ++ decimal line_.val ++ ascii "\n"

structure WellFormed (x : Context) (level : LogLevel) (basename_ : SourceFile)
    (line_ : Value .int) (record : Bytes) : Prop where
  header : header x level <+: record
  trailer : trailer basename_ line_ <:+ record

/-- What is left of the trailer where not all of it fits, as far as it can be an end of it: nothing,
the base name, or all but the base name. -/
inductive Rest (avail : ℕ) (basename_ : SourceFile) (line_ : Value .int) : Bytes → Prop where
  | nothing (h : avail ≤ 1) : Rest avail basename_ line_ []
  | basename (h : avail = basename_.data_.length + 1) (hsmall : avail ≤ 3) :
    Rest avail basename_ line_ basename_.data_
  | place (h : 52 ≤ avail) (hlong : avail ≤ basename_.data_.length + 3) :
    Rest avail basename_ line_ (ascii " - :" ++ decimal line_.val ++ ascii "\n")

/-- The text before `finish` ends with what the trailer loses in front. -/
def Supplied (s : LogStream) (basename_ : SourceFile) (line_ : Value .int) : Prop :=
  ∃ missing rest, trailer basename_ line_ = missing ++ rest ∧ missing <:+ s.text ∧
    Rest s.buffer_.avail basename_ line_ rest

/-! ## How a record begins -/

/-- What a constructor streams. -/
def constructInsertions (x : Context) (c : Constructor) : List (Insertion P) :=
  implInsertions x c.level_ (c.savedErrno x) ++
    match c with
    | .func _ f => [.chars (some f), .char 32]
    | _ => []

theorem statement_eq (memory : Memory kSmallBuffer) (x : Context) (c : Constructor)
    (values : List (Insertion P)) :
    statement memory x c values =
      (LogStream.new memory).insertAll (constructInsertions x c ++ values) := by
  unfold statement construct constructInsertions insertAll
  cases c <;> simp [List.foldlM_append]

theorem length_LogLevelName (level : LogLevel) : (LogLevelName level).length = 9 := by
  cases level <;> rfl

theorem length_toIsoString_le (da : Date) : (toIsoString da).length ≤ 63 :=
  List.length_take_le _ _

theorem length_decimal_int_le (v : Value .int) : (decimal v.val).length ≤ 21 :=
  length_decimal_le (IntegerType.natAbs_lt v.property)

/-- The first three insertions of the constructor are never dropped. -/
theorem header_kept (x : Context) (c : Constructor) (es : List (Insertion P)) :
    header x c.level_ <+: kept kSmallBuffer (constructInsertions x c ++ es) := by
  have htime := length_toIsoString_le x.time_
  have htid := length_decimal_int_le x.t_cachedTid
  have hname := length_LogLevelName c.level_
  unfold constructInsertions implInsertions
  simp only [List.cons_append, List.nil_append]
  rw [kept_string _ rfl, if_pos, kept_integer, if_pos, kept_chars, if_pos]
  · simp only [Insertion.text, ← List.append_assoc]
    exact List.prefix_append _ _
  all_goals
    simp only [Insertion.text, kSmallBuffer]
    omega

/-! ## How a record ends -/

/-- The last three insertions of `finish`. -/
def placeInsertions (line_ : Value .int) : List (Insertion P) :=
  [.char 58, .integer .int line_, .char 10]

theorem kept_place (avail : ℕ) (line_ : Value .int) :
    kept avail (placeInsertions (P := P) line_) =
      if avail ≤ 1 then [] else if avail = 2 then ascii ":" else if avail < 49 then ascii ":\n"
      else ascii ":" ++ (decimal line_.val ++ ascii "\n") := by
  have hline := length_decimal_int_le line_
  rw [placeInsertions, kept_char, kept_integer, kept_integer, kept_char, kept_char, kept_char,
    kept_char]
  rcases le_or_gt avail 1 with hfull | hroom
  · rw [if_neg (by omega), if_neg (by omega), if_neg (by omega), if_pos hfull]
    rfl
  · rw [if_pos hroom, if_neg (not_le.mpr hroom)]
    by_cases htwo : avail = 2
    · rw [if_neg (by omega), if_neg (by omega), if_pos htwo]
      rfl
    · rw [if_neg htwo]
      by_cases hsmall : avail < 49
      · rw [if_neg (by omega), if_pos (by omega), if_pos hsmall]
        rfl
      · rw [if_pos (by omega), if_pos (by omega), if_neg hsmall]
        rfl

/-- What `finish` leaves, by what its last three insertions leave. -/
theorem kept_finish (avail : ℕ) (basename_ : SourceFile) (line_ : Value .int) :
    kept avail (finishInsertions (P := P) basename_ line_) =
      if 3 < avail then ascii " - " ++
        if basename_.data_.length < avail - 3 then
          basename_.data_ ++
            kept (avail - 3 - basename_.data_.length) (placeInsertions (P := P) line_)
        else kept (avail - 3) (placeInsertions (P := P) line_)
      else if basename_.data_.length < avail then
        basename_.data_ ++ kept (avail - basename_.data_.length) (placeInsertions (P := P) line_)
      else kept avail (placeInsertions (P := P) line_) := by
  have basename := fun a => kept_string (P := P) a (e := .sourceFile basename_.chars) rfl
    (placeInsertions line_)
  have hdash : kept avail (finishInsertions (P := P) basename_ line_) = _ :=
    kept_chars avail (.sourceFile basename_.chars :: placeInsertions line_) (ascii " - ")
  rw [hdash, basename, basename]
  rfl

theorem not_mem_decimal {c : UInt8} (hc : c ≠ minus) (hdigit : decimalDigit c = none) (v : ℤ) :
    c ∉ decimal v := by
  intro hmem
  rcases List.mem_append.mp hmem with hsign | hmem
  · split_ifs at hsign
    · exact hc (List.mem_singleton.mp hsign)
    · exact List.not_mem_nil hsign
  · have hsome := (canonical_numeral (by decide) decimalDigit_digitChar v.natAbs).digit c hmem
    rw [hdigit] at hsome
    exact Bool.false_ne_true hsome

theorem decimal_ne_nil (v : ℤ) : decimal v ≠ [] := by
  intro h
  exact (canonical_numeral (by decide) decimalDigit_digitChar v.natAbs).ne_nil
    (List.append_eq_nil_iff.mp h).2

theorem trailer_eq (basename_ : SourceFile) (line_ : Value .int) : trailer basename_ line_ =
    ascii " - " ++ (basename_.data_ ++ (ascii ":" ++ (decimal line_.val ++ ascii "\n"))) := by
  simp only [trailer, List.append_assoc]

/-- A text that ends with the colon and the newline is not an end of the trailer: the line number is
between them. -/
theorem colon_newline_not_suffix {t : Bytes} {basename_ : SourceFile} {line_ : Value .int} :
    ¬ t ++ ascii ":\n" <:+ trailer basename_ line_ := by
  rintro ⟨u, hu⟩
  obtain hnil | ⟨ds, d, hds⟩ := List.eq_nil_or_concat' (decimal line_.val)
  · exact decimal_ne_nil _ hnil
  · have hend : u ++ t ++ ascii ":\n" =
        ascii " - " ++ basename_.data_ ++ ascii ":" ++ ds ++ [d, 10] := by
      rw [List.append_assoc, hu, trailer, hds]
      simp only [List.append_assoc]
      rfl
    have hlast : ascii ":\n" = [d, 10] := List.append_inj_right' hend rfl
    have hd : d = 58 := (List.cons.inj hlast).1.symm
    exact not_mem_decimal (c := 58) (by decide) (by decide) line_.val
      (by rw [hds, hd]; exact List.mem_append_right _ (List.mem_singleton_self _))

/-- The trailer ends with a newline. -/
theorem suffix_trailer {t : Bytes} {c : UInt8} {basename_ : SourceFile} {line_ : Value .int}
    (h : t ++ [c] <:+ trailer basename_ line_) : c = 10 := by
  obtain ⟨u, hu⟩ := h
  rw [← List.append_assoc, trailer] at hu
  exact (List.cons.inj (List.append_inj_right' hu rfl)).1

/-- With the base name, but not with all behind it, what is left is not an end of the trailer: the
part in front of it has no space. -/
theorem basename_not_suffix {basename_ : SourceFile} {line_ : Value .int} :
    ¬ ascii " - " ++ basename_.data_ <:+ trailer basename_ line_ := by
  rintro ⟨u, hu⟩
  have hcount := congrArg (List.count 32) hu
  have hlen := congrArg List.length hu
  have hline : (decimal line_.val).count 32 = 0 :=
    List.count_eq_zero.mpr (not_mem_decimal (by decide) (by decide) line_.val)
  have hcolon : (ascii ":").count 32 = 0 := by decide
  have hnewline : (ascii "\n").count 32 = 0 := by decide
  have hone : (ascii "\n").length = 1 := rfl
  simp only [trailer, List.count_append, List.length_append] at hcount hlen
  cases u with
  | nil =>
    rw [List.length_nil] at hlen
    omega
  | cons c u =>
    have hc : c = 32 := (List.cons.inj hu).1
    rw [hc, List.count_cons_self] at hcount
    omega

variable {avail : ℕ} {basename_ : SourceFile} {line_ : Value .int}

/-- Where the line number is dropped, and the colon is not, what is left is not an end of the
trailer. -/
theorem place_not_suffix (P : Printf) {t : Bytes} (h : 2 ≤ avail) (hcut : avail < 49) :
    ¬ t ++ kept avail (placeInsertions (P := P) line_) <:+ trailer basename_ line_ := by
  rw [kept_place, if_neg (by omega)]
  intro hsuffix
  split_ifs at hsuffix with htwo
  · exact absurd (suffix_trailer hsuffix) (by decide)
  · exact colon_newline_not_suffix hsuffix

theorem kept_finish_of_room (P : Printf) (h : basename_.data_.length + 52 ≤ avail) :
    kept avail (finishInsertions (P := P) basename_ line_) = trailer basename_ line_ := by
  rw [kept_finish, if_pos (by omega), if_pos (by omega), kept_place, if_neg (by omega),
    if_neg (by omega), if_neg (by omega), trailer]
  simp only [List.append_assoc]

theorem Rest.kept_finish (P : Printf) {rest : Bytes} (h : Rest avail basename_ line_ rest) :
    kept avail (finishInsertions (P := P) basename_ line_) = rest := by
  rw [Logger.kept_finish]
  cases h with
  | nothing h =>
    rw [if_neg (by omega)]
    split_ifs with hb
    · rw [kept_place, if_pos (by omega), List.append_nil]
      exact List.length_eq_zero_iff.mp (by omega)
    · rw [kept_place, if_pos h]
  | basename h hsmall =>
    rw [if_neg (by omega), if_pos (by omega), kept_place, if_pos (by omega), List.append_nil]
  | place h hlong =>
    rw [if_pos (by omega), if_neg (by omega), kept_place, if_neg (by omega), if_neg (by omega),
      if_neg (by omega), List.append_assoc]
    rfl

/-- What is left is an end of the trailer in these cases only. -/
theorem rest_of_suffix (P : Printf)
    (h : kept avail (finishInsertions (P := P) basename_ line_) <:+ trailer basename_ line_) :
    basename_.data_.length + 52 ≤ avail ∨
      Rest avail basename_ line_ (kept avail (finishInsertions (P := P) basename_ line_)) := by
  have rest : ∀ {r}, Rest avail basename_ line_ r →
      Rest avail basename_ line_ (kept avail (finishInsertions (P := P) basename_ line_)) :=
    fun hr => (hr.kept_finish P).symm ▸ hr
  by_contra hnot
  obtain ⟨hroom, hrest⟩ := not_or.mp hnot
  have hnothing : ¬ avail ≤ 1 := fun h => hrest (rest (.nothing h))
  rw [kept_finish] at h
  rcases le_or_gt avail 3 with hsmall | hdash
  · have hbasename : avail ≠ basename_.data_.length + 1 :=
      fun h => hrest (rest (.basename h hsmall))
    rw [if_neg (by omega)] at h
    split_ifs at h with hb
    · exact place_not_suffix P (by omega) (by omega) h
    · exact place_not_suffix P (t := []) (by omega) (by omega) h
  · rw [if_pos hdash] at h
    split_ifs at h with hb
    · rcases le_or_gt (avail - 3 - basename_.data_.length) 1 with hone | htwo
      · rw [kept_place, if_pos hone, List.append_nil] at h
        exact basename_not_suffix h
      · rw [← List.append_assoc] at h
        exact place_not_suffix P htwo (by omega) h
    · have hplace : ¬ 52 ≤ avail := fun h => hrest (rest (.place h (by omega)))
      rcases le_or_gt (avail - 3) 1 with hone | htwo
      · rw [kept_place, if_pos hone] at h
        exact absurd (suffix_trailer (t := ascii " -") (c := 32) h) (by decide)
      · exact place_not_suffix P htwo (by omega) h

/-- An end of a text that is not shorter than its second part has that part as its end, and the rest
is an end of the first part. -/
theorem exists_missing {t u v : Bytes} (hlen : v.length ≤ t.length) (h : t <:+ u ++ v) :
    ∃ missing, t = missing ++ v ∧ missing <:+ u := by
  obtain ⟨w, hw⟩ := h
  rcases List.append_eq_append_iff.mp hw with ⟨m, hu, ht⟩ | ⟨m, -, hv⟩
  · exact ⟨m, ht, w, hu.symm⟩
  · have hm : m.length = 0 := by
      have hlen' := congrArg List.length hv
      rw [List.length_append] at hlen'
      omega
    rw [List.length_eq_zero_iff.mp hm, List.nil_append] at hv
    exact ⟨[], hv.symm, List.nil_suffix⟩

theorem length_kept_finish_le (P : Printf) :
    (kept avail (finishInsertions (P := P) basename_ line_)).length ≤
      (trailer basename_ line_).length := by
  have hle := length_kept_le (finishInsertions (P := P) basename_ line_) avail
  have htext : ((finishInsertions (P := P) basename_ line_).map Insertion.text).flatten =
      trailer basename_ line_ := by
    rw [trailer_eq]
    rfl
  rwa [htext] at hle

/-- **A log record**, for any constructor, context, values, base name and line: it always begins
with the time, the thread and the level, and it ends with the place of the statement exactly when
the values leave room for the base name and 52 bytes, or end with what the place is short of. -/
theorem record_wellFormed_iff (hP : ∀ v, (P.format v).length < kMaxNumericSize)
    (memory : Memory kSmallBuffer) (x : Context) (c : Constructor) (values : List (Insertion P))
    (basename_ : SourceFile) (line_ : Value .int) :
    ∃ s r, statement memory x c values = .ok s ∧ record memory x c values basename_ line_ = .ok r ∧
      header x c.level_ <+: r ∧
      (WellFormed x c.level_ basename_ line_ r ↔
        basename_.data_.length + 52 ≤ s.buffer_.avail ∨ Supplied s basename_ line_) := by
  obtain ⟨s, hs, hstext, -⟩ := insertAll_kept hP (constructInsertions x c ++ values)
    (LogStream.new memory)
  obtain ⟨s', hs', htext, -⟩ := insertAll_kept hP (finishInsertions (P := P) basename_ line_) s
  have hstatement : statement memory x c values = .ok s := (statement_eq memory x c values).trans hs
  have hrecord : record memory x c values basename_ line_ = .ok s'.text :=
    except_bind_eq_ok_iff.mpr ⟨s, hstatement, except_bind_eq_ok_iff.mpr ⟨s', hs', rfl⟩⟩
  have hheader : header x c.level_ <+: s'.text := by
    have hnew : (LogStream.new memory).text = [] := rfl
    rw [htext, hstext, hnew, List.nil_append]
    exact (header_kept x c values).trans (List.prefix_append _ _)
  refine ⟨s, s'.text, hstatement, hrecord, hheader, ?_⟩
  constructor
  · rintro ⟨-, htrailer⟩
    rw [htext] at htrailer
    obtain ⟨missing, heq, hmissing⟩ := exists_missing (length_kept_finish_le P) htrailer
    rcases rest_of_suffix P ⟨missing, heq.symm⟩ with hroom | hrest
    · exact Or.inl hroom
    · exact Or.inr ⟨missing, _, heq, hmissing, hrest⟩
  · intro h
    refine ⟨hheader, ?_⟩
    rw [htext]
    rcases h with hroom | ⟨missing, rest, heq, ⟨w, hw⟩, hrest⟩
    · rw [kept_finish_of_room P hroom]
      exact List.suffix_append _ _
    · rw [hrest.kept_finish P, heq]
      exact ⟨w, by rw [← List.append_assoc, hw]⟩

/-- The second of January, with the error "No such file or directory". -/
def morning : Context where
  time_ := ⟨2024, 1, 2, 3, 4, 5⟩
  t_cachedTid := ⟨7, by decide⟩
  errno := ⟨2, by decide⟩
  strerror_tl _ := ascii "No such file or directory"

def bufferCpp : SourceFile := SourceFile.new (ascii "src/net/Buffer.cpp") (by decide)

theorem record_wellFormed_morning : ∃ r, record (P := centimal) zeroed morning (.sys false)
    [.chars (some (ascii "open: ")), .double ⟨42, by decide⟩] bufferCpp ⟨37, by decide⟩ = .ok r ∧
    WellFormed morning .ERROR bufferCpp ⟨37, by decide⟩ r := by
  have hroom : (statement (P := centimal) zeroed morning (.sys false)
      [.chars (some (ascii "open: ")), .double ⟨42, by decide⟩]).map
      (fun s => s.buffer_.avail) = .ok 3927 := by
    decide +kernel
  obtain ⟨s, r, hs, hr, -, hiff⟩ := record_wellFormed_iff (P := centimal) length_format_centimal
    zeroed morning (.sys false) [.chars (some (ascii "open: ")), .double ⟨42, by decide⟩] bufferCpp
    ⟨37, by decide⟩
  rw [hs] at hroom
  have havail : s.buffer_.avail = 3927 := Except.ok.inj hroom
  have hlen : bufferCpp.data_.length = 10 := by decide +kernel
  refine ⟨r, hr, hiff.mpr (Or.inl ?_)⟩
  omega

/-- A message of 3970 bytes fills the buffer; the record ends with it, and without a newline. -/
theorem record_run_together : ¬ ∀ (x : Context) (c : Constructor)
    (values : List (Insertion centimal)) (basename_ : SourceFile) (line_ : Value .int),
    basename_.data_.length ≤ 255 → ∀ r, record zeroed x c values basename_ line_ = .ok r →
    WellFormed x c.level_ basename_ line_ r := by
  intro hclaim
  have hlast : (record (P := centimal) zeroed morning .info [.string (List.replicate 3970 120)]
      bufferCpp ⟨37, by decide⟩).map List.getLast? = .ok (some 120) := by
    decide +kernel
  cases hr : record (P := centimal) zeroed morning .info [.string (List.replicate 3970 120)]
      bufferCpp ⟨37, by decide⟩ with
  | error e =>
    rw [hr] at hlast
    cases hlast
  | ok r =>
    rw [hr] at hlast
    obtain ⟨u, hu⟩ := (hclaim morning .info _ bufferCpp _ (by decide +kernel) r hr).trailer
    have hx : r.getLast? = some 120 := Except.ok.inj hlast
    rw [← hu, trailer, ← List.append_assoc] at hx
    have hnewline : (10 : UInt8) = 120 := Option.some.inj (List.getLast?_concat.symm.trans hx)
    exact absurd hnewline (by decide)

end Logger

end HighServer
