import HighServer.AsynLog.LogFile

/-!
# Appending to a stdio stream

`AppendFile::append` calls `fwrite_unlocked` until the line is written, or until a call reports a
short count and `ferror` says that the stream has failed. The results of the calls are inputs.

* `Results`: what the calls report; a short count of 0 comes with the error flag;
* `write`, `loop`, `append`: the member functions; `fuel` bounds the calls of `write`;
* `loop_failed`, `loop_more`: the two ways a round can go; **`append_spec`**: a call of `append`
  ends, and puts a prefix of its line behind what is in the stream. `writtenBytes_` misses the count
  of a call that has failed (`lost`);
* `append_matches`: without failures it is the `append` that `LogFile` is modelled over;
* **`appendAll_counted`**: when `writtenBytes_` is what the calls have reported.
-/

namespace HighServer.Stdio

/-- What `fwrite_unlocked` reports, with the error flag of the stream after a short count. -/
inductive FwriteResult where
  | full
  /-- a short count, the error flag not set -/
  | short (n : ℕ)
  /-- a short count, the error flag set -/
  | failed (n : ℕ)
  deriving DecidableEq, Repr

namespace FwriteResult

/-- A result that a call for `len` bytes can have. -/
def Fits (len : ℕ) : FwriteResult → Prop
  | .full => True
  | .short n => 0 < n ∧ n < len
  | .failed n => n < len

/-- The bytes written by a call for `len` bytes. -/
def count (len : ℕ) : FwriteResult → ℕ
  | .full => len
  | .short n => n
  | .failed n => n

def ferror : FwriteResult → Bool
  | .failed _ => true
  | _ => false

/-- The bytes of a call that has failed. -/
def lost : FwriteResult → ℕ
  | .failed n => n
  | _ => 0

theorem Fits.count_le {r : FwriteResult} {len : ℕ} (h : r.Fits len) : r.count len ≤ len := by
  cases r with
  | full => exact le_rfl
  | short n => exact h.2.le
  | failed n => exact Nat.le_of_lt h

end FwriteResult

/-- The results of the calls: that of the `i`th call, when it is for `len` bytes. -/
structure Results where
  fwrite_unlocked : ℕ → ℕ → FwriteResult
  fits : ∀ i len, 0 < len → (fwrite_unlocked i len).Fits len

/-- `calls` are those of `fwrite_unlocked` so far, each with the length asked for and its result. -/
structure AppendFile where
  stream : List UInt8
  writtenBytes_ : ℕ
  calls : List (ℕ × FwriteResult)
  deriving DecidableEq, Repr

namespace AppendFile

/-- The constructor. -/
def new : AppendFile := ⟨[], 0, []⟩

/-- The file after a call for `logline` with the result `r`. -/
def after (f : AppendFile) (logline : List UInt8) (r : FwriteResult) : AppendFile :=
  { f with
    stream := f.stream ++ logline.take (r.count logline.length)
    calls := f.calls ++ [(logline.length, r)] }

/-- `write`, with the result of its call. -/
def write (io : Results) (f : AppendFile) (logline : List UInt8) : AppendFile × FwriteResult :=
  let r := io.fwrite_unlocked f.calls.length logline.length
  (f.after logline r, r)

/-- The loop of `append`, with at most `fuel` calls of `write`; `none` if they are not enough. -/
def loop (io : Results) (logline : List UInt8) :
    ℕ → AppendFile → ℕ → Option (AppendFile × ℕ)
  | fuel, f, written =>
    if written = logline.length then some (f, written)
    else match fuel with
      | 0 => none
      | fuel + 1 =>
        let remain := logline.length - written
        let (f, r) := f.write io (logline.drop written)
        let n := r.count remain
        if n ≠ remain ∧ r.ferror then some (f, written)
        else loop io logline fuel f (written + n)

/-- `append`. -/
def append (io : Results) (f : AppendFile) (logline : List UInt8) : Option AppendFile := do
  let (f, written) ← loop io logline logline.length f 0
  pure { f with writtenBytes_ := f.writtenBytes_ + written }

def appendAll (io : Results) (f : AppendFile) (loglines : List (List UInt8)) :
    Option AppendFile :=
  loglines.foldlM (append io) f

/-- What calls of `fwrite_unlocked` have reported as written. -/
def reported (calls : List (ℕ × FwriteResult)) : ℕ := (calls.map fun c => c.2.count c.1).sum

/-- What the failed ones among them have reported. -/
def lost (calls : List (ℕ × FwriteResult)) : ℕ := (calls.map fun c => c.2.lost).sum

@[simp] theorem reported_nil : reported [] = 0 := rfl

@[simp] theorem lost_nil : lost [] = 0 := rfl

@[simp] theorem reported_cons (len : ℕ) (r : FwriteResult) (calls : List (ℕ × FwriteResult)) :
    reported ((len, r) :: calls) = r.count len + reported calls := by
  rw [reported, List.map_cons, List.sum_cons]
  rfl

@[simp] theorem lost_cons (len : ℕ) (r : FwriteResult) (calls : List (ℕ × FwriteResult)) :
    lost ((len, r) :: calls) = r.lost + lost calls := by
  rw [lost, List.map_cons, List.sum_cons]
  rfl

@[simp] theorem reported_append (a b : List (ℕ × FwriteResult)) :
    reported (a ++ b) = reported a + reported b := by
  rw [reported, List.map_append, List.sum_append]
  rfl

@[simp] theorem lost_append (a b : List (ℕ × FwriteResult)) :
    lost (a ++ b) = lost a + lost b := by
  rw [lost, List.map_append, List.sum_append]
  rfl

/-- Every call that has failed has reported 0. -/
def FailedEmpty (calls : List (ℕ × FwriteResult)) : Prop :=
  ∀ c ∈ calls, ∀ n, c.2 = .failed n → n = 0

theorem lost_eq_zero_iff (calls : List (ℕ × FwriteResult)) :
    lost calls = 0 ↔ FailedEmpty calls := by
  rw [lost, List.sum_eq_zero_iff, FailedEmpty, List.forall_mem_map]
  refine forall₂_congr fun c _ => ?_
  cases c.2 with
  | full => simp [FwriteResult.lost]
  | short n => simp [FwriteResult.lost]
  | failed n => simp [FwriteResult.lost]

variable {io : Results} {f f' : AppendFile} {logline : List UInt8}

/-! ## The loop -/

theorem loop_done (fuel : ℕ) (f : AppendFile) :
    loop io logline fuel f logline.length = some (f, logline.length) := by
  unfold loop
  exact if_pos rfl

/-- **The error exit**: what the call reports is in the stream, but not in `written`. -/
theorem loop_failed {written n : ℕ} (hlt : written < logline.length)
    (hr : io.fwrite_unlocked f.calls.length (logline.drop written).length = .failed n)
    (fuel : ℕ) : loop io logline (fuel + 1) f written =
      some (f.after (logline.drop written) (.failed n), written) := by
  have hlen : (logline.drop written).length = logline.length - written := List.length_drop
  have hfits : n < logline.length - written := by
    have := io.fits f.calls.length (logline.drop written).length (by omega)
    rw [hr, hlen] at this
    exact this
  rw [loop, if_neg (by omega)]
  simp only [write, hr]
  rw [if_pos ⟨Nat.ne_of_lt hfits, rfl⟩]

/-- **A round that goes on**: a call that has not failed writes something. -/
theorem loop_more {written : ℕ} {r : FwriteResult} (hlt : written < logline.length)
    (hr : io.fwrite_unlocked f.calls.length (logline.drop written).length = r)
    (hok : r.ferror = false) (fuel : ℕ) :
    loop io logline (fuel + 1) f written =
        loop io logline fuel (f.after (logline.drop written) r)
          (written + r.count (logline.drop written).length) ∧
      0 < r.count (logline.drop written).length ∧ r.lost = 0 := by
  have hlen : (logline.drop written).length = logline.length - written := List.length_drop
  have hfits := io.fits f.calls.length (logline.drop written).length (by omega)
  rw [hr] at hfits
  refine ⟨?_, ?_, ?_⟩
  · rw [loop, if_neg (by omega)]
    simp only [write, hr, hok, Bool.false_eq_true, and_false, if_false]
    rw [hlen]
  · cases r with
    | full =>
      change 0 < (logline.drop written).length
      omega
    | short n => exact hfits.1
    | failed n => cases hok
  · cases r with
    | full => rfl
    | short n => rfl
    | failed n => cases hok

/-- **The loop**, with fuel for one byte a call: what the calls report is in the stream, and
`written` is that without a call that has failed. -/
theorem loop_spec (fuel : ℕ) : ∀ {f : AppendFile} {written : ℕ}, written ≤ logline.length →
    logline.length - written ≤ fuel → ∃ calls total,
      loop io logline fuel f written =
        some (⟨f.stream ++ (logline.drop written).take (reported calls), f.writtenBytes_,
          f.calls ++ calls⟩, total) ∧
      total + lost calls = written + reported calls ∧
      written + reported calls ≤ logline.length ∧
      ((∀ c ∈ calls, c.2.ferror = false) → total = logline.length) := by
  induction fuel with
  | zero =>
    intro f written hle hfuel
    obtain rfl : written = logline.length := by omega
    exact ⟨[], logline.length, by simp [loop_done], rfl, hle, fun _ => rfl⟩
  | succ fuel ih =>
    intro f written hle hfuel
    rcases Nat.eq_or_lt_of_le hle with rfl | hlt
    · exact ⟨[], logline.length, by simp [loop_done], rfl, hle, fun _ => rfl⟩
    have hlen : (logline.drop written).length = logline.length - written := List.length_drop
    have hn := (io.fits f.calls.length (logline.drop written).length (by omega)).count_le
    obtain ⟨r, hr⟩ : ∃ r, io.fwrite_unlocked f.calls.length (logline.drop written).length = r :=
      ⟨_, rfl⟩
    rw [hr] at hn
    by_cases hok : r.ferror = false
    · obtain ⟨hround, hpos, hlost⟩ := loop_more hlt hr hok fuel
      obtain ⟨calls, total, hloop, htotal, hwithin, hall⟩ := @ih (f.after (logline.drop written) r)
        (written + r.count (logline.drop written).length) (by omega) (by omega)
      refine ⟨((logline.drop written).length, r) :: calls, total, ?_, ?_, ?_,
        fun hc => hall fun c hmem => hc c (List.mem_cons_of_mem _ hmem)⟩
      · rw [hround, hloop, reported_cons, List.take_add, List.drop_drop]
        simp [after]
      · rw [reported_cons, lost_cons]
        omega
      · rw [reported_cons]
        omega
    · obtain ⟨n, rfl⟩ : ∃ n, r = .failed n := by
        cases r with
        | full => exact absurd rfl hok
        | short n => exact absurd rfl hok
        | failed n => exact ⟨n, rfl⟩
      refine ⟨[((logline.drop written).length, .failed n)], written, ?_, ?_, ?_,
        fun hc => absurd (hc _ (List.mem_singleton_self _)) hok⟩
      · rw [loop_failed hlt hr]
        simp [after]
      · rw [reported_cons, lost_cons]
        simp [FwriteResult.count, FwriteResult.lost]
      · rw [reported_cons, reported_nil]
        omega

/-- **A call of `append`** ends. It puts as many bytes of its line behind the stream as its calls
report, and counts those that have not failed. -/
theorem append_spec (io : Results) (f : AppendFile) (logline : List UInt8) :
    ∃ calls f', append io f logline = some f' ∧
      f'.stream = f.stream ++ logline.take (reported calls) ∧
      reported calls ≤ logline.length ∧
      f'.calls = f.calls ++ calls ∧
      f'.writtenBytes_ + lost calls = f.writtenBytes_ + reported calls ∧
      ((∀ c ∈ calls, c.2.ferror = false) → lost calls = 0 ∧ reported calls = logline.length) := by
  obtain ⟨calls, total, hloop, htotal, hwithin, hall⟩ := @loop_spec io logline
    logline.length f 0 (Nat.zero_le _) (Nat.sub_le _ _)
  refine ⟨calls, ⟨f.stream ++ logline.take (reported calls), f.writtenBytes_ + total,
    f.calls ++ calls⟩, ?_, rfl, by omega, rfl, ?_, fun hc => ?_⟩
  · rw [append, hloop, List.drop_zero]
    rfl
  · dsimp only
    omega
  · have hlost : lost calls = 0 := by
      refine (lost_eq_zero_iff calls).mpr fun c hmem n hn => ?_
      have := hc c hmem
      rw [hn] at this
      cases this
    have := hall hc
    omega

/-! ## The file of `LogFile` -/

/-- The file as `LogFile` has it. -/
def Matches (f : AppendFile) (g : HighServer.AppendFile) : Prop :=
  f.stream = g.content ∧ f.writtenBytes_ = g.writtenBytes_

/-- **Without failures** a call of `append` is one of the file of `LogFile`. -/
theorem append_matches {g : HighServer.AppendFile} (h : Matches f g)
    (happ : append io f logline = some f') (hok : ∀ c ∈ f'.calls, c.2.ferror = false) :
    Matches f' (g.append logline) := by
  obtain ⟨calls, f₁, hf₁, hstream, -, hcalls, hcount, hall⟩ := append_spec io f logline
  obtain rfl := Option.some.inj (happ.symm.trans hf₁)
  obtain ⟨hlost, hfull⟩ := hall fun c hc => hok c (by rw [hcalls]; simp [hc])
  refine ⟨?_, ?_⟩
  · rw [hstream, hfull, List.take_length, h.1]
    rfl
  · have hg : (g.append logline).writtenBytes_ = g.writtenBytes_ + logline.length := rfl
    rw [hg, ← h.2]
    omega

/-! ## All calls -/

/-- What holds between the calls: the count is that of the stream, without what failed calls have
reported. -/
structure Counted (f : AppendFile) : Prop where
  stream : f.stream.length = reported f.calls
  written : f.writtenBytes_ + lost f.calls = reported f.calls

theorem counted_new : Counted new := ⟨rfl, rfl⟩

theorem append_counted (h : Counted f) (io : Results) (logline : List UInt8) :
    ∃ f' part, append io f logline = some f' ∧ part <+: logline ∧
      f'.stream = f.stream ++ part ∧ Counted f' := by
  obtain ⟨calls, f', hf', hstream, hle, hcalls, hcount, -⟩ := append_spec io f logline
  have hlen := h.stream
  have hwritten := h.written
  refine ⟨f', logline.take (reported calls), hf', List.take_prefix _ _, hstream, ⟨?_, ?_⟩⟩
  · rw [hstream, hcalls, reported_append, List.length_append, List.length_take]
    omega
  · rw [hcalls, reported_append, lost_append]
    omega

/-- Any number of calls: each ends, and leaves a prefix of its line. -/
theorem appendAll_parts (h : Counted f) (io : Results) (loglines : List (List UInt8)) :
    ∃ f' parts, appendAll io f loglines = some f' ∧ List.Forall₂ (· <+: ·) parts loglines ∧
      f'.stream = f.stream ++ parts.flatten ∧ Counted f' := by
  induction loglines generalizing f with
  | nil => exact ⟨f, [], rfl, List.Forall₂.nil, by simp, h⟩
  | cons logline loglines ih =>
    obtain ⟨g, part, hg, hpart, hstream, hcounted⟩ := append_counted h io logline
    obtain ⟨f', parts, hf', hparts, hstream', hcounted'⟩ := ih hcounted
    refine ⟨f', part :: parts, ?_, List.Forall₂.cons hpart hparts, ?_, hcounted'⟩
    · rw [appendAll, List.foldlM_cons, hg]
      exact hf'
    · rw [hstream', hstream, List.append_assoc, List.flatten_cons]

/-- **Appending to a stream.** For all lines and all results of `fwrite_unlocked`, every call of
`append` ends and leaves a prefix of its line in the stream; and `writtenBytes_` is what the calls
of `fwrite_unlocked` have reported exactly when those that failed have reported 0. -/
theorem appendAll_counted (io : Results) (loglines : List (List UInt8)) :
    ∃ f parts, appendAll io new loglines = some f ∧ List.Forall₂ (· <+: ·) parts loglines ∧
      f.stream = parts.flatten ∧ f.stream.length = reported f.calls ∧
      (f.writtenBytes_ = reported f.calls ↔ FailedEmpty f.calls) := by
  obtain ⟨f, parts, hf, hparts, hstream, hcounted⟩ := appendAll_parts counted_new io loglines
  refine ⟨f, parts, hf, hparts, hstream, hcounted.stream, ?_⟩
  have hwritten := hcounted.written
  rw [← lost_eq_zero_iff]
  omega

/-- A device with room for four bytes. -/
def fourBytes : Results where
  fwrite_unlocked i len :=
    if i = 0 then (if 4 < len then .failed 4 else .full) else (if 0 < len then .failed 0 else .full)
  fits i len h := by
    split_ifs with h₁ h₂
    · exact h₂
    · trivial
    · exact h

/-- The four bytes are in the stream, and are not counted. -/
theorem fourBytes_not_counted :
    (appendAll fourBytes new [[1, 2, 3, 4, 5, 6]]).map
      (fun f => (f.stream, reported f.calls, f.writtenBytes_)) =
        some ([1, 2, 3, 4], 4, 0) := by
  decide +kernel

end AppendFile

end HighServer.Stdio
