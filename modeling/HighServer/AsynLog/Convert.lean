import HighServer.Lib.Numeral
import HighServer.Net.Buffer

/-!
# Rendering integers

`convert` and `convertHex` of `LogStream.cpp`. `convert` takes the truncating remainders of a number
that may be negative, and looks them up in a table around its middle.

* `IntegerType`, `Value`: the types that `formatInteger` is instantiated with; `Value.div` stays in
  the type, also at its minimum;
* `rounds`, `convert`, `hexRounds`, `convertHex`: the two functions;
* `zero_tmod`: the table is mirrored; `rounds_eq`: the loop writes a numeral backwards;
* **`convert_canonical`**: canonical, invertible and short.
-/

namespace HighServer.LogStream

open Numeral

/-- The bytes of a string literal. -/
def ascii (s : String) : Bytes := s.toList.map fun c => UInt8.ofNat c.toNat

def minus : UInt8 := 45

/-! ## Integer types -/

/-- The types of `formatInteger`; `uintptr_t` is `unsigned long`. -/
inductive IntegerType where
  | int
  | unsignedInt
  | long
  | unsignedLong
  | longLong
  | unsignedLongLong
  deriving DecidableEq, Repr

namespace IntegerType

def bits : IntegerType → ℕ
  | .int | .unsignedInt => 32
  | .long | .unsignedLong | .longLong | .unsignedLongLong => 64

def signed : IntegerType → Bool
  | .int | .long | .longLong => true
  | .unsignedInt | .unsignedLong | .unsignedLongLong => false

def min (T : IntegerType) : ℤ := if T.signed then -2 ^ (T.bits - 1) else 0

def max (T : IntegerType) : ℤ := if T.signed then 2 ^ (T.bits - 1) - 1 else 2 ^ T.bits - 1

theorem min_nonpos (T : IntegerType) : T.min ≤ 0 := by cases T <;> decide

theorem max_nonneg (T : IntegerType) : 0 ≤ T.max := by cases T <;> decide

theorem natAbs_lt {T : IntegerType} {v : ℤ} (h : T.min ≤ v ∧ v ≤ T.max) : v.natAbs < 2 ^ 64 := by
  have hmin : -2 ^ 63 ≤ T.min := by cases T <;> decide
  have hmax : T.max < 2 ^ 64 := by cases T <;> decide
  omega

end IntegerType

/-- The values of a type. -/
abbrev Value (T : IntegerType) := {v : ℤ // T.min ≤ v ∧ v ≤ T.max}

variable {T : IntegerType}

theorem natAbs_tdiv_le (i : ℤ) (d : ℕ) : (i.tdiv d).natAbs = i.natAbs / d := by
  rw [Int.natAbs_tdiv]
  rfl

theorem tdiv_mem (i : Value T) (d : ℕ) : T.min ≤ i.val.tdiv d ∧ i.val.tdiv d ≤ T.max := by
  have hmin := T.min_nonpos
  have hmax := T.max_nonneg
  have hle : (i.val.tdiv d).natAbs ≤ i.val.natAbs := by
    rw [natAbs_tdiv_le]
    exact Nat.div_le_self _ _
  obtain ⟨h₁, h₂⟩ := i.property
  rcases le_total 0 i.val with hpos | hneg
  · have : 0 ≤ i.val.tdiv d := Int.tdiv_nonneg hpos (Int.natCast_nonneg d)
    omega
  · have : 0 ≤ (-i.val).tdiv d := Int.tdiv_nonneg (by omega) (Int.natCast_nonneg d)
    rw [Int.neg_tdiv] at this
    omega

/-- `i / d`, which truncates. -/
def Value.div (i : Value T) (d : ℕ) : Value T := ⟨i.val.tdiv d, tdiv_mem i d⟩

theorem natAbs_div_lt {i : Value T} {d : ℕ} (hd : 1 < d) (h : (i.div d).val ≠ 0) :
    (i.div d).val.natAbs < i.val.natAbs := by
  have hdiv : (i.div d).val.natAbs = i.val.natAbs / d := natAbs_tdiv_le _ _
  have hi : 0 < i.val.natAbs := by
    refine Nat.pos_of_ne_zero fun hzero => h ?_
    rw [hzero, Nat.zero_div] at hdiv
    exact Int.natAbs_eq_zero.mp hdiv
  rw [hdiv]
  exact Nat.div_lt_self hi hd

theorem tmod_ten_mem (i : ℤ) : -9 ≤ i.tmod 10 ∧ i.tmod 10 ≤ 9 := by
  have h : (i.tmod 10).natAbs = i.natAbs % 10 := Int.natAbs_tmod _ _
  omega

theorem tmod_sixteen_mem {i : ℤ} (hi : 0 ≤ i) : 0 ≤ i.tmod 16 ∧ i.tmod 16 ≤ 15 := by
  rw [Int.tmod_eq_emod_of_nonneg hi]
  omega

/-! ## The two functions -/

def digits : Bytes := ascii "9876543210123456789"

def digitsHex : Bytes := ascii "0123456789ABCDEF"

/-- `zero[lsd]`, where `zero` is `digits + 9`. -/
def zero (lsd : ℤ) (h : -9 ≤ lsd ∧ lsd ≤ 9) : UInt8 :=
  digits.get ⟨(9 + lsd).toNat, by
    rw [show digits.length = 19 from rfl]
    omega⟩

/-- `digitsHex[lsd]` -/
def hexDigit (lsd : ℤ) (h : 0 ≤ lsd ∧ lsd ≤ 15) : UInt8 :=
  digitsHex.get ⟨lsd.toNat, by
    rw [show digitsHex.length = 16 from rfl]
    omega⟩

/-- The loop of `convert`: the bytes stored through `p`. -/
def rounds (i : Value T) : Bytes :=
  zero (i.val.tmod 10) (tmod_ten_mem i.val) ::
    if _h : (i.div 10).val ≠ 0 then rounds (i.div 10) else []
termination_by i.val.natAbs
decreasing_by exact natAbs_div_lt (by decide) _h

/-- `convert`: the bytes from `buf` on, terminator included, and the length returned. -/
def convert (value : Value T) : Bytes × ℕ :=
  let s := rounds value
  let s := if value.val < 0 then s ++ [minus] else s
  (s.reverse ++ [0], s.length)

/-- The loop of `convertHex`. -/
def hexRounds (i : Value .unsignedLong) : Bytes :=
  hexDigit (i.val.tmod 16) (tmod_sixteen_mem i.property.1) ::
    if _h : (i.div 16).val ≠ 0 then hexRounds (i.div 16) else []
termination_by i.val.natAbs
decreasing_by exact natAbs_div_lt (by decide) _h

/-- `convertHex`, likewise. -/
def convertHex (value : Value .unsignedLong) : Bytes × ℕ :=
  let s := hexRounds value
  (s.reverse ++ [0], s.length)

/-! ## The loops write numerals -/

/-- The digit characters. -/
def digitChar (d : ℕ) : UInt8 := UInt8.ofNat (if d < 10 then 48 + d else 55 + d)

/-- **The table is mirrored** around its middle. -/
theorem zero_tmod (i : ℤ) : zero (i.tmod 10) (tmod_ten_mem i) = digitChar (i.natAbs % 10) := by
  have h : (i.tmod 10).natAbs = i.natAbs % 10 := Int.natAbs_tmod _ _
  have hall : ∀ (lsd : ℤ) (hl : -9 ≤ lsd ∧ lsd ≤ 9), zero lsd hl = digitChar lsd.natAbs := by
    rintro lsd ⟨h₁, h₂⟩
    interval_cases lsd <;> rfl
  rw [hall, h]

theorem hexDigit_tmod (i : ℤ) (hi : 0 ≤ i) :
    hexDigit (i.tmod 16) (tmod_sixteen_mem hi) = digitChar (i.natAbs % 16) := by
  have h : (i.tmod 16).natAbs = i.natAbs % 16 := Int.natAbs_tmod _ _
  have hall : ∀ (lsd : ℤ) (hl : 0 ≤ lsd ∧ lsd ≤ 15), hexDigit lsd hl = digitChar lsd.natAbs := by
    rintro lsd ⟨h₁, h₂⟩
    interval_cases lsd <;> rfl
  rw [hall, h]

/-- A loop that puts the last digit and goes on with the quotient writes the numeral backwards. -/
theorem numeral_of_quotient {b : ℕ} (hb : 1 < b) (n : ℕ) : ((numeral b n).map digitChar).reverse =
    digitChar (n % b) ::
      if n / b ≠ 0 then ((numeral b (n / b)).map digitChar).reverse else [] := by
  rcases Nat.lt_or_ge n b with h | h
  · rw [numeral_of_lt h, Nat.mod_eq_of_lt h, Nat.div_eq_of_lt h]
    simp
  · rw [numeral_of_le hb h, if_pos (Nat.div_pos h (by omega)).ne']
    simp

theorem rounds_eq (i : Value T) :
    rounds i = ((numeral 10 i.val.natAbs).map digitChar).reverse := by
  induction hn : i.val.natAbs using Nat.strong_induction_on generalizing i with
  | _ n ih =>
    subst hn
    have hdiv : (i.div 10).val.natAbs = i.val.natAbs / 10 := natAbs_tdiv_le _ _
    have hiff : (i.div 10).val ≠ 0 ↔ i.val.natAbs / 10 ≠ 0 := by omega
    rw [rounds, zero_tmod, numeral_of_quotient (by decide)]
    congr 1
    split_ifs with h₁ h₂ h₂
    · rw [ih _ (natAbs_div_lt (by decide) h₁) (i.div 10) rfl, hdiv]
    · exact absurd (hiff.mp h₁) h₂
    · exact absurd (hiff.mpr h₂) h₁
    · rfl

theorem hexRounds_eq (i : Value .unsignedLong) :
    hexRounds i = ((numeral 16 i.val.natAbs).map digitChar).reverse := by
  induction hn : i.val.natAbs using Nat.strong_induction_on generalizing i with
  | _ n ih =>
    subst hn
    have hdiv : (i.div 16).val.natAbs = i.val.natAbs / 16 := natAbs_tdiv_le _ _
    have hiff : (i.div 16).val ≠ 0 ↔ i.val.natAbs / 16 ≠ 0 := by omega
    rw [hexRounds, hexDigit_tmod _ i.property.1, numeral_of_quotient (by decide)]
    congr 1
    split_ifs with h₁ h₂ h₂
    · rw [ih _ (natAbs_div_lt (by decide) h₁) (i.div 16) rfl, hdiv]
    · exact absurd (hiff.mp h₁) h₂
    · exact absurd (hiff.mpr h₂) h₁
    · rfl

/-! ## Canonical texts -/

/-- The decimal text of a number. -/
def decimal (v : ℤ) : Bytes :=
  (if v < 0 then [minus] else []) ++ (numeral 10 v.natAbs).map digitChar

/-- The upper-case hexadecimal text of a number. -/
def hexadecimal (n : ℕ) : Bytes := (numeral 16 n).map digitChar

theorem convert_eq (value : Value T) :
    convert value = (decimal value.val ++ [0], (decimal value.val).length) := by
  unfold convert decimal
  dsimp only
  rw [rounds_eq]
  split_ifs with h
  · simp
  · simp

theorem convertHex_eq (value : Value .unsignedLong) : convertHex value =
    (hexadecimal value.val.natAbs ++ [0], (hexadecimal value.val.natAbs).length) := by
  unfold convertHex hexadecimal
  dsimp only
  rw [hexRounds_eq]
  simp

/-- The value of a decimal digit. -/
def decimalDigit (c : UInt8) : Option ℕ :=
  if 48 ≤ c.toNat ∧ c.toNat ≤ 57 then some (c.toNat - 48) else none

/-- The value of an upper-case hexadecimal digit. -/
def upperHexDigit (c : UInt8) : Option ℕ :=
  if 48 ≤ c.toNat ∧ c.toNat ≤ 57 then some (c.toNat - 48)
  else if 65 ≤ c.toNat ∧ c.toNat ≤ 70 then some (c.toNat - 55) else none

theorem decimalDigit_digitChar : ∀ d < 10, decimalDigit (digitChar d) = some d := by decide

theorem upperHexDigit_digitChar : ∀ d < 16, upperHexDigit (digitChar d) = some d := by decide

/-- Digits without leading zeros, behind a sign if the number is negative. -/
def CanonicalDecimal (v : ℤ) (s : Bytes) : Prop :=
  ∃ t, s = (if v < 0 then [minus] else []) ++ t ∧ Canonical decimalDigit t

/-- The integer that a text stands for. -/
def parseInt (s : Bytes) : Option ℤ :=
  if s.head? = some minus then (parse 10 decimalDigit s.tail).map fun n : ℕ => -(n : ℤ)
  else (parse 10 decimalDigit s).map fun n : ℕ => (n : ℤ)

theorem parseInt_decimal (v : ℤ) : parseInt (decimal v) = some v := by
  have hparse := parse_numeral (by decide) decimalDigit_digitChar v.natAbs
  unfold decimal parseInt
  split_ifs with hneg hhead hhead
  · rw [List.singleton_append, List.tail_cons, hparse, Option.map_some]
    congr 1
    omega
  · exact absurd rfl hhead
  · -- the first character is a digit
    have hdigit := (canonical_numeral (by decide) decimalDigit_digitChar v.natAbs).digit minus
      (List.mem_of_mem_head? hhead)
    exact absurd hdigit (by decide)
  · rw [List.nil_append, hparse, Option.map_some]
    congr 1
    omega

theorem length_decimal_le {v : ℤ} (h : v.natAbs < 2 ^ 64) : (decimal v).length ≤ 21 := by
  have hlen : (numeral 10 v.natAbs).length ≤ 20 :=
    length_numeral_le (by decide) (by decide) (h.trans_le (by decide))
  unfold decimal
  rw [List.length_append, List.length_map]
  split_ifs
  · rw [List.length_singleton]
    omega
  · rw [List.length_nil]
    omega

theorem length_hexadecimal_le {n : ℕ} (h : n < 2 ^ 64) : (hexadecimal n).length ≤ 16 := by
  rw [hexadecimal, List.length_map]
  exact length_numeral_le (by decide) (by decide) (h.trans_le (by decide))

/-- **Integers are rendered canonically**: for every value of every type, `convert` writes its
canonical decimal text and a terminator, which is parsed to the value, into at most 48 bytes; and
`convertHex` writes the canonical upper-case hexadecimal one into at most 46. -/
theorem convert_canonical :
    (∀ (T : IntegerType) (value : Value T), ∃ text, convert value = (text ++ [0], text.length) ∧
      CanonicalDecimal value.val text ∧ parseInt text = some value.val ∧
      (text ++ [0]).length ≤ 48) ∧
    ∀ value : Value .unsignedLong, ∃ text, convertHex value = (text ++ [0], text.length) ∧
      Canonical upperHexDigit text ∧
      (parse 16 upperHexDigit text).map (fun n : ℕ => (n : ℤ)) = some value.val ∧
      (text ++ [0]).length ≤ 46 := by
  refine ⟨fun T value => ⟨_, convert_eq value, ⟨_, rfl, ?_⟩, parseInt_decimal value.val, ?_⟩,
    fun value => ⟨_, convertHex_eq value, ?_, ?_, ?_⟩⟩
  · exact canonical_numeral (by decide) decimalDigit_digitChar value.val.natAbs
  · have := length_decimal_le (IntegerType.natAbs_lt value.property)
    rw [List.length_append, List.length_singleton]
    omega
  · exact canonical_numeral (by decide) upperHexDigit_digitChar value.val.natAbs
  · have hpos : 0 ≤ value.val := value.property.1
    rw [hexadecimal, parse_numeral (by decide) upperHexDigit_digitChar, Option.map_some]
    congr 1
    omega
  · have := length_hexadecimal_le (IntegerType.natAbs_lt value.property)
    rw [List.length_append, List.length_singleton]
    omega

/-- The minimum of `long`, which has no negation in the type. -/
example : (convert (T := .long) ⟨-2 ^ 63, by decide⟩).1 =
    ascii "-9223372036854775808" ++ [0] := by decide +kernel

end HighServer.LogStream
