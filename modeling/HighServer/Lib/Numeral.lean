import Mathlib.Data.Nat.Digits.Lemmas
import Mathlib.Tactic

/-!
# Numerals

The digits of a natural number in a base `b`, the most significant first, and texts in an alphabet
of digits.

* `numeral`: `numeral_of_lt`, `numeral_of_le` are its recursion on the quotient;
* `length_numeral_le`: how long it is;
* `Canonical`: a text that is not empty, of digits only, with a leading zero only if it is alone;
* `parse`: the number that a text stands for;
* **`canonical_numeral`**, **`parse_numeral`**: a numeral in an alphabet is canonical, and is parsed
  to its number.
-/

namespace Numeral

/-- The digits of `n`, the most significant first; a single one for 0. -/
def numeral (b n : ℕ) : List ℕ := if n = 0 then [0] else (Nat.digits b n).reverse

variable {b n : ℕ}

theorem numeral_of_lt (h : n < b) : numeral b n = [n] := by
  unfold numeral
  split_ifs with hn
  · rw [hn]
  · rw [Nat.digits_of_lt b n hn h, List.reverse_singleton]

theorem numeral_of_le (hb : 1 < b) (h : b ≤ n) : numeral b n = numeral b (n / b) ++ [n % b] := by
  have hn : n ≠ 0 := by omega
  have hq : n / b ≠ 0 := (Nat.div_pos h (by omega)).ne'
  rw [numeral, if_neg hn, numeral, if_neg hq, Nat.digits_def' hb (Nat.pos_of_ne_zero hn),
    List.reverse_cons]

theorem numeral_ne_nil : numeral b n ≠ [] := by
  unfold numeral
  split_ifs with hn
  · exact List.cons_ne_nil 0 []
  · rw [Ne, List.reverse_eq_nil_iff, Nat.digits_eq_nil_iff_eq_zero]
    exact hn

theorem lt_of_mem_numeral (hb : 1 < b) {d : ℕ} (hd : d ∈ numeral b n) : d < b := by
  unfold numeral at hd
  split_ifs at hd with hn
  · rw [List.mem_singleton.mp hd]
    omega
  · exact Nat.digits_lt_base hb (List.mem_reverse.mp hd)

theorem length_numeral_le (hb : 1 < b) {k : ℕ} (hk : 0 < k) (h : n < b ^ k) :
    (numeral b n).length ≤ k := by
  unfold numeral
  split_ifs with hn
  · exact hk
  · rw [List.length_reverse]
    exact (Nat.digits_length_le_iff hb n).mpr h

/-- A leading zero stands alone. -/
theorem head_numeral (h : (numeral b n).head? = some 0) : n = 0 := by
  by_contra hn
  rw [numeral, if_neg hn, List.head?_reverse,
    List.getLast?_eq_some_getLast (Nat.digits_ne_nil_iff_ne_zero.mpr hn)] at h
  exact Nat.getLast_digit_ne_zero b hn (Option.some.inj h)

/-! ## Texts -/

variable {α : Type*}

/-- A text of digits without leading zeros. -/
structure Canonical (digitOf : α → Option ℕ) (s : List α) : Prop where
  ne_nil : s ≠ []
  digit : ∀ c ∈ s, (digitOf c).isSome = true
  head : s.head?.bind digitOf = some 0 → s.length = 1

/-- The number that a text stands for. -/
def parse (b : ℕ) (digitOf : α → Option ℕ) (s : List α) : Option ℕ :=
  if s.isEmpty then none else s.foldlM (fun v c => (digitOf c).map (b * v + ·)) 0

variable {digitOf : α → Option ℕ} {alphabet : ℕ → α}

/-- **A numeral is canonical.** -/
theorem canonical_numeral (hb : 1 < b) (ha : ∀ d < b, digitOf (alphabet d) = some d) (n : ℕ) :
    Canonical digitOf ((numeral b n).map alphabet) where
  ne_nil := by
    rw [Ne, List.map_eq_nil_iff]
    exact numeral_ne_nil
  digit c hc := by
    obtain ⟨d, hd, rfl⟩ := List.mem_map.mp hc
    rw [ha d (lt_of_mem_numeral hb hd)]
    rfl
  head h := by
    obtain ⟨d, l, hl⟩ := List.exists_cons_of_ne_nil (numeral_ne_nil (b := b) (n := n))
    have hd : d < b := lt_of_mem_numeral (n := n) hb (by rw [hl]; exact List.mem_cons_self)
    rw [hl, List.map_cons, List.head?_cons, Option.bind_some, ha d hd] at h
    have hzero : n = 0 := head_numeral (b := b) (by rw [hl, List.head?_cons, h])
    rw [hzero]
    rfl

theorem foldlM_alphabet (ha : ∀ d < b, digitOf (alphabet d) = some d) {l : List ℕ}
    (hl : ∀ d ∈ l, d < b) (v : ℕ) :
    (l.map alphabet).foldlM (fun v c => (digitOf c).map (b * v + ·)) v =
      some (l.foldl (fun v d => b * v + d) v) := by
  induction l generalizing v with
  | nil => rfl
  | cons d l ih =>
    rw [List.map_cons, List.foldlM_cons, ha d (hl d List.mem_cons_self), List.foldl_cons]
    exact ih (fun e he => hl e (List.mem_cons_of_mem d he)) (b * v + d)

theorem foldl_numeral (b n : ℕ) : (numeral b n).foldl (fun v d => b * v + d) 0 = n := by
  unfold numeral
  split_ifs with hn
  · rw [hn]
    simp
  · rw [List.foldl_reverse]
    conv_rhs => rw [← Nat.ofDigits_digits b n, Nat.ofDigits_eq_foldr]
    simp only [Nat.cast_id, add_comm]

/-- **A numeral is parsed to its number.** -/
theorem parse_numeral (hb : 1 < b) (ha : ∀ d < b, digitOf (alphabet d) = some d) (n : ℕ) :
    parse b digitOf ((numeral b n).map alphabet) = some n := by
  have hne : ((numeral b n).map alphabet).isEmpty = false :=
    List.isEmpty_eq_false_iff.mpr (canonical_numeral hb ha n).ne_nil
  rw [parse, hne, if_neg (by decide), foldlM_alphabet ha fun d hd => lt_of_mem_numeral hb hd,
    foldl_numeral]

end Numeral
