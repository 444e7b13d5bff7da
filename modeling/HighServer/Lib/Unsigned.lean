import Mathlib.Tactic

/-!
# Unsigned arithmetic modulo `m`

The sums and differences of an unsigned machine type with `m` values, on natural numbers.

* `add_of_lt`, `add_of_le`: a sum that fits, and one that wraps around;
* **`add_lt_left_iff`**: a sum has wrapped around exactly when it lies below its operands;
* `sub_of_le`: a difference that does not wrap around.
-/

namespace Unsigned

variable {m a b : ℕ}

def add (m a b : ℕ) : ℕ := (a + b) % m

/-- For `b ≤ m`. -/
def sub (m a b : ℕ) : ℕ := (a + (m - b)) % m

theorem add_of_lt (h : a + b < m) : add m a b = a + b := Nat.mod_eq_of_lt h

theorem add_of_le (ha : a < m) (hb : b < m) (h : m ≤ a + b) : add m a b = a + b - m := by
  rw [add, Nat.mod_eq_sub_mod h, Nat.mod_eq_of_lt (by omega)]

/-- **The test for an overflow.** -/
theorem add_lt_left_iff (ha : a < m) (hb : b < m) : add m a b < a ↔ m ≤ a + b := by
  constructor
  · intro h
    by_contra hlt
    rw [add_of_lt (not_le.mp hlt)] at h
    omega
  · intro h
    rw [add_of_le ha hb h]
    omega

theorem sub_of_le (ha : a < m) (h : b ≤ a) : sub m a b = a - b := by
  rw [sub, show a + (m - b) = a - b + m by omega, Nat.add_mod_right, Nat.mod_eq_of_lt (by omega)]

end Unsigned
