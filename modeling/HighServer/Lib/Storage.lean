import Mathlib.Data.List.Basic
import Mathlib.Tactic

/-!
# Flat storage: slices, block writes and copies within one array

A block of memory is a list of cells. `slice l i j` reads the cells `i, …, j - 1`, `blit l i d`
writes the block `d` from cell `i` on, and `copyWithin l src dst n` copies `n` cells one by one,
from the front, as a forward copy loop does.

* `getElem?_slice`, `getElem?_blit`: both operations cell by cell;
* `slice_blit_self`, `slice_blit_left`, `slice_blit_right`: what a slice of a written array is;
* **`copyWithin_eq_blit`**: a forward copy to a lower or equal address is a block write of the
  old cells, also where the two ranges overlap;
* `take_replicate_append_eq_iff`: the lists that a shift leaves as they are.
-/

namespace Storage

variable {α : Type*}

/-- The cells `i, …, j - 1`. -/
def slice (l : List α) (i j : ℕ) : List α := (l.take j).drop i

/-- Write the block `d` over the cells from `i` on. -/
def blit (l : List α) (i : ℕ) (d : List α) : List α := l.take i ++ d ++ l.drop (i + d.length)

/-- Cut the array to `n` cells, or fill it up with `z`. -/
def resize (l : List α) (n : ℕ) (z : α) : List α := l.take n ++ List.replicate (n - l.length) z

/-- Copy `n` cells from `src` to `dst`, one by one from the front. -/
def copyWithin (l : List α) (src dst : ℕ) : ℕ → List α
  | 0 => l
  | n + 1 =>
    match l[src]? with
    | some x => copyWithin (l.set dst x) (src + 1) (dst + 1) n
    | none => l

/-! ## Cell by cell -/

theorem getElem?_slice (l : List α) (i j k : ℕ) :
    (slice l i j)[k]? = if i + k < j then l[i + k]? else none := by
  rw [slice, List.getElem?_drop, List.getElem?_take]

theorem getElem?_blit {l : List α} {i : ℕ} {d : List α} (h : i + d.length ≤ l.length) (k : ℕ) :
    (blit l i d)[k]? =
      if k < i then l[k]? else if k < i + d.length then d[k - i]? else l[k]? := by
  have hi : min i l.length = i := by omega
  rw [blit, List.append_assoc, List.getElem?_append, List.length_take, hi]
  split_ifs with h1 h2
  · rw [List.getElem?_take, if_pos h1]
  · rw [List.getElem?_append_left (by omega)]
  · rw [List.getElem?_append_right (by omega), List.getElem?_drop]
    congr 1
    omega

@[simp] theorem length_slice (l : List α) (i j : ℕ) :
    (slice l i j).length = min j l.length - i := by
  simp [slice]

@[simp] theorem length_blit {l : List α} {i : ℕ} {d : List α} (h : i + d.length ≤ l.length) :
    (blit l i d).length = l.length := by
  simp only [blit, List.length_append, List.length_take, List.length_drop]
  omega

@[simp] theorem length_resize (l : List α) (n : ℕ) (z : α) : (resize l n z).length = n := by
  simp only [resize, List.length_append, List.length_take, List.length_replicate]
  omega

/-! ## Slices -/

@[simp] theorem slice_self (l : List α) (i : ℕ) : slice l i i = [] := by
  simp [slice]

theorem slice_append_slice {l : List α} {i j k : ℕ} (hij : i ≤ j) (hjk : j ≤ k) :
    slice l i j ++ slice l j k = slice l i k := by
  have h : l.take j = (l.take k).take j := by rw [List.take_take, Nat.min_eq_left hjk]
  rw [slice, slice, slice, h, ← List.drop_take_append_drop (l.take k) i (j - i)]
  rw [List.drop_take, Nat.add_sub_cancel' hij]

theorem take_slice {l : List α} {i j n : ℕ} (h : i + n ≤ j) :
    (slice l i j).take n = slice l i (i + n) := by
  rw [slice, slice, List.take_drop, List.take_take, Nat.min_eq_left h]

theorem drop_slice (l : List α) (i j n : ℕ) : (slice l i j).drop n = slice l (i + n) j := by
  rw [slice, slice, List.drop_drop]

theorem slice_resize {l : List α} {i j n : ℕ} (z : α) (hj : j ≤ l.length) (hn : j ≤ n) :
    slice (resize l n z) i j = slice l i j := by
  rw [slice, slice, resize, List.take_append_of_le_length (by rw [List.length_take]; omega),
    List.take_take, Nat.min_eq_left hn]

/-! ## Slices of a written array -/

theorem slice_blit_self {l : List α} {i : ℕ} {d : List α} (h : i + d.length ≤ l.length) :
    slice (blit l i d) i (i + d.length) = d := by
  refine List.ext_getElem? fun k => ?_
  rw [getElem?_slice, getElem?_blit h]
  split_ifs with h1 h2
  · omega
  · rw [Nat.add_sub_cancel_left]
  · exact (List.getElem?_eq_none (by omega)).symm

theorem slice_blit_left {l : List α} {i j k : ℕ} {d : List α} (h : i + d.length ≤ l.length)
    (hj : j ≤ i) : slice (blit l i d) k j = slice l k j := by
  refine List.ext_getElem? fun n => ?_
  rw [getElem?_slice, getElem?_slice, getElem?_blit h]
  split_ifs with h1 h2
  · rfl
  · omega
  · omega
  · rfl

theorem slice_blit_right {l : List α} {i j k : ℕ} {d : List α} (h : i + d.length ≤ l.length)
    (hk : i + d.length ≤ k) : slice (blit l i d) k j = slice l k j := by
  refine List.ext_getElem? fun n => ?_
  rw [getElem?_slice, getElem?_slice, getElem?_blit h]
  split_ifs with h1 h2
  · omega
  · omega
  · rfl
  · rfl

/-! ## Copying within the array -/

theorem set_eq_blit {l : List α} {i : ℕ} (h : i < l.length) (x : α) : l.set i x = blit l i [x] := by
  rw [blit, List.set_eq_take_append_cons_drop, if_pos h, List.append_assoc]
  rfl

theorem blit_nil (l : List α) (i : ℕ) : blit l i [] = l := by
  simp [blit]

theorem blit_blit_succ {l : List α} {i : ℕ} {x : α} {d : List α}
    (h : i + 1 + d.length ≤ l.length) :
    blit (blit l i [x]) (i + 1) d = blit l i (x :: d) := by
  have h1 : i + [x].length ≤ l.length := by simp only [List.length_singleton]; omega
  have h2 : i + 1 + d.length ≤ (blit l i [x]).length := by rw [length_blit h1]; exact h
  have h3 : i + (x :: d).length ≤ l.length := by simp only [List.length_cons]; omega
  refine List.ext_getElem? fun k => ?_
  rw [getElem?_blit h2, getElem?_blit h1, getElem?_blit h3]
  simp only [List.length_cons, List.length_nil]
  by_cases hk : k = i
  · subst hk; simp
  · split_ifs <;> first
      | rfl
      | omega
      | (rw [show k - i = (k - (i + 1)) + 1 by omega, List.getElem?_cons_succ])

@[simp] theorem length_copyWithin (n : ℕ) : ∀ (l : List α) (src dst : ℕ),
    (copyWithin l src dst n).length = l.length := by
  induction n with
  | zero => intro l src dst; rfl
  | succ n ih =>
    intro l src dst
    unfold copyWithin
    split
    · rw [ih, List.length_set]
    · rfl

/-- **A forward copy to a lower or equal address is a block write of the old cells.** -/
theorem copyWithin_eq_blit {n : ℕ} : ∀ {l : List α} {src dst : ℕ}, dst ≤ src →
    src + n ≤ l.length → copyWithin l src dst n = blit l dst (slice l src (src + n)) := by
  induction n with
  | zero => intro l src dst _ _; rw [copyWithin, Nat.add_zero, slice_self, blit_nil]
  | succ n ih =>
    intro l src dst hd hl
    have hx : l[src]? = some l[src] := List.getElem?_eq_getElem (by omega)
    have hdst : dst < l.length := by omega
    have h1 : dst + [l[src]].length ≤ l.length := by simp only [List.length_singleton]; omega
    -- the cell just written lies below every cell still to be read
    have hs : slice (l.set dst l[src]) (src + 1) (src + 1 + n) =
        slice l (src + 1) (src + 1 + n) := by
      rw [set_eq_blit hdst]
      exact slice_blit_right h1 (by simp only [List.length_singleton]; omega)
    have hcons : slice l src (src + (n + 1)) = l[src] :: slice l (src + 1) (src + 1 + n) := by
      rw [← slice_append_slice (Nat.le_succ src) (by omega : src + 1 ≤ src + (n + 1)),
        show src + (n + 1) = src + 1 + n by omega]
      rw [show slice l src (src + 1) = [l[src]] from ?_, List.singleton_append]
      rw [slice, List.drop_take, Nat.add_sub_cancel_left, List.drop_eq_getElem_cons (by omega),
        List.take_succ_cons, List.take_zero]
    simp only [copyWithin, hx]
    rw [ih (Nat.succ_le_succ hd) (by rw [List.length_set]; omega), hs, set_eq_blit hdst,
      blit_blit_succ (by rw [length_slice]; omega), hcons]

/-! ## Shifting -/

/-- **A list that is its own shift** behind `k` copies of `z` consists of `z`. -/
theorem take_replicate_append_eq_iff {k : ℕ} {z : α} {l : List α} :
    (List.replicate k z ++ l).take l.length = l ↔ k = 0 ∨ ∀ x ∈ l, x = z := by
  constructor
  · intro h
    refine or_iff_not_imp_left.mpr fun hk => ?_
    -- every cell is the one `k` places before it, or `z`
    have hcell : ∀ i (hi : i < l.length), l[i] = z := by
      intro i
      induction i using Nat.strong_induction_on with
      | _ i ih =>
        intro hi
        have hget : ((List.replicate k z ++ l).take l.length)[i]? = l[i]? := by rw [h]
        rw [List.getElem?_take, if_pos hi, List.getElem?_append, List.length_replicate,
          List.getElem?_eq_getElem hi] at hget
        split_ifs at hget with hik
        · rw [List.getElem?_replicate, if_pos hik] at hget
          exact (Option.some.inj hget).symm
        · rw [List.getElem?_eq_getElem (by omega)] at hget
          rw [← Option.some.inj hget]
          exact ih (i - k) (by omega) (by omega)
    intro x hx
    obtain ⟨i, hi, rfl⟩ := List.getElem_of_mem hx
    exact hcell i hi
  · rintro (rfl | h)
    · simp
    · rw [List.eq_replicate_of_mem h]
      simp

end Storage
