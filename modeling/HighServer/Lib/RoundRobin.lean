import Mathlib.Data.List.Basic
import Mathlib.Data.List.Perm.Basic
import Mathlib.Tactic

/-!
# A queue that is served in turn

The first of a queue are served and go behind the others; who is new comes last, and who has nothing
to wait for leaves. The place of one that waits is `q.idxOf x`.

* `settle`: one comes, stays or leaves; `mem_settle_iff`, `nodup_settle`, `idxOf_settle_le`;
* `turn`: a batch is served; `mem_turn_iff`, `nodup_turn`;
* **`idxOf_turn`**: who is not served moves on by the size of the batch.
-/

namespace RoundRobin

variable {α : Type*} [DecidableEq α] {q : List α} {x y : α} {n : ℕ}

/-- `x` waits in the queue, or does not. -/
def settle (waits : Bool) (x : α) (q : List α) : List α :=
  if waits then (if x ∈ q then q else q ++ [x]) else q.erase x

theorem mem_settle_iff (hq : q.Nodup) {waits : Bool} :
    y ∈ settle waits x q ↔ if y = x then waits = true else y ∈ q := by
  unfold settle
  cases waits with
  | true =>
    by_cases hx : x ∈ q <;> by_cases hy : y = x <;> simp [hx, hy]
  | false =>
    by_cases hy : y = x
    · simp [hy, hq.not_mem_erase]
    · simp [hy, List.mem_erase_of_ne hy]

theorem nodup_settle (hq : q.Nodup) (waits : Bool) (x : α) : (settle waits x q).Nodup := by
  unfold settle
  split_ifs with hw hx
  · exact hq
  · exact hq.append (List.nodup_singleton x) (by simpa using hx)
  · exact hq.erase x

theorem idxOf_erase_le (h : y ≠ x) (q : List α) : (q.erase x).idxOf y ≤ q.idxOf y := by
  induction q with
  | nil => exact le_rfl
  | cons z q ih =>
    rw [List.erase_cons]
    by_cases hz : z = x
    · rw [if_pos (beq_iff_eq.mpr hz), List.idxOf_cons_ne _ (by rw [hz]; exact h.symm)]
      exact Nat.le_succ _
    · rw [if_neg (by simpa using hz)]
      by_cases hzy : z = y
      · rw [hzy, List.idxOf_cons_self]
        exact Nat.zero_le _
      · rw [List.idxOf_cons_ne _ hzy, List.idxOf_cons_ne _ hzy]
        exact Nat.succ_le_succ ih

/-- Nobody is overtaken by one that comes, or kept back by one that leaves. -/
theorem idxOf_settle_le (hq : q.Nodup) {waits : Bool} (hy : y ∈ q) (hy' : y ∈ settle waits x q) :
    (settle waits x q).idxOf y ≤ q.idxOf y := by
  unfold settle at hy' ⊢
  split_ifs at hy' ⊢ with hw hx
  · exact le_rfl
  · rw [List.idxOf_append_of_mem hy]
  · exact idxOf_erase_le (fun h => hq.not_mem_erase (h ▸ hy')) q

/-- The first `n` are served. -/
def turn (n : ℕ) (q : List α) : List α := q.drop n ++ q.take n

omit [DecidableEq α] in
theorem turn_perm (n : ℕ) (q : List α) : (turn n q).Perm q :=
  List.perm_append_comm.trans (by rw [List.take_append_drop])

omit [DecidableEq α] in
theorem mem_turn_iff : x ∈ turn n q ↔ x ∈ q := (turn_perm n q).mem_iff

omit [DecidableEq α] in
theorem nodup_turn (hq : q.Nodup) (n : ℕ) : (turn n q).Nodup := (turn_perm n q).nodup_iff.mpr hq

/-- **One turn** of who is not served. -/
theorem idxOf_turn (hx : x ∈ q) (hn : x ∉ q.take n) : (turn n q).idxOf x + n = q.idxOf x := by
  have hdrop : x ∈ q.drop n := by
    rw [← List.take_append_drop n q] at hx
    exact (List.mem_append.mp hx).resolve_left hn
  have hlen : (q.take n).length = n := by
    rw [List.length_take]
    have := List.length_pos_of_mem hdrop
    rw [List.length_drop] at this
    omega
  rw [turn, List.idxOf_append_of_mem hdrop]
  conv_rhs => rw [← List.take_append_drop n q, List.idxOf_append_of_notMem hn, hlen]
  omega

end RoundRobin
