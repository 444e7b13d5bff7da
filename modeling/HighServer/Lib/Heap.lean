import Mathlib.Data.List.Basic
import Mathlib.Logic.Function.Basic
import Mathlib.Tactic

/-!
# A heap and its owners

`heap a` is the object at the address `a`, if there is one. `Owns heap l` says that the addresses
in `l` are the ones in use, each of them owned once: nothing is leaked, and nothing is freed twice.

* `Owns.perm`, `Owns.alloc`, `Owns.free`, `Owns.store`: how owners and heap change together.
-/

namespace Heap

variable {α β : Type*}

/-- Each address in use has exactly one owner in `l`. -/
structure Owns (heap : α → Option β) (l : List α) : Prop where
  nodup : l.Nodup
  mem_iff : ∀ a, a ∈ l ↔ ∃ b, heap a = some b

variable {heap : α → Option β} {l l' : List α} {a : α} {b : β}

theorem owns_empty : Owns (fun _ : α => (none : Option β)) [] where
  nodup := List.nodup_nil
  mem_iff a := by simp

theorem Owns.perm (h : Owns heap l) (hp : l.Perm l') : Owns heap l' where
  nodup := hp.nodup_iff.mp h.nodup
  mem_iff a := hp.mem_iff.symm.trans (h.mem_iff a)

theorem Owns.live (h : Owns heap l) (ha : a ∈ l) : ∃ b, heap a = some b := (h.mem_iff a).mp ha

variable [DecidableEq α]

theorem Owns.alloc (h : Owns heap l) (ha : heap a = none) (b : β) :
    Owns (Function.update heap a (some b)) (a :: l) where
  nodup := List.nodup_cons.mpr ⟨fun hm => by
    obtain ⟨c, hc⟩ := h.live hm
    rw [ha] at hc
    exact absurd hc (by simp), h.nodup⟩
  mem_iff c := by
    by_cases hc : c = a
    · subst hc; simp
    · rw [List.mem_cons, Function.update_of_ne hc, ← h.mem_iff c]
      exact or_iff_right hc

theorem Owns.free (h : Owns heap (a :: l)) : Owns (Function.update heap a none) l where
  nodup := (List.nodup_cons.mp h.nodup).2
  mem_iff c := by
    by_cases hc : c = a
    · subst hc
      simpa using (List.nodup_cons.mp h.nodup).1
    · rw [Function.update_of_ne hc, ← h.mem_iff c, List.mem_cons]
      exact (or_iff_right hc).symm

theorem Owns.store (h : Owns heap l) (ha : a ∈ l) (b : β) :
    Owns (Function.update heap a (some b)) l where
  nodup := h.nodup
  mem_iff c := by
    by_cases hc : c = a
    · subst hc; simpa using ha
    · rw [Function.update_of_ne hc, ← h.mem_iff c]

end Heap
