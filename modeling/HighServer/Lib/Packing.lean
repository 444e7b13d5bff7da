import Mathlib.Data.List.Basic
import Mathlib.Tactic

/-!
# Whole items packed into chunks

`Packs items chunks`: the chunks are the items one after the other, cut only between two items.

* `Packs.fill`, `Packs.open_chunk`: an item is put into the last chunk, or into a new one;
* `Packs.trans`, `Packs.of_append`: chunks that are packed again, and the first of them;
* **`Packs.flatten_eq`**: nothing is lost, added or reordered.
-/

namespace Packing

variable {α : Type*}

/-- Every chunk is made of whole items, and the items come in order. -/
def Packs (items chunks : List (List α)) : Prop :=
  ∃ groups : List (List (List α)), groups.flatten = items ∧ groups.map List.flatten = chunks

variable {items chunks : List (List α)}

theorem packs_empty : Packs ([] : List (List α)) [[]] := ⟨[[]], rfl, rfl⟩

theorem Packs.flatten_eq (h : Packs items chunks) : chunks.flatten = items.flatten := by
  obtain ⟨groups, rfl, rfl⟩ := h
  rw [List.flatten_flatten]

/-- A new, empty last chunk. -/
theorem Packs.open_chunk (h : Packs items chunks) : Packs items (chunks ++ [[]]) := by
  obtain ⟨groups, rfl, rfl⟩ := h
  exact ⟨groups ++ [[]], by simp, by simp⟩

/-- An item is put behind those of the last chunk. -/
theorem Packs.fill {chunk : List α} (h : Packs items (chunks ++ [chunk])) (item : List α) :
    Packs (items ++ [item]) (chunks ++ [chunk ++ item]) := by
  obtain ⟨groups, rfl, hmap⟩ := h
  obtain ⟨front, last, rfl, hfront, hlast⟩ := List.map_eq_append_iff.mp hmap
  obtain ⟨group, rfl, rfl⟩ := List.map_eq_singleton_iff.mp hlast
  refine ⟨front ++ [group ++ [item]], by simp, ?_⟩
  rw [List.map_append, hfront]
  simp

/-- Chunks that are packed again. -/
theorem Packs.trans {boxes : List (List α)} (h : Packs items chunks) (h' : Packs chunks boxes) :
    Packs items boxes := by
  obtain ⟨groups, rfl, hgroups⟩ := h
  obtain ⟨rows, rfl, rfl⟩ := h'
  induction rows generalizing groups with
  | nil => exact ⟨[], by simp [List.map_eq_nil_iff.mp hgroups], rfl⟩
  | cons row rows ih =>
    obtain ⟨front, rest, rfl, hfront, hrest⟩ := List.map_eq_append_iff.mp hgroups
    obtain ⟨boxed, hboxed, hmap⟩ := ih rest hrest
    refine ⟨front.flatten :: boxed, ?_, ?_⟩
    · rw [List.flatten_cons, hboxed, List.flatten_append]
    · rw [List.map_cons, hmap, List.flatten_flatten, hfront, List.map_cons]

/-- The first chunks pack the first items. -/
theorem Packs.of_append {more : List (List α)} (h : Packs items (chunks ++ more)) :
    ∃ n, Packs (items.take n) chunks := by
  obtain ⟨groups, rfl, hmap⟩ := h
  obtain ⟨front, rest, rfl, hfront, -⟩ := List.map_eq_append_iff.mp hmap
  refine ⟨front.flatten.length, front, ?_, hfront⟩
  rw [List.flatten_append, List.take_left']
  rfl

end Packing
