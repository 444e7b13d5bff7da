import Mathlib.Data.List.Basic
import Mathlib.Order.Lex
import Mathlib.Tactic

/-!
# Ordered sets

`OrdSet α` is a strictly increasing list: the iteration order of a `std::set` and all that its
members can tell about it.

* `insert`, `erase`, `begin`, `below`, `from_`: the operations; a range erase up to
  `lower_bound(x)` takes `below x` and leaves `from_ x`;
* `mem_insert`, `mem_erase`, `mem_below`, `mem_from`: what they contain;
* `begin_le`: the first element is the least;
* **`size_eq_of_mem_iff`**: two sets whose keys correspond have the same size.
-/

structure OrdSet (α : Type*) [LinearOrder α] where
  toList : List α
  sorted : toList.Pairwise (· < ·)

namespace OrdSet

variable {α : Type*} [LinearOrder α]

instance : Membership α (OrdSet α) := ⟨fun s x => x ∈ s.toList⟩

instance (s : OrdSet α) (x : α) : Decidable (x ∈ s) := inferInstanceAs (Decidable (x ∈ s.toList))

theorem mem_def {s : OrdSet α} {x : α} : x ∈ s ↔ x ∈ s.toList := Iff.rfl

/-! ## Inserting -/

def insertList (x : α) : List α → List α
  | [] => [x]
  | y :: l => if x < y then x :: y :: l else if x = y then y :: l else y :: insertList x l

theorem mem_insertList {x y : α} {l : List α} : y ∈ insertList x l ↔ y = x ∨ y ∈ l := by
  induction l with
  | nil => simp [insertList]
  | cons z l ih =>
    rw [insertList]
    split_ifs with h1 h2
    · rw [List.mem_cons]
    · subst h2; simp
    · rw [List.mem_cons, ih, List.mem_cons]
      tauto

theorem sorted_insertList {x : α} {l : List α} (h : l.Pairwise (· < ·)) :
    (insertList x l).Pairwise (· < ·) := by
  induction l with
  | nil => exact List.pairwise_singleton _ _
  | cons z l ih =>
    obtain ⟨hz, hl⟩ := List.pairwise_cons.mp h
    rw [insertList]
    split_ifs with h1 h2
    · refine List.pairwise_cons.mpr ⟨fun y hy => ?_, h⟩
      rcases List.mem_cons.mp hy with rfl | hy
      · exact h1
      · exact h1.trans (hz y hy)
    · exact h
    · refine List.pairwise_cons.mpr ⟨fun y hy => ?_, ih hl⟩
      rcases mem_insertList.mp hy with rfl | hy
      · exact lt_of_le_of_ne (not_lt.mp h1) (Ne.symm h2)
      · exact hz y hy

/-! ## The operations -/

def empty : OrdSet α := ⟨[], List.Pairwise.nil⟩

def insert (s : OrdSet α) (x : α) : OrdSet α := ⟨insertList x s.toList, sorted_insertList s.sorted⟩

def erase (s : OrdSet α) (x : α) : OrdSet α :=
  ⟨s.toList.filter (· ≠ x), s.sorted.filter _⟩

def size (s : OrdSet α) : ℕ := s.toList.length

/-- `*begin()` -/
def begin (s : OrdSet α) : Option α := s.toList.head?

/-- The elements before `lower_bound(x)`. -/
def below (s : OrdSet α) (x : α) : List α := s.toList.takeWhile (· < x)

/-- The elements from `lower_bound(x)` on. -/
def from_ (s : OrdSet α) (x : α) : OrdSet α :=
  ⟨s.toList.dropWhile (· < x), s.sorted.sublist (List.dropWhile_sublist _)⟩

variable {s : OrdSet α} {x y : α}

@[simp] theorem not_mem_empty (x : α) : x ∉ (empty : OrdSet α) := List.not_mem_nil

theorem mem_insert : y ∈ s.insert x ↔ y = x ∨ y ∈ s := mem_insertList

theorem mem_erase : y ∈ s.erase x ↔ y ≠ x ∧ y ∈ s := by
  rw [mem_def, erase, List.mem_filter, mem_def, and_comm, decide_eq_true_iff]

/-- A new element goes somewhere into the list. -/
theorem insertList_perm {l : List α} (h : x ∉ l) : (insertList x l).Perm (x :: l) := by
  induction l with
  | nil => exact List.Perm.refl _
  | cons z l ih =>
    obtain ⟨hne, hl⟩ := not_or.mp (fun hor => h (List.mem_cons.mpr hor))
    rw [insertList]
    split_ifs
    · exact List.Perm.refl _
    · exact ((ih hl).cons z).trans (List.Perm.swap x z l)

theorem insert_perm (h : x ∉ s) : (s.insert x).toList.Perm (x :: s.toList) := insertList_perm h

theorem nodup (s : OrdSet α) : s.toList.Nodup := s.sorted.imp fun h => ne_of_lt h

theorem erase_perm (h : x ∈ s) : s.toList.Perm (x :: (s.erase x).toList) := by
  have he : (s.erase x).toList = s.toList.erase x := by
    rw [erase, List.Nodup.erase_eq_filter s.nodup]
    exact List.filter_congr fun y _ => by by_cases hy : y = x <;> simp [hy]
  rw [he]
  exact List.perm_cons_erase h

/-! ## The least element -/

theorem begin_mem (h : s.begin = some x) : x ∈ s := List.mem_of_head? h

theorem begin_le (h : s.begin = some x) (hy : y ∈ s) : x ≤ y := by
  obtain ⟨l, hs⟩ := s
  cases l with
  | nil => exact absurd h (by simp [begin])
  | cons z l =>
    obtain rfl := Option.some.inj h
    rcases List.mem_cons.mp hy with rfl | hy
    · exact le_rfl
    · exact ((List.pairwise_cons.mp hs).1 y hy).le

theorem begin_eq_none_iff : s.begin = none ↔ ∀ x, x ∉ s := by
  rw [begin, List.head?_eq_none_iff]
  exact List.eq_nil_iff_forall_not_mem

/-! ## Below a bound -/

theorem below_append_from (s : OrdSet α) (x : α) : s.below x ++ (s.from_ x).toList = s.toList :=
  List.takeWhile_append_dropWhile

theorem mem_below : y ∈ s.below x ↔ y ∈ s ∧ y < x := by
  obtain ⟨l, hs⟩ := s
  rw [mem_def, below]
  induction l with
  | nil => simp
  | cons z l ih =>
    obtain ⟨hz, hl⟩ := List.pairwise_cons.mp hs
    by_cases hzx : z < x
    · rw [List.takeWhile_cons_of_pos (by simpa using hzx), List.mem_cons, ih hl, List.mem_cons]
      constructor
      · rintro (rfl | ⟨h1, h2⟩)
        · exact ⟨Or.inl rfl, hzx⟩
        · exact ⟨Or.inr h1, h2⟩
      · rintro ⟨rfl | h1, h2⟩
        · exact Or.inl rfl
        · exact Or.inr ⟨h1, h2⟩
    · rw [List.takeWhile_cons_of_neg (by simpa using hzx)]
      refine iff_of_false List.not_mem_nil ?_
      rintro ⟨h1, h2⟩
      rcases List.mem_cons.mp h1 with rfl | h1
      · exact hzx h2
      · exact hzx ((hz y h1).trans h2)

theorem mem_from : y ∈ s.from_ x ↔ y ∈ s ∧ ¬ y < x := by
  have hmem : y ∈ s ↔ y ∈ s.below x ∨ y ∈ s.from_ x := by
    rw [mem_def, ← below_append_from s x, List.mem_append]
    rfl
  have hdisj : y ∈ s.below x → y ∉ s.from_ x := fun h1 h2 => by
    have hn := s.nodup
    rw [← below_append_from s x] at hn
    exact (List.disjoint_of_nodup_append hn) h1 h2
  constructor
  · intro h
    exact ⟨hmem.mpr (Or.inr h), fun hlt =>
      hdisj (mem_below.mpr ⟨hmem.mpr (Or.inr h), hlt⟩) h⟩
  · rintro ⟨hs, hlt⟩
    exact (hmem.mp hs).resolve_left fun hb => hlt (mem_below.mp hb).2

theorem below_sorted (s : OrdSet α) (x : α) : (s.below x).Pairwise (· < ·) :=
  s.sorted.sublist (List.takeWhile_sublist _)

/-! ## Sizes -/

/-- Two sets with the same keys, each of them once, have the same size. -/
theorem size_eq_of_mem_iff {β κ : Type*} [LinearOrder β] {t : OrdSet β} (f : α → κ) (g : β → κ)
    (hf : ∀ x ∈ s, ∀ y ∈ s, f x = f y → x = y) (hg : ∀ x ∈ t, ∀ y ∈ t, g x = g y → x = y)
    (h : ∀ k, (∃ x ∈ s, f x = k) ↔ ∃ y ∈ t, g y = k) : s.size = t.size := by
  have hs : (s.toList.map f).Nodup := s.nodup.map_on hf
  have ht : (t.toList.map g).Nodup := t.nodup.map_on hg
  have hp : (s.toList.map f).Perm (t.toList.map g) :=
    (List.perm_ext_iff_of_nodup hs ht).mpr fun k => by
      rw [List.mem_map, List.mem_map]
      exact h k
  simpa [size] using hp.length_eq

end OrdSet
