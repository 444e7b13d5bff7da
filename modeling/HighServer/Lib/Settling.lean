import HighServer.Lib.Runs
import Mathlib.Algebra.BigOperators.Group.Finset.Basic
import Mathlib.Data.Fintype.BigOperators
import Mathlib.Tactic

/-!
# Systems that settle

Some steps of a system come from outside, and the others work off what has come. When each of the
others lets a potential go down, and one of them is possible as long as something is left to do,
then the system settles, in whatever order they come.

* `Settles`: runs of such steps are bounded, and end where nothing is left;
* `Run.length_add_le`: the potential bounds them; **`settles_of_potential`**: the rule;
* `Settles.reaches`: such a state can be reached;
* `sum_update_add`: the potential of a system with many parts, when one of them changes.
-/

namespace Runs

variable {σ ε : Type*} {step : σ → ε → Option σ} {I : σ → ε → Prop} {Q : σ → Prop} {N : ℕ}
  {s t : σ} {es : List ε}

/-- Runs of steps with `I` are at most `N` long, and go on up to `Q`. -/
def Settles (step : σ → ε → Option σ) (I : σ → ε → Prop) (Q : σ → Prop) (N : ℕ) (s : σ) : Prop :=
  ∀ es t, Run step s es t → Along step I s es →
    es.length ≤ N ∧ (Q t ∨ ∃ e u, I t e ∧ step t e = some u)

/-- What a run takes off the potential. -/
theorem Run.length_add_le {P : σ → Prop} {φ : σ → ℕ}
    (hP : ∀ s e s', P s → I s e → step s e = some s' → P s' ∧ φ s' < φ s)
    (hr : Run step s es t) (hI : Along step I s es) (hs : P s) :
    P t ∧ es.length + φ t ≤ φ s := by
  induction es generalizing s with
  | nil =>
    obtain rfl := run_nil_iff.mp hr
    exact ⟨hs, by simp⟩
  | cons e es ih =>
    obtain ⟨u, hu, hr⟩ := run_cons_iff.mp hr
    obtain ⟨he, hI⟩ := (along_cons_iff hu).mp hI
    obtain ⟨hPu, hlt⟩ := hP s e u hs he hu
    obtain ⟨hPt, hle⟩ := ih hr hI hPu
    refine ⟨hPt, ?_⟩
    rw [List.length_cons]
    omega

/-- **Potential rule.** -/
theorem settles_of_potential {P : σ → Prop} {φ : σ → ℕ}
    (hP : ∀ s e s', P s → I s e → step s e = some s' → P s' ∧ φ s' < φ s)
    (hQ : ∀ s, P s → Q s ∨ ∃ e u, I s e ∧ step s e = some u) (hs : P s) :
    Settles step I Q (φ s) s := by
  intro es t hr hI
  obtain ⟨hPt, hle⟩ := hr.length_add_le hP hI hs
  exact ⟨by omega, hQ t hPt⟩

/-- One step on the way. -/
theorem Settles.next {e : ε} (h : Settles step I Q (N + 1) s) (hI : I s e)
    (hs : step s e = some t) : Settles step I Q N t := by
  intro es u hr hes
  obtain ⟨hle, hQ⟩ := h (e :: es) u (Run.cons hs hr) ((along_cons_iff hs).mpr ⟨hI, hes⟩)
  rw [List.length_cons] at hle
  exact ⟨by omega, hQ⟩

/-- The system can come to rest. -/
theorem Settles.reaches (h : Settles step I Q N s) :
    ∃ es t, Run step s es t ∧ Along step I s es ∧ Q t := by
  induction N generalizing s with
  | zero =>
    rcases (h [] s (Run.nil s) (Along.nil I s)).2 with hQ | ⟨e, u, he, hu⟩
    · exact ⟨[], s, Run.nil s, Along.nil I s, hQ⟩
    · -- a step would be a run of length one
      have := (h [e] u (Run.cons hu (Run.nil u))
        ((along_cons_iff hu).mpr ⟨he, Along.nil I u⟩)).1
      simp at this
  | succ N ih =>
    rcases (h [] s (Run.nil s) (Along.nil I s)).2 with hQ | ⟨e, u, he, hu⟩
    · exact ⟨[], s, Run.nil s, Along.nil I s, hQ⟩
    · obtain ⟨es, t, hr, hes, hQ⟩ := ih (h.next he hu)
      exact ⟨e :: es, t, Run.cons hu hr, (along_cons_iff hu).mpr ⟨he, hes⟩, hQ⟩

/-- One part of many changes. -/
theorem sum_update_add {ι α : Type*} [Fintype ι] [DecidableEq ι] (φ : α → ℕ) (g : ι → α) (i : ι)
    (b : α) : ∑ j, φ (Function.update g i b j) + φ (g i) = ∑ j, φ (g j) + φ b := by
  have h : ∀ g : ι → α, ∑ j, φ (g j) = φ (g i) + ∑ j ∈ Finset.univ.erase i, φ (g j) := fun g =>
    (Finset.add_sum_erase Finset.univ (fun j => φ (g j)) (Finset.mem_univ i)).symm
  have hrest : ∑ j ∈ Finset.univ.erase i, φ (Function.update g i b j) =
      ∑ j ∈ Finset.univ.erase i, φ (g j) := by
    refine Finset.sum_congr rfl fun j hj => ?_
    rw [Function.update_of_ne (Finset.ne_of_mem_erase hj)]
  rw [h (Function.update g i b), h g, hrest, Function.update_self]
  omega

end Runs
