import Mathlib.Data.List.Basic
import Mathlib.Tactic

/-!
# Runs of a guarded step function

A system is a function `step : σ → ε → Option σ`; `none` says that the event is not enabled, or
that the step did not come to its end. `Run step s es s'` is a complete run over the events `es`.

* `run_cons_iff`, `run_append_iff`, `run_snoc_iff`: the algebra of runs;
* **`Run.inv`**: an invariant of every step is an invariant of every run;
* **`Run.inv_of`**: the same for runs whose steps all meet a condition (`Along`);
* **`Run.history`**: an invariant of the events so far and the state; `Run.history_of`: the same
  under a condition;
* **`Run.simulate`**: a simulation of every step, by at most one, is a simulation of every run;
* `Leads`: what a run can come to; `Leads.of_step`, `Leads.of_run`.
-/

namespace Runs

variable {σ ε : Type*} (step : σ → ε → Option σ)

theorem toOption_eq_some_iff {α β : Type*} {x : Except α β} {b : β} :
    x.toOption = some b ↔ x = .ok b := by
  cases x with
  | ok a => simp [Except.toOption]
  | error a => simp [Except.toOption]

/-- A guarded step of a fallible operation. -/
theorem ite_toOption_eq_some_iff {α β : Type*} {p : Prop} [Decidable p] {x : Except α β} {b : β} :
    (if p then x.toOption else none) = some b ↔ p ∧ x = .ok b := by
  split_ifs with h
  · simp [h, toOption_eq_some_iff]
  · simp [h]

/-- The steps of a fallible computation that came to its end. -/
theorem except_bind_eq_ok_iff {ε' α β : Type} {x : Except ε' α} {f : α → Except ε' β} {b : β} :
    (x >>= f) = .ok b ↔ ∃ a, x = .ok a ∧ f a = .ok b := by
  cases x with
  | ok a => exact ⟨fun h => ⟨a, rfl, h⟩, fun ⟨a', ha, h⟩ => Except.ok.inj ha ▸ h⟩
  | error e => exact ⟨fun h => (by cases h), fun ⟨a, ha, _⟩ => (by cases ha)⟩

/-- The events `es` lead from `s` to `s'`, every one of them enabled when it comes. -/
def Run (s : σ) (es : List ε) (s' : σ) : Prop := es.foldlM step s = some s'

instance [DecidableEq σ] (s : σ) (es : List ε) (s' : σ) : Decidable (Run step s es s') :=
  inferInstanceAs (Decidable (_ = _))

variable {step}

theorem Run.nil (s : σ) : Run step s [] s := rfl

theorem run_nil_iff {s s' : σ} : Run step s [] s' ↔ s = s' := by
  simp [Run]

theorem run_cons_iff {s s' : σ} {e : ε} {es : List ε} :
    Run step s (e :: es) s' ↔ ∃ t, step s e = some t ∧ Run step t es s' := by
  simp only [Run, List.foldlM_cons]
  exact Option.bind_eq_some_iff

theorem Run.cons {s t s' : σ} {e : ε} {es : List ε} (h : step s e = some t)
    (hr : Run step t es s') : Run step s (e :: es) s' :=
  run_cons_iff.mpr ⟨t, h, hr⟩

theorem run_append_iff {s s' : σ} {es fs : List ε} :
    Run step s (es ++ fs) s' ↔ ∃ t, Run step s es t ∧ Run step t fs s' := by
  simp only [Run, List.foldlM_append]
  exact Option.bind_eq_some_iff

theorem Run.append {s t s' : σ} {es fs : List ε} (h₁ : Run step s es t)
    (h₂ : Run step t fs s') : Run step s (es ++ fs) s' :=
  run_append_iff.mpr ⟨t, h₁, h₂⟩

theorem run_snoc_iff {s s' : σ} {es : List ε} {e : ε} :
    Run step s (es ++ [e]) s' ↔ ∃ t, Run step s es t ∧ step t e = some s' := by
  rw [run_append_iff]
  refine exists_congr fun t => and_congr Iff.rfl ?_
  rw [run_cons_iff]
  exact ⟨fun ⟨u, h, hu⟩ => run_nil_iff.mp hu ▸ h, fun h => ⟨s', h, Run.nil s'⟩⟩

/-- **Invariant rule.** -/
theorem Run.inv {P : σ → Prop} (hP : ∀ s e s', P s → step s e = some s' → P s') {s s' : σ}
    {es : List ε} (hr : Run step s es s') (hs : P s) : P s' := by
  induction es generalizing s with
  | nil => exact run_nil_iff.mp hr ▸ hs
  | cons e es ih =>
    obtain ⟨t, ht, hr⟩ := run_cons_iff.mp hr
    exact ih hr (hP s e t hs ht)

/-- Every step that a run over `es` from `s` really takes meets the condition `C` in the state
before it. -/
def Along (step : σ → ε → Option σ) (C : σ → ε → Prop) (s : σ) (es : List ε) : Prop :=
  ∀ pre e post t, es = pre ++ e :: post → Run step s pre t → C t e

theorem Along.nil (C : σ → ε → Prop) (s : σ) : Along step C s [] := by
  intro pre e post t h
  simp at h

theorem along_cons_iff {C : σ → ε → Prop} {s t : σ} {e : ε} {es : List ε}
    (h : step s e = some t) : Along step C s (e :: es) ↔ C s e ∧ Along step C t es := by
  constructor
  · intro ha
    refine ⟨ha [] e es s rfl (Run.nil s), fun pre e' post u hes hu => ?_⟩
    exact ha (e :: pre) e' post u (by rw [hes]; rfl) (Run.cons h hu)
  · rintro ⟨he, ha⟩ pre e' post u hes hu
    cases pre with
    | nil =>
      obtain ⟨rfl, rfl⟩ := List.cons.inj hes
      exact run_nil_iff.mp hu ▸ he
    | cons p pre =>
      obtain ⟨rfl, rfl⟩ := List.cons.inj hes
      obtain ⟨t', ht', hu⟩ := run_cons_iff.mp hu
      obtain rfl := Option.some.inj (h.symm.trans ht')
      exact ha pre e' post u rfl hu

/-- `Along`, computed. -/
def checkAlong (step : σ → ε → Option σ) (C : σ → ε → Prop) [∀ s e, Decidable (C s e)] :
    σ → List ε → Bool
  | _, [] => true
  | s, e :: es => decide (C s e) && (step s e).all fun t => checkAlong step C t es

theorem along_of_check {C : σ → ε → Prop} [∀ s e, Decidable (C s e)] {s : σ} {es : List ε}
    (h : checkAlong step C s es = true) : Along step C s es := by
  induction es generalizing s with
  | nil => exact Along.nil C s
  | cons e es ih =>
    rw [checkAlong, Bool.and_eq_true, decide_eq_true_iff] at h
    intro pre e' post t hes ht
    cases pre with
    | nil =>
      obtain ⟨rfl, rfl⟩ := List.cons.inj hes
      exact run_nil_iff.mp ht ▸ h.1
    | cons p pre =>
      obtain ⟨rfl, rfl⟩ := List.cons.inj hes
      obtain ⟨u, hu, ht⟩ := run_cons_iff.mp ht
      have hrest := h.2
      rw [hu, Option.all_some] at hrest
      exact ih hrest pre e' post t rfl ht

theorem Along.mono {C D : σ → ε → Prop} {s : σ} {es : List ε} (h : Along step C s es)
    (hCD : ∀ t e, C t e → D t e) : Along step D s es :=
  fun pre e post t hes ht => hCD t e (h pre e post t hes ht)

theorem along_of_forall {C : σ → ε → Prop} {s : σ} {es : List ε} (h : ∀ e ∈ es, ∀ t, C t e) :
    Along step C s es :=
  fun _ e _ t hes _ => h e (by rw [hes]; simp) t

theorem Along.and {C D : σ → ε → Prop} {s : σ} {es : List ε} (hC : Along step C s es)
    (hD : Along step D s es) : Along step (fun t e => C t e ∧ D t e) s es :=
  fun pre e post t hes ht => ⟨hC pre e post t hes ht, hD pre e post t hes ht⟩

theorem Along.of_append {C : σ → ε → Prop} {s : σ} {es fs : List ε}
    (h : Along step C s (es ++ fs)) : Along step C s es :=
  fun pre e post t hes ht => h pre e (post ++ fs) t (by rw [hes]; simp) ht

/-- **Invariant rule for runs under a condition.** -/
theorem Run.inv_of {C : σ → ε → Prop} {P : σ → Prop}
    (hP : ∀ s e s', P s → C s e → step s e = some s' → P s') {s s' : σ} {es : List ε}
    (hr : Run step s es s') (hC : Along step C s es) (hs : P s) : P s' := by
  induction es generalizing s with
  | nil => exact run_nil_iff.mp hr ▸ hs
  | cons e es ih =>
    obtain ⟨t, ht, hr⟩ := run_cons_iff.mp hr
    obtain ⟨he, hC⟩ := (along_cons_iff ht).mp hC
    exact ih hr hC (hP s e t hs he ht)

/-- **History rule under a condition**: an invariant of the events so far and the state they lead
to. -/
theorem Run.history_of {C : σ → ε → Prop} {P : List ε → σ → Prop}
    (hP : ∀ es s e s', P es s → C s e → step s e = some s' → P (es ++ [e]) s') {s s' : σ}
    {es : List ε} (hr : Run step s es s') (hC : Along step C s es) (hs : P [] s) : P es s' := by
  suffices h : ∀ (fs done : List ε) (t : σ), P done t → Run step t fs s' → Along step C t fs →
      P (done ++ fs) s' from h es [] s hs hr hC
  intro fs
  induction fs with
  | nil => intro done t ht hr _; rw [List.append_nil]; exact run_nil_iff.mp hr ▸ ht
  | cons e fs ih =>
    intro done t ht hr hC
    obtain ⟨u, hu, hr⟩ := run_cons_iff.mp hr
    obtain ⟨he, hC⟩ := (along_cons_iff hu).mp hC
    have := ih (done ++ [e]) u (hP done t e u ht he hu) hr hC
    rwa [List.append_assoc] at this

/-- **History rule** for any run. -/
theorem Run.history {P : List ε → σ → Prop}
    (hP : ∀ es s e s', P es s → step s e = some s' → P (es ++ [e]) s') {s s' : σ}
    {es : List ε} (hr : Run step s es s') (hs : P [] s) : P es s' :=
  hr.history_of (C := fun _ _ => True) (fun es s e s' hp _ he => hP es s e s' hp he)
    (along_of_forall fun _ _ _ => trivial) hs

/-- **Simulation rule.** Where another system answers every step under a condition by one step of
its own, or by none, it can follow every run. -/
theorem Run.simulate {τ δ : Type*} {step' : τ → δ → Option τ} {C : σ → ε → Prop}
    {D : τ → δ → Prop} {R : σ → τ → Prop}
    (hsim : ∀ s e s' t, R s t → C s e → step s e = some s' →
      R s' t ∨ ∃ d t', step' t d = some t' ∧ D t d ∧ R s' t')
    {s s' : σ} {es : List ε} {t : τ} (hr : Run step s es s') (hC : Along step C s es)
    (ht : R s t) : ∃ ds t', Run step' t ds t' ∧ Along step' D t ds ∧ R s' t' := by
  induction es generalizing s t with
  | nil => exact ⟨[], t, Run.nil t, Along.nil D t, run_nil_iff.mp hr ▸ ht⟩
  | cons e es ih =>
    obtain ⟨u, hu, hr⟩ := run_cons_iff.mp hr
    obtain ⟨he, hC⟩ := (along_cons_iff hu).mp hC
    rcases hsim s e u t ht he hu with hR | ⟨d, t₁, hd, hD, hR⟩
    · exact ih hr hC hR
    · obtain ⟨ds, t', hrun, halong, hR'⟩ := ih hr hC hR
      exact ⟨d :: ds, t', Run.cons hd hrun, (along_cons_iff hd).mpr ⟨hD, halong⟩, hR'⟩

/-- A run from `s` can come to a state with `Q`. -/
def Leads (step : σ → ε → Option σ) (Q : σ → Prop) (s : σ) : Prop :=
  ∃ es t, Run step s es t ∧ Q t

theorem Leads.here {Q : σ → Prop} {s : σ} (h : Q s) : Leads step Q s :=
  ⟨[], s, Run.nil s, h⟩

theorem Leads.of_run {Q : σ → Prop} {s t : σ} {es : List ε} (hr : Run step s es t)
    (h : Leads step Q t) : Leads step Q s := by
  obtain ⟨fs, u, hu, hq⟩ := h
  exact ⟨es ++ fs, u, hr.append hu, hq⟩

theorem Leads.of_step {Q : σ → Prop} {s t : σ} {e : ε} (hs : step s e = some t)
    (h : Leads step Q t) : Leads step Q s :=
  h.of_run (Run.cons hs (Run.nil t))

end Runs
