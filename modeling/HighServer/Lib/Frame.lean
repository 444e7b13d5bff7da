import Mathlib.Logic.Function.Basic
import Mathlib.Tactic

/-!
# Local operations on a shared map

Many objects share one map, and each has an entry of its own. A `View` is an object together with
the map that it works on; an operation is `Local` when it reads and writes the map at the key of its
object only, and keeps that entry fit for the object.

* `View`: how the map is read from a state, and put into it; `View.graft`: one entry of it;
* `Local.frame`: a local operation leaves the other entries alone;
* `local_of_commutes`, `local_pure`: an operation that does not look at the map is local;
* `Local.reads`, `Local.ite`: so is one that goes by the rest of the state;
* **`Local.bind`**: local operations compose;
* **`Local.lift`**: an operation on a part of the state is local when it is on the part.
-/

namespace Frame

variable {σ τ κ μ ν ε : Type}

/-- A map in a state. -/
structure View (σ κ ν : Type) where
  get : σ → κ → ν
  set : σ → (κ → ν) → σ
  get_set : ∀ s p, get (set s p) = p
  set_get : ∀ s, set s (get s) = s
  set_set : ∀ s p q, set (set s p) q = set s q

variable [DecidableEq κ]

/-- The state over another map, with its own entry at `k`. -/
def View.graft (V : View σ κ ν) (k : κ) (p : κ → ν) (s : σ) : σ :=
  V.set s (Function.update p k (V.get s k))

/-- The operation works on the entry at `key`, whatever the others are, and keeps it `Fit`. -/
structure Local (V : View σ κ ν) (key : σ → κ) (Fit : σ → Prop) (f : σ → Except ε σ) : Prop where
  eq : ∀ s p, p (key s) = V.get s (key s) → f (V.set s p) = (f s).map (V.graft (key s) p)
  key : ∀ s s', f s = .ok s' → key s' = key s
  fit : ∀ s s', f s = .ok s' → Fit s → Fit s'

variable {V : View σ κ ν} {key : σ → κ} {Fit : σ → Prop} {f g : σ → Except ε σ} {F : σ → σ}
  {s s' : σ}

/-- The other entries are as before. -/
theorem Local.frame (h : Local V key Fit f) (hs : f s = .ok s') {k : κ} (hk : k ≠ key s) :
    V.get s' k = V.get s k := by
  have heq := h.eq s (V.get s) rfl
  rw [V.set_get, hs] at heq
  have hs' : s' = V.graft (key s) (V.get s) s' := Except.ok.inj heq
  rw [hs', View.graft, V.get_set, Function.update_of_ne hk]

/-- An operation that does not look at the map. -/
theorem local_of_commutes (h : ∀ s p, f (V.set s p) = (f s).map fun s' => V.set s' p)
    (hkey : ∀ s s', f s = .ok s' → key s' = key s)
    (hfit : ∀ s s', f s = .ok s' → Fit s → Fit s') : Local V key Fit f where
  eq s p hp := by
    rw [h]
    cases hs : f s with
    | error e => rfl
    | ok s' =>
      -- over its own map, the state shows that the entry is as before
      have hsame := h s (V.get s)
      rw [V.set_get, hs] at hsame
      have hget : V.get s' = V.get s := by
        rw [Except.ok.inj hsame, V.get_set]
      show Except.ok (V.set s' p) = .ok (V.graft (key s) p s')
      rw [View.graft, hget, ← hp, Function.update_eq_self]
  key := hkey
  fit := hfit

/-- A change of the rest of the state. -/
structure Aside (V : View σ κ ν) (key : σ → κ) (Fit : σ → Prop) (F : σ → σ) : Prop where
  eq : ∀ s p, F (V.set s p) = V.set (F s) p
  key : ∀ s, key (F s) = key s
  fit : ∀ s, Fit s → Fit (F s)

omit [DecidableEq κ] in
theorem Aside.comp {G : σ → σ} (hG : Aside V key Fit G) (hF : Aside V key Fit F) :
    Aside V key Fit fun s => G (F s) where
  eq s p := by rw [hF.eq, hG.eq]
  key s := (hG.key (F s)).trans (hF.key s)
  fit s hs := hG.fit (F s) (hF.fit s hs)

omit [DecidableEq κ] in
/-- The map is as before. -/
theorem Aside.get (h : Aside V key Fit F) (s : σ) : V.get (F s) = V.get s := by
  have heq := h.eq s (V.get s)
  rw [V.set_get] at heq
  rw [heq, V.get_set]

theorem local_pure (h : Aside V key Fit F) :
    Local V key Fit fun s => (.ok (F s) : Except ε σ) :=
  local_of_commutes (fun s p => congrArg Except.ok (h.eq s p))
    (fun s _ hs => Except.ok.inj hs ▸ h.key s) fun s _ hs => Except.ok.inj hs ▸ h.fit s

/-- An operation that goes by what it reads of the rest of the state. -/
theorem Local.reads {α : Type} {r : σ → α} {f : α → σ → Except ε σ}
    (hr : ∀ s p, r (V.set s p) = r s) (hf : ∀ x, Local V key Fit (f x)) :
    Local V key Fit fun s => f (r s) s where
  eq s p hp := by
    rw [hr]
    exact (hf (r s)).eq s p hp
  key s := (hf (r s)).key s
  fit s := (hf (r s)).fit s

theorem Local.ite {c : σ → Prop} [DecidablePred c] (hc : ∀ s p, c (V.set s p) ↔ c s)
    (hf : Local V key Fit f) (hg : Local V key Fit g) :
    Local V key Fit fun s => if c s then f s else g s := by
  have h : Local V key Fit fun s => bif decide (c s) then f s else g s := by
    refine Local.reads (f := fun b s => bif b then f s else g s)
      (fun s p => decide_eq_decide.mpr (hc s p)) fun b => ?_
    cases b with
    | true => exact hf
    | false => exact hg
  have heq : (fun s => bif decide (c s) then f s else g s) = fun s => if c s then f s else g s := by
    funext s
    rw [Bool.cond_decide]
  exact heq ▸ h

/-- **Sequential composition.** -/
theorem Local.bind (hf : Local V key Fit f) (hg : Local V key Fit g) :
    Local V key Fit fun s => f s >>= g where
  eq s p hp := by
    show (f (V.set s p) >>= g) = (f s >>= g).map (V.graft (key s) p)
    rw [hf.eq s p hp]
    cases hs : f s with
    | error e => rfl
    | ok s' =>
      have hkey := hf.key s s' hs
      show g (V.graft (key s) p s') = (g s').map (V.graft (key s) p)
      rw [View.graft, hg.eq s' _ (by rw [hkey, Function.update_self]), hkey]
      congr 1
      funext t
      rw [View.graft, View.graft, Function.update_idem]
  key s s' hs := by
    cases hf' : f s with
    | error e => rw [hf'] at hs; cases hs
    | ok t =>
      rw [hf'] at hs
      rw [hg.key t s' hs, hf.key s t hf']
  fit s s' hs hfit := by
    cases hf' : f s with
    | error e => rw [hf'] at hs; cases hs
    | ok t =>
      rw [hf'] at hs
      exact hg.fit t s' hs (hf.fit s t hf' hfit)

/-- First a change of the rest of the state. -/
theorem Local.after (h : Local V key Fit g) (hF : Aside V key Fit F) :
    Local V key Fit fun s => g (F s) :=
  (local_pure hF).bind h

/-- And one at the end. -/
theorem Local.before (h : Local V key Fit f) (hF : Aside V key Fit F) :
    Local V key Fit fun s => f s >>= fun t => .ok (F t) :=
  h.bind (local_pure hF)

variable [DecidableEq μ] {W : View τ μ ν} {key' : τ → μ} {Fit' : τ → Prop} {f' : τ → Except ε τ}
  {entry : μ → κ}

/-- **A part of the state**, whose map is in the map of the state. -/
theorem Local.lift (h : Local W key' Fit' f') (part : σ → τ) (put : σ → τ → σ)
    (hentry : Function.Injective entry)
    (hkey : ∀ s, key s = entry (key' (part s))) (hfit : ∀ s, Fit s → Fit' (part s))
    (hfit' : ∀ s t, Fit s → Fit' t → Fit (put s t))
    (hget : ∀ s k, W.get (part s) k = V.get s (entry k))
    (hpart : ∀ s p, part (V.set s p) = W.set (part s) fun k => p (entry k))
    (hput : ∀ s t, part (put s t) = t)
    (hset : ∀ s p q t, (∀ k, (∀ m, k ≠ entry m) → p k = q k) →
      put (V.set s p) (W.set t fun k => q (entry k)) = V.set (put s t) q) :
    Local V key Fit fun s => f' (part s) >>= fun t => .ok (put s t) where
  eq s p hp := by
    have hp' : p (entry (key' (part s))) = W.get (part s) (key' (part s)) := by
      rw [hget, ← hkey]
      exact hp
    show (f' (part (V.set s p)) >>= fun t => .ok (put (V.set s p) t)) = _
    rw [hpart, h.eq _ _ hp', hkey]
    cases hf' : f' (part s) with
    | error e => rfl
    | ok t =>
      have hval : V.get (put s t) (entry (key' (part s))) = W.get t (key' (part s)) := by
        rw [← hget, hput]
      have hupdate : Function.update (fun k => p (entry k)) (key' (part s))
          (W.get t (key' (part s))) =
          fun k => Function.update p (entry (key' (part s))) (W.get t (key' (part s))) (entry k) :=
        (Function.update_comp_eq_of_injective p hentry _ _).symm
      show Except.ok (put (V.set s p) (W.graft _ _ t)) = .ok (V.graft _ p (put s t))
      rw [View.graft, View.graft, hval, hupdate, hset]
      intro k hk
      rw [Function.update_of_ne (hk _)]
  key s s' hs := by
    cases hf' : f' (part s) with
    | error e => rw [hf'] at hs; cases hs
    | ok t =>
      rw [hf'] at hs
      obtain rfl := Except.ok.inj hs
      rw [hkey, hkey, hput, h.key _ _ hf']
  fit s s' hs hs' := by
    cases hf' : f' (part s) with
    | error e => rw [hf'] at hs; cases hs
    | ok t =>
      rw [hf'] at hs
      obtain rfl := Except.ok.inj hs
      exact hfit' s t hs' (h.fit _ _ hf' (hfit s hs'))

end Frame
