import HighServer.Net.InterestList

/-!
# Disabled channels

`updateChannel` chooses its `epoll_ctl` call from `index_` before it looks at the mask, so a
`disableAll` on a channel that is not in the interest list adds it, without events; and
`removeChannel` expects a channel that is in the list.

* `disableAll_result`: the two outcomes of a `disableAll`;
* **`disabled_unregistered_or_removable`**: the descriptor is out of the list, or the channel can be
  removed, and never both;
* `removable_after_disables`: a row of `disableAll` calls, by its parity. The path through
  `handleClose` and `connectDestroyed` makes two.
-/

namespace HighServer

/-- The other value of `index_`. -/
def Index.other : Index → Index
  | .kNew => .kAdded
  | .kAdded => .kNew

theorem Index.other_eq_kNew_iff {idx : Index} : idx.other = .kNew ↔ idx = .kAdded := by
  cases idx <;> simp [other]

theorem Index.other_eq_kAdded_iff {idx : Index} : idx.other = .kAdded ↔ idx = .kNew := by
  cases idx <;> simp [other]

namespace Channels

open Runs

variable {ι : Type} [DecidableEq ι] {ptrs : ι → ℕ} {fds : ι ↪ ℕ} {s : Channels ι}

/-- `disableAll` turns `index_` over. -/
theorem disableAll_result (c : Channel) : ChannelOp.result c .disableAll =
    { c with events_ := Channel.kNoneEvent, index_ := c.index_.other } := by
  obtain ⟨self, fd, ev, idx⟩ := c
  cases idx <;> rfl

/-- A call whose assertions hold comes to its end. -/
theorem step_of_allowed (h : s.Matched ptrs fds) {i : ι} {op : ChannelOp}
    (ha : op.Allowed (s.channels i)) :
    ∃ s', step s (i, op) = some s' ∧ s'.channels i = op.result (s.channels i) := by
  obtain ⟨p, hperform, -⟩ := perform_of_agrees (h.agrees i) ha
  refine ⟨⟨p, Function.update s.channels i (op.result (s.channels i))⟩,
    step_eq_some_iff.mpr ⟨ha, ?_⟩, Function.update_self _ _ _⟩
  rw [perform, hperform, ok_bind]
  rfl

theorem allowed_of_ne {c : Channel} {op : ChannelOp} (h : op ≠ .removeChannel) :
    op.Allowed c := by
  cases op with
  | removeChannel => exact absurd rfl h
  | enableReading => trivial
  | enableWriting => trivial
  | disableWriting => trivial
  | disableAll => trivial

/-- Every history of calls other than `removeChannel` is run to its end. -/
theorem run_of_ne_removeChannel (h : s.Matched ptrs fds) {es : List (ι × ChannelOp)}
    (hes : ∀ e ∈ es, e.2 ≠ .removeChannel) : ∃ s', Run step s es s' := by
  induction es generalizing s with
  | nil => exact ⟨s, Run.nil s⟩
  | cons e es ih =>
    obtain ⟨t, ht, -⟩ := step_of_allowed h (allowed_of_ne (hes e (List.mem_cons_self ..)))
    obtain ⟨s', hs'⟩ := ih (step_matched h ht) fun e' he' => hes e' (List.mem_cons_of_mem _ he')
    exact ⟨s', Run.cons ht hs'⟩

/-- The assertions of `removeChannel` hold, and the descriptor is out of the list afterwards. -/
def Removable (s : Channels ι) (fds : ι ↪ ℕ) (i : ι) : Prop :=
  ∃ t, s.perform i .removeChannel = .ok t ∧ t.poller (fds i) = none

/-- A channel without events can be removed exactly when it is in the list. -/
theorem removable_iff (h : s.Matched ptrs fds) {i : ι} (hn : (s.channels i).isNoneEvent = true) :
    s.Removable fds i ↔ (s.channels i).index_ = .kAdded := by
  constructor
  · rintro ⟨t, ht, -⟩
    by_contra hi
    have hnew : (s.channels i).index_ = .kNew := by
      cases hidx : (s.channels i).index_ with
      | kNew => rfl
      | kAdded => exact absurd hidx hi
    have hfail : ChannelOp.perform s.poller (s.channels i) .removeChannel =
        .error .removeChannelIndex := removeChannel_of_new hn hnew
    rw [perform, hfail] at ht
    cases ht
  · intro hi
    have hdone := removeChannel_of_listed (h.agrees i).listed hn hi
    refine ⟨⟨Function.update s.poller (s.channels i).fd_ none,
      Function.update s.channels i { s.channels i with index_ := .kNew }⟩, ?_, ?_⟩
    · rw [perform, ChannelOp.perform, hdone, ok_bind]
      rfl
    · dsimp only
      rw [h.fd_ i, Function.update_self]

omit [DecidableEq ι] in
/-- The descriptor is out of the list exactly when `index_` says so. -/
theorem unregistered_iff (h : s.Matched ptrs fds) (i : ι) :
    s.poller (fds i) = none ↔ (s.channels i).index_ = .kNew := by
  rw [← h.fd_ i, h.agrees i, Channel.registration]
  cases (s.channels i).index_ <;> simp

/-- A row of `disableAll` calls on channel `i`. -/
def disables (i : ι) (n : ℕ) : List (ι × ChannelOp) := List.replicate n (i, .disableAll)

/-- **A row of `disableAll` calls.** On a channel in the list, the channel can be removed after the
row exactly when it is even. -/
theorem removable_after_disables (h : s.Matched ptrs fds) {i : ι}
    (hi : (s.channels i).index_ = .kAdded) {n : ℕ} (hn : 0 < n) :
    ∃ t, Run step s (disables i n) t ∧ (t.Removable fds i ↔ Even n) := by
  -- the index after the row, and the mask
  suffices hrow : ∀ m, ∃ t, Run step s (disables i m) t ∧ t.Matched ptrs fds ∧
      ((t.channels i).index_ = .kAdded ↔ Even m) ∧
      (0 < m → (t.channels i).isNoneEvent = true) by
    obtain ⟨t, ht, hm, hidx, hnone⟩ := hrow n
    exact ⟨t, ht, (removable_iff hm (hnone hn)).trans hidx⟩
  intro m
  induction m with
  | zero => exact ⟨s, Run.nil s, h, by simp [hi], fun hm => absurd hm (lt_irrefl 0)⟩
  | succ m ih =>
    obtain ⟨t, ht, hm, hidx, -⟩ := ih
    obtain ⟨u, hu, hres⟩ := step_of_allowed (i := i) hm
      (allowed_of_ne (by decide : ChannelOp.disableAll ≠ .removeChannel))
    refine ⟨u, ?_, step_matched hm hu, ?_, fun _ => ?_⟩
    · rw [disables, List.replicate_succ']
      exact run_snoc_iff.mpr ⟨t, ht, hu⟩
    · rw [hres, disableAll_result, Nat.even_add_one, ← hidx]
      refine Index.other_eq_kAdded_iff.trans ?_
      cases (t.channels i).index_ <;> simp
    · rw [hres, disableAll_result]
      rfl

/-- **Disabled channels.** Every history of calls other than `removeChannel` is run to its end.
After a `disableAll` the descriptor is out of the list exactly when it was in the list before, and
a `removeChannel` passes its assertions exactly when it was not: never both. -/
theorem disabled_unregistered_or_removable (ptrs : ι → ℕ) (fds : ι ↪ ℕ)
    (es : List (ι × ChannelOp)) (i : ι) :
    ((∀ e ∈ es, e.2 ≠ .removeChannel) → ∃ s, Run step (new ptrs fds) es s) ∧
    ∀ s, Run step (new ptrs fds) es s →
      ∃ s', step s (i, .disableAll) = some s' ∧
        (s'.poller (fds i) = none ↔ (s.channels i).index_ = .kAdded) ∧
        (s'.Removable fds i ↔ (s.channels i).index_ = .kNew) ∧
        ¬(s'.poller (fds i) = none ∧ s'.Removable fds i) := by
  refine ⟨run_of_ne_removeChannel (matched_new ptrs fds), fun s h => ?_⟩
  have hm := h.inv (P := Matched ptrs fds) (fun _ _ _ ht hs => step_matched ht hs)
    (matched_new ptrs fds)
  obtain ⟨s', hs', hres⟩ := step_of_allowed (i := i) hm
    (allowed_of_ne (by decide : ChannelOp.disableAll ≠ .removeChannel))
  rw [disableAll_result] at hres
  have hm' := step_matched hm hs'
  have hun := unregistered_iff hm' i
  have hrem := removable_iff hm' (i := i) (by rw [hres]; rfl)
  rw [hres] at hun hrem
  refine ⟨s', hs', hun.trans Index.other_eq_kNew_iff, hrem.trans Index.other_eq_kAdded_iff, ?_⟩
  rw [hun, hrem]
  rintro ⟨hnew, hadded⟩
  exact absurd (hnew.symm.trans hadded) (by decide)

/-- A channel that reads. -/
def reading : List (Unit × ChannelOp) := [((), .enableReading)]

theorem reading_unregistered_or_removable :
    ∃ s : Channels Unit, Run step (new (fun _ => 100) ⟨fun _ => 7, fun _ _ _ => rfl⟩) reading s ∧
      ∃ s', step s ((), .disableAll) = some s' ∧
        ¬(s'.poller 7 = none ∧
          s'.Removable ⟨fun _ => 7, fun _ _ _ => rfl⟩ ()) := by
  have h := disabled_unregistered_or_removable (fun _ => 100) ⟨fun _ => 7, fun _ _ _ => rfl⟩
    reading ()
  obtain ⟨s, hs⟩ := h.1 (by decide)
  obtain ⟨s', hs', -, -, hnot⟩ := h.2 s hs
  exact ⟨s, hs, s', hs', hnot⟩

/-- One `disableAll` on a channel that reads: the descriptor is out of the list, and the assertion
of `removeChannel` on `index_` fails. A `disableAll` on a new channel adds its descriptor. -/
theorem reading_disableAll_aborts :
    ((reading ++ [((), ChannelOp.disableAll)]).foldlM step
        (new (fun _ => 100) ⟨fun _ => 7, fun _ _ _ => rfl⟩)).map
      (fun s => (s.poller 7, s.perform () .removeChannel |>.map fun t => t.poller 7)) =
        some (none, .error .removeChannelIndex) ∧
    (step (new (fun _ => 100) ⟨fun _ => 7, fun _ _ _ => rfl⟩)
        ((), ChannelOp.disableAll)).map (fun s => s.poller 7) =
      some (some ⟨Channel.kNoneEvent, 100⟩) := by
  decide +kernel

end Channels

end HighServer
