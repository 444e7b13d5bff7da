import HighServer.Net.Output

/-!
# Write-complete notifications

`sendInLoop` queues `writeCompleteCallback_` when its direct write takes the whole message.
`handleWrite` binds the same functor when it empties the output buffer, and drops it.

* `Handed`: a step after which the kernel has everything, and had not before;
* `Drains`: a `handleWrite` whose `::write` takes all of the output buffer;
* **`outputStep_completions`**: a step queues the callback when it is `Handed` and does not drain;
* **`notified_iff`**: the callbacks are those of the `Handed` steps exactly in the runs without a
  drain; `drain_unnotified` is a run with one.
-/

namespace HighServer.TcpConnection

open Runs

/-- A `sendInLoop` with a message that is not empty, or a `handleWrite`. -/
def OutputStep.Writes : OutputStep → Prop
  | .sendInLoop message _ => message ≠ []
  | .handleWrite _ => True
  | .shutdown => False

instance (e : OutputStep) : Decidable e.Writes :=
  match e with
  | .sendInLoop message _ => inferInstanceAs (Decidable (message ≠ []))
  | .handleWrite _ => .isTrue trivial
  | .shutdown => .isFalse id

/-- The kernel has everything after the step, and the step gave it some of that. -/
def Handed (t t' : TcpConnection) : Prop :=
  t'.outputBuffer_.readable = [] ∧ t'.accepted ≠ t.accepted

instance (t t' : TcpConnection) : Decidable (Handed t t') :=
  inferInstanceAs (Decidable (_ ∧ _))

/-- The steps of a run that are `Handed`. -/
def handedSteps (t : TcpConnection) : List OutputStep → ℕ
  | [] => 0
  | e :: es =>
    match outputStep t e with
    | none => 0
    | some t' => (if Handed t t' then 1 else 0) + handedSteps t' es

/-- The step queues one write-complete callback if it is `Handed`, and none if it is not. -/
def Notified (t : TcpConnection) (e : OutputStep) : Prop :=
  ∀ t', outputStep t e = some t' →
    t'.completions = t.completions + if Handed t t' then 1 else 0

/-- In `handleWrite`, `::write` takes all that is left. -/
def Drains (t : TcpConnection) : OutputStep → Prop
  | .handleWrite (.wrote n) => 0 < n ∧ n = t.outputBuffer_.readableBytes
  | _ => False

instance (t : TcpConnection) (e : OutputStep) : Decidable (t.Drains e) :=
  match e with
  | .handleWrite (.wrote n) => inferInstanceAs (Decidable (0 < n ∧ n = _))
  | .handleWrite .wouldBlock => .isFalse id
  | .handleWrite .failed => .isFalse id
  | .sendInLoop _ _ => .isFalse id
  | .shutdown => .isFalse id

variable {t t' : TcpConnection} {sent : Bytes}

theorem outputStep_eq_some_iff {e : OutputStep} :
    outputStep t e = some t' ↔ e.Allowed t ∧ e.perform t = .ok t' :=
  ite_toOption_eq_some_iff

/-- A channel operation concerns the channel and the interest list only. -/
theorem onChannel_eq_ok {f : EPoller → Channel → Outcome (EPoller × Channel)}
    (h : t.onChannel f = .ok t') :
    ∃ poller channel_, t' = { t with poller, channel_ } := by
  unfold onChannel at h
  cases hf : f t.poller t.channel_ with
  | error a =>
    rw [hf] at h
    cases h
  | ok p =>
    rw [hf] at h
    exact ⟨p.1, p.2, (Except.ok.inj h).symm⟩

/-! ## The direct path -/

/-- The direct write leaves a rest and queues nothing, or takes the whole message and queues the
callback. -/
theorem writeDirect_cases (hcb : t.writeCompleteCallback_ = true) {message : Bytes}
    (hne : message ≠ []) (w : WriteResult) :
    (∃ n, n < message.length ∧
      t.writeDirect message w = ({ t with accepted := t.accepted ++ message.take n }, n)) ∨
    (t.outputBuffer_.readableBytes = 0 ∧ ∃ n, ¬ n < message.length ∧
      t.writeDirect message w = ({ t with accepted := t.accepted ++ message,
                                          completions := t.completions + 1 }, n)) := by
  have hpos : 0 < message.length := List.length_pos_iff.mpr hne
  have rest : ∃ n, n < message.length ∧
      (t, 0) = ({ t with accepted := t.accepted ++ message.take n }, n) :=
    ⟨0, hpos, by simp⟩
  unfold writeDirect
  split_ifs with hd
  · cases w with
    | wrote n =>
      dsimp only
      split_ifs with hn
      · exact Or.inl ⟨n, hn, rfl⟩
      · refine Or.inr ⟨hd.2, n, hn, ?_⟩
        rw [queueWriteComplete, if_pos hcb, List.take_of_length_le (by omega)]
    | wouldBlock => exact Or.inl rest
    | failed => exact Or.inl rest
  · exact Or.inl rest

/-- **`sendInLoop`** queues the callback when it leaves no rest. -/
theorem sendInLoop_completions (hs : t.Streams sent) (hcb : t.writeCompleteCallback_ = true)
    {message : Bytes} (hne : message ≠ []) {w : WriteResult}
    (h : t.sendInLoop message w = .ok t') :
    t'.completions = t.completions + (if Handed t t' then 1 else 0) ∧
      t'.writeCompleteCallback_ = true := by
  rcases writeDirect_cases hcb hne w with ⟨n, hn, hk⟩ | ⟨hempty, n, hn, hk⟩
  · -- the rest goes to the output buffer, so the step is not `Handed`
    obtain ⟨b, hb, -, hread, -⟩ := Buffer.yields_append hs.wf (message.drop n)
    have hrest : b.readable ≠ [] := by
      rw [hread]
      intro hnil
      have hdrop := congrArg List.length (List.append_eq_nil_iff.mp hnil).2
      rw [List.length_drop, List.length_nil] at hdrop
      omega
    have key : t'.outputBuffer_ = b ∧ t'.completions = t.completions ∧
        t'.writeCompleteCallback_ = true := by
      rw [sendInLoop, hk] at h
      dsimp only at h
      rw [if_pos hn, hb, ok_bind] at h
      split_ifs at h with hw
      · obtain rfl := Except.ok.inj h
        exact ⟨rfl, rfl, hcb⟩
      · obtain ⟨p, c, rfl⟩ := onChannel_eq_ok h
        exact ⟨rfl, rfl, hcb⟩
    have hnot : ¬ Handed t t' := fun hh => hrest (key.1 ▸ hh.1)
    exact ⟨by rw [key.2.1, if_neg hnot, Nat.add_zero], key.2.2⟩
  · have hnil : t.outputBuffer_.readable = [] := hs.wf.readable_eq_nil_iff.mpr hempty
    rw [sendInLoop, hk] at h
    dsimp only at h
    rw [if_neg hn] at h
    obtain rfl := Except.ok.inj h
    have hh : Handed t { t with accepted := t.accepted ++ message,
                                completions := t.completions + 1 } := by
      refine ⟨hnil, fun heq => hne ?_⟩
      simpa using heq
    exact ⟨by rw [if_pos hh], hcb⟩

/-! ## The drain path -/

/-- **`handleWrite`** queues nothing, and is `Handed` exactly when it drains. -/
theorem handleWrite_completions (hs : t.Streams sent) {w : WriteResult}
    (hw : w.Within t.outputBuffer_.readableBytes) (h : t.handleWrite w = .ok t') :
    t'.completions = t.completions ∧
      t'.writeCompleteCallback_ = t.writeCompleteCallback_ ∧
      (Handed t t' ↔ t.Drains (.handleWrite w)) := by
  have idle : ¬ Handed t t := fun hh => hh.2 rfl
  unfold handleWrite at h
  split_ifs at h with hwr
  · cases w with
    | wouldBlock =>
      obtain rfl := Except.ok.inj h
      exact ⟨rfl, rfl, iff_of_false idle id⟩
    | failed =>
      obtain rfl := Except.ok.inj h
      exact ⟨rfl, rfl, iff_of_false idle id⟩
    | wrote n =>
      dsimp only at h
      split_ifs at h with hn
      · obtain ⟨b, hb, hwf, hread, -⟩ := Buffer.yields_retrieve hs.wf hw
        have hlen : n ≤ t.outputBuffer_.readable.length := by
          rw [hs.wf.length_readable]
          exact hw
        rw [hb, ok_bind, Buffer.peek_readableBytes hs.wf] at h
        -- the buffer after the step, the bytes it handed over, and the callbacks
        have key : t'.outputBuffer_ = b ∧
            t'.accepted = t.accepted ++ t.outputBuffer_.readable.take n ∧
            t'.completions = t.completions ∧
            t'.writeCompleteCallback_ = t.writeCompleteCallback_ := by
          split_ifs at h with hz
          · obtain ⟨u, hu, h⟩ := bind_eq_ok_iff.mp h
            obtain ⟨p, c, rfl⟩ := onChannel_eq_ok hu
            split_ifs at h
            · obtain rfl := Except.ok.inj h
              unfold shutdownInLoop
              split_ifs <;> exact ⟨rfl, rfl, rfl, rfl⟩
            · obtain rfl := Except.ok.inj h
              exact ⟨rfl, rfl, rfl, rfl⟩
          · obtain rfl := Except.ok.inj h
            exact ⟨rfl, rfl, rfl, rfl⟩
        obtain ⟨hbuf, hacc, hcompl, hcall⟩ := key
        refine ⟨hcompl, hcall, ?_⟩
        have hgrow : t'.accepted ≠ t.accepted := by
          rw [hacc]
          intro heq
          have htake := congrArg List.length heq
          rw [List.length_append, List.length_take_of_le hlen] at htake
          omega
        rw [Handed, hbuf, hread, List.drop_eq_nil_iff, hs.wf.length_readable]
        exact ⟨fun hh => ⟨hn, Nat.le_antisymm hw hh.1⟩, fun hd => ⟨hd.2.ge, hgrow⟩⟩
      · obtain rfl := Except.ok.inj h
        exact ⟨rfl, rfl, iff_of_false idle fun hd => hn hd.1⟩
  · obtain rfl := Except.ok.inj h
    refine ⟨rfl, rfl, iff_of_false idle ?_⟩
    -- nothing is left when the channel does not ask for write events
    have hz : t.outputBuffer_.readableBytes = 0 := by
      by_contra hne
      exact hwr (hs.writing.mpr fun hnil => hne (hs.wf.readable_eq_nil_iff.mp hnil))
    cases w with
    | wrote n => exact fun hd => absurd hd.1 (by rw [hd.2, hz]; exact lt_irrefl 0)
    | wouldBlock => exact id
    | failed => exact id

/-! ## Runs -/

/-- **One step** queues the callback when it is `Handed` and does not drain. -/
theorem outputStep_completions (hs : t.Streams sent) (hcb : t.writeCompleteCallback_ = true)
    {e : OutputStep} (he : e.Writes) (h : outputStep t e = some t') :
    t'.completions = t.completions + (if Handed t t' ∧ ¬ t.Drains e then 1 else 0) ∧
      (t.Drains e → Handed t t') ∧ t'.writeCompleteCallback_ = true := by
  obtain ⟨ha, hp⟩ := outputStep_eq_some_iff.mp h
  cases e with
  | sendInLoop message w =>
    obtain ⟨hc, hcb'⟩ := sendInLoop_completions hs hcb he hp
    refine ⟨?_, False.elim, hcb'⟩
    rw [hc]
    simp only [Drains, not_false_eq_true, and_true]
  | handleWrite w =>
    obtain ⟨hc, hcb', hd⟩ := handleWrite_completions hs ha hp
    refine ⟨?_, hd.mpr, hcb'.trans hcb⟩
    rw [hc, if_neg fun hh => hh.2 (hd.mp hh.1), Nat.add_zero]
  | shutdown => exact he.elim

/-- A step is `Notified` exactly when it does not drain. -/
theorem notified_step_iff (hs : t.Streams sent) (hcb : t.writeCompleteCallback_ = true)
    {e : OutputStep} (he : e.Writes) (h : outputStep t e = some t') :
    t.Notified e ↔ ¬ t.Drains e := by
  obtain ⟨hc, hd, -⟩ := outputStep_completions hs hcb he h
  constructor
  · intro hn hdr
    have hcount := hn t' h
    rw [hc, if_neg fun hh => hh.2 hdr, if_pos (hd hdr)] at hcount
    omega
  · intro hdr u hu
    obtain rfl := Option.some.inj (h.symm.trans hu)
    rw [hc]
    simp only [hdr, not_false_eq_true, and_true]

theorem callback_of_run {s : TcpConnection} (hs : s.Streams []) {es : List OutputStep}
    (hw : ∀ e ∈ es, e.Writes) (h : Run outputStep s es t) (hcb : s.writeCompleteCallback_ = true) :
    t.writeCompleteCallback_ = true := by
  induction es using List.reverseRecOn generalizing t with
  | nil => exact run_nil_iff.mp h ▸ hcb
  | append_singleton es e ih =>
    obtain ⟨u, hu, hlast⟩ := run_snoc_iff.mp h
    have hcu := ih (fun e he => hw e (List.mem_append_left _ he)) hu
    exact (outputStep_completions (streams_of_run hs hu) hcu (hw e (by simp)) hlast).2.2

/-- In a run of `Notified` steps the callbacks are those of the `Handed` steps. -/
theorem completions_of_notified {s : TcpConnection} {es : List OutputStep}
    (h : Run outputStep s es t) (hn : Along outputStep Notified s es) :
    t.completions = s.completions + handedSteps s es := by
  induction es generalizing s with
  | nil => rw [run_nil_iff.mp h, handedSteps, Nat.add_zero]
  | cons e es ih =>
    obtain ⟨u, hu, hr⟩ := run_cons_iff.mp h
    obtain ⟨he, hrest⟩ := (along_cons_iff hu).mp hn
    rw [ih hr hrest, he u hu, handedSteps, hu, Nat.add_assoc]

/-- **Write-complete callbacks.** In a run of writes there are as many callbacks as steps after
which everything has just been handed to the kernel, one for each of these steps, exactly when no
`handleWrite` drains the output buffer. -/
theorem notified_iff {poller : EPoller} {self fd : ℕ} {es : List OutputStep}
    (hw : ∀ e ∈ es, e.Writes) (h : Run outputStep (established poller self fd true) es t) :
    (t.completions = handedSteps (established poller self fd true) es ∧
      Along outputStep Notified (established poller self fd true) es) ↔
    Along outputStep (fun t e => ¬ t.Drains e) (established poller self fd true) es := by
  have hs := streams_established poller self fd true
  have hstep : ∀ pre e post u, es = pre ++ e :: post →
      Run outputStep (established poller self fd true) pre u → (u.Notified e ↔ ¬ u.Drains e) := by
    intro pre e post u hes hu
    have hpre : ∀ e ∈ pre, e.Writes := fun e he => hw e (by rw [hes]; simp [he])
    obtain ⟨v, hv, hpost⟩ := run_append_iff.mp (hes ▸ h)
    obtain rfl := Option.some.inj (hu.symm.trans hv)
    obtain ⟨v, hv, -⟩ := run_cons_iff.mp hpost
    exact notified_step_iff (streams_of_run hs hu) (callback_of_run hs hpre hu rfl)
      (hw e (by rw [hes]; simp)) hv
  constructor
  · intro hn pre e post u hes hu
    exact (hstep pre e post u hes hu).mp (hn.2 pre e post u hes hu)
  · intro hd
    have hn : Along outputStep Notified (established poller self fd true) es :=
      fun pre e post u hes hu => (hstep pre e post u hes hu).mpr (hd pre e post u hes hu)
    refine ⟨?_, hn⟩
    rw [completions_of_notified h hn]
    exact Nat.zero_add _

/-- A direct write that takes everything, then a short one and a `handleWrite` that leaves bytes. -/
def undrained : List OutputStep :=
  [.sendInLoop [1] (.wrote 1), .sendInLoop [2, 3, 4] (.wrote 1), .handleWrite (.wrote 1)]

theorem undrained_notified : ∃ t,
    Run outputStep (established (fun _ => none) 0 5 true) undrained t ∧
    t.completions = handedSteps (established (fun _ => none) 0 5 true) undrained := by
  have h : (undrained.foldlM outputStep (established (fun _ => none) 0 5 true)).map
      (fun t => t.completions) = some 1 := by decide +kernel
  obtain ⟨t, ht, -⟩ := Option.map_eq_some_iff.mp h
  exact ⟨t, ht, ((notified_iff (by decide) ht).mpr (along_of_check (by decide +kernel))).1⟩

/-- A short direct write, and the `handleWrite` that empties the output buffer. -/
def shortThenDrain : List OutputStep :=
  [.sendInLoop [1, 2] (.wrote 1), .handleWrite (.wrote 1)]

theorem drain_unnotified : ¬ ∀ t : TcpConnection,
    Run outputStep (established (fun _ => none) 0 5 true) shortThenDrain t →
      t.completions = handedSteps (established (fun _ => none) 0 5 true) shortThenDrain := by
  intro hall
  have h : (shortThenDrain.foldlM outputStep (established (fun _ => none) 0 5 true)).map
      (fun t => t.completions) = some 0 := by decide +kernel
  obtain ⟨t, ht, hq⟩ := Option.map_eq_some_iff.mp h
  have hcount : handedSteps (established (fun _ => none) 0 5 true) shortThenDrain = 1 := by
    decide +kernel
  have := hall t ht
  omega

end HighServer.TcpConnection
