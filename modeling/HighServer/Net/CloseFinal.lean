import HighServer.Net.InLoop

/-!
# After the close

`handleClose` empties the mask and takes the channel out of the interest list, but leaves
`state_` at `kConnected` until `connectDestroyed` runs. In between, a `send` that cannot write all
of its bytes registers the channel again, and an end of stream read in the same dispatch closes
the connection again.

* `Closed`: the close callback has run, `connectDestroyed` has not;
* `FinalAt`: what a step on a closed connection has to be;
* `Quiet`: what it has to be for that;
* `Closing`: the invariant, one clause for each part of the life of a connection; `step_closing`;
* **`close_final_iff`**: closing is final in a run exactly when its steps are quiet;
  `not_close_final_short_write` is a run in which they are not.
-/

namespace HighServer.TcpConnection

variable {t t' : TcpConnection}

/-! ## `sendInLoop` without write interest -/

/-- The direct write takes the whole message. -/
def WritesWhole (t : TcpConnection) (message : Bytes) (w : WriteResult) : Prop :=
  message = [] ∨ t.outputBuffer_.readableBytes = 0 ∧ w = .wrote message.length

instance (t : TcpConnection) (message : Bytes) (w : WriteResult) :
    Decidable (t.WritesWhole message w) :=
  inferInstanceAs (Decidable (_ ∨ _))

theorem writesWhole_iff (hw : ¬ t.channel_.isWriting = true) {message : Bytes} {w : WriteResult}
    (hin : w.Within message.length) :
    t.WritesWhole message w ↔ ¬ (t.writeDirect message w).2 < message.length := by
  have hnil : message = [] ↔ message.length = 0 := List.length_eq_zero_iff.symm
  rw [WritesWhole, hnil]
  unfold writeDirect
  split_ifs with hd
  · cases w with
    | wrote n =>
      have hn : n ≤ message.length := hin
      dsimp only
      split_ifs with hlt
      · simp only [hd.2, WriteResult.wrote.injEq, true_and]; omega
      · simp only [hd.2, WriteResult.wrote.injEq, true_and]; omega
    | wouldBlock => simp
    | failed => simp
  · have hne : t.outputBuffer_.readableBytes ≠ 0 := fun h => hd ⟨hw, h⟩
    simp [hne]

theorem sendInLoop_whole (hw : ¬ t.channel_.isWriting = true) {message : Bytes} {w : WriteResult}
    (hin : w.Within message.length) (h : t.WritesWhole message w) :
    ∃ t', t.sendInLoop message w = .ok t' ∧ t'.channel_ = t.channel_ ∧ t'.poller = t.poller := by
  have hn := (writesWhole_iff hw hin).mp h
  obtain ⟨n, k, hk, -⟩ := writeDirect_spec t message w
  rw [hk] at hn
  rw [sendInLoop, hk]
  dsimp only
  rw [if_neg hn]
  exact ⟨_, rfl, rfl, rfl⟩

/-- A rest makes the channel ask for write events, registered or not. -/
theorem sendInLoop_rest (h : t.Sound) (hi : t.channel_.index_ = .kNew)
    (hw : ¬ t.channel_.isWriting = true) {message : Bytes} {w : WriteResult}
    (hin : w.Within message.length) (hrest : ¬ t.WritesWhole message w) :
    ∃ t', t.sendInLoop message w = .ok t' ∧ t'.poller t'.channel_.fd_ ≠ none := by
  have hn : (t.writeDirect message w).2 < message.length := by
    by_contra hn
    exact hrest ((writesWhole_iff hw hin).mpr hn)
  obtain ⟨n, k, hk, -⟩ := writeDirect_spec t message w
  obtain ⟨b, hb, -⟩ := Buffer.yields_append h.output (message.drop n)
  obtain ⟨p, i, hp, ha, hidx⟩ := h.update (t.channel_.events_ ||| Channel.kWriteEvent)
  have hia : i = .kAdded := by rw [hidx]; simp [Channel.nextIndex, hi]
  rw [hk] at hn
  rw [sendInLoop, hk]
  dsimp only
  rw [if_pos hn, hb, ok_bind, if_pos hw, onChannel, EPoller.enableWriting, hp]
  refine ⟨_, rfl, ?_⟩
  simp only
  rw [show p t.channel_.fd_ = _ from ha, hia]
  exact Option.some_ne_none _

namespace InLoop

open Runs

variable {s s' : InLoop} {e : Event}

/-! ## Closed connections -/

/-- Between `handleClose` and the `connectDestroyed` that it queues. -/
def Closed (s : InLoop) : Prop := s.conn.closes = 1 ∧ s.destroyed = false

/-- The step ends normally, without a second close and without a registration. -/
def FinalAt (s : InLoop) (e : Event) : Prop :=
  ∃ s', e.perform s = .ok s' ∧ s'.conn.closes = 1 ∧ s'.registered = none

/-- A message is written whole at once, and no callback reports the close again. -/
def Quiet (s : InLoop) : Event → Prop
  | .send message w => s.conn.WritesWhole message w
  | .callback r _ => ¬ RunsClose s.todo r
  | _ => True

/-- The parts of the life of a connection that is not shut down. -/
inductive Closing (s : InLoop) : Prop where
  | opened (sound : s.conn.Sound) (streams : ∃ sent, s.conn.Streams sent)
      (state_ : s.conn.state_ = .kConnected) (closes : s.conn.closes = 0)
      (todo : .close ∉ s.todo.tail)
  | closed (sound : s.conn.Sound) (state_ : s.conn.state_ = .kConnected)
      (closes : s.conn.closes = 1) (index_ : s.conn.channel_.index_ = .kNew)
      (events_ : s.conn.channel_.events_ = Channel.kNoneEvent) (todo : .close ∉ s.todo)
  | destroyed (destroyed : s.destroyed = true)

theorem close_not_mem_tail_callbacks (revents : Mask) :
    .close ∉ (Channel.callbacks revents).tail := by
  unfold Channel.callbacks
  split_ifs <;> simp

theorem closing_established (poller : EPoller) (self fd : ℕ) (cb : Bool) :
    Closing (established poller self fd cb) :=
  .opened (sound_established poller self fd cb) ⟨[], streams_established poller self fd cb⟩ rfl rfl
    (by simp [established])

/-- A callback that does not close, on a channel without write interest. -/
theorem runCallback_idle (h : s.conn.Sound) (hnw : ¬ s.conn.channel_.isWriting = true)
    {c : Channel.Callback} {todo : List Channel.Callback} (ht : s.todo = c :: todo)
    {r : ReadResult} (hr : ¬ RunsClose s.todo r) (w : WriteResult) :
    ∃ t', runCallback s.conn r w c = .ok t' ∧ t'.Sound ∧ SameOutput s.conn t' := by
  rw [RunsClose, ht] at hr
  push Not at hr
  cases c with
  | close => exact absurd rfl hr.1
  | error => exact ⟨s.conn, rfl, h, SameOutput.refl _⟩
  | read => exact handleRead_sound h (hr.2 rfl)
  | write =>
    refine ⟨s.conn, ?_, h, SameOutput.refl _⟩
    unfold runCallback handleWrite
    rw [if_neg hnw]
    rfl

/-- A callback that does not close keeps a stream. -/
theorem runCallback_streams {sent : Bytes} (hs : s.conn.Sound) (h : s.conn.Streams sent)
    {c : Channel.Callback} {todo : List Channel.Callback} (ht : s.todo = c :: todo)
    {r : ReadResult} (hr : ¬ RunsClose s.todo r) {w : WriteResult}
    (hw : w.Within s.conn.outputBuffer_.readableBytes) (hrun : runCallback s.conn r w c = .ok t') :
    ∃ sent, t'.Streams sent := by
  rw [RunsClose, ht] at hr
  push Not at hr
  cases c with
  | close => exact absurd rfl hr.1
  | error =>
    obtain rfl := Except.ok.inj hrun
    exact ⟨sent, h⟩
  | read =>
    obtain ⟨t₁, ht₁, -, ho⟩ := handleRead_sound hs (hr.2 rfl)
    obtain rfl := Except.ok.inj (ht₁.symm.trans hrun)
    refine ⟨_, ⟨?_, ?_, ?_⟩, ?_, rfl, ?_⟩
    · rw [ho.poller, ho.channel_]; exact h.isOpen.agrees
    · rw [ho.channel_]; exact h.isOpen.added
    · rw [ho.channel_]; exact h.isOpen.reads
    · rw [ho.outputBuffer_]; exact h.wf
    · rw [ho.channel_, ho.outputBuffer_]; exact h.writing
  | write =>
    obtain ⟨t₁, ht₁, hst, -⟩ := handleWrite_streams h hw
    obtain rfl := Except.ok.inj (ht₁.symm.trans hrun)
    exact ⟨sent, hst⟩

/-! ## One step -/

theorem not_isWriting_of_none {c : Channel} (h : c.events_ = Channel.kNoneEvent) :
    ¬ c.isWriting = true := by
  rw [Channel.isWriting, h]
  decide

theorem registered_of_new (h : s.conn.Sound) (hi : s.conn.channel_.index_ = .kNew) :
    s.registered = none := by
  rw [registered, h.agrees, Channel.registration, hi]

/-- **On a closed connection** a step is final exactly when it is quiet. -/
theorem finalAt_iff (h : s.Closing) (hc : s.Closed) (hen : e.Enabled s) (hns : e ≠ .shutdown) :
    FinalAt s e ↔ Quiet s e := by
  cases h with
  | opened _ _ _ h0 _ => exact absurd (h0.symm.trans hc.1) (by decide)
  | destroyed hd => exact absurd hc.2 (by simp [hd])
  | closed hs hst hcl hi hev htodo =>
    have hreg := registered_of_new hs hi
    have hnw := not_isWriting_of_none hev
    cases e with
    | send message w =>
      have hsend : s.conn.send message w = s.conn.sendInLoop message w := by rw [send, if_pos hst]
      constructor
      · rintro ⟨s', hp, -, hr⟩
        by_contra hq
        obtain ⟨t', ht, hne⟩ := sendInLoop_rest hs hi hnw hen hq
        rw [Event.perform, hsend, ht] at hp
        obtain rfl := Except.ok.inj hp
        exact hne hr
      · intro hq
        obtain ⟨t', ht, hch, hpo⟩ := sendInLoop_whole hnw hen hq
        obtain ⟨t₁, ht₁, -, hl⟩ := sendInLoop_sound hs message w
        obtain rfl := Except.ok.inj (ht₁.symm.trans ht)
        refine ⟨{ s with conn := t₁ }, by rw [Event.perform, hsend, ht]; rfl,
          hl.closes.trans hcl, ?_⟩
        simp only [registered, hch, hpo]
        exact hreg
    | shutdown => exact absurd rfl hns
    | poll revents => exact absurd hen (not_registered_poll hreg revents)
    | callback r w =>
      cases ht : s.todo with
      | nil => exact absurd ht hen.1
      | cons c todo =>
        constructor
        · rintro ⟨s', hp, -, -⟩ hr
          obtain ⟨t₀, hrun, hs₀, ho⟩ := runCallback_closing hs ht hr w
          rcases handleClose_sound hs₀ (ho.state_.trans hst) with ⟨h0, -⟩ | ⟨-, herr⟩
          · rw [ho.closes, hcl] at h0
            exact absurd h0 (by decide)
          · simp only [Event.perform, ht, hrun, herr] at hp
            exact absurd hp (by simp)
        · intro hq
          obtain ⟨t', hrun, -, ho⟩ := runCallback_idle hs hnw ht hq w
          refine ⟨{ s with conn := t', todo }, by simp [Event.perform, ht, hrun, pure, Except.pure],
            ho.closes.trans hcl, ?_⟩
          simp only [registered, ho.channel_, ho.poller]
          exact hreg
    | connectDestroyed acts =>
      refine iff_of_true ?_ trivial
      rcases connectDestroyed_sound hs hst acts with ⟨-, t', ht, -, -, hcl', hn⟩ | ⟨ha, -⟩
      · exact ⟨{ s with conn := t', destroyed := true }, by rw [Event.perform, ht]; rfl,
          hcl'.trans hcl, hn⟩
      · rw [hi] at ha
        exact Index.noConfusion ha

theorem step_destroyed (hd : s.destroyed = true) (hs : step s e = some s') :
    s'.destroyed = true := by
  obtain ⟨hen, hp⟩ := step_eq_some_iff.mp hs
  cases e with
  | send message w =>
    obtain ⟨t', -, ht⟩ := bind_eq_ok_iff.mp hp
    obtain rfl := Except.ok.inj ht
    exact hd
  | shutdown => obtain rfl := Except.ok.inj hp; exact hd
  | poll revents => obtain rfl := Except.ok.inj hp; exact hd
  | callback r w =>
    simp only [Event.perform] at hp
    split at hp
    · obtain rfl := Except.ok.inj hp
      exact hd
    · obtain ⟨t', -, ht⟩ := bind_eq_ok_iff.mp hp
      obtain rfl := Except.ok.inj ht
      exact hd
  | connectDestroyed acts => exact absurd hen.2.2 (by simp [hd])

/-- A step of an open connection leaves it open, or closes it. -/
theorem step_opened {sent : Bytes} (hs : s.conn.Sound) (hstr : s.conn.Streams sent)
    (hst : s.conn.state_ = .kConnected) (hcl : s.conn.closes = 0) (htodo : .close ∉ s.todo.tail)
    (hns : e ≠ .shutdown) (hstep : step s e = some s') : s'.Closing := by
  obtain ⟨hen, hp⟩ := step_eq_some_iff.mp hstep
  cases e with
  | send message w =>
    obtain ⟨t', ht, hs', hl⟩ := send_sound hs message w
    have hsend : s.conn.send message w = s.conn.sendInLoop message w := by rw [send, if_pos hst]
    obtain ⟨t₁, ht₁, hstr', -⟩ := sendInLoop_streams hstr message w
    obtain rfl := Except.ok.inj (ht₁.symm.trans (hsend.symm.trans ht))
    rw [Event.perform, ht] at hp
    obtain rfl := Except.ok.inj hp
    exact .opened hs' ⟨_, hstr'⟩ (hl.state_.trans hst) (hl.closes.trans hcl) htodo
  | shutdown => exact absurd rfl hns
  | poll revents =>
    obtain rfl := Except.ok.inj hp
    exact .opened hs ⟨sent, hstr⟩ hst hcl (close_not_mem_tail_callbacks revents)
  | callback r w =>
    cases ht : s.todo with
    | nil => exact absurd ht hen.1
    | cons c todo =>
      have htail : .close ∉ todo := by rw [ht] at htodo; exact htodo
      simp only [Event.perform, ht] at hp
      by_cases hr : RunsClose s.todo r
      · obtain ⟨t₀, hrun, hs₀, ho⟩ := runCallback_closing hs ht hr w
        rcases handleClose_sound hs₀ (ho.state_.trans hst) with
          ⟨-, t', ht', hs', hst', hcl', -, hch⟩ | ⟨hne, -⟩
        · rw [hrun, ht'] at hp
          obtain rfl := Except.ok.inj hp
          refine .closed hs' hst' hcl' ?_ (by simp [hch]) htail
          rw [hch]
          simp [Channel.nextIndex, ho.channel_, hstr.isOpen.added, Channel.isNoneEvent]
        · exact absurd (ho.closes.trans hcl) hne
      · obtain ⟨t', hrun, hs', hl⟩ := runCallback_other hs ht hr hen.2
        have hstr' := runCallback_streams hs hstr ht hr hen.2 hrun
        rw [hrun] at hp
        obtain rfl := Except.ok.inj hp
        exact .opened hs' hstr' (hl.state_.trans hst) (hl.closes.trans hcl)
          fun hm => htail (List.mem_of_mem_tail hm)
  | connectDestroyed acts => exact absurd hcl hen.2.1.ne'

/-- A quiet step of a closed connection leaves it closed, or destroys it. -/
theorem step_closed (hs : s.conn.Sound) (hst : s.conn.state_ = .kConnected)
    (hcl : s.conn.closes = 1) (hi : s.conn.channel_.index_ = .kNew)
    (hev : s.conn.channel_.events_ = Channel.kNoneEvent) (htodo : .close ∉ s.todo)
    (hq : Quiet s e) (hns : e ≠ .shutdown) (hstep : step s e = some s') : s'.Closing := by
  obtain ⟨hen, hp⟩ := step_eq_some_iff.mp hstep
  have hnw := not_isWriting_of_none hev
  cases e with
  | send message w =>
    obtain ⟨t', ht, hs', hl⟩ := send_sound hs message w
    have hsend : s.conn.send message w = s.conn.sendInLoop message w := by rw [send, if_pos hst]
    obtain ⟨t₁, ht₁, hch, -⟩ := sendInLoop_whole hnw hen hq
    obtain rfl := Except.ok.inj (ht₁.symm.trans (hsend.symm.trans ht))
    rw [Event.perform, ht] at hp
    obtain rfl := Except.ok.inj hp
    exact .closed hs' (hl.state_.trans hst) (hl.closes.trans hcl) (by rw [← hi, ← hch])
      (by rw [← hev, ← hch]) htodo
  | shutdown => exact absurd rfl hns
  | poll revents => exact absurd hen (not_registered_poll (registered_of_new hs hi) revents)
  | callback r w =>
    cases ht : s.todo with
    | nil => exact absurd ht hen.1
    | cons c todo =>
      obtain ⟨t', hrun, hs', ho⟩ := runCallback_idle hs hnw ht hq w
      simp only [Event.perform, ht, hrun] at hp
      obtain rfl := Except.ok.inj hp
      refine .closed hs' (ho.state_.trans hst) (ho.closes.trans hcl) (by rw [← hi, ← ho.channel_])
        (by rw [← hev, ← ho.channel_]) fun hm => htodo ?_
      rw [ht]
      exact List.mem_cons_of_mem c hm
  | connectDestroyed acts =>
    obtain ⟨t', -, ht⟩ := bind_eq_ok_iff.mp hp
    obtain rfl := Except.ok.inj ht
    exact .destroyed rfl

/-- **One step.** -/
theorem step_closing (h : s.Closing) (hq : s.Closed → Quiet s e) (hns : e ≠ .shutdown)
    (hstep : step s e = some s') : s'.Closing := by
  cases h with
  | opened hs hstr hst hcl htodo =>
    obtain ⟨sent, hstr⟩ := hstr
    exact step_opened hs hstr hst hcl htodo hns hstep
  | closed hs hst hcl hi hev htodo =>
    cases hd : s.destroyed with
    | true => exact .destroyed (step_destroyed hd hstep)
    | false => exact step_closed hs hst hcl hi hev htodo (hq ⟨hcl, hd⟩) hns hstep
  | destroyed hd => exact .destroyed (step_destroyed hd hstep)

/-! ## Runs -/

/-- A closed connection is not registered, and the steps on it are final. -/
def ClosesForGood (s : InLoop) (e : Event) : Prop :=
  e.Enabled s → (s.Closed → FinalAt s e) ∧
    ∀ s', step s e = some s' → s'.Closed → s'.registered = none

/-- The steps on a closed connection are quiet. -/
def QuietWhenClosed (s : InLoop) (e : Event) : Prop := e.Enabled s → s.Closed → Quiet s e

theorem Closing.registered_eq (h : s.Closing) (hc : s.Closed) : s.registered = none := by
  cases h with
  | opened _ _ _ h0 _ => exact absurd (h0.symm.trans hc.1) (by decide)
  | destroyed hd => exact absurd hc.2 (by simp [hd])
  | closed hs _ _ hi _ _ => exact registered_of_new hs hi

variable {poller : EPoller} {self fd : ℕ} {cb : Bool} {es : List Event}

theorem closing_of_run (hes : .shutdown ∉ es)
    (hq : Along step (fun s e => s.Closing → e ≠ .shutdown → QuietWhenClosed s e)
      (established poller self fd cb) es)
    (h : Run step (established poller self fd cb) es s) : s.Closing := by
  have hns : Along step (fun _ e => e ≠ .shutdown) (established poller self fd cb) es :=
    along_of_forall fun e he _ hsd => hes (hsd ▸ he)
  refine h.inv_of (P := Closing) (fun s e s' hs hc hstep => ?_) (hq.and hns)
    (closing_established poller self fd cb)
  exact step_closing hs (hc.1 hs hc.2 (step_eq_some_iff.mp hstep).1) hc.2 hstep

/-- **Closing is final** in a run without a `shutdown` exactly when between `handleClose` and
`connectDestroyed` every `::write` of a `send` takes the whole message, none is put behind bytes
still to be written, and no callback of the same dispatch reports the close again. -/
theorem close_final_iff (poller : EPoller) (self fd : ℕ) (cb : Bool) {es : List Event}
    (hes : .shutdown ∉ es) :
    Along step ClosesForGood (established poller self fd cb) es ↔
      Along step QuietWhenClosed (established poller self fd cb) es := by
  have hns : ∀ pre e post, es = pre ++ e :: post → .shutdown ∉ pre ∧ e ≠ .shutdown := by
    rintro pre e post rfl
    simp only [List.mem_append, List.mem_cons, not_or] at hes
    exact ⟨hes.1, fun h => hes.2.1 h.symm⟩
  constructor
  · intro hf pre e post s heq hrun hen hc
    obtain ⟨hpre, he⟩ := hns pre e post heq
    have hq : Along step (fun s e => s.Closing → e ≠ .shutdown → QuietWhenClosed s e)
        (established poller self fd cb) pre :=
      Along.mono (Along.of_append (heq ▸ hf)) fun t d hfin hcl hd hen hc =>
        (finalAt_iff hcl hc hen hd).mp ((hfin hen).1 hc)
    exact (finalAt_iff (closing_of_run hpre hq hrun) hc hen he).mp
      ((hf pre e post s heq hrun hen).1 hc)
  · intro hquiet pre e post s heq hrun hen
    obtain ⟨hpre, he⟩ := hns pre e post heq
    have hq : Along step (fun s e => s.Closing → e ≠ .shutdown → QuietWhenClosed s e)
        (established poller self fd cb) pre :=
      Along.mono (Along.of_append (heq ▸ hquiet)) fun t d hqt _ _ => hqt
    have hclosing := closing_of_run hpre hq hrun
    have hqe := hquiet pre e post s heq hrun hen
    exact ⟨fun hc => (finalAt_iff hclosing hc hen he).mpr (hqe hc),
      fun s' hs => (step_closing hclosing hqe he hs).registered_eq⟩

/-- The peer closes, a message is still sent and taken whole, and the connection is destroyed. -/
def closeAndDestroy : List Event :=
  [.poll EPOLLIN, .callback (.received []) .wouldBlock, .send [1] (.wrote 1), .connectDestroyed []]

theorem close_final_closeAndDestroy : ∃ s,
    Run step (established (fun _ => none) 0 5 false) closeAndDestroy s ∧ s.destroyed = true ∧
    (Along step ClosesForGood (established (fun _ => none) 0 5 false) closeAndDestroy ↔
      Along step QuietWhenClosed (established (fun _ => none) 0 5 false) closeAndDestroy) := by
  have hrun : (closeAndDestroy.foldlM step (established (fun _ => none) 0 5 false)).map
      destroyed = some true := by decide +kernel
  obtain ⟨s, hs, hd⟩ := Option.map_eq_some_iff.mp hrun
  exact ⟨s, hs, hd, close_final_iff (fun _ => none) 0 5 false (by decide)⟩

/-- The peer closes, and a message is sent that the kernel does not take. -/
def sendAfterClose : List Event :=
  [.poll EPOLLIN, .callback (.received []) .wouldBlock, .send [1] .wouldBlock]

theorem not_close_final_short_write :
    ¬ ∀ es, .shutdown ∉ es →
      Along step ClosesForGood (established (fun _ => none) 0 5 false) es := by
  intro h
  have hrun : ([Event.poll EPOLLIN, .callback (.received []) .wouldBlock].foldlM step
      (established (fun _ => none) 0 5 false)).map (fun s =>
        (s.conn.closes, s.destroyed, decide (Event.Enabled s (.send [1] .wouldBlock)),
          (Event.perform s (.send [1] .wouldBlock)).map registered)) =
      some (1, false, true, .ok (some ⟨EPOLLOUT, 0⟩)) := by decide +kernel
  obtain ⟨s, hs, hq⟩ := Option.map_eq_some_iff.mp hrun
  simp only [Prod.mk.injEq] at hq
  obtain ⟨hc, hd, hen, hp⟩ := hq
  obtain ⟨s', hs', -, hreg⟩ := (h sendAfterClose (by decide) _ (.send [1] .wouldBlock) [] s rfl hs
    (of_decide_eq_true hen)).1 ⟨hc, hd⟩
  rw [hs'] at hp
  exact absurd (hreg.symm.trans (Except.ok.inj hp)) (by simp)

end InLoop

end HighServer.TcpConnection
