import HighServer.Net.ClientDestroy

/-!
# Disconnecting

`TcpClient::disconnect` and `TcpClient::stop` both clear `connect_` of the client, but only `stop`
clears that of the connector. An attempt that is in progress when `disconnect` is called goes on,
and so does a retry.

* `asked`: the last of the calls `connect`, `disconnect` and `stop` was not `connect`;
* `Installs`, `Restarts`: the steps that call `newConnection` and `restart`;
* `Respected`: after `disconnect` and `stop` there are none of them until `connect`;
* `Pending`: the connector will go on by itself, and is not stopped;
* `Quiet`: what holds while `asked` does; `step_quiet`;
* **`disconnect_respected`**: runs without a `disconnect` of a client that is `Pending` respect
  every call, and after any other the client can install a connection; `disconnect_in_attempt` is a
  run in which it does.
-/

namespace HighServer.TcpClient

open Runs

variable {t t' : TcpClient} {e : Event} {es : List Event}

def askedBy (asked : Bool) : Event → Bool
  | .connect _ => false
  | .disconnect => true
  | .stop => true
  | _ => asked

/-- The user wants no connection. -/
def asked (es : List Event) : Bool := es.foldl askedBy false

/-- `newConnection` is called. -/
def Installs (t : TcpClient) : Event → Prop
  | .dispatch revents_ err self => (Event.dispatch revents_ err self).Enabled t ∧
      ∃ t', t.dispatch revents_ err self = .ok t' ∧ t'.connector_.passed ≠ t.connector_.passed
  | _ => False

/-- `restart` is called. -/
def Restarts (t : TcpClient) : Event → Prop
  | .peerClose savedErrno => (Event.peerClose savedErrno).Enabled t ∧
      t.connection_ = some .kConnected ∧ t.retry_ = true ∧ t.connect_ = true
  | _ => False

/-- The calls of a sequence of events are respected. -/
def Respected (es : List Event) : Prop :=
  ∀ pre e post t, es = pre ++ e :: post → Run step new pre t → asked pre = true →
    ¬ t.Installs e ∧ ¬ t.Restarts e

/-- An attempt is in progress, or a retry timer waits or has expired, and the connector is neither
stopped nor connected. -/
def Pending (t : TcpClient) : Prop :=
  t.connector_.connect_ = true ∧ t.connector_.state_ ≠ .kConnected ∧
    (t.connector_.attempt ≠ none ∨ t.connector_.waiting ≠ [] ∨ t.connector_.due ≠ [])

/-- A `disconnect` of a client that is not `Pending`. -/
def Settled (t : TcpClient) : Event → Prop
  | .disconnect => ¬ t.Pending
  | _ => True

instance (t : TcpClient) : Decidable t.Pending := inferInstanceAs (Decidable (_ ∧ _))

instance (t : TcpClient) (e : Event) : Decidable (t.Settled e) :=
  match e with
  | .disconnect => inferInstanceAs (Decidable (¬ _))
  | .connect _ | .stop | .enableRetry | .poll | .dispatch _ _ _ | .peerClose _ | .expire _
  | .fire _ | .resetChannel | .destroy | .removeConnector => .isTrue trivial

/-- While no connection is wanted, the connector is stopped, or connected, or rests. -/
structure Quiet (asked : Bool) (t : TcpClient) : Prop where
  sane : t.Sane
  connect_ : asked = true → t.connect_ = false
  pending : asked = true → ¬ t.Pending

theorem asked_append (es : List Event) (e : Event) : asked (es ++ [e]) = askedBy (asked es) e := by
  simp [asked]

theorem quiet_new : Quiet false new where
  sane := sane_new
  connect_ h := by cases h
  pending h := by cases h

/-- A step after which the connector is as it was, or further from an attempt. -/
theorem not_pending_of (h : ¬ t.Pending) (hc : t'.connector_.connect_ = true →
    t.connector_.connect_ = true) (hst : t'.connector_.state_ = t.connector_.state_)
    (hch : t'.connector_.attempt ≠ none → t.connector_.attempt ≠ none)
    (hw : t'.connector_.waiting ≠ [] ∨ t'.connector_.due ≠ [] →
      t.connector_.waiting ≠ [] ∨ t.connector_.due ≠ []) : ¬ t'.Pending := by
  rintro ⟨h1, h2, h3⟩
  refine h ⟨hc h1, by rw [← hst]; exact h2, ?_⟩
  rcases h3 with h3 | h3
  · exact Or.inl (hch h3)
  · exact Or.inr (hw h3)

theorem not_pending_of_stopped (h : t.connector_.connect_ = false) : ¬ t.Pending := by
  rintro ⟨h1, -⟩
  rw [h] at h1
  cases h1

/-- A dispatch of a connector that rests is that of a stopped one. -/
theorem dispatch_of_quiet (hs : t.Sane) (hp : ¬ t.Pending) {revents_ : Mask} {err : ℕ}
    {self : Bool} (hat : t.connector_.attempt ≠ none) (h : t.dispatch revents_ err self = .ok t') :
    t'.connector_.connect_ = false ∧ t'.connector_.passed = t.connector_.passed ∧
      t'.connect_ = t.connect_ := by
  obtain ⟨k, hk⟩ := Option.ne_none_iff_exists'.mp hat
  obtain ⟨hch, -, hst⟩ := hs.shape.of_attempt hk
  have hstopped : t.connector_.connect_ = false := by
    rw [← Bool.not_eq_true]
    exact fun hc => hp ⟨hc, by rw [hst]; decide, Or.inl hat⟩
  obtain ⟨hcon, -, hpass⟩ := ConnectorLoop.settle_stopped hstopped k
    (Connector.verdict revents_ err self)
  rw [TcpClient.dispatch, Connector.handleEvent_eq hst hch, ok_bind, if_pos hpass] at h
  obtain rfl := Except.ok.inj h
  exact ⟨hcon, hpass, rfl⟩

/-- A retry timer of a connector that rests finds it stopped. -/
theorem fire_of_quiet (hp : ¬ t.Pending) {savedErrno : ConnectErrno} {c : Connector}
    (hdue : t.connector_.due ≠ []) (h : t.connector_.fire savedErrno = .ok c) :
    c.connect_ = false := by
  have hst := (Connector.startInLoop_eq_ok_iff.mp h).1
  have hstopped : t.connector_.connect_ = false := by
    rw [← Bool.not_eq_true]
    exact fun hc => hp ⟨hc, by rw [show t.connector_.state_ = .kDisconnected from hst]; decide,
      Or.inr (Or.inr hdue)⟩
  rw [Connector.fire] at h
  obtain rfl := ConnectorLoop.startInLoop_stopped (by exact hstopped) h
  exact hstopped

theorem not_pending_cancel (h : ¬ t.Pending) (hc : t'.connector_ = t.connector_.cancel) :
    ¬ t'.Pending := by
  obtain ⟨waiting, hsub, heq⟩ := Connector.cancel_eq t.connector_
  rw [heq] at hc
  refine not_pending_of h (by rw [hc]; exact id) (by rw [hc]) (by rw [hc]; exact id) ?_
  rw [hc]
  exact Or.imp_left fun hne hnil => hne (List.sublist_nil.mp (hnil ▸ hsub))

/-- **One step.** -/
theorem step_quiet {a : Bool} (h : Quiet a t) (hc : t.Settled e) (hs : step t e = some t') :
    Quiet (askedBy a e) t' := by
  have hsane := step_sane h.sane hs
  obtain ⟨hen, hp⟩ := step_eq_some_iff.mp hs
  cases e with
  | connect savedErrno =>
    exact ⟨hsane, fun ha => absurd ha (by simp [askedBy]), fun ha => absurd ha (by simp [askedBy])⟩
  | disconnect =>
    obtain rfl := Except.ok.inj hp
    exact ⟨hsane, fun _ => rfl, fun _ => hc⟩
  | stop =>
    obtain rfl := Except.ok.inj hp
    obtain ⟨waiting, -, heq⟩ := Connector.stop_eq t.connector_
    exact ⟨hsane, fun _ => rfl, fun _ => not_pending_of_stopped (by rw [TcpClient.stop, heq])⟩
  | enableRetry => obtain rfl := Except.ok.inj hp; exact ⟨hsane, h.connect_, h.pending⟩
  | poll => obtain rfl := Except.ok.inj hp; exact ⟨hsane, h.connect_, h.pending⟩
  | dispatch revents_ err self =>
    refine ⟨hsane, fun ha => ?_, fun ha => ?_⟩
    · rw [(dispatch_of_quiet h.sane (h.pending ha) hen.2 hp).2.2]
      exact h.connect_ ha
    · exact not_pending_of_stopped (dispatch_of_quiet h.sane (h.pending ha) hen.2 hp).1
  | peerClose savedErrno =>
    obtain ⟨-, -, hp⟩ := bind_eq_ok_iff.mp hp
    have hkeep : a = true → { t with connection_ := none } = t' := by
      intro ha
      rw [removeConnection, if_neg (by rw [h.connect_ ha]; simp)] at hp
      exact Except.ok.inj hp
    refine ⟨hsane, fun ha => ?_, fun ha => ?_⟩
    · rw [← hkeep ha]
      exact h.connect_ ha
    · rw [← hkeep ha]
      exact h.pending ha
  | expire i =>
    obtain rfl := Except.ok.inj hp
    refine ⟨hsane, h.connect_, fun ha => ?_⟩
    exact not_pending_of (h.pending ha) id rfl id fun _ => Or.inl (List.ne_nil_of_mem hen.2)
  | fire savedErrno =>
    obtain ⟨c, hfire, hp⟩ := bind_eq_ok_iff.mp hp
    obtain rfl := Except.ok.inj hp
    refine ⟨hsane, h.connect_, fun ha => ?_⟩
    exact not_pending_of_stopped (fire_of_quiet (h.pending ha) hen.2 hfire)
  | resetChannel =>
    obtain rfl := Except.ok.inj hp
    refine ⟨hsane, h.connect_, fun ha => ?_⟩
    exact not_pending_of (h.pending ha) id rfl (fun hne => absurd rfl hne) id
  | destroy =>
    simp only [Event.perform, destroy] at hp
    split_ifs at hp
    · obtain ⟨c, hd, hp⟩ := bind_eq_ok_iff.mp hp
      obtain rfl := Except.ok.inj hp
      obtain ⟨-, rfl⟩ := Connector.destruct_eq_ok_iff.mp hd
      exact ⟨hsane, h.connect_, fun ha => not_pending_cancel (h.pending ha) rfl⟩
    · obtain rfl := Except.ok.inj hp
      obtain ⟨waiting, -, heq⟩ := Connector.stop_eq t.connector_
      exact ⟨hsane, h.connect_, fun _ => not_pending_of_stopped (by dsimp only; rw [heq])⟩
  | removeConnector =>
    obtain ⟨c, hd, hp⟩ := bind_eq_ok_iff.mp hp
    obtain rfl := Except.ok.inj hp
    obtain ⟨-, rfl⟩ := Connector.destruct_eq_ok_iff.mp hd
    exact ⟨hsane, h.connect_, fun ha => not_pending_cancel (h.pending ha) rfl⟩

/-- Nothing is called while `asked` holds. -/
theorem Quiet.respected (h : Quiet true t) (e : Event) : ¬ t.Installs e ∧ ¬ t.Restarts e := by
  constructor
  · cases e with
    | dispatch revents_ err self =>
      rintro ⟨hen, t', hd, hpass⟩
      exact hpass (dispatch_of_quiet h.sane (h.pending rfl) hen.2 hd).2.1
    | _ => exact id
  · cases e with
    | peerClose savedErrno =>
      rintro ⟨-, -, -, hconnect⟩
      rw [h.connect_ rfl] at hconnect
      cases hconnect
    | _ => exact id

/-! ## A client that is `Pending` -/

/-- Alive, and neither stopped nor connected. -/
structure Trying (t : TcpClient) : Prop where
  sane : t.Sane
  life : t.life = .alive
  connect_ : t.connector_.connect_ = true
  state_ : t.connector_.state_ ≠ .kConnected

/-- Steps without a call of the user lead to a call of `newConnection`. -/
def WillInstall (t : TcpClient) : Prop :=
  ∃ fs u e, Run step t fs u ∧ (∀ a, fs.foldl askedBy a = a) ∧ u.Installs e

theorem WillInstall.of_step (ha : ∀ a, askedBy a e = a) (hs : step t e = some t')
    (h : t'.WillInstall) : t.WillInstall := by
  obtain ⟨fs, u, f, hr, hfs, hi⟩ := h
  exact ⟨e :: fs, u, f, hr.cons hs, fun a => by rw [List.foldl_cons, ha, hfs], hi⟩

/-- The attempt in progress succeeds. -/
theorem Trying.of_attempt (h : t.Trying) (hat : t.connector_.attempt ≠ none) : t.WillInstall := by
  obtain ⟨k, hk⟩ := Option.ne_none_iff_exists'.mp hat
  obtain ⟨hch, -, hst⟩ := h.sane.shape.of_attempt hk
  have hv : Connector.verdict EPOLLOUT 0 false = .succeeded := by decide
  have hpass : (t.connector_.settle k .succeeded).passed ≠ t.connector_.passed := by
    rw [Connector.settle, Connector.succeed_of_connect (by exact h.connect_)]
    simp [Connector.detach]
  refine ⟨[], t, .dispatch EPOLLOUT 0 false, Run.nil t, fun _ => rfl,
    ⟨by rw [h.life]; decide, hat⟩, ?_⟩
  rw [TcpClient.dispatch, Connector.handleEvent_eq hst hch, ok_bind, hv, if_neg hpass]
  exact ⟨_, rfl, hpass⟩

/-- A retry timer that has expired begins an attempt, once the last channel is gone. -/
theorem Trying.of_due (h : t.Trying) (hch : t.connector_.channel_ = none)
    (hdue : t.connector_.due ≠ []) : t.WillInstall := by
  have hst : t.connector_.state_ = .kDisconnected := by
    have hat : t.connector_.attempt = none := by rw [Connector.attempt, hch]
    have hne := h.sane.shape.attempt_eq_none_iff.mp hat
    cases hs : t.connector_.state_ with
    | kDisconnected => rfl
    | kConnecting => exact absurd hs hne
    | kConnected => exact absurd hs h.state_
  obtain ⟨c, hfire, hcon, hstate, hat⟩ : ∃ c, t.connector_.fire .EINPROGRESS = .ok c ∧
      c.connect_ = true ∧ c.state_ = .kConnecting ∧ c.attempt ≠ none := by
    rw [Connector.fire, Connector.startInLoop_of_connect (by exact hst) (by exact h.connect_)]
    exact ⟨_, Connector.connecting_eq_ok_iff.mpr ⟨hch, rfl⟩, h.connect_, rfl,
      by simp [Connector.attempt]⟩
  have hs : step t (.fire .EINPROGRESS) = some { t with connector_ := c } := by
    refine step_eq_some_iff.mpr ⟨⟨by rw [h.life]; decide, hdue⟩, ?_⟩
    rw [Event.perform, hfire]
    rfl
  refine .of_step (fun _ => rfl) hs (Trying.of_attempt ⟨step_sane h.sane hs, h.life, hcon, ?_⟩ hat)
  rw [hstate]
  decide

theorem Trying.of_timer (h : t.Trying) (hch : t.connector_.channel_ = none)
    (ht : t.connector_.waiting ≠ [] ∨ t.connector_.due ≠ []) : t.WillInstall := by
  rcases ht with hw | hdue
  · obtain ⟨i, hi⟩ := List.exists_mem_of_ne_nil _ hw
    have hs : step t (.expire i) = some { t with connector_ := t.connector_.expire i } :=
      step_eq_some_iff.mpr ⟨⟨by rw [h.life]; decide, hi⟩, rfl⟩
    exact .of_step (fun _ => rfl) hs (Trying.of_due
      ⟨step_sane h.sane hs, h.life, h.connect_, h.state_⟩ hch (by simp [Connector.expire]))
  · exact h.of_due hch hdue

/-- **A client that is `Pending` can install a connection**, whatever the connector is doing. -/
theorem Trying.willInstall (h : t.Trying) (hp : t.Pending) : t.WillInstall := by
  obtain ⟨-, -, hp⟩ := hp
  by_cases hat : t.connector_.attempt = none
  · have ht := hp.resolve_left (not_not.mpr hat)
    cases h.sane.shape with
    | idle hch => exact h.of_timer hch ht
    | trying k hch => simp [Connector.attempt, hch] at hat
    | ending k hch hr =>
      have hs : step t .resetChannel = some { t with connector_ := t.connector_.runReset } :=
        step_eq_some_iff.mpr ⟨⟨by rw [h.life]; decide, by omega⟩, rfl⟩
      exact .of_step (fun _ => rfl) hs (Trying.of_timer
        ⟨step_sane h.sane hs, h.life, h.connect_, h.state_⟩ rfl ht)
  · exact h.of_attempt hat

/-- **Disconnecting.** When no `disconnect` comes while the connector has an attempt in progress or
a retry timer, not being stopped or connected, then after every `disconnect` and `stop` and until
the next `connect` no connection is installed and `restart` is not called. After any other
`disconnect`, a connection can be installed before the next call of the user. -/
theorem disconnect_respected (es : List Event) :
    (Along step Settled new es → Respected es) ∧
    ∀ t t', Run step new es t → step t .disconnect = some t' → t.Pending →
      ∃ fs u e, Run step new (es ++ .disconnect :: fs) u ∧ asked (es ++ .disconnect :: fs) = true ∧
        u.Installs e := by
  constructor
  · intro hc pre e post t hes hr ha
    have hq : Quiet (asked pre) t := hr.history_of (P := fun es t => Quiet (asked es) t)
      (fun es u f u' hu hf hs => asked_append es f ▸ step_quiet hu hf hs)
      (Along.of_append (hes ▸ hc)) quiet_new
    exact (ha ▸ hq).respected e
  · intro t t' hr hs hp
    have hsane := step_sane (sane_of_run hr) hs
    obtain ⟨hen, hp'⟩ := step_eq_some_iff.mp hs
    obtain rfl := Except.ok.inj hp'
    obtain ⟨fs, u, e, hr', hfs, hi⟩ :=
      Trying.willInstall (t := t.disconnect) ⟨hsane, hen, hp.1, hp.2.1⟩ hp
    refine ⟨fs, u, e, hr.append (hr'.cons hs), ?_, hi⟩
    rw [asked, List.foldl_append, List.foldl_cons, hfs]
    rfl

/-- The user disconnects a client that is connected. -/
def connectedDisconnect : List Event :=
  [.enableRetry, .connect .EINPROGRESS, .poll, .dispatch EPOLLOUT 0 false, .resetChannel,
    .disconnect, .poll]

theorem connectedDisconnect_respected : Respected connectedDisconnect ∧
    ∃ t, Run step new connectedDisconnect t ∧ t.connector_.passed = [0] := by
  refine ⟨(disconnect_respected _).1 (along_of_check (by decide +kernel)), ?_⟩
  have h : (connectedDisconnect.foldlM step new).map (fun t => t.connector_.passed) = some [0] := by
    decide +kernel
  exact Option.map_eq_some_iff.mp h

/-- The user disconnects while the attempt is in progress. -/
def disconnectInAttempt : List Event := [.connect .EINPROGRESS, .poll, .disconnect]

theorem disconnect_in_attempt : ¬ ∀ es, Respected es := by
  intro hall
  have h : (disconnectInAttempt.foldlM step new).map (fun t =>
      decide ((Event.dispatch EPOLLOUT 0 false).Enabled t) &&
        (match t.dispatch EPOLLOUT 0 false with
        | .ok t' => decide (t'.connector_.passed ≠ t.connector_.passed)
        | .error _ => false)) = some true := by decide +kernel
  obtain ⟨t, ht, hq⟩ := Option.map_eq_some_iff.mp h
  rw [Bool.and_eq_true, decide_eq_true_iff] at hq
  obtain ⟨hen, hq⟩ := hq
  refine (hall (disconnectInAttempt ++ [.dispatch EPOLLOUT 0 false]) disconnectInAttempt
    (.dispatch EPOLLOUT 0 false) [] t rfl ht (by decide)).1 ⟨hen, ?_⟩
  split at hq
  · next t' hd => exact ⟨t', hd, of_decide_eq_true hq⟩
  · cases hq

end HighServer.TcpClient
