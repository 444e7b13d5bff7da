import HighServer.Net.Connector

/-!
# Socket discipline of the connector

A `Connector` with one `start()`, any `stop()`s, and a `restart()` for each handed-over connection
that has closed. A socket handed over in one iteration of the loop can be found closed from the next
`epoll_wait` on, and that comes behind all functors. The functor of `resetChannel` is taken to run
before the retry timer set with it fires.

* `Accounted`: every socket has been closed or handed over, but for that of the attempt in progress;
* `ConnectorLoop`, `step`: the transition system;
* `Disciplined`: the invariant; `perform_disciplined`: every enabled event succeeds and keeps it;
* `step_stopped`: a stopped connector creates and hands over nothing;
* **`connector_discipline`**: sockets, timers, assertions and `stop()`, over every run;
  `start_after_stop` is a run in which a `stop()` does not last.
-/

namespace HighServer

namespace Connector

variable {c c' : Connector} {k : ℕ}

/-- Every socket has been closed or handed over once, but for that of the attempt in progress. -/
structure Accounted (c : Connector) : Prop where
  fate : ∀ k, c.closed.count k + c.passed.count k =
    if k < c.created ∧ c.attempt ≠ some k then 1 else 0
  created : ∀ k, c.attempt = some k → k < c.created

theorem accounted_new : new.Accounted where
  fate k := by simp [new]
  created k h := by simp [new, attempt] at h

theorem Accounted.of_eq (h : c.Accounted) (hcl : c'.closed = c.closed) (hp : c'.passed = c.passed)
    (hcr : c'.created = c.created) (ha : c'.attempt = c.attempt) : c'.Accounted where
  fate := by rw [hcl, hp, hcr, ha]; exact h.fate
  created := by rw [hcr, ha]; exact h.created

/-- A new socket is closed at once. -/
theorem Accounted.close_new (h : c.Accounted) (hcl : c'.closed = c.closed ++ [c.created])
    (hp : c'.passed = c.passed) (hcr : c'.created = c.created + 1) (ha : c'.attempt = c.attempt) :
    c'.Accounted where
  fate k := by
    have hk := h.fate k
    rw [hcl, hp, hcr, ha, List.count_append, List.count_singleton]
    by_cases hkc : k = c.created
    · subst hkc
      have hne : c.attempt ≠ some c.created := fun hk => absurd (h.created _ hk) (lt_irrefl _)
      simp only [lt_irrefl, false_and, if_false] at hk
      simp only [beq_self_eq_true, if_true, Nat.lt_succ_self, hne, ne_eq, not_false_eq_true,
        and_self]
      omega
    · have hiff : k < c.created + 1 ∧ c.attempt ≠ some k ↔ k < c.created ∧ c.attempt ≠ some k :=
        and_congr_left fun _ => by omega
      rw [if_neg (by simpa using fun h => hkc h.symm), if_congr hiff rfl rfl]
      omega
  created k hk := by
    rw [ha] at hk
    have := h.created k hk
    omega

/-- A new socket is tried. -/
theorem Accounted.attempt_new (h : c.Accounted) (hno : c.attempt = none)
    (hcl : c'.closed = c.closed) (hp : c'.passed = c.passed) (hcr : c'.created = c.created + 1)
    (ha : c'.attempt = some c.created) : c'.Accounted where
  fate k := by
    have hk := h.fate k
    have hiff : k < c.created + 1 ∧ (some c.created ≠ some k) ↔
        k < c.created ∧ c.attempt ≠ some k := by
      rw [hno]
      simp only [ne_eq, Option.some.injEq, reduceCtorEq, not_false_eq_true, and_true]
      omega
    rw [hcl, hp, hcr, ha, if_congr hiff rfl rfl]
    exact hk
  created k hk := by
    rw [ha] at hk
    obtain rfl := Option.some.inj hk
    omega

/-- The socket of the attempt is closed or handed over. -/
theorem Accounted.finish (h : c.Accounted) (hk : c.attempt = some k) (hcr : c'.created = c.created)
    (ha : c'.attempt = none)
    (hcount : ∀ j, c'.closed.count j + c'.passed.count j =
      c.closed.count j + c.passed.count j + if k = j then 1 else 0) : c'.Accounted where
  fate j := by
    have hj := h.fate j
    have hlt := h.created k hk
    rw [hcount, hj, hcr, ha, hk]
    by_cases hkj : k = j
    · subst hkj
      simp [hlt]
    · simp [hkj]
  created j hj := by
    rw [ha] at hj
    cases hj

theorem Accounted.startInLoop (h : c.Accounted) {e : ConnectErrno}
    (hc : c.startInLoop e = .ok c') : c'.Accounted := by
  obtain ⟨-, hc⟩ := startInLoop_eq_ok_iff.mp hc
  split_ifs at hc
  · rcases connect_cases c e with heq | heq | heq
    · rw [heq] at hc
      obtain ⟨hch, rfl⟩ := connecting_eq_ok_iff.mp hc
      have hno : c.attempt = none := by
        rw [attempt, show c.channel_ = none from hch]
      exact h.attempt_new hno rfl rfl rfl rfl
    · obtain rfl := Except.ok.inj (heq.symm.trans hc)
      cases hcon : c.connect_ with
      | true =>
        rw [retry_of_connect (by exact hcon)]
        exact h.close_new rfl rfl rfl rfl
      | false =>
        rw [retry_of_stopped (by exact hcon)]
        exact h.close_new rfl rfl rfl rfl
    · obtain rfl := Except.ok.inj (heq.symm.trans hc)
      exact h.close_new rfl rfl rfl rfl
  · obtain rfl := Except.ok.inj hc
    exact h

theorem Accounted.settle (h : c.Accounted) (hk : c.attempt = some k) (v : Verdict) :
    (c.settle k v).Accounted := by
  have hcount : ∀ l : List ℕ, ∀ j, (l ++ [k]).count j = l.count j + if k = j then 1 else 0 := by
    intro l j
    rw [List.count_append, List.count_singleton]
    simp only [beq_iff_eq]
  cases v with
  | goesOn => exact h
  | failed =>
    rw [Connector.settle]
    cases hcon : c.connect_ with
    | true =>
      rw [retry_of_connect (by exact hcon)]
      refine h.finish hk rfl rfl fun j => ?_
      dsimp only [detach]
      rw [hcount]
      omega
    | false =>
      rw [retry_of_stopped (by exact hcon)]
      refine h.finish hk rfl rfl fun j => ?_
      dsimp only [detach]
      rw [hcount]
      omega
  | succeeded =>
    rw [Connector.settle]
    cases hcon : c.connect_ with
    | true =>
      rw [succeed_of_connect (by exact hcon)]
      refine h.finish hk rfl rfl fun j => ?_
      dsimp only [detach]
      rw [hcount]
      omega
    | false =>
      rw [succeed_of_stopped (by exact hcon)]
      refine h.finish hk rfl rfl fun j => ?_
      dsimp only [detach]
      rw [hcount]
      omega

/-- The reset of a channel that waits for no events ends no attempt. -/
theorem Accounted.runReset (h : c.Accounted) (hs : c.Shape) (hr : 0 < c.resets) :
    c.runReset.Accounted := by
  refine h.of_eq rfl rfl rfl ?_
  cases hs with
  | idle h1 h2 => omega
  | trying j h1 h2 => omega
  | ending j h1 => simp [attempt, h1, Connector.runReset, resetChannel]

end Connector

/-! ## The connector under its user and the loop -/

/-- The socket that was handed over last. -/
inductive Handed where
  | none
  /-- in this iteration of the loop -/
  | fresh
  /-- in an iteration before -/
  | opened
  /-- and it has closed -/
  | closed
  deriving DecidableEq, Repr

structure ConnectorLoop where
  connector : Connector
  /-- whether `start()` has been called -/
  started : Bool
  handed : Handed

namespace ConnectorLoop

open Runs

def new : ConnectorLoop := ⟨Connector.new, false, .none⟩

inductive Event where
  | start (savedErrno : ConnectErrno)
  | restart (savedErrno : ConnectErrno)
  | stop
  /-- `epoll_wait`, behind all the functors of the iteration before -/
  | poll
  /-- the channel of the attempt is dispatched -/
  | dispatch (revents_ : Mask) (err : ℕ) (self : Bool)
  /-- the handed-over connection closes -/
  | disconnected
  | expire (id : ℕ)
  | fire (savedErrno : ConnectErrno)
  | resetChannel
  deriving DecidableEq, Repr

/-- `start()` comes once, `restart()` once after each close; a retry timer fires behind the functor
of `resetChannel` queued when it was set. -/
def Event.Enabled (s : ConnectorLoop) : Event → Prop
  | .start _ => s.started = false
  | .restart _ => s.handed = .closed
  | .stop => True
  | .poll => s.connector.resets = 0
  | .dispatch _ _ _ => s.connector.attempt ≠ none
  | .disconnected => s.handed = .opened
  | .expire id => id ∈ s.connector.waiting
  | .fire _ => s.connector.due ≠ [] ∧ s.connector.resets = 0
  | .resetChannel => 0 < s.connector.resets

instance (s : ConnectorLoop) (e : Event) : Decidable (e.Enabled s) := by
  unfold Event.Enabled
  split <;> infer_instance

def Event.perform (s : ConnectorLoop) : Event → Outcome ConnectorLoop
  | .start savedErrno => do
    let connector ← s.connector.start savedErrno
    pure { s with connector, started := true }
  | .restart savedErrno => do
    let connector ← s.connector.restart savedErrno
    pure { s with connector, handed := .none }
  | .stop => pure { s with connector := s.connector.stop }
  | .poll => pure { s with handed := if s.handed = .fresh then .opened else s.handed }
  | .dispatch revents_ err self => do
    let connector ← s.connector.handleEvent revents_ err self
    pure { s with
      connector
      handed := if connector.passed = s.connector.passed then s.handed else .fresh }
  | .disconnected => pure { s with handed := .closed }
  | .expire id => pure { s with connector := s.connector.expire id }
  | .fire savedErrno => do
    let connector ← s.connector.fire savedErrno
    pure { s with connector }
  | .resetChannel => pure { s with connector := s.connector.runReset }

def step (s : ConnectorLoop) (e : Event) : Option ConnectorLoop :=
  if e.Enabled s then (e.perform s).toOption else none

theorem step_eq_some_iff {s s' : ConnectorLoop} {e : Event} :
    step s e = some s' ↔ e.Enabled s ∧ e.perform s = .ok s' :=
  ite_toOption_eq_some_iff

/-! ## The invariant -/

/-- What a handed-over socket says about the connector. -/
def HandedOk (c : Connector) : Handed → Prop
  | .none => True
  | .fresh => c.state_ = .kConnected
  | .opened => c.state_ = .kConnected ∧ c.resets = 0
  | .closed => c.state_ = .kConnected ∧ c.resets = 0

structure Disciplined (s : ConnectorLoop) : Prop where
  shape : s.connector.Shape
  accounted : s.connector.Accounted
  timers : s.connector.waiting.length + s.connector.due.length ≤ 1
  /-- a retry timer is set between attempts only -/
  between : 0 < s.connector.waiting.length + s.connector.due.length →
    s.connector.state_ = .kDisconnected
  unstarted : s.started = false → s.connector.state_ = .kDisconnected ∧ s.handed = .none ∧
    s.connector.channel_ = none ∧ s.connector.waiting = [] ∧ s.connector.due = []
  handed : HandedOk s.connector s.handed

variable {s s' : ConnectorLoop} {c c' : Connector}

theorem disciplined_new : new.Disciplined where
  shape := Connector.shape_new
  accounted := Connector.accounted_new
  timers := Nat.zero_le 1
  between h := absurd h (lt_irrefl 0)
  unstarted _ := ⟨rfl, rfl, rfl, rfl, rfl⟩
  handed := trivial

/-- An attempt without retry timers, from `kDisconnected` and with no channel left: it is made if
the connector is not stopped, and it leaves one attempt or one timer. -/
theorem startInLoop_ok (hsh : c.Shape) (hst : c.state_ = .kDisconnected) (hr : c.resets = 0)
    (hw : c.waiting = []) (hd : c.due = []) (e : ConnectErrno) :
    ∃ c', c.startInLoop e = .ok c' ∧ c'.waiting.length + c'.due.length ≤ 1 ∧
      (0 < c'.waiting.length + c'.due.length → c'.state_ = .kDisconnected) := by
  have hch : c.channel_ = none := by
    cases hsh with
    | idle h1 => exact h1
    | trying k h1 h2 h3 => rw [hst] at h3; cases h3
    | ending k h1 h2 => omega
  have quiet : c.waiting.length + c.due.length = 0 := by rw [hw, hd]; rfl
  have keep : ∀ c' : Connector, c'.waiting = c.waiting → c'.due = c.due →
      c'.waiting.length + c'.due.length ≤ 1 ∧
        (0 < c'.waiting.length + c'.due.length → c'.state_ = .kDisconnected) := by
    intro c' h1 h2
    rw [h1, h2, quiet]
    exact ⟨Nat.zero_le 1, fun h => absurd h (lt_irrefl 0)⟩
  cases hcon : c.connect_ with
  | true =>
    rw [Connector.startInLoop_of_connect hst hcon]
    rcases Connector.connect_cases c e with heq | heq | heq
    · rw [heq]
      exact ⟨_, Connector.connecting_eq_ok_iff.mpr ⟨hch, rfl⟩, keep _ rfl rfl⟩
    · refine ⟨_, heq, ?_, fun _ => Connector.state_retry _ _⟩
      have hcon' : c.createSocket.connect_ = true := hcon
      rw [Connector.retry_of_connect hcon']
      simp [Connector.createSocket, hw, hd]
    · exact ⟨_, heq, keep _ rfl rfl⟩
  | false => exact ⟨c, Connector.startInLoop_of_stopped hst hcon e, keep c rfl rfl⟩

/-! ## Steps -/

/-- A step that changes the state neither of the connector nor of the user. -/
theorem Disciplined.of_connector (h : s.Disciplined) (hsh : c.Shape) (hac : c.Accounted)
    (ht : c.waiting.length + c.due.length ≤ s.connector.waiting.length + s.connector.due.length)
    (hst : c.state_ = s.connector.state_) (hr : c.resets ≤ s.connector.resets)
    (hch : s.connector.channel_ = none → c.channel_ = none) :
    Disciplined { s with connector := c } where
  shape := hsh
  accounted := hac
  timers := ht.trans h.timers
  between hpos := hst.trans (h.between (lt_of_lt_of_le hpos ht))
  unstarted hs := by
    obtain ⟨h1, h2, h3, h4, h5⟩ := h.unstarted hs
    rw [h4, h5, List.length_nil, Nat.add_zero, Nat.le_zero, Nat.add_eq_zero_iff,
      List.length_eq_zero_iff, List.length_eq_zero_iff] at ht
    exact ⟨hst.trans h1, h2, hch h3, ht.1, ht.2⟩
  handed := by
    have hh := h.handed
    dsimp only
    cases hs : s.handed with
    | none => trivial
    | fresh => rw [hs] at hh; exact hst.trans hh
    | opened => rw [hs] at hh; exact ⟨hst.trans hh.1, Nat.le_zero.mp (hh.2 ▸ hr)⟩
    | closed => rw [hs] at hh; exact ⟨hst.trans hh.1, Nat.le_zero.mp (hh.2 ▸ hr)⟩

/-- A step into `startInLoop`. -/
theorem Disciplined.of_startInLoop (hsh : c.Shape) (hac : c.Accounted)
    (hst : c.state_ = .kDisconnected) (hr : c.resets = 0) (hw : c.waiting = []) (hd : c.due = [])
    (e : ConnectErrno) :
    ∃ c', c.startInLoop e = .ok c' ∧ Disciplined ⟨c', true, .none⟩ := by
  obtain ⟨c', hc, ht, hb⟩ := startInLoop_ok hsh hst hr hw hd e
  exact ⟨c', hc, hsh.startInLoop hc, hac.startInLoop hc, ht, hb, fun h => Bool.noConfusion h,
    trivial⟩

theorem Disciplined.no_timers (h : s.Disciplined) (hst : s.connector.state_ ≠ .kDisconnected) :
    s.connector.waiting = [] ∧ s.connector.due = [] := by
  have h0 : s.connector.waiting.length + s.connector.due.length = 0 := by
    by_contra hne
    exact hst (h.between (Nat.pos_of_ne_zero hne))
  rw [Nat.add_eq_zero_iff, List.length_eq_zero_iff, List.length_eq_zero_iff] at h0
  exact h0

theorem Disciplined.started_of (h : s.Disciplined) (hst : s.connector.state_ ≠ .kDisconnected ∨
    s.connector.due ≠ []) : s.started = true := by
  by_contra hs
  obtain ⟨h1, -, -, -, h5⟩ := h.unstarted (Bool.eq_false_of_not_eq_true hs)
  exact hst.elim (fun h => h h1) fun h => h h5

theorem Disciplined.handed_none (h : s.Disciplined) (hst : s.connector.state_ ≠ .kConnected) :
    s.handed = .none := by
  have hh := h.handed
  cases hs : s.handed with
  | none => rfl
  | fresh => rw [hs] at hh; exact absurd hh hst
  | opened => rw [hs] at hh; exact absurd hh.1 hst
  | closed => rw [hs] at hh; exact absurd hh.1 hst

/-- The retry timers after a dispatch: a failed attempt may set one. -/
theorem settle_timers (c : Connector) (k : ℕ) (v : Connector.Verdict) :
    (c.settle k v).due = c.due ∧ ((c.settle k v).waiting = c.waiting ∨
      (c.settle k v).waiting = c.waiting ++ [c.timers] ∧
        (c.settle k v).state_ = .kDisconnected) := by
  cases v with
  | goesOn => exact ⟨rfl, Or.inl rfl⟩
  | failed =>
    rw [Connector.settle]
    cases hcon : c.connect_ with
    | true =>
      rw [Connector.retry_of_connect (by exact hcon)]
      exact ⟨rfl, Or.inr ⟨rfl, rfl⟩⟩
    | false =>
      rw [Connector.retry_of_stopped (by exact hcon)]
      exact ⟨rfl, Or.inl rfl⟩
  | succeeded =>
    rw [Connector.settle]
    cases hcon : c.connect_ with
    | true =>
      rw [Connector.succeed_of_connect (by exact hcon)]
      exact ⟨rfl, Or.inl rfl⟩
    | false =>
      rw [Connector.succeed_of_stopped (by exact hcon)]
      exact ⟨rfl, Or.inl rfl⟩

/-- A dispatch hands over a socket only when it connects, and then the connector is not stopped. -/
theorem settle_passed (c : Connector) (k : ℕ) (v : Connector.Verdict) :
    (c.settle k v).passed = c.passed ∨
      (c.settle k v).state_ = .kConnected ∧ c.connect_ = true := by
  cases v with
  | goesOn => exact Or.inl rfl
  | failed =>
    rw [Connector.settle]
    cases hcon : c.connect_ with
    | true => rw [Connector.retry_of_connect (by exact hcon)]; exact Or.inl rfl
    | false => rw [Connector.retry_of_stopped (by exact hcon)]; exact Or.inl rfl
  | succeeded =>
    rw [Connector.settle]
    cases hcon : c.connect_ with
    | true => exact Or.inr ⟨Connector.state_succeed _ _, rfl⟩
    | false => rw [Connector.succeed_of_stopped (by exact hcon)]; exact Or.inl rfl

theorem Disciplined.dispatch (h : s.Disciplined) {k : ℕ} (hk : s.connector.attempt = some k)
    (v : Connector.Verdict) : Disciplined { s with
      connector := s.connector.settle k v
      handed := if (s.connector.settle k v).passed = s.connector.passed then s.handed
        else .fresh } := by
  obtain ⟨hch, hr, hst⟩ := h.shape.of_attempt hk
  obtain ⟨hw, hd⟩ := h.no_timers (by rw [hst]; decide)
  have hstarted := h.started_of (Or.inl (by rw [hst]; decide))
  have hnone := h.handed_none (by rw [hst]; decide)
  obtain ⟨hdue, hwait⟩ := settle_timers s.connector k v
  refine ⟨h.shape.settle hch v, h.accounted.settle hk v, ?_, ?_,
    fun hf => absurd (hstarted.symm.trans hf) (by decide), ?_⟩
  · dsimp only
    rw [hdue, hd]
    rcases hwait with hwait | ⟨hwait, -⟩ <;> rw [hwait, hw] <;> simp
  · dsimp only
    rw [hdue, hd]
    rcases hwait with hwait | ⟨-, hdis⟩
    · rw [hwait, hw]
      exact fun h => absurd h (lt_irrefl 0)
    · exact fun _ => hdis
  · dsimp only
    rw [hnone]
    split_ifs with hp
    · trivial
    · exact ((settle_passed s.connector k v).resolve_left hp).1

/-- **Every enabled event succeeds**, so the assertions on its way hold, and keeps the
discipline. -/
theorem perform_disciplined {e : Event} (h : s.Disciplined) (hen : e.Enabled s) :
    ∃ s', e.perform s = .ok s' ∧ s'.Disciplined := by
  cases e with
  | start savedErrno =>
    obtain ⟨h1, h2, h3, h4, h5⟩ := h.unstarted hen
    have hr : s.connector.resets = 0 := by
      cases h.shape with
      | idle _ hr => exact hr
      | trying k hk => rw [h3] at hk; cases hk
      | ending k hk => rw [h3] at hk; cases hk
    obtain ⟨c', hc, hd⟩ := Disciplined.of_startInLoop (c := { s.connector with connect_ := true })
      (h.shape.of_eq rfl rfl Iff.rfl rfl rfl) (h.accounted.of_eq rfl rfl rfl rfl) h1 hr h4 h5
      savedErrno
    refine ⟨⟨c', true, s.handed⟩, ?_, by rw [h2]; exact hd⟩
    simp only [Event.perform, Connector.start, hc, ok_bind]
    rfl
  | restart savedErrno =>
    obtain ⟨hst, hr⟩ : s.connector.state_ = .kConnected ∧ s.connector.resets = 0 := by
      have hh := h.handed
      rw [show s.handed = .closed from hen] at hh
      exact hh
    obtain ⟨hw, hdue⟩ := h.no_timers (by rw [hst]; decide)
    have hstarted := h.started_of (Or.inl (by rw [hst]; decide))
    obtain ⟨c', hc, hd⟩ := Disciplined.of_startInLoop (c := { s.connector with
        state_ := .kDisconnected, retryDelayMs_ := Connector.kInitRetryDelayMs, connect_ := true })
      (h.shape.of_eq rfl rfl (iff_of_false (by simp) (by rw [hst]; decide)) rfl rfl)
      (h.accounted.of_eq rfl rfl rfl rfl) rfl hr hw hdue savedErrno
    refine ⟨⟨c', s.started, .none⟩, ?_, by rw [hstarted]; exact hd⟩
    simp only [Event.perform, Connector.restart, hc, ok_bind]
    rfl
  | stop =>
    obtain ⟨waiting, hsub, heq⟩ := Connector.stop_eq s.connector
    refine ⟨_, rfl, h.of_connector h.shape.stop ?_ ?_ ?_ ?_ ?_⟩ <;> rw [heq]
    · exact h.accounted.of_eq rfl rfl rfl rfl
    · exact Nat.add_le_add_right hsub.length_le _
    · exact id
  | poll =>
    refine ⟨_, rfl, h.shape, h.accounted, h.timers, h.between, fun hs => ?_, ?_⟩
    · obtain ⟨h1, h2, h3⟩ := h.unstarted hs
      exact ⟨h1, by simp [h2], h3⟩
    · have hh := h.handed
      dsimp only
      split_ifs with hf
      · rw [hf] at hh
        exact ⟨hh, hen⟩
      · exact hh
  | dispatch revents_ err self =>
    obtain ⟨k, hk⟩ := Option.ne_none_iff_exists'.mp hen
    obtain ⟨hch, hr, hst⟩ := h.shape.of_attempt hk
    refine ⟨_, ?_, h.dispatch hk (Connector.verdict revents_ err self)⟩
    simp only [Event.perform, Connector.handleEvent_eq hst hch, ok_bind]
    rfl
  | disconnected =>
    have hh := h.handed
    rw [show s.handed = .opened from hen] at hh
    refine ⟨_, rfl, h.shape, h.accounted, h.timers, h.between, fun hs => ?_, hh⟩
    obtain ⟨-, h2, -⟩ := h.unstarted hs
    rw [show s.handed = .opened from hen] at h2
    cases h2
  | expire i =>
    refine ⟨_, rfl, h.of_connector (h.shape.of_eq rfl rfl Iff.rfl rfl rfl)
      (h.accounted.of_eq rfl rfl rfl rfl) ?_ rfl le_rfl id⟩
    have hlt : (s.connector.waiting.filter (· ≠ i)).length < s.connector.waiting.length :=
      List.length_filter_lt_length_iff_exists.mpr ⟨i, hen, by simp⟩
    simp only [Connector.expire, List.length_append, List.length_singleton]
    omega
  | fire savedErrno =>
    obtain ⟨hdue, hr⟩ := hen
    have hpos := List.length_pos_iff.mpr hdue
    have ht := h.timers
    have hst := h.between (by omega)
    have hstarted := h.started_of (Or.inr hdue)
    have hnone := h.handed_none (by rw [hst]; decide)
    have hw : s.connector.waiting = [] := List.length_eq_zero_iff.mp (by omega)
    have htail : s.connector.due.tail = [] :=
      List.length_eq_zero_iff.mp (by rw [List.length_tail]; omega)
    obtain ⟨c', hc, hd⟩ := Disciplined.of_startInLoop
      (c := { s.connector with due := s.connector.due.tail })
      (h.shape.of_eq rfl rfl Iff.rfl rfl rfl) (h.accounted.of_eq rfl rfl rfl rfl) hst hr hw htail
      savedErrno
    refine ⟨⟨c', s.started, s.handed⟩, ?_, by rw [hstarted, hnone]; exact hd⟩
    simp only [Event.perform, Connector.fire, hc, ok_bind]
    rfl
  | resetChannel =>
    refine ⟨_, rfl, h.of_connector (h.shape.runReset hen) (h.accounted.runReset h.shape hen) le_rfl
      rfl (Nat.sub_le _ _) fun _ => rfl⟩

theorem step_disciplined {e : Event} (h : s.Disciplined) (hs : step s e = some s') :
    s'.Disciplined := by
  obtain ⟨hen, hp⟩ := step_eq_some_iff.mp hs
  obtain ⟨t, ht, hd⟩ := perform_disciplined h hen
  obtain rfl := Except.ok.inj (ht.symm.trans hp)
  exact hd

/-! ## After a `stop()` -/

/-- The events that set `connect_`. -/
def Event.starts : Event → Bool
  | .start _ => true
  | .restart _ => true
  | _ => false

theorem startInLoop_stopped (hcon : c.connect_ = false) {e : ConnectErrno}
    (h : c.startInLoop e = .ok c') : c' = c := by
  obtain ⟨-, h⟩ := Connector.startInLoop_eq_ok_iff.mp h
  rw [if_neg (by rw [hcon]; decide)] at h
  exact (Except.ok.inj h).symm

theorem settle_stopped (hcon : c.connect_ = false) (k : ℕ) (v : Connector.Verdict) :
    (c.settle k v).connect_ = false ∧ (c.settle k v).created = c.created ∧
      (c.settle k v).passed = c.passed := by
  cases v with
  | goesOn => exact ⟨hcon, rfl, rfl⟩
  | failed =>
    rw [Connector.settle, Connector.retry_of_stopped (by exact hcon)]
    exact ⟨hcon, rfl, rfl⟩
  | succeeded =>
    rw [Connector.settle, Connector.succeed_of_stopped (by exact hcon)]
    exact ⟨hcon, rfl, rfl⟩

/-- **A stopped connector** stays stopped, and creates and hands over nothing. -/
theorem step_stopped {e : Event} (h : s.Disciplined) (hcon : s.connector.connect_ = false)
    (he : e.starts = false) (hs : step s e = some s') :
    s'.connector.connect_ = false ∧ s'.connector.created = s.connector.created ∧
      s'.connector.passed = s.connector.passed := by
  obtain ⟨hen, hp⟩ := step_eq_some_iff.mp hs
  cases e with
  | start savedErrno => cases he
  | restart savedErrno => cases he
  | stop =>
    obtain rfl := Except.ok.inj hp
    obtain ⟨waiting, -, heq⟩ := Connector.stop_eq s.connector
    dsimp only
    rw [heq]
    exact ⟨rfl, rfl, rfl⟩
  | poll => obtain rfl := Except.ok.inj hp; exact ⟨hcon, rfl, rfl⟩
  | dispatch revents_ err self =>
    obtain ⟨k, hk⟩ := Option.ne_none_iff_exists'.mp hen
    obtain ⟨hch, -, hst⟩ := h.shape.of_attempt hk
    simp only [Event.perform, Connector.handleEvent_eq hst hch, ok_bind] at hp
    obtain rfl := Except.ok.inj hp
    exact settle_stopped hcon k _
  | disconnected => obtain rfl := Except.ok.inj hp; exact ⟨hcon, rfl, rfl⟩
  | expire i => obtain rfl := Except.ok.inj hp; exact ⟨hcon, rfl, rfl⟩
  | fire savedErrno =>
    obtain ⟨c', hc, hp⟩ := bind_eq_ok_iff.mp hp
    obtain rfl := Except.ok.inj hp
    rw [Connector.fire] at hc
    have hcon' : ({ s.connector with due := s.connector.due.tail } : Connector).connect_ = false :=
      hcon
    obtain rfl := startInLoop_stopped hcon' hc
    exact ⟨hcon, rfl, rfl⟩
  | resetChannel => obtain rfl := Except.ok.inj hp; exact ⟨hcon, rfl, rfl⟩

theorem run_stopped {es : List Event} (h : s.Disciplined) (hcon : s.connector.connect_ = false)
    (he : ∀ e ∈ es, e.starts = false) (hr : Run step s es s') :
    s'.connector.created = s.connector.created ∧ s'.connector.passed = s.connector.passed := by
  have hinv : s'.Disciplined ∧ s'.connector.connect_ = false ∧
      s'.connector.created = s.connector.created ∧ s'.connector.passed = s.connector.passed := by
    refine hr.inv_of (C := fun _ e => e.starts = false) (P := fun t => t.Disciplined ∧
      t.connector.connect_ = false ∧ t.connector.created = s.connector.created ∧
      t.connector.passed = s.connector.passed) ?_ (along_of_forall fun e hm _ => he e hm)
      ⟨h, hcon, rfl, rfl⟩
    intro t e t' ⟨ht, hcont, hcreated, hpassed⟩ hstart hs
    obtain ⟨h1, h2, h3⟩ := step_stopped ht hcont hstart hs
    exact ⟨step_disciplined ht hs, h1, h2.trans hcreated, h3.trans hpassed⟩
  exact hinv.2.2

/-! ## Runs -/

/-- **Socket discipline.** In every run, each socket that was created has been closed once or handed
over once, and not both, but for that of the attempt in progress, which has been neither; there is
at most one attempt or retry timer; every enabled event succeeds, so the assertions hold; and after
a `stop()` without a later `start()` or `restart()` no socket is created or handed over. -/
theorem connector_discipline {es : List Event} (h : Run step new es s) :
    (∀ k < s.connector.created,
      if s.connector.attempt = some k then
        s.connector.closed.count k = 0 ∧ s.connector.passed.count k = 0
      else (s.connector.closed.count k = 1 ∧ s.connector.passed.count k = 0) ∨
        (s.connector.closed.count k = 0 ∧ s.connector.passed.count k = 1)) ∧
    s.connector.waiting.length + s.connector.due.length +
      (if s.connector.attempt = none then 0 else 1) ≤ 1 ∧
    (∀ e : Event, e.Enabled s → ∃ s', e.perform s = .ok s') ∧
    ∀ s₁ post s₂, step s .stop = some s₁ → (∀ e ∈ post, e.starts = false) →
      Run step s₁ post s₂ → s₂.connector.created = s₁.connector.created ∧
        s₂.connector.passed = s₁.connector.passed := by
  have hd : s.Disciplined :=
    h.inv (P := Disciplined) (fun _ _ _ hs he => step_disciplined hs he) disciplined_new
  refine ⟨fun k hk => ?_, ?_, fun e hen => ?_, fun s₁ post s₂ hstop hpost hr => ?_⟩
  · have hf := hd.accounted.fate k
    split_ifs with ha
    · rw [if_neg fun h => h.2 ha] at hf
      omega
    · rw [if_pos ⟨hk, ha⟩] at hf
      omega
  · have ht := hd.timers
    split_ifs with ha
    · exact ht
    · obtain ⟨k, hk⟩ := Option.ne_none_iff_exists'.mp ha
      obtain ⟨-, -, hst⟩ := hd.shape.of_attempt hk
      obtain ⟨hw, hdue⟩ := hd.no_timers (by rw [hst]; decide)
      rw [hw, hdue]
      exact le_rfl
  · obtain ⟨s', hs', -⟩ := perform_disciplined hd hen
    exact ⟨s', hs'⟩
  · have hcon : s₁.connector.connect_ = false := by
      obtain ⟨-, hp⟩ := step_eq_some_iff.mp hstop
      obtain rfl := Except.ok.inj hp
      obtain ⟨waiting, -, heq⟩ := Connector.stop_eq s.connector
      dsimp only
      rw [heq]
    exact run_stopped (step_disciplined hd hstop) hcon hpost hr

/-- A refused attempt, a retry that connects, a close and a restart, and a dispatch with error and
write events together after a `stop()`. -/
def reconnect : List Event :=
  [.start .EINPROGRESS, .poll, .dispatch EPOLLOUT 111 false, .resetChannel, .poll, .expire 0,
    .fire .EINPROGRESS, .poll, .dispatch EPOLLOUT 0 false, .resetChannel, .poll, .disconnected,
    .restart .EINPROGRESS, .stop, .poll, .dispatch (EPOLLERR ||| EPOLLOUT) 111 false]

theorem reconnect_discipline : ∃ s, Run step new reconnect s ∧ s.connector.created = 3 ∧
    (s.connector.closed.count 2 = 1 ∧ s.connector.passed.count 2 = 0) := by
  have h : (reconnect.foldlM step new).map (fun s =>
      (s.connector.created, s.connector.attempt, s.connector.passed)) = some (3, none, [1]) := by
    decide +kernel
  obtain ⟨s, hs, hq⟩ := Option.map_eq_some_iff.mp h
  simp only [Prod.mk.injEq] at hq
  obtain ⟨hc, ha, hp⟩ := hq
  have hfate := (connector_discipline hs).1 2 (by omega)
  rw [if_neg (by rw [ha]; simp)] at hfate
  exact ⟨s, hs, hc, hfate.resolve_right fun h => by rw [hp] at h; simp at h⟩

/-- `start()` sets `connect_` again. -/
theorem start_after_stop : ¬ ∀ s₁ post s₂, step new .stop = some s₁ →
    (∀ e ∈ post, ∀ savedErrno, e ≠ .restart savedErrno) → Run step s₁ post s₂ →
      s₂.connector.created = s₁.connector.created := by
  intro hall
  have h₁ : (step new .stop).map (fun s => s.connector.created) = some 0 := by decide +kernel
  obtain ⟨s₁, hs₁, hc₁⟩ := Option.map_eq_some_iff.mp h₁
  have h₂ : ([Event.stop, .start .EINPROGRESS].foldlM step new).map
      (fun s => s.connector.created) = some 1 := by decide +kernel
  obtain ⟨s₂, hs₂, hc₂⟩ := Option.map_eq_some_iff.mp h₂
  obtain ⟨t, ht, hr⟩ := run_cons_iff.mp (show Run step new _ s₂ from hs₂)
  obtain rfl := Option.some.inj (hs₁.symm.trans ht)
  have := hall s₁ _ s₂ hs₁ (by simp) hr
  omega

end ConnectorLoop

end HighServer
