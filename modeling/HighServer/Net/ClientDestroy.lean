import HighServer.Net.TcpClient

/-!
# The end of the connector

The last reference to the connector of a client is dropped in the destructor of the client if there
is a connection, and with the functor of `removeConnector` if there is none.

* `Released`: nothing in the loop is bound to the connector, and no socket is left to it;
* `Event.Drops`: the events that drop the last reference;
* **`drops_clean_iff`**: a drop passes the assertion and leaves the connector released exactly when
  `resetChannel` has run for every attempt and no retry timer outlives the cancel;
  `destroy_in_callback` is a run that aborts.
-/

namespace HighServer

namespace Connector

/-- No functor and no callback of a channel or a timer is bound to the connector, and every socket
that it made has been closed or handed over. -/
structure Released (c : Connector) : Prop where
  channel : c.channel_ = none
  resets : c.resets = 0
  waiting : c.waiting = []
  due : c.due = []
  sockets : ∀ k < c.created, k ∈ c.closed ∨ k ∈ c.passed

/-- The retry timers that `cancel` leaves in the queue. -/
theorem cancel_waiting (c : Connector) :
    c.cancel.waiting = [] ↔ ∀ i ∈ c.waiting, c.timerId_ = some i := by
  unfold cancel
  split
  · rename_i hid
    rw [hid, List.eq_nil_iff_forall_not_mem]
    exact forall_congr' fun i => imp_congr_right fun _ => iff_of_false id (by simp)
  · rename_i j hid
    rw [hid, List.filter_eq_nil_iff]
    refine forall_congr' fun i => imp_congr_right fun _ => ?_
    simp only [ne_eq, decide_not, Bool.not_eq_true', decide_eq_false_iff_not, not_not,
      Option.some.injEq]
    exact eq_comm

variable {c c' : Connector}

theorem destruct_eq_ok_iff : c.destruct = .ok c' ↔ c.channel_ = none ∧ c' = c.cancel := by
  obtain ⟨waiting, -, heq⟩ := cancel_eq c
  rw [destruct, heq, ensure_bind_eq_ok_iff]
  simp [pure, Except.pure, eq_comm]

/-- Between attempts there is no channel, and every attempt has had its reset. -/
theorem Shape.channel_eq_none_iff (h : c.Shape) :
    c.channel_ = none ↔ c.attempts = c.resetsRun := by
  cases h with
  | idle h1 _ _ h4 => exact iff_of_true h1 h4
  | trying k h1 _ _ h4 => exact iff_of_false (by rw [h1]; simp) (by omega)
  | ending k h1 _ _ h4 => exact iff_of_false (by rw [h1]; simp) (by omega)

theorem Shape.resets_eq_zero (h : c.Shape) (hch : c.channel_ = none) : c.resets = 0 := by
  cases h with
  | idle _ h2 => exact h2
  | trying k h1 => rw [h1] at hch; cases hch
  | ending k h1 => rw [h1] at hch; cases hch

/-- Without an attempt every socket has gone one of the two ways. -/
theorem Accounted.sockets (h : c.Accounted) (ha : c.attempt = none) {k : ℕ} (hk : k < c.created) :
    k ∈ c.closed ∨ k ∈ c.passed := by
  have hf := h.fate k
  rw [ha, if_pos ⟨hk, by simp⟩] at hf
  rw [← List.count_pos_iff, ← List.count_pos_iff]
  omega

theorem cancel_released_iff (hs : c.Shape) (ha : c.Accounted) (hch : c.channel_ = none) :
    c.cancel.Released ↔ c.due = [] ∧ ∀ i ∈ c.waiting, c.timerId_ = some i := by
  obtain ⟨waiting, -, heq⟩ := cancel_eq c
  rw [← cancel_waiting, heq]
  constructor
  · intro h
    exact ⟨h.due, h.waiting⟩
  · rintro ⟨hdue, hwait⟩
    have hat : c.attempt = none := by rw [attempt, hch]
    exact ⟨hch, hs.resets_eq_zero hch, hwait, hdue, fun k hk => ha.sockets hat hk⟩

end Connector

namespace TcpClient

open Runs

variable {t t' : TcpClient} {e : Event}

/-- The last reference to the connector goes. -/
def Event.Drops (t : TcpClient) (e : Event) : Prop :=
  e.Enabled t ∧ (e = .destroy ∧ t.connection_ ≠ none ∨ e = .removeConnector)

theorem Event.Drops.perform_eq (h : e.Drops t) : e.perform t =
    t.connector_.destruct >>= fun connector_ => pure { t with connector_, life := .gone } := by
  obtain ⟨-, ⟨rfl, hc⟩ | rfl⟩ := h
  · exact if_pos hc
  · rfl

/-- **Destruction.** After every history, the event that drops the last reference to the connector
passes the assertion `!channel_`, and leaves no functor, no callback and no open socket of an
attempt behind, exactly when `resetChannel` has run for every attempt begun, no expired retry timer
is still to be called, and none but the one set last is in the queue. -/
theorem drops_clean_iff {es : List Event} (h : Run step new es t) (hd : e.Drops t) :
    (∃ t', e.perform t = .ok t' ∧ t'.connector_.Released) ↔
      t.connector_.attempts = t.connector_.resetsRun ∧ t.connector_.due = [] ∧
        ∀ i ∈ t.connector_.waiting, t.connector_.timerId_ = some i := by
  have hs := sane_of_run h
  rw [hd.perform_eq, ← hs.shape.channel_eq_none_iff]
  constructor
  · rintro ⟨t', hp, hr⟩
    obtain ⟨c, hc, hp⟩ := bind_eq_ok_iff.mp hp
    obtain rfl := Except.ok.inj hp
    obtain ⟨hch, rfl⟩ := Connector.destruct_eq_ok_iff.mp hc
    exact ⟨hch, (Connector.cancel_released_iff hs.shape hs.accounted hch).mp hr⟩
  · rintro ⟨hch, hrest⟩
    refine ⟨{ t with connector_ := t.connector_.cancel, life := .gone }, ?_,
      (Connector.cancel_released_iff hs.shape hs.accounted hch).mpr hrest⟩
    rw [Connector.destruct_eq_ok_iff.mpr ⟨hch, rfl⟩]
    rfl

/-- A client that is destroyed with its connection, an iteration after it was made. -/
def connected : List Event :=
  [.connect .EINPROGRESS, .poll, .dispatch EPOLLOUT 0 false, .resetChannel]

theorem connected_drops_clean : ∃ t, Run step new connected t ∧
    ∃ t', Event.destroy.perform t = .ok t' ∧ t'.connector_.Released := by
  have h : (connected.foldlM step new).map (fun t => (t.life, t.connection_)) =
      some (.alive, some .kConnected) := by decide +kernel
  obtain ⟨t, ht, hq⟩ := Option.map_eq_some_iff.mp h
  simp only [Prod.mk.injEq] at hq
  have h' : (connected.foldlM step new).map (fun t =>
      (t.connector_.attempts, t.connector_.resetsRun)) = some (1, 1) := by decide +kernel
  obtain ⟨t₁, ht₁, hq₁⟩ := Option.map_eq_some_iff.mp h'
  obtain rfl := Option.some.inj (ht.symm.trans ht₁)
  simp only [Prod.mk.injEq] at hq₁
  have h'' : (connected.foldlM step new).map (fun t => (t.connector_.waiting, t.connector_.due)) =
      some ([], []) := by decide +kernel
  obtain ⟨t₂, ht₂, hq₂⟩ := Option.map_eq_some_iff.mp h''
  obtain rfl := Option.some.inj (ht.symm.trans ht₂)
  simp only [Prod.mk.injEq] at hq₂
  have hd : Event.destroy.Drops t := ⟨hq.1, Or.inl ⟨rfl, by rw [hq.2]; simp⟩⟩
  exact ⟨t, ht, (drops_clean_iff ht hd).mpr
    ⟨hq₁.1.trans hq₁.2.symm, hq₂.2, by rw [hq₂.1]; simp⟩⟩

/-- The destructor inside the connection callback of the first connection finds `channel_` set, and
so does `removeConnector` when an attempt takes longer than its timer. -/
theorem destroy_in_callback : ¬ ∀ es t e, Run step new es t → Event.Drops t e →
    ∃ t', e.perform t = .ok t' ∧ t'.connector_.Released := by
  intro hall
  have h : ([Event.connect .EINPROGRESS, .poll, .dispatch EPOLLOUT 0 false].foldlM step new).map
      (fun t => (t.life, t.connection_, t.connector_.channel_)) =
        some (.alive, some .kConnected, some ⟨0, false⟩) := by decide +kernel
  obtain ⟨t, ht, hq⟩ := Option.map_eq_some_iff.mp h
  simp only [Prod.mk.injEq] at hq
  have hd : Event.destroy.Drops t := ⟨hq.1, Or.inl ⟨rfl, by rw [hq.2.1]; simp⟩⟩
  obtain ⟨t', hp, -⟩ := hall _ t _ ht hd
  rw [hd.perform_eq] at hp
  obtain ⟨c, hc, -⟩ := bind_eq_ok_iff.mp hp
  obtain ⟨hch, -⟩ := Connector.destruct_eq_ok_iff.mp hc
  rw [hq.2.2] at hch
  cases hch

end TcpClient

end HighServer
