import HighServer.Net.Attentive
import HighServer.Net.Descriptors

/-!
# The open/close protocol on shared lists

What fails on a shared interest list fails on a list of its own, and there nothing fails.

* `Refines.act_error`: an event that does not come to its end;
* `Sharing`: the invariant of runs without `send` and `shutdown`; `step_sharing`: a step;
* **`shared_open_close`**: the protocol, with descriptors that are reused.
-/

namespace HighServer
namespace Process

open Frame Runs TcpServer TcpConnection

variable {n : ℕ} {T : Type} [DecidableEq T] [Fintype T] {base : List ℕ} {P P' : Process n T}
  {s : TcpServer n T} {e : Event n T} {o : Outcome (TcpServer n T)}

/-- An event that fails in the process fails with a list for each connection. -/
theorem Refines.act_error (h : Refines base P s) {a : Abort} (hs : P.act e = some (.error a)) :
    s.act e = some (.error a) := by
  by_cases hpoll : ∃ ℓ woken reports, e = .poll ℓ woken reports
  · obtain ⟨ℓ, woken, reports, rfl⟩ := hpoll
    rw [act] at hs
    split_ifs at hs
    obtain ⟨s₁, -, hs⟩ := Option.map_eq_some_iff.mp hs
    cases hs
  have hpoll : ∀ ℓ woken reports, e ≠ .poll ℓ woken reports :=
    fun ℓ woken reports he => hpoll ⟨ℓ, woken, reports, he⟩
  by_cases hnew : ∃ sockfd, e = .newConnection sockfd
  · obtain ⟨sockfd, rfl⟩ := hnew
    obtain ⟨hhandling, hrun, htidy⟩ := h.accept hs
    rw [h.newConnection_eq] at hrun
    have hfail := htidy.fails (Or.inr rfl) (newConnection_local sockfd) hrun
    exact (if_pos hhandling).trans (congrArg some hfail)
  have hnew : ∀ sockfd, e ≠ .newConnection sockfd := fun sockfd he => hnew ⟨sockfd, he⟩
  obtain ⟨hact, howned⟩ := h.act_cases hs hpoll hnew
  rw [h.load_eq] at hact
  cases ht : touched s e with
  | none =>
    obtain ⟨o, -, ho⟩ := act_aside s ht hpoll
    rw [ho] at hact
    obtain ⟨F, -, hF⟩ := Option.map_eq_some_iff.mp hact
    cases hF
  | some c =>
    obtain ⟨o, hf, ho⟩ := act_local s ht hnew
    rw [ho] at hact
    obtain ⟨f, hfo, hfail⟩ := Option.map_eq_some_iff.mp hact
    have hself := ho (TcpServer.view.get s)
    rw [View.set_get, hfo] at hself
    exact hself.trans (congrArg some (h.tidy.fails (howned c ht) (hf f hfo) hfail))

omit [DecidableEq T] [Fintype T] in
theorem calls_seen (P : Process n T) (e : Event n T) : (P.seen e).calls = e.calls := by
  cases e <;> rfl

omit [DecidableEq T] [Fintype T] in
theorem Refines.reportsOnce_iff (h : Refines base P s) :
    ReportsOnce P.server e ↔ ReportsOnce s e := by
  obtain ⟨q, hq⟩ := h.server
  rw [hq]
  cases e <;> rfl

omit [DecidableEq T] [Fintype T] in
theorem reportsOnce_seen : ReportsOnce s (P.seen e) ↔ ReportsOnce s e := by
  cases e <;> rfl

/-- The process in a run without `send` and `shutdown`, and the server that it follows. -/
structure Sharing (base : List ℕ) (P : Process n T) (s : TcpServer n T) : Prop where
  refines : Refines base P s
  protocol : s.Protocol
  attentive : s.Attentive

/-- **One step.** -/
theorem step_sharing (h : P.Sharing base s) (hcalls : e.calls = false)
    (honce : ReportsOnce P.server e) (hs : step P e = some P') :
    ∃ s', TcpServer.step s (P.seen e) = some s' ∧ P'.Sharing base s' := by
  obtain ⟨s', hs', hr'⟩ := step_refines h.refines hs
  have hH := h.refines.handover
  have hcalls' : (P.seen e).calls = false := by rw [calls_seen, hcalls]
  have honce' : ReportsOnce s (P.seen e) :=
    reportsOnce_seen.mpr (h.refines.reportsOnce_iff.mp honce)
  have hp := TcpServer.step_eq_some_iff.mp hs'
  obtain ⟨t, ht, hP'⟩ := perform_protocol hH h.protocol hcalls' honce' hp
  obtain rfl := Except.ok.inj ht
  exact ⟨s', hs', hr', hP', act_attentive h.attentive hH h.protocol hcalls'
    (perform_eq_some_iff.mp hp).2⟩

theorem sharing_of_run {name_ : String} {cb : Bool} (hbase : base.Nodup) {es : List (Event n T)}
    (h : Run step (new n T name_ cb base) es P) (hcalls : ∀ e ∈ es, e.calls = false)
    (honce : Along step (fun P e => ReportsOnce P.server e) (new n T name_ cb base) es) :
    ∃ s, P.Sharing base s := by
  refine h.inv_of (P := fun P => ∃ s, P.Sharing base s)
    (C := fun P e => e.calls = false ∧ ReportsOnce P.server e) ?_ ?_ ?_
  · rintro P e P' ⟨s, hP⟩ he hs
    obtain ⟨s', -, hP'⟩ := step_sharing hP he.1 he.2 hs
    exact ⟨s', hP'⟩
  · exact fun pre e post t hes hr => ⟨hcalls e (by rw [hes]; simp), honce pre e post t hes hr⟩
  · exact ⟨_, refines_new name_ cb hbase, protocol_new name_ cb, attentive_new name_ cb⟩

omit [DecidableEq T] [Fintype T] in
/-- The lists do not count. -/
theorem Refines.openClose (h : Refines base P s) (hP : s.Protocol) : P.server.OpenClose := by
  obtain ⟨q, hq⟩ := h.server
  have hs := hP.openClose h.handover
  rw [hq]
  exact ⟨hs.map, hs.key, hs.keys, hs.names, hs.erase, hs.order, hs.once, hs.established,
    hs.destroyed, hs.handled, hs.owned⟩

omit [DecidableEq T] [Fintype T] in
/-- A channel is handled while its connection is there. -/
theorem Refines.active_owned (h : Refines base P s) (hP : s.Protocol) {ℓ : LoopId n}
    {d : Dispatch} (hd : d ∈ P.server.active ℓ) : P.server.Owned d.conn := by
  obtain ⟨q, hq⟩ := h.server
  rw [hq] at hd ⊢
  have hdis := hP.active ℓ d hd
  exact (hP.openClose h.handover).owned d.conn hdis.accepted hdis.destroyed

/-- **The open/close protocol on shared lists.** In every run without `send` and `shutdown` in
which each event set reports the end of the stream once, the connections of a loop share its list
and descriptors are reused, and still the protocol holds in every state, every channel that is
handled has its connection, and every event comes to its end: no assertion fails, and no
`EPOLL_CTL_ADD` or `EPOLL_CTL_MOD`. -/
theorem shared_open_close {name_ : String} {cb : Bool} (hbase : base.Nodup)
    {es : List (Event n T)} (h : Run step (new n T name_ cb base) es P)
    (hcalls : ∀ e ∈ es, e.calls = false)
    (honce : Along step (fun P e => ReportsOnce P.server e) (new n T name_ cb base) es) :
    P.server.OpenClose ∧ (∀ ℓ, ∀ d ∈ P.server.active ℓ, P.server.Owned d.conn) ∧
      ∀ e o, e.calls = false → ReportsOnce P.server e → P.perform e = some o →
        ∃ s', o = .ok s' := by
  obtain ⟨s, hr, hP, -⟩ := sharing_of_run hbase h hcalls honce
  refine ⟨hr.openClose hP, fun ℓ d hd => hr.active_owned hP hd, fun e o he ho hp => ?_⟩
  cases o with
  | ok s' => exact ⟨s', rfl⟩
  | error a =>
    rw [perform] at hp
    split_ifs at hp with hfree
    obtain ⟨q, hq⟩ := hr.server
    rw [hq] at hfree
    obtain ⟨s', hs', -⟩ := perform_protocol hr.handover hP he (hr.reportsOnce_iff.mp ho)
      (perform_eq_some_iff.mpr ⟨hfree, hr.act_error hp⟩)
    cases hs'

theorem reused_open_close : ∃ P, Run step (new 1 Unit "server" false [0, 1, 2, 3, 4]) reused P ∧
    P.server.connections_.map (·.2) = [2] ∧ P.server.OpenClose := by
  have h : (reused.foldlM step (new 1 Unit "server" false [0, 1, 2, 3, 4])).map
      (·.server.connections_.map (·.2)) = some [2] := by decide +kernel
  obtain ⟨P, hP, hq⟩ := Option.map_eq_some_iff.mp h
  exact ⟨P, hP, hq, (shared_open_close (by decide) hP (by decide)
    (along_of_check (by decide +kernel))).1⟩

end Process
end HighServer
