import HighServer.Net.Potential
import HighServer.Net.SharedProtocol

/-!
# The server settles

When peers and application threads are silent, the loops work off what they have, in whatever order
they run, and then sleep. By then every connection that was closed is gone, and its descriptor is
closed.

* `Quiet`: every loop sleeps, with nothing to do and nothing to wake it;
* `loop_goes`, `goes_or_quiet`: otherwise some loop or some wakeup goes on;
* `Refines.act_of`: what goes on with a list for each connection goes on in the process;
* `Settled`: what is left when the process is quiet; `Sharing.settled`;
* **`settles`**: the process comes to that after a bounded number of steps.
-/

namespace HighServer

open Runs

namespace TcpServer

variable {n : ℕ} {T : Type} {s s' : TcpServer n T} {ℓ : LoopId n}

/-- Every loop is in `epoll_wait`, and nothing is on its way to wake it. -/
structure Quiet (s : TcpServer n T) : Prop where
  polling : ∀ ℓ, (s.loops ℓ).phase = .polling
  asleep : ∀ ℓ, (s.loops ℓ).wakeupFd_ = 0
  callers : ∀ ℓ t, (s.loops ℓ).callers t = .idle
  pending : ∀ ℓ, (s.loops ℓ).pendingFunctors_ = []
  functions : ∀ ℓ, s.functions ℓ = []
  active : ∀ ℓ, s.active ℓ = []

theorem Event.calls_of_worksOff {e : Event n T} (h : e.worksOff = true) : e.calls = false := by
  cases e <;> first | rfl | cases h

variable [DecidableEq T] [Fintype T]

/-- `epoll_wait` reports nothing but the eventfd. -/
theorem act_poll_nil (s : TcpServer n T) (ℓ : LoopId n) (woken : Bool) :
    s.act (.poll ℓ woken []) = (s.turn ℓ (.poll woken)).map fun s' =>
      .ok { s' with active := Function.update s.active ℓ [] } := by
  rw [act, if_pos ⟨by simp, List.nodup_nil⟩]
  rfl

/-- Something that is left to do is done. -/
def Goes (s : TcpServer n T) : Prop :=
  ∃ e s', e.worksOff = true ∧ ReportsOnce s e ∧ step s e = some s'

/-- **An event that can happen** comes to its end. -/
theorem goes_of_act (hH : s.Handover) (hP : s.Protocol) {e : Event n T}
    {o : Outcome (TcpServer n T)} (hfree : ∀ t ∈ e.thread, s.Free t) (hw : e.worksOff = true)
    (honce : ReportsOnce s e) (h : s.act e = some o) : s.Goes := by
  have hp : s.perform e = some o := perform_eq_some_iff.mpr ⟨hfree, h⟩
  obtain ⟨s', rfl, -⟩ := perform_protocol hH hP (Event.calls_of_worksOff hw) honce hp
  exact ⟨e, s', hw, honce, step_eq_some_iff.mpr hp⟩

theorem goes_of_turn (hH : s.Handover) (hP : s.Protocol) {e : Event n T}
    (hfree : ∀ t ∈ e.thread, s.Free t) (hw : e.worksOff = true) (honce : ReportsOnce s e)
    {e' : EventLoop.Event (LoopId n ⊕ T) ConnFunctor}
    {l : EventLoop (LoopId n ⊕ T) ConnFunctor} (hl : (s.loops ℓ).step e' = some l)
    {g : TcpServer n T → Outcome (TcpServer n T)} (hact : s.act e = (s.turn ℓ e').map g) :
    s.Goes := by
  refine goes_of_act hH hP hfree hw honce (o := g (s.setLoop ℓ l)) ?_
  rw [hact, turn, hl]
  rfl

/-- A loop that handles its channels. -/
theorem handling_goes (hH : s.Handover) (hP : s.Protocol) (hA : s.Attentive)
    (hfree : s.Free (.inl ℓ)) {woken : Bool} (hp : (s.loops ℓ).phase = .handling woken) :
    s.Goes := by
  have hfree' : ∀ t ∈ some (Sum.inl ℓ : LoopId n ⊕ T), s.Free t := by simpa using hfree
  rcases hact : s.active ℓ with _ | ⟨⟨c, _ | ⟨cb, todo⟩, reported⟩, rest⟩
  · cases woken with
    | true =>
      exact goes_of_turn hH hP (e := .wakeupRead ℓ) hfree' rfl trivial
        (EventLoop.step_handleRead_iff.mpr ⟨hp, rfl⟩) rfl
    | false =>
      exact goes_of_turn hH hP (e := .swap ℓ) hfree' rfl trivial
        (EventLoop.step_swap_iff.mpr ⟨hp, rfl⟩) (if_pos hact)
  · exact goes_of_act hH hP (e := .handled ℓ) hfree' rfl trivial (act_handled_nil hact)
  · -- a read that fails and a write that would block are among the results
    have honce : ReportsOnce s (.callback ℓ .failed .wouldBlock) := by
      intro d hd cb' hcb hcloses
      rw [hact] at hd
      obtain rfl := Option.some.inj hd
      obtain rfl := Option.some.inj hcb
      rcases hcloses with rfl | ⟨-, hread⟩
      · refine (hA.first ℓ ⟨c, .close :: todo, reported⟩ ?_).2 List.mem_cons_self
        rw [hact]
        exact List.mem_cons_self
      · cases hread
    have hwithin : WriteResult.wouldBlock.Within (s.conns c).tcp.outputBuffer_.readableBytes :=
      trivial
    have hcall := act_callback_cons (r := .failed) (w := .wouldBlock) hact
    rw [if_pos hwithin] at hcall
    exact goes_of_act hH hP (e := .callback ℓ .failed .wouldBlock) hfree' rfl honce hcall

/-- A loop in `doPendingFunctors`. -/
theorem running_goes (hH : s.Handover) (hP : s.Protocol) (hfree : s.Free (.inl ℓ))
    {current : Option ConnFunctor} {functions : List ConnFunctor}
    (hp : (s.loops ℓ).phase = .running current functions) : s.Goes := by
  have hfree' : ∀ t ∈ some (Sum.inl ℓ : LoopId n ⊕ T), s.Free t := by simpa using hfree
  cases functions with
  | nil =>
    exact goes_of_turn hH hP (e := .finish ℓ) hfree' rfl trivial
      (EventLoop.step_finish_iff.mpr ⟨⟨current, hp⟩, rfl⟩) rfl
  | cons f functions =>
    have hnext : s.next ℓ = some f := by
      rw [next, EventLoop.restOfBatch, hp]
      rfl
    have hl := EventLoop.step_run_iff.mpr ⟨current, f, functions, hp, rfl⟩
    -- the functors of the protocol hold their connections
    have hraw : f.raw = none := by
      obtain ⟨-, hdue⟩ := hP.holds.of_next hl hnext
      cases f with
      | sendInLoop c message late => exact hdue.elim
      | shutdownInLoop c late => exact hdue.elim
      | _ => rfl
    have hrun := act_run_some (w := .wouldBlock) hnext
    rw [hraw, if_pos (by simp)] at hrun
    exact goes_of_turn hH hP (e := .run ℓ .wouldBlock) hfree' rfl trivial hl hrun

/-- **A loop** goes on, or sleeps. -/
theorem loop_goes (hH : s.Handover) (hP : s.Protocol) (hA : s.Attentive)
    (hidle : ∀ ℓ t, (s.loops ℓ).callers t = .idle) (hstuck : ¬ s.Goes) (ℓ : LoopId n) :
    (s.loops ℓ).phase = .polling ∧ (s.loops ℓ).wakeupFd_ = 0 := by
  have hfree : s.Free (.inl ℓ) := fun ℓ' => hidle ℓ' _
  have hfree' : ∀ t ∈ some (Sum.inl ℓ : LoopId n ⊕ T), s.Free t := by simpa using hfree
  cases hp : (s.loops ℓ).phase with
  | outside =>
    exact absurd (goes_of_turn hH hP (e := .loop ℓ) hfree' rfl trivial
      (EventLoop.step_loop_iff.mpr ⟨hp, rfl⟩) rfl) hstuck
  | test =>
    exact absurd (goes_of_turn hH hP (e := .test ℓ) hfree' rfl trivial
      (EventLoop.step_test_iff.mpr ⟨hp, rfl⟩) rfl) hstuck
  | polling =>
    refine ⟨rfl, ?_⟩
    by_contra hw
    exact hstuck (goes_of_turn hH hP (e := .poll ℓ true []) hfree' rfl trivial
      (EventLoop.step_poll_iff.mpr ⟨hp, fun _ => hw, rfl⟩) (act_poll_nil s ℓ true))
  | handling woken => exact absurd (handling_goes hH hP hA hfree hp) hstuck
  | running current functions => exact absurd (running_goes hH hP hfree hp) hstuck

/-- **Progress.** -/
theorem goes_or_quiet (hH : s.Handover) (hP : s.Protocol) (hA : s.Attentive) :
    s.Quiet ∨ s.Goes := by
  by_cases hstuck : s.Goes
  · exact Or.inr hstuck
  have hidle : ∀ ℓ t, (s.loops ℓ).callers t = .idle := by
    intro ℓ t
    by_contra ht
    exact hstuck (goes_of_turn hH hP (e := .wakeup t ℓ) (fun t ht => by cases ht) rfl trivial
      (EventLoop.step_wakeup_iff.mpr ⟨ht, rfl⟩) rfl)
  have hloop := loop_goes hH hP hA hidle hstuck
  have hasleep : ∀ ℓ, ¬ (s.loops ℓ).Awake := by
    rintro ℓ (hw | ⟨t, ht⟩)
    · exact hw (hloop ℓ).2
    · rw [hidle] at ht
      cases ht
  refine Or.inl ⟨fun ℓ => (hloop ℓ).1, fun ℓ => (hloop ℓ).2, hidle, fun ℓ => ?_, fun ℓ => ?_,
    fun ℓ => hP.active_eq_nil ?_⟩
  · by_contra hne
    exact hasleep ℓ ((hA.wakes ℓ).awake (by simp [hloop ℓ]) hne)
  · by_contra hne
    obtain ⟨current, functions, hp⟩ := hA.vectors ℓ hne
    rw [(hloop ℓ).1] at hp
    cases hp
  · simp [Handling, hloop ℓ]

end TcpServer

/-! ## The process -/

namespace Process

open Frame TcpServer TcpConnection

variable {n : ℕ} {T : Type} [DecidableEq T] [Fintype T] {base : List ℕ} {P P' : Process n T}
  {s s' : TcpServer n T} {e : Event n T}

/-- What happens to a connection happens to one that is owned. -/
theorem owned_of_touched (hH : s.Handover) (hP : s.Protocol) {o : Outcome (TcpServer n T)}
    (hs : s.act e = some o) (hw : e.worksOff = true) {c : ℕ} (hc : touched s e = some c) :
    s.Owned c := by
  cases e with
  | newConnection sockfd => cases hw
  | callback ℓ r w =>
    obtain ⟨d, hd, rfl⟩ := Option.map_eq_some_iff.mp hc
    have hdis := hP.active ℓ d (List.mem_of_mem_head? hd)
    exact (hP.openClose hH).owned d.conn hdis.accepted hdis.destroyed
  | run ℓ w =>
    obtain ⟨f, hf, rfl⟩ := Option.map_eq_some_iff.mp hc
    rw [act_run_some hf] at hs
    split_ifs at hs with hraw
    exact owned_of_next hH hf hraw
  | _ => cases hc

/-- **What can go on with a list for each connection** can go on in the process. -/
theorem Refines.act_of (h : Refines base P s) (hw : e.worksOff = true)
    (howned : ∀ c, touched s e = some c → s.Owned c) (hs : s.act e = some (.ok s')) :
    ∃ s₁, P.act e = some (.ok s₁) := by
  obtain ⟨q, hq⟩ := h.server
  by_cases hpoll : ∃ ℓ woken revents, e = .poll ℓ woken revents
  · obtain ⟨ℓ, woken, revents, rfl⟩ := hpoll
    obtain rfl := List.isEmpty_iff.mp (Bool.and_eq_true_iff.mp hw).2
    rw [act_poll_nil] at hs
    obtain ⟨l, hl, -⟩ := map_turn_eq_some hs
    have hturn : P.server.turn ℓ (.poll woken) = some (P.server.setLoop ℓ l) := by
      rw [hq]
      exact turn_eq_some_iff.mpr ⟨l, hl, rfl⟩
    rw [act, if_pos ⟨by simp, List.nodup_nil⟩, hturn]
    exact ⟨_, rfl⟩
  have hpoll : ∀ ℓ woken revents, e ≠ .poll ℓ woken revents :=
    fun ℓ woken revents he => hpoll ⟨ℓ, woken, revents, he⟩
  have hnew : ∀ sockfd, e ≠ .newConnection sockfd := by
    rintro sockfd rfl
    cases hw
  have hload : P.act e = P.load.act e := by
    cases e with
    | poll ℓ woken revents => exact absurd rfl (hpoll ℓ woken revents)
    | newConnection sockfd => exact absurd rfl (hnew sockfd)
    | callback ℓ r w =>
      refine if_pos fun c hc => ?_
      rw [hq, touched_set] at hc
      rw [hq]
      exact howned c hc
    | _ => rfl
  rw [hload, h.load_eq]
  cases ht : touched s e with
  | none =>
    obtain ⟨o, -, ho⟩ := act_aside s ht hpoll
    have hself := ho (TcpServer.view.get s)
    rw [View.set_get, hs] at hself
    obtain ⟨F, rfl, -⟩ := Option.map_eq_some_iff.mp hself.symm
    exact ⟨_, ho _⟩
  | some c =>
    obtain ⟨o, hf, ho⟩ := act_local s ht hnew
    have hself := ho (TcpServer.view.get s)
    rw [View.set_get, hs] at hself
    obtain ⟨f, rfl, hfs⟩ := Option.map_eq_some_iff.mp hself.symm
    have hshared := (hf f rfl).eq s (fun k => P.interest (s.conns k.1).loop_ k.2)
      (h.tidy.entry c (howned c ht))
    rw [hfs] at hshared
    exact ⟨_, (ho _).trans (congrArg some hshared)⟩

/-- What is left when the process is quiet. -/
structure Settled (base : List ℕ) (P : Process n T) : Prop where
  quiet : P.server.Quiet
  /-- a connection is open and registered for reading, or gone -/
  conns : ∀ c, P.server.Accepted c →
    (P.server.conns c).established = 1 ∧ (P.server.conns c).tcp.closes = 0 ∧
        (P.server.conns c).tcp.Reading ∨
      (P.server.conns c).tcp.closes = 1 ∧ (P.server.conns c).removed = 1 ∧
        (P.server.conns c).destroyed = 1
  map : ∀ c, c ∈ P.server.connections_.map (·.2) ↔
    P.server.Accepted c ∧ (P.server.conns c).tcp.closes = 0
  /-- its descriptor is closed, unless an application thread holds on to it -/
  opened : ∀ k, k ∈ P.opened ↔ k ∈ base ∨ ∃ c, P.server.Accepted c ∧
    ((P.server.conns c).tcp.closes = 0 ∨ ∃ t, (P.server.apps t).conn = some c) ∧
    (P.server.conns c).tcp.fd = k

omit [DecidableEq T] [Fintype T] in
/-- **A quiet process** has let go of all that was closed. -/
theorem Sharing.settled (h : P.Sharing base s) (hquiet : s.Quiet) : P.Settled base := by
  obtain ⟨q, hq⟩ := h.refines.server
  have hH := h.refines.handover
  have hqueue : ∀ ℓ, s.queue ℓ = [] := by
    intro ℓ
    rw [queue, EventLoop.uncalled, hquiet.polling]
    exact hquiet.pending ℓ
  have hdue : ∀ ℓ f, ¬ s.Due ℓ f := by
    intro ℓ f hf
    have := ((h.protocol.holds ℓ).2 f).mpr hf
    rw [hqueue] at this
    cases this
  have hconns : ∀ c, s.Accepted c →
      (s.conns c).established = 1 ∧ (s.conns c).tcp.closes = 0 ∧ (s.conns c).tcp.Reading ∨
        (s.conns c).tcp.closes = 1 ∧ (s.conns c).removed = 1 ∧ (s.conns c).destroyed = 1 := by
    intro c hc
    have hst := h.protocol.stage c hc
    have h1 := hst.destroyed_le
    have h2 := hst.removed_le
    have h3 := hst.closes_le
    have h4 := hst.established_le
    -- what is not queued is not due
    have he : (s.conns c).established ≠ 0 := fun he =>
      hdue (s.conns c).loop_ (.connectEstablished c) ⟨hc, rfl, he⟩
    by_cases hcl : (s.conns c).tcp.closes = 0
    · exact Or.inl ⟨by omega, hcl, hst.opened (by omega) hcl⟩
    · have hr : (s.conns c).removed ≠ 0 := fun hr =>
        hdue none (.removeConnectionInLoop c) ⟨hc, rfl, by simp only [ConnFunctor.conn]; omega, hr⟩
      have hd : (s.conns c).destroyed ≠ 0 := fun hd =>
        hdue (s.conns c).loop_ (.connectDestroyed c)
          ⟨hc, rfl, by simp only [ConnFunctor.conn]; omega, hd⟩
      exact Or.inr ⟨by omega, by omega, by omega⟩
  have hmap : ∀ c, c ∈ s.connections_.map (·.2) ↔
      s.Accepted c ∧ (s.conns c).tcp.closes = 0 := by
    intro c
    rw [hH.mem_map_iff]
    refine and_congr_right fun hc => ?_
    have h2 := (h.protocol.stage c hc).removed_le
    rcases hconns c hc with ⟨-, hcl, -⟩ | ⟨hcl, hr, -⟩
    · omega
    · omega
  have howned : ∀ c, s.Owned c ↔
      s.Accepted c ∧ ((s.conns c).tcp.closes = 0 ∨ ∃ t, (s.apps t).conn = some c) := by
    intro c
    constructor
    · intro ho
      refine ⟨hH.accepted_of_owned ho, ?_⟩
      rcases ho with hm | ⟨ℓ, f, hf, -⟩ | ht
      · exact Or.inl ((hmap c).mp hm).2
      · rw [hquiet.pending, hquiet.functions] at hf
        cases hf
      · exact Or.inr ht
    · rintro ⟨hc, hcl | ht⟩
      · exact Or.inl ((hmap c).mpr ⟨hc, hcl⟩)
      · exact Or.inr (Or.inr ht)
  have hopened := h.refines.described.opened
  rw [hq] at hopened
  constructor
  · rw [hq]
    exact ⟨hquiet.polling, hquiet.asleep, hquiet.callers, hquiet.pending, hquiet.functions,
      hquiet.active⟩
  · rw [hq]
    intro c hc
    refine (hconns c hc).imp (fun ho => ⟨ho.1, ho.2.1, ?_⟩) id
    exact ⟨ho.2.2.state_, ho.2.2.events_, ho.2.2.index_⟩
  · rw [hq]
    exact hmap
  · rw [hq]
    intro k
    rw [hopened]
    refine or_congr Iff.rfl (exists_congr fun c => ?_)
    rw [← and_assoc]
    exact and_congr (howned c) Iff.rfl

omit [DecidableEq T] in
theorem Refines.potential (h : Refines base P s) : P.server.potential = s.potential := by
  obtain ⟨q, hq⟩ := h.server
  rw [hq]
  rfl

/-- What works something off. -/
def Works (P : Process n T) (e : Event n T) : Prop :=
  e.worksOff = true ∧ ReportsOnce P.server e

/-- **One step** towards that. -/
theorem step_works (h : P.Sharing base s) (he : P.Works e) (hs : step P e = some P') :
    ∃ s', P'.Sharing base s' ∧ P'.server.potential < P.server.potential := by
  obtain ⟨s', hs', h'⟩ := step_sharing h (Event.calls_of_worksOff he.1) he.2 hs
  refine ⟨s', h', ?_⟩
  rw [h.refines.potential, h'.refines.potential]
  have hseen : (P.seen e).worksOff = true := by
    cases e with
    | poll ℓ woken reports =>
      obtain ⟨hwoken, hnil⟩ := Bool.and_eq_true_iff.mp he.1
      obtain rfl := List.isEmpty_iff.mp hnil
      exact Bool.and_eq_true_iff.mpr ⟨hwoken, rfl⟩
    | _ => exact he.1
  exact act_potential hseen (perform_eq_some_iff.mp (TcpServer.step_eq_some_iff.mp hs')).2

/-- **Progress.** -/
theorem settled_or_works (h : P.Sharing base s) :
    P.Settled base ∨ ∃ e P', P.Works e ∧ step P e = some P' := by
  have hH := h.refines.handover
  rcases goes_or_quiet hH h.protocol h.attentive with hquiet | ⟨e, s', hw, honce, hs⟩
  · exact Or.inl (h.settled hquiet)
  · obtain ⟨hfree, hact⟩ := perform_eq_some_iff.mp (TcpServer.step_eq_some_iff.mp hs)
    obtain ⟨s₁, hs₁⟩ := h.refines.act_of hw (fun c hc => owned_of_touched hH h.protocol hact hw hc)
      hact
    have hperform : P.perform e = some (.ok s₁) := by
      obtain ⟨q, hq⟩ := h.refines.server
      rw [perform, if_pos, hs₁]
      rw [hq]
      exact hfree
    refine Or.inr ⟨e, P.settle e s₁, ⟨hw, h.refines.reportsOnce_iff.mpr honce⟩, ?_⟩
    rw [step, hperform]
    rfl

/-- **The server settles.** In every state of a run without `send` and `shutdown` in which each
event set reports the end of the stream once, with any number of loops and connections, no loop
sleeps on a functor. When nothing more comes from peers and application threads, the threads of the
server come to rest after a bounded number of steps, in any order; then every loop sleeps, and what
was closed is gone, with its descriptor. -/
theorem settles {name_ : String} {cb : Bool} (hbase : base.Nodup) {es : List (Event n T)}
    (h : Run step (new n T name_ cb base) es P) (hcalls : ∀ e ∈ es, e.calls = false)
    (honce : Along step (fun P e => ReportsOnce P.server e) (new n T name_ cb base) es) :
    (∀ ℓ, (P.server.loops ℓ).NoLostWakeup) ∧
      Settles step Works (Settled base) P.server.potential P ∧
      ∃ es' P', Run step P es' P' ∧ Along step Works P es' ∧ P'.Settled base := by
  have hsharing := sharing_of_run hbase h hcalls honce
  have hsettles : Settles step Works (Settled base) P.server.potential P := by
    refine settles_of_potential (P := fun P => ∃ s, P.Sharing base s)
      (φ := fun P : Process n T => P.server.potential) ?_ ?_ hsharing
    · rintro P e P' ⟨s, hs⟩ he hstep
      obtain ⟨s', hs', hlt⟩ := step_works hs he hstep
      exact ⟨⟨s', hs'⟩, hlt⟩
    · rintro P ⟨s, hs⟩
      exact settled_or_works hs
  refine ⟨fun ℓ hp hne => ?_, hsettles, hsettles.reaches⟩
  obtain ⟨s, hs⟩ := hsharing
  obtain ⟨q, hq⟩ := hs.refines.server
  rw [hq] at hp hne ⊢
  exact (hs.attentive.wakes ℓ).noLostWakeup hp hne

/-- When the descriptor has been reused, eleven steps are left at most. -/
theorem reused_settles : ∃ P, Run step (new 1 Unit "server" false [0, 1, 2, 3, 4]) reused P ∧
    Settles step Works (Settled [0, 1, 2, 3, 4]) 11 P := by
  have h : (reused.foldlM step (new 1 Unit "server" false [0, 1, 2, 3, 4])).map
      (·.server.potential) = some 11 := by decide +kernel
  obtain ⟨P, hP, hq⟩ := Option.map_eq_some_iff.mp h
  have hsettles := (settles (by decide) hP (by decide) (along_of_check (by decide +kernel))).2.1
  rw [hq] at hsettles
  exact ⟨P, hP, hsettles⟩

end Process
end HighServer
