import HighServer.Net.Locality
import HighServer.Net.OpenClose
import HighServer.Net.Wakeup

/-!
# No loop sleeps on the open/close protocol

A functor that a loop thread queues while it calls functors is left behind without a wakeup. The
functors of opening and closing are queued in handlers, or from the thread of another loop.

* `Attentive`: the invariant, with what else the progress of the loops rests on;
* `Attentive.queueInLoop`: a functor of another thread, or of a handler;
* `Attentive.callback`, `Attentive.call`, `Attentive.inserted`: the parts of a step;
* **`act_attentive`**: every event but a call of `send` or `shutdown`.
-/

namespace HighServer

namespace EventLoop

variable {T F : Type} {l l' : EventLoop T F}

theorem Wakes.noLostWakeup (h : l.Wakes) : l.NoLostWakeup :=
  fun hp hne => h.awake (by simp [hp]) hne

variable [DecidableEq T]

/-- `doPendingFunctors` goes on up to its end. -/
theorem step_running {e : Event T F} (hs : step l e = some l') (he : e ≠ .finish)
    (h : ∃ current functions, l.phase = .running current functions) :
    ∃ current functions, l'.phase = .running current functions := by
  obtain ⟨current, functions, hp⟩ := h
  cases e with
  | loop =>
    obtain ⟨hp', -⟩ := step_loop_iff.mp hs
    simp [hp'] at hp
  | test =>
    obtain ⟨hp', -⟩ := step_test_iff.mp hs
    simp [hp'] at hp
  | poll woken =>
    obtain ⟨hp', -⟩ := step_poll_iff.mp hs
    simp [hp'] at hp
  | handleRead =>
    obtain ⟨hp', -⟩ := step_handleRead_iff.mp hs
    simp [hp'] at hp
  | swap =>
    obtain ⟨hp', -⟩ := step_swap_iff.mp hs
    simp [hp'] at hp
  | run =>
    obtain ⟨_, f, functions', -, rfl⟩ := step_run_iff.mp hs
    exact ⟨some f, functions', rfl⟩
  | finish => exact absurd rfl he
  | queueInLoop cb =>
    obtain ⟨-, rfl⟩ := step_queueInLoop_iff.mp hs
    exact ⟨current, functions, (phase_queueInLoop l cb).trans hp⟩
  | quit =>
    obtain ⟨-, rfl⟩ := step_quit_iff.mp hs
    exact ⟨current, functions, hp⟩
  | push t cb =>
    obtain ⟨-, rfl⟩ := step_push_iff.mp hs
    exact ⟨current, functions, hp⟩
  | quitFrom t =>
    obtain ⟨-, rfl⟩ := step_quitFrom_iff.mp hs
    exact ⟨current, functions, hp⟩
  | wakeup t =>
    obtain ⟨-, rfl⟩ := step_wakeup_iff.mp hs
    exact ⟨current, functions, (phase_wakeup l).trans hp⟩

end EventLoop

/-- The close callback is the first of an event set. -/
theorem Channel.close_not_mem_tail (revents_ : Mask) :
    Channel.Callback.close ∉ (Channel.callbacks revents_).tail := by
  unfold Channel.callbacks
  split_ifs <;> simp

namespace TcpServer

variable {n : ℕ} {T : Type} {s s' : TcpServer n T} {ℓ : LoopId n} {c : ℕ} {f : ConnFunctor}

structure Attentive (s : TcpServer n T) : Prop where
  /-- no loop sleeps with functors pending and nothing to wake it -/
  wakes : ∀ ℓ, (s.loops ℓ).Wakes
  /-- `removeConnectionInLoop` is queued for connections of other loops than the base loop -/
  apart : ∀ ℓ c, .removeConnectionInLoop c ∈ s.queue ℓ → (s.conns c).loop_ ≠ none
  /-- the close callback comes before anything else has been reported -/
  first : ∀ ℓ, ∀ d ∈ s.active ℓ, .close ∉ d.todo.tail ∧ (.close ∈ d.todo → d.reported = false)
  /-- the vectors are those of a `doPendingFunctors` -/
  vectors : ∀ ℓ, s.functions ℓ ≠ [] → ∃ current functions,
    (s.loops ℓ).phase = .running current functions

theorem attentive_new (name_ : String) (cb : Bool) : (new n T name_ cb).Attentive where
  wakes _ := EventLoop.wakes_new
  apart _ _ h := absurd h List.not_mem_nil
  first _ _ h := absurd h List.not_mem_nil
  vectors _ h := absurd rfl h

/-- The connections but for their loops do not count. -/
theorem Attentive.congr (h : s.Attentive) (hloops : s'.loops = s.loops)
    (hactive : s'.active = s.active) (hfunctions : s'.functions = s.functions)
    (hloop : ∀ c, (s'.conns c).loop_ = (s.conns c).loop_) : s'.Attentive where
  wakes ℓ := by
    rw [hloops]
    exact h.wakes ℓ
  apart ℓ c hc := by
    rw [queue, hloops] at hc
    rw [hloop]
    exact h.apart ℓ c hc
  first := by
    rw [hactive]
    exact h.first
  vectors := by
    rw [hloops, hfunctions]
    exact h.vectors

theorem Attentive.setConn (h : s.Attentive) {k : Conn n} (hk : k.loop_ = (s.conns c).loop_) :
    (s.setConn c k).Attentive := by
  refine h.congr rfl rfl rfl fun d => ?_
  rw [setConn_conns]
  split_ifs with hd
  · rw [hk, hd]
  · rfl

theorem Attentive.takeOut (h : s.Attentive) (c : ℕ) : (s.takeOut c).Attentive := by
  refine h.congr rfl rfl rfl fun d => ?_
  show (Function.update s.conns c _ d).loop_ = _
  rw [Function.update_apply]
  split_ifs with hd
  · rw [hd]
  · rfl

/-- The channels that are being handled. -/
theorem Attentive.setActive (h : s.Attentive) {ds : List Dispatch}
    (hds : ∀ d ∈ ds, .close ∉ d.todo.tail ∧ (.close ∈ d.todo → d.reported = false)) :
    { s with active := Function.update s.active ℓ ds }.Attentive := by
  refine ⟨h.wakes, h.apart, fun ℓ' d hd => ?_, h.vectors⟩
  dsimp only at hd
  rw [Function.update_apply] at hd
  split_ifs at hd
  · exact hds d hd
  · exact h.first ℓ' d hd

variable [DecidableEq T]

/-- **A functor** of a handler, or of another thread. -/
theorem Attentive.queueInLoop (h : s.Attentive) {t : LoopId n ⊕ T}
    (hown : t = .inl ℓ → ∃ woken, (s.loops ℓ).phase = .handling woken)
    (hf : ∀ c, f = .removeConnectionInLoop c → (s.conns c).loop_ ≠ none) :
    (s.queueInLoop t ℓ f).Attentive := by
  refine ⟨fun ℓ' => ?_, fun ℓ' c hc => ?_, h.first, fun ℓ' hne => ?_⟩
  · rw [TcpServer.queueInLoop, setLoop_loops]
    split_ifs with hℓ ht
    · obtain ⟨woken, hp⟩ := hown ht
      exact Or.inl ⟨woken, (EventLoop.phase_queueInLoop _ _).trans hp⟩
    · exact Or.inr fun _ => Or.inr ⟨t, Function.update_self _ _ _⟩
    · exact h.wakes ℓ'
  · rcases mem_queue_queueInLoop.mp hc with hc | ⟨hc, -⟩
    · exact h.apart ℓ' c hc
    · exact hf c hc.symm
  · obtain ⟨current, functions, hp⟩ := h.vectors ℓ' hne
    refine ⟨current, functions, ?_⟩
    rw [TcpServer.queueInLoop, setLoop_loops]
    split_ifs with hℓ ht
    · subst hℓ
      exact (EventLoop.phase_queueInLoop _ _).trans hp
    · subst hℓ
      exact hp
    · exact hp

/-- A turn of a loop; at the end of `doPendingFunctors` its vector has to be gone. -/
theorem Attentive.turn (h : s.Attentive) {e : EventLoop.Event (LoopId n ⊕ T) ConnFunctor}
    (hs : s.turn ℓ e = some s') (hq : e.queued = []) (hfinish : e = .finish → s.functions ℓ = []) :
    s'.Attentive := by
  obtain ⟨l, hl, rfl⟩ := turn_eq_some_iff.mp hs
  have hcovered : (s.loops ℓ).Covered e := by
    cases e <;> trivial
  refine ⟨fun ℓ' => ?_, fun ℓ' c hc => ?_, h.first, fun ℓ' hne => ?_⟩
  · rw [setLoop_loops]
    split_ifs with hℓ
    · exact EventLoop.step_wakes (h.wakes ℓ) hcovered hl
    · exact h.wakes ℓ'
  · refine h.apart ℓ' c ?_
    by_cases hr : e = .run
    · subst hr
      obtain ⟨f, functions, -, hf⟩ := EventLoop.run_uncalled hl
      rw [queue, setLoop_loops] at hc
      split_ifs at hc with hℓ
      · rw [queue, hℓ, hf]
        exact List.mem_cons_of_mem _ hc
      · exact hc
    · rwa [queue_turn hl hr hq] at hc
  · have hrunning := h.vectors ℓ' hne
    rw [setLoop_loops]
    split_ifs with hℓ
    · subst hℓ
      exact EventLoop.step_running hl (fun he => hne (hfinish he)) hrunning
    · exact hrunning

omit [DecidableEq T] in
/-- `doPendingFunctors` takes the functors, or is done with them. -/
theorem Attentive.setFunctions (h : s.Attentive) {fs : List ConnFunctor}
    (hfs : fs ≠ [] → ∃ current functions, (s.loops ℓ).phase = .running current functions) :
    { s with functions := Function.update s.functions ℓ fs }.Attentive := by
  refine ⟨h.wakes, h.apart, h.first, fun ℓ' hne => ?_⟩
  dsimp only at hne
  rw [Function.update_apply] at hne
  split_ifs at hne with hℓ
  · subst hℓ
    exact hfs hne
  · exact h.vectors ℓ' hne

/-- The connection is taken out of the map by a handler, or is in another loop. -/
theorem Attentive.removeConnectionInLoop (h : s.Attentive)
    (hown : (s.conns c).loop_ = ℓ → ∃ woken, (s.loops ℓ).phase = .handling woken)
    (hs : s.removeConnectionInLoop ℓ c = .ok s') : s'.Attentive := by
  obtain ⟨-, rfl⟩ := removeConnectionInLoop_ok hs
  refine (h.takeOut c).queueInLoop (fun heq => ?_) fun d hd => by cases hd
  have hloop : ℓ = (s.conns c).loop_ := Sum.inl.inj heq
  rw [← hloop]
  exact hown hloop.symm

/-- **A callback** runs in a handler. -/
theorem Attentive.callback (h : s.Attentive) (hp : s.Handling ℓ) (hloop : (s.conns c).loop_ = ℓ)
    {r : ReadResult} {w : WriteResult} {cb : Channel.Callback}
    (hs : s.callback ℓ c r w cb = .ok s') : s'.Attentive := by
  have hhandling : ∃ woken, (s.loops ℓ).phase = .handling woken := by
    rcases hp with hp | hp
    · exact ⟨true, hp⟩
    · exact ⟨false, hp⟩
  obtain ⟨tcp, rfl | hs⟩ := callback_ok hs
  · exact h.setConn rfl
  · have hset : (s.setConn c { s.conns c with tcp }).Attentive := h.setConn rfl
    rw [removeConnection, runInLoop] at hs
    split_ifs at hs with hℓ
    · exact hset.removeConnectionInLoop (fun _ => hhandling) hs
    · obtain rfl := Except.ok.inj hs
      refine hset.queueInLoop (fun heq => absurd (Sum.inl.inj heq) hℓ) fun d hd => ?_
      obtain rfl : c = d := ConnFunctor.removeConnectionInLoop.inj hd
      rw [setConn_self_conns]
      exact fun hnone => hℓ (hloop.symm.trans hnone)

/-- **A functor** of the protocol. -/
theorem Attentive.call (h : s.Attentive) (hapart : ∀ c, f = .removeConnectionInLoop c →
    ℓ = none ∧ (s.conns c).loop_ ≠ none) (hsend : ∀ c message late, f ≠ .sendInLoop c message late)
    {w : WriteResult} (hs : s.call ℓ w f = .ok s') : s'.Attentive := by
  cases f with
  | connectEstablished c =>
    obtain ⟨-, -, hs⟩ := bind_eq_ok_iff.mp hs
    obtain ⟨tcp, -, hs⟩ := bind_eq_ok_iff.mp hs
    obtain rfl := Except.ok.inj hs
    exact h.setConn rfl
  | removeConnectionInLoop c =>
    obtain ⟨rfl, hne⟩ := hapart c rfl
    exact h.removeConnectionInLoop (fun hnone => absurd hnone hne) hs
  | connectDestroyed c =>
    obtain ⟨-, -, hs⟩ := bind_eq_ok_iff.mp hs
    obtain ⟨tcp, -, hs⟩ := bind_eq_ok_iff.mp hs
    obtain rfl := Except.ok.inj hs
    exact h.setConn rfl
  | writeComplete c =>
    obtain rfl := Except.ok.inj hs
    exact h
  | sendInLoop c message late => exact absurd rfl (hsend c message late)
  | shutdownInLoop c late =>
    obtain ⟨-, -, hs⟩ := bind_eq_ok_iff.mp hs
    obtain ⟨tcp, -, rfl⟩ := onTcp_ok hs
    exact h.setConn rfl

omit [DecidableEq T] in
/-- **A connection that is accepted** has nothing queued. -/
theorem Attentive.inserted (h : s.Attentive) (hH : s.Handover) (sockfd : ℕ) :
    (s.insert sockfd).Attentive := by
  refine ⟨h.wakes, fun ℓ c hc => ?_, h.first, h.vectors⟩
  have hacc : s.Accepted c := hH.functors ℓ _ (hH.mem_held hc)
  rw [insert_conns, if_neg hacc.2.ne]
  exact h.apart ℓ c hc

theorem newConnection_attentive (h : s.Attentive) (hH : s.Handover) {sockfd : ℕ}
    (hs : s.newConnection sockfd = .ok s') : s'.Attentive := by
  have hins := h.inserted hH sockfd
  rw [newConnection, runInLoop] at hs
  split_ifs at hs with hℓ
  · obtain ⟨-, -, hs⟩ := bind_eq_ok_iff.mp hs
    obtain ⟨tcp, -, hs⟩ := bind_eq_ok_iff.mp hs
    obtain rfl := Except.ok.inj hs
    exact hins.setConn rfl
  · obtain rfl := Except.ok.inj hs
    exact hins.queueInLoop (fun heq => absurd (Sum.inl.inj heq) hℓ) fun d hd => by cases hd

variable [Fintype T]

omit [Fintype T] in
/-- An event that is a turn of a loop. -/
theorem Attentive.of_turn (h : s.Attentive) {e : EventLoop.Event (LoopId n ⊕ T) ConnFunctor}
    (hs : (s.turn ℓ e).map (pure : _ → Outcome _) = some (.ok s')) (hq : e.queued = [])
    (he : e ≠ .finish) : s'.Attentive := by
  obtain ⟨s₁, hs₁, hs⟩ := Option.map_eq_some_iff.mp hs
  exact Except.ok.inj hs ▸ h.turn hs₁ hq fun heq => absurd heq he

/-- A callback that is due: what is left for its channel is not the close callback. -/
theorem Attentive.runCallback (h : s.Attentive) (hP : s.Protocol) {r : ReadResult}
    {w : WriteResult} (hs : s.act (.callback ℓ r w) = some (.ok s')) : s'.Attentive := by
  obtain ⟨c, cb, todo, reported, rest, s₁, hact, hs₁, rfl⟩ := act_callback_eq_ok hs
  have hmem : (⟨c, cb :: todo, reported⟩ : Dispatch) ∈ s.active ℓ := by
    rw [hact]
    exact List.mem_cons_self
  have hhandling : s.Handling ℓ := hP.handling ℓ (List.ne_nil_of_mem hmem)
  have hloop := (hP.active ℓ _ hmem).loop_
  refine (h.callback hhandling hloop hs₁).setActive fun d hd => ?_
  rcases List.mem_cons.mp hd with rfl | hd
  · have hclose : Channel.Callback.close ∉ todo := (h.first ℓ _ hmem).1
    exact ⟨fun hmem => hclose (List.mem_of_mem_tail hmem), fun hmem => absurd hmem hclose⟩
  · refine h.first ℓ d ?_
    rw [hact]
    exact List.mem_cons_of_mem _ hd

/-- A functor that is called. -/
theorem Attentive.runFunctor (h : s.Attentive) (hP : s.Protocol) {w : WriteResult}
    (hs : s.act (.run ℓ w) = some (.ok s')) : s'.Attentive := by
  obtain ⟨f, l, hf, hl, hs⟩ := act_run_eq_some hs
  obtain ⟨-, hdue⟩ := hP.holds.of_next hl hf
  have hturn := h.turn (turn_eq_some_iff.mpr ⟨l, hl, rfl⟩) rfl (by simp)
  refine hturn.call (fun c hc => ?_) (fun c message late hc => ?_) hs
  · subst hc
    refine ⟨hdue.1, h.apart ℓ c ?_⟩
    rw [queue_run hl hf, if_pos rfl]
    exact List.mem_cons_self
  · subst hc
    exact hdue

/-- **Every event** but a call of `send` or `shutdown`. -/
theorem act_attentive (h : s.Attentive) (hH : s.Handover) (hP : s.Protocol) {e : Event n T}
    (hcalls : e.calls = false) (hs : s.act e = some (.ok s')) : s'.Attentive := by
  cases e with
  | loop ℓ => exact h.of_turn hs rfl (by simp)
  | test ℓ => exact h.of_turn hs rfl (by simp)
  | wakeupRead ℓ => exact h.of_turn hs rfl (by simp)
  | wakeup t ℓ => exact h.of_turn hs rfl (by simp)
  | poll ℓ woken revents =>
    obtain ⟨-, -, l, hl, hs⟩ := act_poll_eq_some hs
    obtain rfl := Except.ok.inj hs
    have hturn := h.turn (turn_eq_some_iff.mpr ⟨l, hl, rfl⟩) rfl (by simp)
    refine hturn.setActive fun d hd => ?_
    obtain ⟨p, -, rfl⟩ := List.mem_map.mp hd
    exact ⟨Channel.close_not_mem_tail p.2, fun _ => rfl⟩
  | newConnection sockfd => exact newConnection_attentive h hH (act_newConnection_eq_some hs).2
  | callback ℓ r w => exact h.runCallback hP hs
  | handled ℓ =>
    obtain ⟨c, reported, rest, hact, hs⟩ := act_handled_eq_some hs
    obtain rfl := Except.ok.inj hs
    refine h.setActive fun d hd => h.first ℓ d ?_
    rw [hact]
    exact List.mem_cons_of_mem _ hd
  | swap ℓ =>
    obtain ⟨-, l, hl, hs⟩ := act_swap_eq_some hs
    obtain rfl := Except.ok.inj hs
    have hturn := h.turn (turn_eq_some_iff.mpr ⟨l, hl, rfl⟩) rfl (by simp)
    refine hturn.setFunctions fun _ => ?_
    obtain ⟨-, rfl⟩ := EventLoop.step_swap_iff.mp hl
    rw [setLoop_loops, if_pos rfl]
    exact ⟨none, _, rfl⟩
  | run ℓ w => exact h.runFunctor hP hs
  | finish ℓ =>
    obtain ⟨l, hl, hs⟩ := act_finish_eq_some hs
    obtain rfl := Except.ok.inj hs
    have hdone : { s with functions := Function.update s.functions ℓ [] }.Attentive :=
      h.setFunctions fun hne => absurd rfl hne
    exact hdone.turn (turn_eq_some_iff.mpr ⟨l, hl, rfl⟩) rfl fun _ => Function.update_self _ _ _
  | copy t c =>
    obtain ⟨-, hs⟩ := act_copy_eq_some hs
    obtain rfl := Except.ok.inj hs
    exact h.congr rfl rfl rfl fun _ => rfl
  | drop t =>
    obtain rfl := Except.ok.inj (act_drop_eq_some hs)
    exact h.congr rfl rfl rfl fun _ => rfl
  | send t message => cases hcalls
  | shutdown t => cases hcalls
  | store t =>
    obtain ⟨c, happ, -⟩ := act_store_eq_some hs
    exact (hP.not_calling happ rfl).elim
  | enqueue t =>
    obtain ⟨c, f, hf, -⟩ := act_enqueue_eq_some hs
    rcases hf with ⟨message, happ, -⟩ | ⟨happ, -⟩
    · exact (hP.not_calling happ rfl).elim
    · exact (hP.not_calling happ rfl).elim

end TcpServer
end HighServer
