import HighServer.Lib.Settling
import HighServer.Net.Locality

/-!
# What is left to do

A loop works off the functors and channels that it has, and wakes other loops on the way. What that
can still come to is bounded: a `poll` that reports nothing but the eventfd, and every step up to
the next `poll`, takes something off a potential.

* `EventLoop.potential`: the steps of the current round, those of the round that a readable eventfd
  brings, the functors and the wakeups to come; `potential_lt`, `potential_run`: a step of the loop;
* `TcpServer.potential`: the loops, the channels that are being handled, the calls of `send` and
  `shutdown`; `potential_callback`, `potential_call`: what a callback and a functor add;
* **`act_potential`**: an event that works something off takes more than it adds.
-/

namespace HighServer

open Runs

/-- What the `wakeup` of another thread can bring. -/
def Caller.cost : Caller → ℕ
  | .idle => 0
  | .pushed => 6
  | .quitting => 6

namespace EventLoop

variable {T F : Type} {l l' : EventLoop T F} (w : F → ℕ)

/-- The steps up to the next `epoll_wait`; with `quit_` set, the loop is entered once more. -/
def round (l : EventLoop T F) : ℕ :=
  match l.phase with
  | .outside => 2
  | .test => 1 + (if l.quit_ then 2 else 0)
  | .polling => if l.quit_ then 2 else 0
  | .handling woken => (if woken then 4 else 3) + (if l.quit_ then 2 else 0)
  | .running _ _ => 2 + (if l.quit_ then 2 else 0)

/-- The round that a readable eventfd brings, unless its handler is due. -/
def readable (l : EventLoop T F) : ℕ :=
  match l.phase with
  | .handling true => 0
  | _ => if l.wakeupFd_ = 0 then 0 else 5

theorem readable_le (l : EventLoop T F) : l.readable ≤ 5 := by
  unfold readable
  split
  · omega
  · split_ifs <;> omega

variable [Fintype T]

/-- What a loop has to do, with `w` for its functors. -/
def potential (l : EventLoop T F) : ℕ :=
  l.round + l.readable + (l.uncalled.map w).sum + ∑ t, (l.callers t).cost

variable [DecidableEq T]

/-- The loop goes on, or a thread wakes it. -/
def Event.worksOff : Event T F → Bool
  | .loop => true
  | .test => true
  | .poll woken => woken
  | .handleRead => true
  | .swap => true
  | .run => true
  | .finish => true
  | .queueInLoop _ => false
  | .quit => false
  | .push _ _ => false
  | .quitFrom _ => false
  | .wakeup _ => true

/-- **A step of the loop**, calls apart. -/
theorem potential_lt {e : Event T F} (hs : step l e = some l') (he : e.worksOff = true)
    (hr : e ≠ .run) : l'.potential w < l.potential w := by
  have hqueued : e.queued = [] := by
    cases e <;> first | rfl | cases he
  have huncalled : l'.uncalled = l.uncalled := by
    rw [step_uncalled hs hr, hqueued, List.append_nil]
  have hlt : l'.round + l'.readable + ∑ t, (l'.callers t).cost <
      l.round + l.readable + ∑ t, (l.callers t).cost := by
    cases e with
    | loop =>
      obtain ⟨hp, rfl⟩ := step_loop_iff.mp hs
      simp [round, readable, hp]
    | test =>
      obtain ⟨hp, rfl⟩ := step_test_iff.mp hs
      split_ifs with hq
      · simp [round, readable, hp, hq]
      · simp [round, readable, hp, hq]
    | poll woken =>
      obtain ⟨hp, hw, rfl⟩ := step_poll_iff.mp hs
      obtain rfl : woken = true := he
      simp [round, readable, hp, hw rfl]
      omega
    | handleRead =>
      obtain ⟨hp, rfl⟩ := step_handleRead_iff.mp hs
      simp [round, readable, handleRead, hp]
    | swap =>
      obtain ⟨hp, rfl⟩ := step_swap_iff.mp hs
      simp [round, readable, hp]
    | run => exact absurd rfl hr
    | finish =>
      obtain ⟨⟨current, hp⟩, rfl⟩ := step_finish_iff.mp hs
      simp [round, readable, hp]
    | wakeup t =>
      obtain ⟨hc, rfl⟩ := step_wakeup_iff.mp hs
      have hcost : 6 ≤ (l.callers t).cost := by
        cases ht : l.callers t with
        | idle => exact absurd ht hc
        | pushed => exact le_rfl
        | quitting => exact le_rfl
      have hround : round { l.wakeup with callers := Function.update l.callers t .idle } =
          l.round := by
        unfold wakeup
        split_ifs <;> rfl
      have hread := readable_le { l.wakeup with callers := Function.update l.callers t .idle }
      have hsum := sum_update_add Caller.cost l.callers t .idle
      have hidle : Caller.idle.cost = 0 := rfl
      rw [hround]
      dsimp only at hread ⊢
      omega
    | _ => cases he
  unfold potential
  rw [huncalled]
  omega

/-- **A call** takes its functor off. -/
theorem potential_run (hs : step l .run = some l') :
    ∃ f, l.restOfBatch.head? = some f ∧ l'.potential w + w f = l.potential w := by
  obtain ⟨current, f, functions, hp, rfl⟩ := step_run_iff.mp hs
  refine ⟨f, by simp [restOfBatch, hp], ?_⟩
  simp [potential, round, readable, uncalled, hp]
  omega

omit [DecidableEq T] in
/-- **A functor** that the loop thread queues. -/
theorem potential_queueInLoop (l : EventLoop T F) (cb : F) :
    (l.queueInLoop cb).potential w ≤ l.potential w + w cb + 5 := by
  have hpush : (l.pushBack cb).potential w = l.potential w + w cb := by
    have hsum : ((l.pushBack cb).uncalled.map w).sum = (l.uncalled.map w).sum + w cb := by
      rw [uncalled_pushBack]
      simp
    show (l.pushBack cb).round + (l.pushBack cb).readable + _ + ∑ t, (l.callers t).cost = _
    rw [hsum, potential]
    have hround : (l.pushBack cb).round = l.round := rfl
    have hread : (l.pushBack cb).readable = l.readable := rfl
    omega
  unfold queueInLoop
  split_ifs
  · have hround : (l.pushBack cb).wakeup.round = (l.pushBack cb).round := by
      unfold wakeup
      split_ifs <;> rfl
    have hcallers : (l.pushBack cb).wakeup.callers = (l.pushBack cb).callers := by
      unfold wakeup
      split_ifs <;> rfl
    have hread := readable_le (l.pushBack cb).wakeup
    rw [← hpush, potential, potential, hround, hcallers, uncalled_wakeup]
    omega
  · omega

/-- **A functor** that another thread queues, with its `wakeup`. -/
theorem potential_queueInLoopFrom (l : EventLoop T F) (t : T) (cb : F) :
    (l.queueInLoopFrom t cb).potential w ≤ l.potential w + w cb + 6 := by
  have hsum : ((l.queueInLoopFrom t cb).uncalled.map w).sum = (l.uncalled.map w).sum + w cb := by
    show ((l.pushBack cb).uncalled.map w).sum = _
    rw [uncalled_pushBack]
    simp
  have hcallers := sum_update_add Caller.cost l.callers t .pushed
  have hround : (l.queueInLoopFrom t cb).round = l.round := rfl
  have hread : (l.queueInLoopFrom t cb).readable = l.readable := rfl
  have hnew : (l.queueInLoopFrom t cb).callers = Function.update l.callers t .pushed := rfl
  have hpushed : Caller.pushed.cost = 6 := rfl
  rw [potential, potential, hsum, hround, hread, hnew]
  omega

end EventLoop

/-! ## The server -/

/-- What a functor can still come to: its call, the functors that it queues and their wakeups. -/
def ConnFunctor.cost : ConnFunctor → ℕ
  | .connectEstablished _ => 1
  | .removeConnectionInLoop _ => 8
  | .connectDestroyed _ => 1
  | .writeComplete _ => 1
  | .sendInLoop _ _ _ => 8
  | .shutdownInLoop _ _ => 1

/-- The callbacks that are left, each of which can close the connection. -/
def Dispatch.cost (d : Dispatch) : ℕ := 15 * d.todo.length + 1

def App.cost : App → ℕ
  | .idle => 0
  | .holding _ => 0
  | .sending _ _ => 15
  | .stopping _ => 9
  | .stopped _ => 8

namespace TcpServer

variable {n : ℕ} {T : Type} [DecidableEq T] [Fintype T] {s s' : TcpServer n T} {ℓ : LoopId n}
  {c : ℕ}

/-- What the server has to do. -/
def potential (s : TcpServer n T) : ℕ :=
  ∑ ℓ, (s.loops ℓ).potential ConnFunctor.cost + ∑ ℓ, ((s.active ℓ).map Dispatch.cost).sum +
    ∑ t, (s.apps t).cost

omit [DecidableEq T] in
theorem potential_setLoop (s : TcpServer n T) (ℓ : LoopId n)
    (l : EventLoop (LoopId n ⊕ T) ConnFunctor) :
    (s.setLoop ℓ l).potential + (s.loops ℓ).potential ConnFunctor.cost =
      s.potential + l.potential ConnFunctor.cost := by
  have h := sum_update_add (EventLoop.potential ConnFunctor.cost) s.loops ℓ l
  have hnew : (s.setLoop ℓ l).potential =
      ∑ ℓ', (Function.update s.loops ℓ l ℓ').potential ConnFunctor.cost +
        ∑ ℓ, ((s.active ℓ).map Dispatch.cost).sum + ∑ t, (s.apps t).cost := rfl
  rw [hnew, potential]
  omega

omit [DecidableEq T] in
theorem potential_active (s : TcpServer n T) (ℓ : LoopId n) (ds : List Dispatch) :
    { s with active := Function.update s.active ℓ ds }.potential +
      ((s.active ℓ).map Dispatch.cost).sum = s.potential + (ds.map Dispatch.cost).sum := by
  have h := sum_update_add (fun ds : List Dispatch => (ds.map Dispatch.cost).sum) s.active ℓ ds
  simp only [potential] at *
  omega

theorem potential_apps (s : TcpServer n T) (t : T) (a : App) :
    { s with apps := Function.update s.apps t a }.potential + (s.apps t).cost =
      s.potential + a.cost := by
  have h := sum_update_add App.cost s.apps t a
  simp only [potential] at *
  omega

omit [DecidableEq T] in
theorem potential_setConn (s : TcpServer n T) (c : ℕ) (k : Conn n) :
    (s.setConn c k).potential = s.potential := rfl

theorem potential_queueInLoop (s : TcpServer n T) (t : LoopId n ⊕ T) (ℓ : LoopId n)
    (cb : ConnFunctor) : (s.queueInLoop t ℓ cb).potential ≤ s.potential + cb.cost + 6 := by
  have h := potential_setLoop s ℓ
    (if t = .inl ℓ then (s.loops ℓ).queueInLoop cb else (s.loops ℓ).queueInLoopFrom t cb)
  have hown := EventLoop.potential_queueInLoop ConnFunctor.cost (s.loops ℓ) cb
  have hfrom := EventLoop.potential_queueInLoopFrom ConnFunctor.cost (s.loops ℓ) t cb
  unfold queueInLoop
  split_ifs at h ⊢
  · omega
  · omega

theorem potential_removeConnectionInLoop (h : s.removeConnectionInLoop ℓ c = .ok s') :
    s'.potential ≤ s.potential + 7 := by
  obtain ⟨-, rfl⟩ := removeConnectionInLoop_ok h
  exact potential_queueInLoop (s.takeOut c) (.inl ℓ) (s.conns c).loop_ (.connectDestroyed c)

omit [Fintype T] in
/-- A callback leaves the channels that are being handled alone. -/
theorem callback_active {r : ReadResult} {w : WriteResult} {cb : Channel.Callback}
    (h : s.callback ℓ c r w cb = .ok s') : s'.active = s.active := by
  obtain ⟨tcp, rfl | h⟩ := callback_ok h
  · rfl
  · rw [removeConnection, runInLoop] at h
    split_ifs at h
    · obtain ⟨-, rfl⟩ := removeConnectionInLoop_ok h
      rfl
    · obtain rfl := Except.ok.inj h
      rfl

/-- **A callback** adds a `removeConnectionInLoop` at most. -/
theorem potential_callback {r : ReadResult} {w : WriteResult} {cb : Channel.Callback}
    (h : s.callback ℓ c r w cb = .ok s') : s'.potential ≤ s.potential + 14 := by
  obtain ⟨tcp, rfl | h⟩ := callback_ok h
  · exact Nat.le_add_right _ _
  · rw [removeConnection, runInLoop] at h
    split_ifs at h
    · have := potential_removeConnectionInLoop h
      rw [potential_setConn] at this
      omega
    · obtain rfl := Except.ok.inj h
      exact potential_queueInLoop _ (.inl ℓ) none (.removeConnectionInLoop c)

/-- **A functor** adds less than it takes off. -/
theorem potential_call {w : WriteResult} {f : ConnFunctor} (h : s.call ℓ w f = .ok s') :
    s'.potential < s.potential + f.cost := by
  cases f with
  | connectEstablished c =>
    obtain ⟨-, -, h⟩ := bind_eq_ok_iff.mp h
    obtain ⟨tcp, -, h⟩ := bind_eq_ok_iff.mp h
    obtain rfl := Except.ok.inj h
    exact Nat.lt_succ_self _
  | removeConnectionInLoop c =>
    have := potential_removeConnectionInLoop h
    simp only [ConnFunctor.cost]
    omega
  | connectDestroyed c =>
    obtain ⟨-, -, h⟩ := bind_eq_ok_iff.mp h
    obtain ⟨tcp, -, h⟩ := bind_eq_ok_iff.mp h
    obtain rfl := Except.ok.inj h
    exact Nat.lt_succ_self _
  | writeComplete c =>
    obtain rfl := Except.ok.inj h
    exact Nat.lt_succ_self _
  | sendInLoop c message late =>
    obtain ⟨-, -, h⟩ := bind_eq_ok_iff.mp h
    obtain ⟨s₁, hs₁, h⟩ := bind_eq_ok_iff.mp h
    obtain ⟨tcp, -, rfl⟩ := onTcp_ok hs₁
    split_ifs at h
    · obtain rfl := Except.ok.inj h
      rw [potential_setConn]
      exact Nat.lt_add_of_pos_right (by simp [ConnFunctor.cost])
    · obtain rfl := Except.ok.inj h
      refine (potential_queueInLoop _ (.inl ℓ) ℓ (.writeComplete c)).trans_lt ?_
      rw [potential_setConn]
      simp only [ConnFunctor.cost]
      omega
  | shutdownInLoop c late =>
    obtain ⟨-, -, h⟩ := bind_eq_ok_iff.mp h
    obtain ⟨tcp, -, rfl⟩ := onTcp_ok h
    exact Nat.lt_succ_self _

/-- The server goes on with what it has: nothing comes from peers or application threads. -/
def Event.worksOff : Event n T → Bool
  | .loop _ => true
  | .test _ => true
  | .poll _ woken revents => woken && revents.isEmpty
  | .wakeupRead _ => true
  | .newConnection _ => false
  | .callback _ _ _ => true
  | .handled _ => true
  | .swap _ => true
  | .run _ _ => true
  | .finish _ => true
  | .wakeup _ _ => true
  | .copy _ _ => false
  | .drop _ => false
  | .send _ _ => false
  | .shutdown _ => false
  | .store _ => true
  | .enqueue _ => true

/-- A turn of a loop, calls apart. -/
theorem potential_turn {e : EventLoop.Event (LoopId n ⊕ T) ConnFunctor}
    (h : s.turn ℓ e = some s') (he : e.worksOff = true) (hr : e ≠ .run) :
    s'.potential < s.potential := by
  obtain ⟨l, hl, rfl⟩ := turn_eq_some_iff.mp h
  have hlt := EventLoop.potential_lt ConnFunctor.cost hl he hr
  have hset := potential_setLoop s ℓ l
  omega

/-- An event that is a turn of a loop. -/
theorem potential_of_turn {e : EventLoop.Event (LoopId n ⊕ T) ConnFunctor}
    (hs : (s.turn ℓ e).map (pure : _ → Outcome _) = some (.ok s')) (he : e.worksOff = true)
    (hr : e ≠ .run) : s'.potential < s.potential := by
  obtain ⟨s₁, hs₁, hs⟩ := Option.map_eq_some_iff.mp hs
  exact Except.ok.inj hs ▸ potential_turn hs₁ he hr

/-- A callback is worked off, whatever it queues. -/
theorem act_callback_potential {r : ReadResult} {w : WriteResult}
    (hs : s.act (.callback ℓ r w) = some (.ok s')) : s'.potential < s.potential := by
  obtain ⟨c, cb, todo, reported, rest, s₁, hact, hs₁, rfl⟩ := act_callback_eq_ok hs
  have hle := potential_callback hs₁
  have hset := potential_active s₁ ℓ (⟨c, todo, reported || decide (RunsClose cb r)⟩ :: rest)
  have hhead : s₁.active ℓ = ⟨c, cb :: todo, reported⟩ :: rest :=
    (congrFun (callback_active hs₁) ℓ).trans hact
  rw [hhead] at hset
  simp only [List.map_cons, List.sum_cons, Dispatch.cost, List.length_cons] at hset ⊢
  omega

theorem act_handled_potential (hs : s.act (.handled ℓ) = some (.ok s')) :
    s'.potential < s.potential := by
  obtain ⟨c, reported, rest, hact, hs⟩ := act_handled_eq_some hs
  obtain rfl := Except.ok.inj hs
  have hset := potential_active s ℓ rest
  rw [hact] at hset
  simp only [List.map_cons, List.sum_cons, Dispatch.cost, List.length_nil] at hset
  omega

/-- A functor costs more than what it queues. -/
theorem act_run_potential {w : WriteResult} (hs : s.act (.run ℓ w) = some (.ok s')) :
    s'.potential < s.potential := by
  obtain ⟨f, l, hf, hl, hs⟩ := act_run_eq_some hs
  obtain ⟨g, hg, hrun⟩ := EventLoop.potential_run ConnFunctor.cost hl
  obtain rfl : f = g := Option.some.inj (hf.symm.trans hg)
  have hset := potential_setLoop s ℓ l
  have hcall := potential_call hs
  omega

/-- The rest of a call of `send` or `shutdown` costs more than its functor. -/
theorem act_enqueue_potential {t : T} (hs : s.act (.enqueue t) = some (.ok s')) :
    s'.potential < s.potential := by
  obtain ⟨c, f, hf, hs⟩ := act_enqueue_eq_some hs
  obtain rfl := Except.ok.inj hs
  have hset := potential_apps s t (.holding c)
  refine (potential_queueInLoop _ _ _ _).trans_lt ?_
  rcases hf with ⟨message, happ, rfl⟩ | ⟨happ, rfl⟩
  · rw [happ] at hset
    simp only [App.cost, ConnFunctor.cost] at hset ⊢
    omega
  · rw [happ] at hset
    simp only [App.cost, ConnFunctor.cost] at hset ⊢
    omega

/-- **An event** that works something off. -/
theorem act_potential {e : Event n T} (he : e.worksOff = true) (hs : s.act e = some (.ok s')) :
    s'.potential < s.potential := by
  cases e with
  | loop ℓ => exact potential_of_turn hs rfl (by simp)
  | test ℓ => exact potential_of_turn hs rfl (by simp)
  | wakeupRead ℓ => exact potential_of_turn hs rfl (by simp)
  | wakeup t ℓ => exact potential_of_turn hs rfl (by simp)
  | poll ℓ woken revents =>
    obtain ⟨rfl, hnil⟩ := Bool.and_eq_true_iff.mp he
    obtain rfl := List.isEmpty_iff.mp hnil
    obtain ⟨-, -, l, hl, hs⟩ := act_poll_eq_some hs
    obtain rfl := Except.ok.inj hs
    have hlt := potential_turn (turn_eq_some_iff.mpr ⟨l, hl, rfl⟩) rfl (by simp)
    have hset := potential_active (s.setLoop ℓ l) ℓ []
    simp only [List.map_nil, List.sum_nil] at hset ⊢
    exact (Nat.le_of_add_right_le hset.le).trans_lt hlt
  | callback ℓ r w => exact act_callback_potential hs
  | handled ℓ => exact act_handled_potential hs
  | swap ℓ =>
    obtain ⟨-, l, hl, hs⟩ := act_swap_eq_some hs
    obtain rfl := Except.ok.inj hs
    have hlt : (s.setLoop ℓ l).potential < s.potential :=
      potential_turn (turn_eq_some_iff.mpr ⟨l, hl, rfl⟩) rfl (by simp)
    exact hlt
  | run ℓ w => exact act_run_potential hs
  | finish ℓ =>
    obtain ⟨l, hl, hs⟩ := act_finish_eq_some hs
    obtain rfl := Except.ok.inj hs
    have hlt : (s.setLoop ℓ l).potential < s.potential :=
      potential_turn (turn_eq_some_iff.mpr ⟨l, hl, rfl⟩) rfl (by simp)
    exact hlt
  | store t =>
    obtain ⟨c, tcp, happ, rfl⟩ := act_store_eq_ok hs
    have hset := potential_apps s t (.stopped c)
    rw [potential_setConn]
    rw [happ] at hset
    simp only [App.cost] at hset
    omega
  | enqueue t => exact act_enqueue_potential hs
  | _ => cases he

end TcpServer
end HighServer
