import HighServer.Lib.Frame
import HighServer.Net.Handover
import HighServer.Net.InterestList

/-!
# What an operation does to the interest list

The channels of a loop share one interest list. Whatever a connection does, it reads and changes the
list at its own descriptor only, and what it puts there points to its own channel.

* `EPoller.perform_local`: a channel operation;
* `TcpConnection.connectEstablished_local`, …: the members of `TcpConnection`;
* `TcpServer.view`: the server and the interest lists of its connections;
* `TcpServer.callback_local`, `TcpServer.call_local`: a handler and a functor;
* **`TcpServer.act_aside`**, **`TcpServer.act_local`**: an event, by the connection it works on.
-/

namespace HighServer

open Frame

section

variable {σ κ ν : Type} [DecidableEq κ] {V : View σ κ ν} {key : σ → κ} {Fit : σ → Prop}
  {f g : σ → Outcome σ}

/-- An assertion about the rest of the state. -/
theorem ensure_local {c : σ → Prop} [DecidablePred c] (a : Abort)
    (hc : ∀ s p, c (V.set s p) ↔ c s) (hf : Local V key Fit f) :
    Local V key Fit fun s => ensure (c s) a >>= fun _ => f s := by
  have herror : Local V key Fit fun _ => (.error a : Outcome σ) :=
    local_of_commutes (fun _ _ => rfl) nofun nofun
  have heq : (fun s => ensure (c s) a >>= fun _ => f s) =
      fun s => if c s then f s else .error a := by
    funext s
    by_cases h : c s
    · rw [ensure_bind_of h, if_pos h]
    · rw [ensure_bind_of_not h, if_neg h]
  rw [heq]
  exact hf.ite hc herror

end

/-! ## Channels -/

/-- The entry of the channel points to it. -/
def Points (p : EPoller) (c : Channel) : Prop := ∀ e, p c.fd_ = some e → e.ptr = c.self

namespace EPoller

/-- An interest list and a channel. -/
def view : View (EPoller × Channel) ℕ (Option EpollEvent) where
  get s := s.1
  set s p := (p, s.2)
  get_set _ _ := rfl
  set_get _ := rfl
  set_set _ _ _ := rfl

def fd (s : EPoller × Channel) : ℕ := s.2.fd_

/-- The channel at the address `self`, with its own entry, if any. -/
def Fit (self fd : ℕ) (s : EPoller × Channel) : Prop :=
  s.2.self = self ∧ s.2.fd_ = fd ∧ Points s.1 s.2

variable {self fdno : ℕ}

theorem update_graft {p q : EPoller} {c : Channel} (h : q c.fd_ = p c.fd_) (op : CtlOp) :
    EPoller.update q op c =
      (EPoller.update p op c).map fun p' => Function.update q c.fd_ (p' c.fd_) := by
  cases op <;> cases hp : p c.fd_ <;> rw [hp] at h <;>
    simp [update, epollCtl, hp, h, pure, Except.pure, Except.map]

theorem update_points {p p' : EPoller} {c : Channel} {op : CtlOp} (h : p.update op c = .ok p')
    (hp : Points p c) : Points p' c := by
  intro e he
  cases op <;> cases hfd : p c.fd_ <;>
    simp [update, epollCtl, hfd, pure, Except.pure] at h <;> subst h
  · rw [Function.update_self] at he
    exact Option.some.inj he ▸ rfl
  · rw [Function.update_self] at he
    exact Option.some.inj he ▸ rfl
  · exact hp e he
  · rw [Function.update_self] at he
    cases he

theorem updateChannel_local : Local view fd (Fit self fdno) fun s => s.1.updateChannel s.2 where
  eq s q h := by
    obtain ⟨p, c⟩ := s
    have h' : q c.fd_ = p c.fd_ := h
    show EPoller.updateChannel q c = (p.updateChannel c).map (view.graft c.fd_ q)
    rw [updateChannel_eq, updateChannel_eq, update_graft h']
    cases p.update _ c <;> rfl
  key s s' h := by
    obtain ⟨p, c⟩ := s
    rw [updateChannel_eq] at h
    obtain ⟨p', -, h⟩ := bind_eq_ok_iff.mp h
    obtain rfl := Except.ok.inj h
    rfl
  fit s s' h hfit := by
    obtain ⟨p, c⟩ := s
    rw [updateChannel_eq] at h
    obtain ⟨p', hp', h⟩ := bind_eq_ok_iff.mp h
    obtain rfl := Except.ok.inj h
    exact ⟨hfit.1, hfit.2.1, update_points hp' hfit.2.2⟩

theorem removeChannel_local : Local view fd (Fit self fdno) fun s => s.1.removeChannel s.2 where
  eq s q h := by
    obtain ⟨p, c⟩ := s
    have h' : q c.fd_ = p c.fd_ := h
    show EPoller.removeChannel q c = (p.removeChannel c).map (view.graft c.fd_ q)
    rw [removeChannel, removeChannel, update_graft h']
    by_cases hn : c.isNoneEvent = true
    · rw [ensure_bind_of hn, ensure_bind_of hn]
      by_cases hi : c.index_ = .kAdded
      · rw [ensure_bind_of hi, ensure_bind_of hi]
        cases p.update _ c <;> rfl
      · rw [ensure_bind_of_not hi, ensure_bind_of_not hi]
        rfl
    · rw [ensure_bind_of_not hn, ensure_bind_of_not hn]
      rfl
  key s s' h := by
    obtain ⟨-, -, h⟩ := bind_eq_ok_iff.mp h
    obtain ⟨-, -, h⟩ := bind_eq_ok_iff.mp h
    obtain ⟨p', -, h⟩ := bind_eq_ok_iff.mp h
    obtain rfl := Except.ok.inj h
    rfl
  fit s s' h hfit := by
    obtain ⟨-, -, h⟩ := bind_eq_ok_iff.mp h
    obtain ⟨-, -, h⟩ := bind_eq_ok_iff.mp h
    obtain ⟨p', hp', h⟩ := bind_eq_ok_iff.mp h
    obtain rfl := Except.ok.inj h
    exact ⟨hfit.1, hfit.2.1, update_points hp' hfit.2.2⟩

/-- **A channel operation** works on the entry of its descriptor. -/
theorem perform_local (op : ChannelOp) :
    Local view fd (Fit self fdno) fun s => op.perform s.1 s.2 := by
  have masked : ∀ mask : Mask → Mask, Local view fd (Fit self fdno)
      fun s => s.1.updateChannel { s.2 with events_ := mask s.2.events_ } := fun mask =>
    updateChannel_local.after (F := fun s => (s.1, { s.2 with events_ := mask s.2.events_ }))
      ⟨fun _ _ => rfl, fun _ => rfl, fun _ => id⟩
  cases op with
  | enableReading => exact masked (· ||| Channel.kReadEvent)
  | enableWriting => exact masked (· ||| Channel.kWriteEvent)
  | disableWriting => exact masked (· &&& ~~~Channel.kWriteEvent)
  | disableAll => exact masked fun _ => Channel.kNoneEvent
  | removeChannel => exact removeChannel_local

end EPoller

/-! ## Connections -/

namespace TcpConnection

def view : View TcpConnection ℕ (Option EpollEvent) where
  get t := t.poller
  set t p := { t with poller := p }
  get_set _ _ := rfl
  set_get _ := rfl
  set_set _ _ _ := rfl

def fd (t : TcpConnection) : ℕ := t.channel_.fd_

def Fit (self fd : ℕ) (t : TcpConnection) : Prop :=
  t.channel_.self = self ∧ t.channel_.fd_ = fd ∧ Points t.poller t.channel_

variable {self fdno : ℕ}

theorem onChannel_local (op : ChannelOp) :
    Local view fd (Fit self fdno) (·.onChannel fun p c => op.perform p c) :=
  (EPoller.perform_local op).lift (V := view) (fun t => (t.poller, t.channel_))
    (fun t s => { t with poller := s.1, channel_ := s.2 }) Function.injective_id
    (fun _ => rfl) (fun _ => id) (fun _ _ _ => id) (fun _ _ => rfl) (fun _ _ => rfl)
    (fun _ _ => rfl) fun _ _ _ _ _ => rfl

/-- The state, the buffers and the counters are aside. -/
theorem aside_of {F : TcpConnection → TcpConnection}
    (h : ∀ t p, F (view.set t p) = view.set (F t) p) (hc : ∀ t, (F t).channel_ = t.channel_) :
    Aside view fd (Fit self fdno) F where
  eq := h
  key t := congrArg Channel.fd_ (hc t)
  fit t ht := by
    have hp : (F (view.set t t.poller)).poller = t.poller := by rw [h]; rfl
    have hp' : (F t).poller = t.poller := hp
    exact ⟨by rw [hc]; exact ht.1, by rw [hc]; exact ht.2.1, by rw [hc, hp']; exact ht.2.2⟩

theorem connectEstablished_local : Local view fd (Fit self fdno) (connectEstablished pure) := by
  have heq : connectEstablished pure = fun t => ensure (t.state_ = .kConnecting)
      .connectEstablished >>= fun _ => onChannel { t with state_ := .kConnected }
        fun p c => ChannelOp.perform p c .enableReading := by
    funext t
    simp only [connectEstablished, bind_pure]
    rfl
  rw [heq]
  exact ensure_local _ (fun _ _ => Iff.rfl) ((onChannel_local .enableReading).after
    (aside_of (F := fun t => { t with state_ := .kConnected }) (fun _ _ => rfl) fun _ => rfl))

theorem connectDestroyed_local : Local view fd (Fit self fdno) (connectDestroyed pure) := by
  have heq : connectDestroyed pure = fun t => ensure (t.state_ = .kConnected)
      .connectDestroyed >>= fun _ => onChannel { t with state_ := .kDisconnected }
        (fun p c => ChannelOp.perform p c .disableAll) >>= fun t =>
          t.onChannel fun p c => ChannelOp.perform p c .removeChannel := by
    funext t
    simp only [connectDestroyed, pure_bind]
    rfl
  rw [heq]
  exact ensure_local _ (fun _ _ => Iff.rfl) (((onChannel_local .disableAll).after
    (aside_of (F := fun t => { t with state_ := .kDisconnected }) (fun _ _ => rfl)
      fun _ => rfl)).bind (onChannel_local .removeChannel))

theorem shutdownInLoop_set (t : TcpConnection) (p : EPoller) :
    (view.set t p).shutdownInLoop = view.set t.shutdownInLoop p := by
  show (if ¬ t.channel_.isWriting then _ else _) = view.set (if _ then _ else _) p
  split_ifs <;> rfl

theorem shutdownInLoop_channel_ (t : TcpConnection) : t.shutdownInLoop.channel_ = t.channel_ := by
  rw [shutdownInLoop]
  split_ifs <;> rfl

/-- `shutdownInLoop` calls the kernel only. -/
theorem shutdownInLoop_aside : Aside view fd (Fit self fdno) shutdownInLoop :=
  aside_of shutdownInLoop_set shutdownInLoop_channel_

/-- An operation on the buffers, with what it changes beside them. -/
theorem buffer_local {f : TcpConnection → Outcome Buffer}
    {F : TcpConnection → Buffer → TcpConnection} (hf : ∀ t p, f (view.set t p) = f t)
    (hF : ∀ t p b, F (view.set t p) b = view.set (F t b) p)
    (hc : ∀ t b, (F t b).channel_ = t.channel_) :
    Local view fd (Fit self fdno) fun t => f t >>= fun b => .ok (F t b) := by
  have haside : ∀ b, Aside view fd (Fit self fdno) (F · b) := fun b =>
    aside_of (fun t p => hF t p b) fun t => hc t b
  refine local_of_commutes (fun t p => ?_) (fun t t' ht => ?_) fun t t' ht => ?_
  · rw [hf]
    cases f t with
    | error a => rfl
    | ok b => exact congrArg Except.ok (hF t p b)
  · obtain ⟨b, -, hb⟩ := bind_eq_ok_iff.mp ht
    exact Except.ok.inj hb ▸ (haside b).key t
  · obtain ⟨b, -, hb⟩ := bind_eq_ok_iff.mp ht
    exact Except.ok.inj hb ▸ (haside b).fit t

theorem pure_local : Local view fd (Fit self fdno) fun t => (.ok t : Outcome TcpConnection) :=
  local_pure ⟨fun _ _ => rfl, fun _ => rfl, fun _ => id⟩

/-- What `handleWrite` does with `n` bytes that the kernel has taken. -/
def drain (n : ℕ) (t : TcpConnection) : Outcome TcpConnection :=
  (t.outputBuffer_.retrieve n >>= fun b => .ok { t with
      accepted := t.accepted ++ (t.outputBuffer_.peek t.outputBuffer_.readableBytes).take n
      outputBuffer_ := b }) >>= fun t =>
    if t.outputBuffer_.readableBytes = 0 then
      t.onChannel (fun p c => ChannelOp.perform p c .disableWriting) >>= fun t =>
        .ok (if t.state_ = .kDisconnected then t.shutdownInLoop else t)
    else .ok t

theorem drain_local (n : ℕ) : Local view fd (Fit self fdno) (drain n) := by
  have hshut : Aside view fd (Fit self fdno)
      fun t => if t.state_ = .kDisconnected then t.shutdownInLoop else t := by
    refine aside_of (fun t p => ?_) fun t => ?_
    · show (if t.state_ = .kDisconnected then _ else _) = view.set (if _ then _ else _) p
      split_ifs
      · exact shutdownInLoop_set t p
      · rfl
    · split_ifs
      · exact shutdownInLoop_channel_ t
      · rfl
  exact (buffer_local (f := fun t => t.outputBuffer_.retrieve n)
    (F := fun t b => { t with
      accepted := t.accepted ++ (t.outputBuffer_.peek t.outputBuffer_.readableBytes).take n
      outputBuffer_ := b }) (fun _ _ => rfl) (fun _ _ _ => rfl) fun _ _ => rfl).bind
    (Local.ite (c := fun t => t.outputBuffer_.readableBytes = 0) (fun _ _ => Iff.rfl)
      ((onChannel_local .disableWriting).before hshut) pure_local)

theorem handleWrite_local (w : WriteResult) : Local view fd (Fit self fdno) (·.handleWrite w) := by
  -- without progress the connection is as it was
  have hkept : ∀ {w : WriteResult}, (∀ t : TcpConnection, t.handleWrite w = .ok t) →
      Local view fd (Fit self fdno) (·.handleWrite w) := by
    intro w h
    rw [show (handleWrite · w) = fun t => .ok t from funext h]
    exact pure_local
  cases w with
  | wrote n =>
    have heq : (handleWrite · (.wrote n)) = fun t => if t.channel_.isWriting = true then
        if 0 < n then drain n t else .ok t else .ok t := by
      funext t
      unfold handleWrite
      split_ifs with hw hn
      · dsimp only
        rw [if_pos hn, drain, bind_assoc]
        refine bind_congr fun b => ?_
        rw [ok_bind]
        dsimp only
        split_ifs with hz
        · refine bind_congr fun t => ?_
          split_ifs <;> rfl
        · rfl
      · exact if_neg hn
      · rfl
    rw [heq]
    exact Local.ite (fun _ _ => Iff.rfl)
      (Local.ite (fun _ _ => Iff.rfl) (drain_local n) pure_local) pure_local
  | wouldBlock => exact hkept fun t => by unfold handleWrite; split_ifs <;> rfl
  | failed => exact hkept fun t => by unfold handleWrite; split_ifs <;> rfl

theorem writeDirect_set (t : TcpConnection) (message : Bytes) (w : WriteResult) (p : EPoller) :
    (view.set t p).writeDirect message w =
      (view.set (t.writeDirect message w).1 p, (t.writeDirect message w).2) := by
  have hcond : ¬ (view.set t p).channel_.isWriting ∧
      (view.set t p).outputBuffer_.readableBytes = 0 ↔
      ¬ t.channel_.isWriting ∧ t.outputBuffer_.readableBytes = 0 := Iff.rfl
  unfold writeDirect
  rw [if_congr hcond rfl rfl]
  split_ifs
  · cases w with
    | wrote n =>
      dsimp only
      split_ifs
      · rfl
      · show ((if t.writeCompleteCallback_ then _ else _), n) =
          (view.set (if t.writeCompleteCallback_ then _ else _) p, n)
        split_ifs <;> rfl
    | wouldBlock => rfl
    | failed => rfl
  · rfl

theorem writeDirect_channel_ (t : TcpConnection) (message : Bytes) (w : WriteResult) :
    (t.writeDirect message w).1.channel_ = t.channel_ := by
  obtain ⟨n, k, h, -⟩ := writeDirect_spec t message w
  rw [h]

/-- **`sendInLoop`.** -/
theorem sendInLoop_local (message : Bytes) (w : WriteResult) :
    Local view fd (Fit self fdno) (·.sendInLoop message w) := by
  have heq : (sendInLoop · message w) = fun t =>
      if (t.writeDirect message w).2 < message.length then
        ((t.writeDirect message w).1.outputBuffer_.append
            (message.drop (t.writeDirect message w).2) >>= fun b =>
          .ok { (t.writeDirect message w).1 with outputBuffer_ := b }) >>= fun t =>
        if ¬ t.channel_.isWriting then t.onChannel fun p c => ChannelOp.perform p c .enableWriting
        else .ok t
      else .ok (t.writeDirect message w).1 := by
    funext t
    rw [sendInLoop]
    cases t.writeDirect message w with
    | mk t nwrote =>
      dsimp only
      by_cases hn : nwrote < message.length
      · rw [if_pos hn, if_pos hn, bind_assoc]
        rfl
      · rw [if_neg hn, if_neg hn]
        rfl
  rw [heq]
  refine Local.ite (fun t p => by rw [writeDirect_set]) ?_ (local_pure (aside_of ?_ ?_))
  · refine (buffer_local
      (f := fun t => (t.writeDirect message w).1.outputBuffer_.append
        (message.drop (t.writeDirect message w).2))
      (F := fun t b => { (t.writeDirect message w).1 with outputBuffer_ := b })
      (fun t p => ?_) (fun t p b => ?_) fun t b => writeDirect_channel_ t message w).bind
      (Local.ite (c := fun t => ¬ t.channel_.isWriting) (fun _ _ => Iff.rfl)
        (onChannel_local .enableWriting) pure_local)
    · rw [writeDirect_set]
      rfl
    · rw [writeDirect_set]
      rfl
  · intro t p
    rw [writeDirect_set]
  · intro t
    exact writeDirect_channel_ t message w

end TcpConnection
/-! ## The server -/

/-- The connection with another interest list. -/
def Conn.onList {n : ℕ} (k : Conn n) (p : EPoller) : Conn n :=
  { k with tcp := TcpConnection.view.set k.tcp p }

namespace TcpServer

open TcpConnection (fd)

variable {n : ℕ} {T : Type} {s₀ s s' : TcpServer n T} {ℓ : LoopId n} {c : ℕ}

/-- The interest list that each connection works on, by descriptor. -/
def view : View (TcpServer n T) (ℕ × ℕ) (Option EpollEvent) where
  get s k := (s.conns k.1).tcp.poller k.2
  set s p := { s with conns := fun c => (s.conns c).onList fun fd => p (c, fd) }
  get_set _ _ := rfl
  set_get _ := rfl
  set_set _ _ _ := rfl

/-- The entry of a connection. -/
def entry (c : ℕ) (s : TcpServer n T) : ℕ × ℕ := (c, (s.conns c).tcp.fd)

/-- Each connection is in its loop, with its descriptor and with its own entry, if any. -/
def Fit (s₀ s : TcpServer n T) : Prop :=
  ∀ d, (s.conns d).loop_ = (s₀.conns d).loop_ ∧
    (s.conns d).tcp.Fit d (s₀.conns d).tcp.fd

theorem onList_update (s : TcpServer n T) (c : ℕ) (k : Conn n) (p : ℕ × ℕ → Option EpollEvent) :
    Function.update (view.set s p).conns c (k.onList fun fd => p (c, fd)) =
      fun d => (Function.update s.conns c k d).onList fun fd => p (d, fd) := by
  funext d
  by_cases hd : d = c
  · subst hd
    rw [Function.update_self, Function.update_self]
  · rw [Function.update_of_ne hd, Function.update_of_ne hd]
    rfl

theorem setConn_set (s : TcpServer n T) (c : ℕ) (k : Conn n) (p : ℕ × ℕ → Option EpollEvent) :
    (view.set s p).setConn c (k.onList fun fd => p (c, fd)) = view.set (s.setConn c k) p := by
  unfold setConn
  rw [onList_update]
  rfl

theorem Fit.setConn (h : Fit s₀ s) {k : Conn n} (hloop : k.loop_ = (s.conns c).loop_)
    (htcp : k.tcp.Fit c (s₀.conns c).tcp.fd) : Fit s₀ (s.setConn c k) := by
  intro d
  rw [setConn_conns]
  split_ifs with hd
  · subst hd
    exact ⟨hloop.trans (h d).1, htcp⟩
  · exact h d

/-- What the server keeps of a connection is aside. -/
theorem setConn_aside {G : Conn n → Conn n} (h : ∀ k p, G (k.onList p) = (G k).onList p)
    (hloop : ∀ k, (G k).loop_ = k.loop_) (hc : ∀ k, (G k).tcp.channel_ = k.tcp.channel_)
    (hp : ∀ k, (G k).tcp.poller = k.tcp.poller) (c d : ℕ) :
    Aside view (entry d) (Fit s₀) fun s : TcpServer n T => s.setConn c (G (s.conns c)) where
  eq s p := by
    show (view.set s p).setConn c (G ((s.conns c).onList fun fd => p (c, fd))) = _
    rw [h, setConn_set]
  key s := by
    rw [entry, entry, setConn_conns]
    split_ifs with hd
    · subst hd
      rw [TcpConnection.fd, hc]
      rfl
    · rfl
  fit s hs := by
    refine hs.setConn (hloop _) ?_
    rw [TcpConnection.Fit, hc, hp]
    exact (hs c).2

theorem onTcp_local {f : TcpConnection → Outcome TcpConnection}
    (h : ∀ self fdno, Local TcpConnection.view fd (TcpConnection.Fit self fdno) f) :
    Local view (entry c) (Fit s₀) fun s : TcpServer n T => s.onTcp c f := by
  refine (h c (s₀.conns c).tcp.fd).lift (V := view) (fun s => (s.conns c).tcp)
    (fun s tcp => s.setConn c { s.conns c with tcp }) (Prod.mk_right_injective c) (fun _ => rfl)
    (fun s hs => (hs c).2) (fun s t hs ht => hs.setConn rfl ht) (fun _ _ => rfl) (fun _ _ => rfl)
    (fun s t => ?_) fun s p q t hpq => ?_
  · rw [setConn_self_conns]
  · unfold setConn
    show TcpServer.mk _ _ _ _ _ _ _ _ _ _ = TcpServer.mk _ _ _ _ _ _ _ _ _ _
    congr 1
    funext d
    show Function.update (view.set s p).conns c _ d =
      (Function.update s.conns c { s.conns c with tcp := t } d).onList fun k => q (d, k)
    by_cases hd : d = c
    · subst hd
      rw [Function.update_self, Function.update_self]
      rfl
    · rw [Function.update_of_ne hd, Function.update_of_ne hd]
      show (s.conns d).onList _ = (s.conns d).onList _
      congr 1
      funext k
      exact hpq (d, k) fun m hm => hd (congrArg Prod.fst hm)

/-- Queues, maps and threads are aside. -/
theorem aside_of_conns {F : TcpServer n T → TcpServer n T}
    (h : ∀ s p, F (view.set s p) = view.set (F s) p) (hc : ∀ s, (F s).conns = s.conns) :
    Aside view (entry c) (Fit s₀) F where
  eq := h
  key s := by rw [entry, entry, hc]
  fit s hs := by
    rw [Fit, hc]
    exact hs

theorem pure_local : Local view (entry c) (Fit s₀)
    fun s : TcpServer n T => (.ok s : Outcome (TcpServer n T)) :=
  local_pure ⟨fun _ _ => rfl, fun _ => rfl, fun _ => id⟩

variable [DecidableEq T]

theorem queueInLoop_aside (t : LoopId n ⊕ T) {g : TcpServer n T → LoopId n}
    (hg : ∀ s p, g (view.set s p) = g s) (cb : ConnFunctor) :
    Aside view (entry c) (Fit s₀) fun s => s.queueInLoop t (g s) cb :=
  aside_of_conns (fun s p => by rw [hg]; rfl) fun _ => rfl

omit [DecidableEq T] in
theorem takeOut_aside :
    Aside view (entry c) (Fit s₀) fun s : TcpServer n T => s.takeOut c :=
  (setConn_aside (G := fun k => { k with removed := k.removed + 1 }) (fun _ _ => rfl)
    (fun _ => rfl) (fun _ => rfl) (fun _ => rfl) c c).comp (aside_of_conns (F := fun s =>
      { s with connections_ := (s.erase (s.conns c).name_).1 }) (fun _ _ => rfl) fun _ => rfl)

theorem removeConnectionInLoop_local (ℓ : LoopId n) : Local view (entry c) (Fit s₀)
    fun s : TcpServer n T => s.removeConnectionInLoop ℓ c := by
  refine ensure_local _ (fun _ _ => Iff.rfl) (ensure_local _ (fun _ _ => Iff.rfl) (local_pure ?_))
  have heq : (fun s : TcpServer n T =>
      (s.takeOut c).queueInLoop (.inl ℓ) (s.conns c).loop_ (.connectDestroyed c)) = fun s =>
      (s.takeOut c).queueInLoop (.inl ℓ) ((s.takeOut c).conns c).loop_ (.connectDestroyed c) := by
    funext s
    rw [takeOut_loop_]
  rw [heq]
  exact (queueInLoop_aside _ (g := fun s => (s.conns c).loop_) (fun _ _ => rfl) _).comp
    takeOut_aside

theorem removeConnection_local (ℓ : LoopId n) : Local view (entry c) (Fit s₀)
    fun s : TcpServer n T => s.removeConnection ℓ c := by
  unfold removeConnection runInLoop
  split_ifs
  · exact removeConnectionInLoop_local ℓ
  · exact local_pure (queueInLoop_aside _ (g := fun _ => none) (fun _ _ => rfl) _)

theorem handleClose_local (ℓ : LoopId n) : Local view (entry c) (Fit s₀)
    fun s : TcpServer n T => s.handleClose ℓ c := by
  have hclose : ∀ self fdno, Local TcpConnection.view fd (TcpConnection.Fit self fdno) fun t =>
      t.onChannel EPoller.disableAll >>= fun t => .ok { t with closes := t.closes + 1 } :=
    fun self fdno => (TcpConnection.onChannel_local .disableAll).before
      (TcpConnection.aside_of (fun _ _ => rfl) fun _ => rfl)
  have heq : (fun s : TcpServer n T => s.handleClose ℓ c) = fun s =>
      ensure (ℓ = (s.conns c).loop_) .assertInLoopThread >>= fun _ =>
        ensure ((s.conns c).tcp.state_ = .kConnected) .handleClose >>= fun _ =>
          s.onTcp c (fun t => t.onChannel EPoller.disableAll >>= fun t =>
            .ok { t with closes := t.closes + 1 }) >>= fun s => s.removeConnection ℓ c := by
    funext s
    unfold handleClose onTcp
    simp only [bind_assoc]
    rfl
  rw [heq]
  exact ensure_local _ (fun _ _ => Iff.rfl) (ensure_local _ (fun _ _ => Iff.rfl)
    ((onTcp_local hclose).bind (removeConnection_local ℓ)))

theorem handleRead_local (ℓ : LoopId n) (r : ReadResult) : Local view (entry c) (Fit s₀)
    fun s : TcpServer n T => s.handleRead ℓ c r := by
  have hread : Local view (entry c) (Fit s₀) fun s : TcpServer n T =>
      s.onTcp c fun t => t.inputBuffer_.readFd r >>= fun b => .ok { t with inputBuffer_ := b } :=
    onTcp_local fun self fdno => TcpConnection.buffer_local
      (f := fun t => t.inputBuffer_.readFd r) (F := fun t b => { t with inputBuffer_ := b })
      (fun _ _ => rfl) (fun _ _ _ => rfl) fun _ _ => rfl
  cases r with
  | failed =>
    have heq : (fun s : TcpServer n T => s.handleRead ℓ c .failed) = fun s =>
        (s.onTcp c fun t => t.inputBuffer_.readFd .failed >>= fun b =>
          .ok { t with inputBuffer_ := b }) >>= .ok := by
      funext s
      unfold handleRead onTcp
      simp only [bind_assoc]
      rfl
    rw [heq]
    exact hread.bind pure_local
  | received data =>
    have heq : (fun s : TcpServer n T => s.handleRead ℓ c (.received data)) = fun s =>
        (s.onTcp c fun t => t.inputBuffer_.readFd (.received data) >>= fun b =>
          .ok { t with inputBuffer_ := b }) >>= fun s =>
          if 0 < data.length then .ok s else s.handleClose ℓ c := by
      funext s
      unfold handleRead onTcp
      simp only [bind_assoc]
      rfl
    rw [heq]
    refine hread.bind ?_
    split_ifs
    · exact pure_local
    · exact handleClose_local ℓ

/-- **A callback.** -/
theorem callback_local (ℓ : LoopId n) (r : ReadResult) (w : WriteResult) (cb : Channel.Callback) :
    Local view (entry c) (Fit s₀) fun s : TcpServer n T => s.callback ℓ c r w cb := by
  cases cb with
  | close => exact handleClose_local ℓ
  | error => exact pure_local
  | read => exact handleRead_local ℓ r
  | write => exact onTcp_local fun _ _ => TcpConnection.handleWrite_local w

omit [DecidableEq T] in
theorem setConn_setConn (s : TcpServer n T) (c : ℕ) (k k' : Conn n) :
    (s.setConn c k).setConn c k' = s.setConn c k' := by
  unfold setConn
  rw [Function.update_idem]

omit [DecidableEq T] in
/-- An operation on a connection that the server counts. -/
theorem counted_local {f : TcpConnection → Outcome TcpConnection} {G : Conn n → Conn n}
    (h : ∀ self fdno, Local TcpConnection.view fd (TcpConnection.Fit self fdno) f)
    (hG : ∀ k p, G (Conn.onList k p) = (G k).onList p) (hloop : ∀ k, (G k).loop_ = k.loop_)
    (htcp : ∀ k, (G k).tcp = k.tcp) :
    Local view (entry c) (Fit s₀) fun s : TcpServer n T => f (s.conns c).tcp >>= fun tcp =>
      .ok (s.setConn c (G { s.conns c with tcp })) := by
  have heq : (fun s : TcpServer n T => f (s.conns c).tcp >>= fun tcp =>
      Except.ok (s.setConn c (G { s.conns c with tcp }))) =
      fun s => s.onTcp c f >>= fun s => .ok (s.setConn c (G (s.conns c))) := by
    funext s
    unfold onTcp
    simp only [bind_assoc]
    refine bind_congr fun tcp => ?_
    rw [pure_bind, setConn_self_conns, setConn_setConn]
  rw [heq]
  exact (onTcp_local h).before (setConn_aside hG hloop (fun k => by rw [htcp])
    (fun k => by rw [htcp]) c c)

omit [DecidableEq T] in
theorem connectEstablished_local (ℓ : LoopId n) : Local view (entry c) (Fit s₀)
    fun s : TcpServer n T => s.connectEstablished ℓ c :=
  ensure_local _ (fun _ _ => Iff.rfl)
    (counted_local (G := fun k => { k with established := k.established + 1 })
      (fun _ _ => TcpConnection.connectEstablished_local) (fun _ _ => rfl) (fun _ => rfl)
      fun _ => rfl)

omit [DecidableEq T] in
theorem connectDestroyed_local (ℓ : LoopId n) : Local view (entry c) (Fit s₀)
    fun s : TcpServer n T => s.connectDestroyed ℓ c :=
  ensure_local _ (fun _ _ => Iff.rfl)
    (counted_local (G := fun k => { k with destroyed := k.destroyed + 1 })
      (fun _ _ => TcpConnection.connectDestroyed_local) (fun _ _ => rfl) (fun _ => rfl)
      fun _ => rfl)

theorem sendInLoop_local (ℓ : LoopId n) (message : Bytes) (w : WriteResult) :
    Local view (entry c) (Fit s₀) fun s : TcpServer n T => s.sendInLoop ℓ c message w :=
  Local.reads (r := fun s : TcpServer n T => (s.conns c).tcp.completions)
    (f := fun completions (s : TcpServer n T) =>
      ensure (ℓ = (s.conns c).loop_) .assertInLoopThread >>= fun _ =>
        s.onTcp c (·.sendInLoop message w) >>= fun s : TcpServer n T =>
          if (s.conns c).tcp.completions = completions then .ok s
          else .ok (s.queueInLoop (.inl ℓ) ℓ (.writeComplete c)))
    (fun _ _ => rfl) fun completions => ensure_local _ (fun _ _ => Iff.rfl)
      ((onTcp_local fun _ _ => TcpConnection.sendInLoop_local message w).bind
        (Local.ite (c := fun s : TcpServer n T => (s.conns c).tcp.completions = completions)
          (fun _ _ => Iff.rfl) pure_local
          (local_pure (queueInLoop_aside _ (g := fun _ => ℓ) (fun _ _ => rfl) _))))

omit [DecidableEq T] in
theorem shutdownInLoop_local (ℓ : LoopId n) : Local view (entry c) (Fit s₀)
    fun s : TcpServer n T => s.shutdownInLoop ℓ c :=
  ensure_local _ (fun _ _ => Iff.rfl)
    (onTcp_local fun _ _ => local_pure TcpConnection.shutdownInLoop_aside)

/-- **A functor.** -/
theorem call_local (ℓ : LoopId n) (w : WriteResult) (f : ConnFunctor) (hf : f.conn = c) :
    Local view (entry c) (Fit s₀) fun s : TcpServer n T => s.call ℓ w f := by
  subst hf
  cases f with
  | connectEstablished c => exact connectEstablished_local ℓ
  | removeConnectionInLoop c => exact removeConnectionInLoop_local ℓ
  | connectDestroyed c => exact connectDestroyed_local ℓ
  | writeComplete c => exact pure_local
  | sendInLoop c message late => exact sendInLoop_local ℓ message w
  | shutdownInLoop c late => exact shutdownInLoop_local ℓ

/-! ## Events -/

/-- The connection that an event works on. -/
def touched (s : TcpServer n T) : Event n T → Option ℕ
  | .newConnection _ => some s.nextConnId_
  | .callback ℓ _ _ => (s.active ℓ).head?.map (·.conn)
  | .run ℓ _ => (s.next ℓ).map (·.conn)
  | _ => none

variable [Fintype T]

/-- The head of the active channels decides what a loop does with them. -/
theorem act_callback_cons {ℓ : LoopId n} {r : ReadResult} {w : WriteResult} {c : ℕ}
    {cb : Channel.Callback} {todo : List Channel.Callback} {reported : Bool} {rest : List Dispatch}
    (h : s.active ℓ = ⟨c, cb :: todo, reported⟩ :: rest) : s.act (.callback ℓ r w) =
      if w.Within (s.conns c).tcp.outputBuffer_.readableBytes then
        some (s.callback ℓ c r w cb >>= fun s' => .ok { s' with
          active := Function.update s'.active ℓ
            (⟨c, todo, reported || decide (RunsClose cb r)⟩ :: rest) })
      else none := by
  rw [act, h]
  rfl

theorem act_callback_nil {ℓ : LoopId n} {r : ReadResult} {w : WriteResult} {c : ℕ}
    {reported : Bool} {rest : List Dispatch} (h : s.active ℓ = ⟨c, [], reported⟩ :: rest) :
    s.act (.callback ℓ r w) = none := by
  rw [act, h]

theorem act_handled_nil {ℓ : LoopId n} {c : ℕ} {reported : Bool} {rest : List Dispatch}
    (h : s.active ℓ = ⟨c, [], reported⟩ :: rest) : s.act (.handled ℓ) =
      some (.ok { s with active := Function.update s.active ℓ rest }) := by
  rw [act, h]
  rfl

theorem act_handled_cons {ℓ : LoopId n} {c : ℕ} {cb : Channel.Callback}
    {todo : List Channel.Callback} {reported : Bool} {rest : List Dispatch}
    (h : s.active ℓ = ⟨c, cb :: todo, reported⟩ :: rest) : s.act (.handled ℓ) = none := by
  rw [act, h]

theorem act_of_active_nil {ℓ : LoopId n} (h : s.active ℓ = []) :
    (∀ r w, s.act (.callback ℓ r w) = none) ∧ s.act (.handled ℓ) = none := by
  refine ⟨fun r w => ?_, ?_⟩
  · rw [act, h]
  · rw [act, h]

theorem act_run_none {ℓ : LoopId n} {w : WriteResult} (h : s.next ℓ = none) :
    s.act (.run ℓ w) = none := by
  rw [act, h]

theorem act_run_some {ℓ : LoopId n} {w : WriteResult} {f : ConnFunctor} (h : s.next ℓ = some f) :
    s.act (.run ℓ w) = if ∀ p ∈ f.raw, s.Owned p.1 then
      (s.turn ℓ .run).map fun s' => s'.call ℓ w f else none := by
  rw [act, h]

/-- What an event does does not depend on the interest lists, and leaves them aside. -/
def ActsAside (s₀ s : TcpServer n T) (e : Event n T) : Prop :=
  ∃ o : Option (TcpServer n T → TcpServer n T),
    (∀ F ∈ o, ∀ c, Aside view (entry c) (Fit s₀) F) ∧
    ∀ q, (view.set s q).act e = o.map fun F => .ok (F (view.set s q))

theorem actsAside_none {e : Event n T} (h : ∀ q, (view.set s q).act e = none) :
    ActsAside s₀ s e :=
  ⟨none, nofun, h⟩

theorem actsAside_some {e : Event n T} {F : TcpServer n T → TcpServer n T}
    (hF : ∀ c, Aside view (entry c) (Fit s₀) F)
    (h : ∀ q, (view.set s q).act e = some (.ok (F (view.set s q)))) : ActsAside s₀ s e :=
  ⟨some F, fun _ hG => Option.some.inj hG ▸ hF, h⟩

/-- A turn of a loop, with a change of the rest. -/
theorem actsAside_turn {e : Event n T} (ℓ : LoopId n)
    (e' : EventLoop.Event (LoopId n ⊕ T) ConnFunctor) {G : TcpServer n T → TcpServer n T}
    (hG : ∀ c, Aside view (entry c) (Fit s₀) G)
    (h : ∀ q, (view.set s q).act e = ((view.set s q).turn ℓ e').map fun s' => .ok (G s')) :
    ActsAside s₀ s e := by
  refine ⟨((s.loops ℓ).step e').map fun l s => G (s.setLoop ℓ l), fun F hF c => ?_, fun q => ?_⟩
  · obtain ⟨l, -, rfl⟩ := Option.map_eq_some_iff.mp hF
    exact (hG c).comp (aside_of_conns (F := fun s => s.setLoop ℓ l) (fun _ _ => rfl) fun _ => rfl)
  · rw [h]
    show Option.map _ (Option.map _ ((s.loops ℓ).step e')) = _
    cases (s.loops ℓ).step e' <;> rfl

variable (s₀) in
/-- **An event that works on no connection.** -/
theorem act_aside {e : Event n T} (he : touched s e = none)
    (hpoll : ∀ ℓ woken revents, e ≠ .poll ℓ woken revents) : ActsAside s₀ s e := by
  have hid : ∀ c, Aside view (entry c) (Fit s₀) fun s : TcpServer n T => s := fun c =>
    ⟨fun _ _ => rfl, fun _ => rfl, fun _ => id⟩
  have happs : ∀ (t : T) (a : App) (c : ℕ), Aside view (entry c) (Fit s₀) fun s : TcpServer n T =>
      { s with apps := Function.update s.apps t a } := fun t a c =>
    aside_of_conns (fun _ _ => rfl) fun _ => rfl
  cases e with
  | poll ℓ woken revents => exact absurd rfl (hpoll ℓ woken revents)
  | newConnection sockfd => cases he
  | loop ℓ => exact actsAside_turn ℓ .loop hid fun _ => rfl
  | test ℓ => exact actsAside_turn ℓ .test hid fun _ => rfl
  | wakeupRead ℓ => exact actsAside_turn ℓ .handleRead hid fun _ => rfl
  | wakeup t ℓ => exact actsAside_turn ℓ (.wakeup t) hid fun _ => rfl
  | finish ℓ =>
    refine actsAside_turn ℓ .finish (G := fun s' => { s' with
      functions := Function.update s.functions ℓ [] }) (fun c => ?_) fun _ => rfl
    exact aside_of_conns (fun _ _ => rfl) fun _ => rfl
  | swap ℓ =>
    by_cases hact : s.active ℓ = []
    · refine actsAside_turn ℓ .swap (G := fun s' => { s' with
        functions := Function.update s.functions ℓ (s.loops ℓ).pendingFunctors_ }) (fun c => ?_)
        fun q => if_pos hact
      exact aside_of_conns (fun _ _ => rfl) fun _ => rfl
    · exact actsAside_none fun q => if_neg hact
  | callback ℓ r w =>
    have hact : s.active ℓ = [] := List.head?_eq_none_iff.mp (Option.map_eq_none_iff.mp he)
    exact actsAside_none fun q => (act_of_active_nil (s := view.set s q) hact).1 r w
  | run ℓ w =>
    have hnext : s.next ℓ = none := Option.map_eq_none_iff.mp he
    exact actsAside_none fun q => act_run_none (s := view.set s q) hnext
  | handled ℓ =>
    rcases hact : s.active ℓ with _ | ⟨⟨c, _ | ⟨cb, todo⟩, reported⟩, rest⟩
    · exact actsAside_none fun q => (act_of_active_nil (s := view.set s q) hact).2
    · exact actsAside_some (F := fun s => { s with active := Function.update s.active ℓ rest })
        (fun c => aside_of_conns (fun _ _ => rfl) fun _ => rfl)
        fun q => act_handled_nil (s := view.set s q) hact
    · exact actsAside_none fun q => act_handled_cons (s := view.set s q) hact
  | copy t c =>
    by_cases hc : s.apps t = .idle ∧ s.Owned c
    · exact actsAside_some (happs t (.holding c)) fun q => if_pos hc
    · exact actsAside_none fun q => if_neg hc
  | drop t =>
    cases happ : s.apps t with
    | holding c => exact actsAside_some (happs t .idle) fun q => by simp [act, view, happ]; rfl
    | _ => exact actsAside_none fun q => by simp [act, view, happ]
  | send t message =>
    cases happ : s.apps t with
    | holding c =>
      by_cases hst : (s.conns c).tcp.state_ = .kConnected
      · refine actsAside_some (happs t (.sending c message)) fun q => ?_
        simp [act, view, happ, Conn.onList, TcpConnection.view, hst]
        rfl
      · refine actsAside_some hid fun q => ?_
        simp [act, view, happ, Conn.onList, TcpConnection.view, hst]
        rfl
    | _ => exact actsAside_none fun q => by simp [act, view, happ]
  | shutdown t =>
    cases happ : s.apps t with
    | holding c =>
      by_cases hst : (s.conns c).tcp.state_ = .kConnected
      · refine actsAside_some (happs t (.stopping c)) fun q => ?_
        simp [act, view, happ, Conn.onList, TcpConnection.view, hst]
        rfl
      · refine actsAside_some hid fun q => ?_
        simp [act, view, happ, Conn.onList, TcpConnection.view, hst]
        rfl
    | _ => exact actsAside_none fun q => by simp [act, view, happ]
  | store t =>
    cases happ : s.apps t with
    | stopping c =>
      refine actsAside_some (fun d => (setConn_aside (G := fun k =>
        { k with tcp := { k.tcp with state_ := .kDisconnected } }) (fun _ _ => rfl) (fun _ => rfl)
        (fun _ => rfl) (fun _ => rfl) c d).comp (happs t (.stopped c) d)) fun q => ?_
      simp [act, view, happ]
      rfl
    | _ => exact actsAside_none fun q => by simp [act, view, happ]
  | enqueue t =>
    have hqueue : ∀ (c : ℕ) (f : ConnFunctor) (d : ℕ), Aside view (entry d) (Fit s₀)
        fun s : TcpServer n T => queueInLoop { s with
          apps := Function.update s.apps t (.holding c) } (.inr t) (s.conns c).loop_ f :=
      fun c f d => aside_of_conns (fun _ _ => rfl) fun _ => rfl
    cases happ : s.apps t with
    | sending c message =>
      refine actsAside_some (hqueue c (.sendInLoop c message (0 < (s.conns c).removed)))
        fun q => ?_
      simp [act, view, happ]
      rfl
    | stopped c =>
      refine actsAside_some (hqueue c (.shutdownInLoop c (0 < (s.conns c).removed))) fun q => ?_
      simp [act, view, happ]
      rfl
    | _ => exact actsAside_none fun q => by simp [act, view, happ]

variable (s₀) in
/-- **A callback or a functor.** -/
theorem act_local {e : Event n T} (hc : touched s e = some c)
    (hnew : ∀ sockfd, e ≠ .newConnection sockfd) :
    ∃ o : Option (TcpServer n T → Outcome (TcpServer n T)),
      (∀ f ∈ o, Local view (entry c) (Fit s₀) f) ∧
      ∀ q, (view.set s q).act e = o.map (· (view.set s q)) := by
  cases e with
  | newConnection sockfd => exact absurd rfl (hnew sockfd)
  | callback ℓ r w =>
    obtain ⟨⟨c', todo, reported⟩, hhead, rfl⟩ := Option.map_eq_some_iff.mp hc
    obtain ⟨rest, hact⟩ := List.head?_eq_some_iff.mp hhead
    cases todo with
    | nil => exact ⟨none, nofun, fun q => act_callback_nil (s := view.set s q) hact⟩
    | cons cb todo =>
      by_cases hw : w.Within (s.conns c').tcp.outputBuffer_.readableBytes
      · refine ⟨some fun s => s.callback ℓ c' r w cb >>= fun s' => .ok { s' with
          active := Function.update s'.active ℓ
            (⟨c', todo, reported || decide (RunsClose cb r)⟩ :: rest) }, ?_, fun q => ?_⟩
        · rintro _ ⟨⟩
          exact (callback_local ℓ r w cb).before (aside_of_conns (fun _ _ => rfl) fun _ => rfl)
        · exact (act_callback_cons (s := view.set s q) hact).trans (if_pos hw)
      · refine ⟨none, nofun, fun q => ?_⟩
        exact (act_callback_cons (s := view.set s q) hact).trans (if_neg hw)
  | run ℓ w =>
    obtain ⟨f, hnext, rfl⟩ := Option.map_eq_some_iff.mp hc
    by_cases hraw : ∀ p ∈ f.raw, s.Owned p.1
    · refine ⟨((s.loops ℓ).step .run).map fun l s => (s.setLoop ℓ l).call ℓ w f, fun g hg => ?_,
        fun q => ?_⟩
      · obtain ⟨l, -, rfl⟩ := Option.map_eq_some_iff.mp hg
        exact (call_local ℓ w f rfl).after
          (aside_of_conns (F := fun s => s.setLoop ℓ l) (fun _ _ => rfl) fun _ => rfl)
      · refine ((act_run_some (s := view.set s q) hnext).trans (if_pos hraw)).trans ?_
        show Option.map _ (Option.map _ ((s.loops ℓ).step .run)) = _
        cases (s.loops ℓ).step .run <;> rfl
    · refine ⟨none, nofun, fun q => ?_⟩
      exact (act_run_some (s := view.set s q) hnext).trans (if_neg hraw)
  | _ => cases hc

end TcpServer
end HighServer
