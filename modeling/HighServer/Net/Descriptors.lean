import HighServer.Net.Locality
import HighServer.Net.OpenClose

/-!
# Descriptors and interest lists of the process

The connections of a loop share the interest list of its epoll instance, and all connections share
the descriptors of the process. `accept` returns a descriptor that is not open; the last pointer to
a connection that goes closes its descriptor, and takes it out of the interest list.

* `Tidy`: the descriptors of live connections and the entries of the lists;
  `Tidy.work`, `Tidy.accept`, `Tidy.close`: a step, taken apart;
* `Process`: the server on shared lists; `Process.act`, `Process.settle`, `Process.step`;
* `act_holding`: what a step lets go, and what it holds on to;
* `Refines`: the server with a list for each connection; `step_refines`: it follows the process;
* **`descriptors`**: the same over runs; what `accept` and `epoll_wait` can return.
-/

namespace HighServer

open Frame

namespace TcpServer

open TcpConnection (fd)

variable {n : ℕ} {T : Type}

/-- The descriptors of live connections are open, one for each, beside those in `base`; the lists
have the entries of live connections only, as each of them made it. -/
structure Tidy (base : List ℕ) (Live : ℕ → Prop) (interest : LoopId n → EPoller)
    (opened : List ℕ) (s : TcpServer n T) : Prop where
  fit : Fit s s
  distinct : ∀ c d, Live c → Live d → (s.conns c).tcp.fd = (s.conns d).tcp.fd → c = d
  fresh : ∀ c, Live c → (s.conns c).tcp.fd ∉ base
  nodup : opened.Nodup
  opened : ∀ k, k ∈ opened ↔ k ∈ base ∨ ∃ c, Live c ∧ (s.conns c).tcp.fd = k
  entry : ∀ c, Live c → interest (s.conns c).loop_ (s.conns c).tcp.fd =
    (s.conns c).tcp.poller (s.conns c).tcp.fd
  listed : ∀ ℓ k, interest ℓ k ≠ none → ∃ c, Live c ∧ (s.conns c).loop_ = ℓ ∧
    (s.conns c).tcp.fd = k

variable {base opened : List ℕ} {Live Live' : ℕ → Prop} {interest : LoopId n → EPoller}
  {s s' : TcpServer n T} {c : ℕ}

/-- The connections keep their loops and descriptors. -/
theorem Tidy.of_fit (h : Tidy base Live interest opened s) (hfit : Fit s s')
    {interest' : LoopId n → EPoller}
    (hentry : ∀ d, Live d → interest' (s.conns d).loop_ (s.conns d).tcp.fd =
      (s'.conns d).tcp.poller (s.conns d).tcp.fd)
    (hlisted : ∀ ℓ k, interest' ℓ k ≠ none → ∃ d, Live d ∧ (s.conns d).loop_ = ℓ ∧
      (s.conns d).tcp.fd = k) : Tidy base Live interest' opened s' := by
  have hfd : ∀ d, (s'.conns d).tcp.fd = (s.conns d).tcp.fd := fun d => (hfit d).2.2.1
  have hloop : ∀ d, (s'.conns d).loop_ = (s.conns d).loop_ := fun d => (hfit d).1
  refine ⟨fun d => ⟨rfl, ?_⟩, ?_, ?_, h.nodup, ?_, ?_, ?_⟩
  · rw [hfd]
    exact (hfit d).2
  · simp only [hfd]
    exact h.distinct
  · simp only [hfd]
    exact h.fresh
  · simp only [hfd]
    exact h.opened
  · simp only [hfd, hloop]
    exact hentry
  · simp only [hfd, hloop]
    exact hlisted

/-- A step that leaves the lists alone. -/
theorem Tidy.rest (h : Tidy base Live interest opened s) (hfit : Fit s s')
    (hsame : view.get s' = view.get s) : Tidy base Live interest opened s' := by
  refine h.of_fit hfit (fun d hd => ?_) h.listed
  rw [h.entry d hd]
  exact (congrFun hsame (d, (s.conns d).tcp.fd)).symm

/-- A step that works on the entry of one connection. -/
theorem Tidy.work (h : Tidy base Live interest opened s) (hc : Live c) (hfit : Fit s s')
    (hframe : ∀ k, k ≠ TcpServer.entry c s → view.get s' k = view.get s k) :
    Tidy base Live (Function.update interest (s.conns c).loop_
      (Function.update (interest (s.conns c).loop_) (s.conns c).tcp.fd
        ((s'.conns c).tcp.poller (s.conns c).tcp.fd))) opened s' := by
  refine h.of_fit hfit (fun d hd => ?_) fun ℓ k hk => ?_
  · by_cases hdc : d = c
    · subst hdc
      rw [Function.update_self, Function.update_self]
    · -- another connection has another descriptor
      have hne : (s.conns d).tcp.fd ≠ (s.conns c).tcp.fd := fun heq =>
        hdc (h.distinct d c hd hc heq)
      have hsame : (s'.conns d).tcp.poller (s.conns d).tcp.fd =
          (s.conns d).tcp.poller (s.conns d).tcp.fd :=
        hframe (d, (s.conns d).tcp.fd) fun heq => hdc (congrArg Prod.fst heq)
      rw [hsame, ← h.entry d hd]
      by_cases hl : (s.conns d).loop_ = (s.conns c).loop_
      · rw [hl, Function.update_self, Function.update_of_ne hne]
      · rw [Function.update_of_ne hl]
  · by_cases hl : ℓ = (s.conns c).loop_
    · subst hl
      rw [Function.update_self] at hk
      by_cases hkc : k = (s.conns c).tcp.fd
      · exact ⟨c, hc, rfl, hkc.symm⟩
      · rw [Function.update_of_ne hkc] at hk
        exact h.listed _ k hk
    · rw [Function.update_of_ne hl] at hk
      exact h.listed ℓ k hk

/-- **An operation on the shared lists** does what it does on the list of its connection. -/
theorem Tidy.run (h : Tidy base Live interest opened s) (hc : Live c)
    {f : TcpServer n T → Outcome (TcpServer n T)} (hf : Local view (TcpServer.entry c) (Fit s) f)
    {s₁ : TcpServer n T}
    (hs : f (view.set s fun k => interest (s.conns k.1).loop_ k.2) = .ok s₁) :
    ∃ s' q, f s = .ok s' ∧ s₁ = view.set s' q ∧
      Tidy base Live (Function.update interest (s₁.conns c).loop_ (s₁.conns c).tcp.poller)
        opened s' := by
  rw [hf.eq s _ (h.entry c hc)] at hs
  cases hfs : f s with
  | error a => rw [hfs] at hs; cases hs
  | ok s' =>
    rw [hfs] at hs
    obtain rfl := Except.ok.inj hs
    have hfit := hf.fit s s' hfs h.fit
    refine ⟨s', _, rfl, rfl, ?_⟩
    have hlist : ((view.graft (TcpServer.entry c s)
        (fun k => interest (s.conns k.1).loop_ k.2) s').conns c).tcp.poller =
        Function.update (interest (s.conns c).loop_) (s.conns c).tcp.fd
          ((s'.conns c).tcp.poller (s.conns c).tcp.fd) :=
      Function.update_comp_eq_of_injective (fun k : ℕ × ℕ => interest (s.conns k.1).loop_ k.2)
        (Prod.mk_right_injective c) (s.conns c).tcp.fd ((s'.conns c).tcp.poller (s.conns c).tcp.fd)
    have hloop : ((view.graft (TcpServer.entry c s)
        (fun k => interest (s.conns k.1).loop_ k.2) s').conns c).loop_ = (s.conns c).loop_ :=
      (hfit c).1
    rw [hlist, hloop]
    exact h.work hc hfit fun k hk => hf.frame hfs hk

/-- An operation that fails on the shared lists fails on the list of its connection. -/
theorem Tidy.fails (h : Tidy base Live interest opened s) (hc : Live c)
    {f : TcpServer n T → Outcome (TcpServer n T)} (hf : Local view (TcpServer.entry c) (Fit s) f)
    {a : Abort} (hs : f (view.set s fun k => interest (s.conns k.1).loop_ k.2) = .error a) :
    f s = .error a := by
  rw [hf.eq s _ (h.entry c hc)] at hs
  cases hfs : f s with
  | ok s' => rw [hfs] at hs; cases hs
  | error b =>
    rw [hfs] at hs
    exact hs

/-- A new connection, whose descriptor was not open. -/
theorem Tidy.accept (h : Tidy base Live interest opened s) {sockfd : ℕ} (hfree : sockfd ∉ opened)
    (hnew : ¬ Live s.nextConnId_) : Tidy base (fun d => Live d ∨ d = s.nextConnId_) interest
      (sockfd :: opened) (s.insert sockfd) := by
  have hself : (s.insert sockfd).conns s.nextConnId_ = s.made sockfd := by
    rw [insert_conns, if_pos rfl]
  have hother : ∀ {d}, d ≠ s.nextConnId_ → (s.insert sockfd).conns d = s.conns d := fun hd => by
    rw [insert_conns, if_neg hd]
  have hlive : ∀ {d}, Live d → d ≠ s.nextConnId_ := fun hd heq => hnew (heq ▸ hd)
  have hmade : (s.made sockfd).tcp.fd = sockfd := rfl
  have hused : ∀ {d}, Live d → (s.conns d).tcp.fd ≠ sockfd := fun hd heq =>
    hfree ((h.opened _).mpr (Or.inr ⟨_, hd, heq⟩))
  have hunlisted : ∀ ℓ, interest ℓ sockfd = none := by
    intro ℓ
    by_contra hne
    obtain ⟨d, hd, -, hfd⟩ := h.listed ℓ sockfd hne
    exact hused hd hfd
  refine ⟨fun d => ⟨rfl, ?_⟩, ?_, ?_, List.nodup_cons.mpr ⟨hfree, h.nodup⟩, fun k => ?_, ?_,
    fun ℓ k hk => ?_⟩
  · by_cases hd : d = s.nextConnId_
    · subst hd
      rw [hself]
      exact ⟨rfl, rfl, nofun⟩
    · rw [hother hd]
      exact (h.fit d).2
  · rintro a b (ha | rfl) (hb | rfl) hab
    · rw [hother (hlive ha), hother (hlive hb)] at hab
      exact h.distinct a b ha hb hab
    · rw [hother (hlive ha), hself] at hab
      exact absurd hab (hused ha)
    · rw [hself, hother (hlive hb)] at hab
      exact absurd hab.symm (hused hb)
    · rfl
  · rintro a (ha | rfl)
    · rw [hother (hlive ha)]
      exact h.fresh a ha
    · rw [hself, hmade]
      exact fun hbase => hfree ((h.opened _).mpr (Or.inl hbase))
  · rw [List.mem_cons, h.opened]
    constructor
    · rintro (rfl | hbase | ⟨d, hd, hk⟩)
      · exact Or.inr ⟨s.nextConnId_, Or.inr rfl, by rw [hself, hmade]⟩
      · exact Or.inl hbase
      · exact Or.inr ⟨d, Or.inl hd, by rw [hother (hlive hd), hk]⟩
    · rintro (hbase | ⟨d, hd | rfl, hk⟩)
      · exact Or.inr (Or.inl hbase)
      · rw [hother (hlive hd)] at hk
        exact Or.inr (Or.inr ⟨d, hd, hk⟩)
      · rw [hself, hmade] at hk
        exact Or.inl hk.symm
  · rintro d (hd | rfl)
    · rw [hother (hlive hd)]
      exact h.entry d hd
    · rw [hself, hmade]
      exact hunlisted _
  · obtain ⟨d, hd, hloop, hfd⟩ := h.listed ℓ k hk
    exact ⟨d, Or.inl hd, by rw [hother (hlive hd), hloop], by rw [hother (hlive hd), hfd]⟩

/-- Connections that are gone. -/
theorem Tidy.close (h : Tidy base Live interest opened s) (hlive : ∀ d, Live' d → Live d)
    {closed : List ℕ}
    (hclosed : ∀ k, k ∈ closed ↔ ∃ d, Live d ∧ ¬ Live' d ∧ (s.conns d).tcp.fd = k) :
    Tidy base Live' (fun ℓ k => if k ∈ closed then none else interest ℓ k)
      (opened.filter (· ∉ closed)) s := by
  have hopen : ∀ {d}, Live' d → (s.conns d).tcp.fd ∉ closed := by
    intro d hd hmem
    obtain ⟨a, ha, hna, hfd⟩ := (hclosed _).mp hmem
    exact hna (h.distinct a d ha (hlive d hd) hfd ▸ hd)
  refine ⟨h.fit, fun a b ha hb => h.distinct a b (hlive a ha) (hlive b hb),
    fun a ha => h.fresh a (hlive a ha), h.nodup.filter _, fun k => ?_, fun d hd => ?_,
    fun ℓ k hk => ?_⟩
  · rw [List.mem_filter, decide_eq_true_iff, h.opened]
    constructor
    · rintro ⟨hbase | ⟨d, hd, hk⟩, hnot⟩
      · exact Or.inl hbase
      · refine Or.inr ⟨d, ?_, hk⟩
        by_contra hd'
        exact hnot ((hclosed k).mpr ⟨d, hd, hd', hk⟩)
    · rintro (hbase | ⟨d, hd, rfl⟩)
      · refine ⟨Or.inl hbase, fun hmem => ?_⟩
        obtain ⟨d, hd, -, hk⟩ := (hclosed k).mp hmem
        exact h.fresh d hd (hk ▸ hbase)
      · exact ⟨Or.inr ⟨d, hlive d hd, rfl⟩, hopen hd⟩
  · rw [if_neg (hopen hd)]
    exact h.entry d (hlive d hd)
  · split_ifs at hk with hmem
    · exact absurd rfl hk
    · obtain ⟨d, hd, hloop, hfd⟩ := h.listed ℓ k hk
      refine ⟨d, ?_, hloop, hfd⟩
      by_contra hd'
      exact hmem ((hclosed k).mpr ⟨d, hd, hd', hfd⟩)

/-! ## The process -/

end TcpServer

/-- A server with what the kernel keeps for its process. -/
structure Process (n : ℕ) (T : Type) where
  server : TcpServer n T
  /-- the interest list of each loop, but for the loop's own channels -/
  interest : LoopId n → EPoller
  /-- the open descriptors -/
  opened : List ℕ

namespace Process

open TcpServer TcpConnection Runs

variable {n : ℕ} {T : Type}

/-- The list that a connection works on is that of its loop. -/
def lists (P : Process n T) (k : ℕ × ℕ) : Option EpollEvent :=
  P.interest (P.server.conns k.1).loop_ k.2

def load (P : Process n T) : TcpServer n T := TcpServer.view.set P.server P.lists

/-- The constructor, and `start`; `base` are the descriptors that are open then. -/
def new (n : ℕ) (T : Type) (name_ : String) (writeCompleteCallback_ : Bool) (base : List ℕ) :
    Process n T where
  server := .new n T name_ writeCompleteCallback_
  interest _ _ := none
  opened := base

/-- epoll can report `revents` for the descriptor. -/
def Reported (P : Process n T) (ℓ : LoopId n) (fd : ℕ) (revents : Mask) : Prop :=
  ∃ e ∈ P.interest ℓ fd, revents &&& ~~~(e.events ||| EPOLLERR ||| EPOLLHUP) = 0

instance (P : Process n T) (ℓ : LoopId n) (fd : ℕ) (revents : Mask) :
    Decidable (P.Reported ℓ fd revents) :=
  inferInstanceAs (Decidable (∃ _ ∈ _, _))

/-- `fillActiveChannels`: the channels that `data.ptr` points to. -/
def channels (P : Process n T) (ℓ : LoopId n) (reports : List (ℕ × Mask)) : List (ℕ × Mask) :=
  reports.filterMap fun r => (P.interest ℓ r.1).map fun e => (e.ptr, r.2)

variable [DecidableEq T]

/-- `newConnection`; `connectEstablished` works on the list of the loop. -/
def newConnection (P : Process n T) (sockfd : ℕ) : Outcome (TcpServer n T) :=
  (load { P with server := P.server.insert sockfd }).runInLoop none
    P.server.threadPool_.getNextLoop.1 (.connectEstablished P.server.nextConnId_)
    fun s => s.connectEstablished none P.server.nextConnId_

variable [Fintype T]

/-- What an event does. A `poll` reports descriptors; `accept` returns one that is not open; and a
channel whose connection is gone has no defined behaviour. -/
def act (P : Process n T) : Event n T → Option (Outcome (TcpServer n T))
  | .poll ℓ woken reports =>
    if (∀ r ∈ reports, P.Reported ℓ r.1 r.2) ∧ (reports.map (·.1)).Nodup then
      (P.server.turn ℓ (.poll woken)).map fun s => pure { s with
        active := Function.update s.active ℓ
          ((P.channels ℓ reports).map fun p => ⟨p.1, Channel.callbacks p.2, false⟩) }
    else none
  | .newConnection sockfd =>
    if P.server.Handling none ∧ sockfd ∉ P.opened then some (P.newConnection sockfd) else none
  | .callback ℓ r w =>
    if ∀ c ∈ touched P.server (.callback ℓ r w), P.server.Owned c then
      P.load.act (.callback ℓ r w)
    else none
  | e => P.load.act e

/-- The descriptors of the connections whose last pointer has gone. -/
def closed (P : Process n T) (s : TcpServer n T) : List ℕ :=
  ((List.range s.nextConnId_).filter fun c =>
    (P.server.Owned c ∨ P.server.nextConnId_ ≤ c) ∧ ¬ s.Owned c).map fun c => (s.conns c).tcp.fd

/-- The lists after the `epoll_ctl` calls of an event, which are made on one of them. -/
def worked (P : Process n T) (e : Event n T) (s : TcpServer n T) : LoopId n → EPoller :=
  match touched P.server e with
  | some c => Function.update P.interest (s.conns c).loop_ (s.conns c).tcp.poller
  | none => P.interest

/-- What `accept` has returned. -/
def accepted : Event n T → List ℕ
  | .newConnection sockfd => [sockfd]
  | _ => []

/-- The process after an event. The kernel takes a descriptor that is closed out of all lists. -/
def settle (P : Process n T) (e : Event n T) (s : TcpServer n T) : Process n T where
  server := s
  interest ℓ fd := if fd ∈ P.closed s then none else P.worked e s ℓ fd
  opened := (accepted e ++ P.opened).filter (· ∉ P.closed s)

def perform (P : Process n T) (e : Event n T) : Option (Outcome (TcpServer n T)) :=
  if ∀ t ∈ e.thread, P.server.Free t then P.act e else none

def step (P : Process n T) (e : Event n T) : Option (Process n T) :=
  ((P.perform e).bind Except.toOption).map (P.settle e)

/-! ## Owners -/

end Process

namespace TcpServer

open Process Runs

variable {n : ℕ} {T : Type} {s s' : TcpServer n T} {ℓ : LoopId n} {c : ℕ}

/-- No connection is accepted, and none is owned that was not, but for the one that is worked on. -/
structure Holding (o : Option ℕ) (s s' : TcpServer n T) : Prop where
  nextConnId_ : s'.nextConnId_ = s.nextConnId_
  owned : ∀ d, s'.Owned d → s.Owned d ∨ o = some d

theorem Holding.refl (o : Option ℕ) (s : TcpServer n T) : Holding o s s := ⟨rfl, fun _ => Or.inl⟩

theorem Holding.trans {s₁ s₂ s₃ : TcpServer n T} {o : Option ℕ} (h : Holding o s₁ s₂)
    (h' : Holding o s₂ s₃) : Holding o s₁ s₃ where
  nextConnId_ := h'.nextConnId_.trans h.nextConnId_
  owned d hd := (h'.owned d hd).elim (h.owned d) Or.inr

/-- The connections and what is being handled do not count. -/
theorem holding_of_same {o : Option ℕ} (hnext : s'.nextConnId_ = s.nextConnId_)
    (hmap : s'.connections_ = s.connections_) (hloops : s'.loops = s.loops)
    (hfunctions : s'.functions = s.functions) (happs : s'.apps = s.apps) : Holding o s s' where
  nextConnId_ := hnext
  owned d hd := by
    rw [Owned, hmap, hloops, hfunctions, happs] at hd
    exact Or.inl hd

/-- The functors that are alive are among those that were. -/
theorem holding_of_held {o : Option ℕ} (hnext : s'.nextConnId_ = s.nextConnId_)
    (hmap : s'.connections_ = s.connections_) (happs : s'.apps = s.apps)
    (hheld : ∀ ℓ, ∀ f ∈ (s'.loops ℓ).pendingFunctors_ ++ s'.functions ℓ,
      f ∈ (s.loops ℓ).pendingFunctors_ ++ s.functions ℓ) : Holding o s s' where
  nextConnId_ := hnext
  owned d hd := by
    rcases hd with hm | ⟨ℓ, f, hf, hfd⟩ | ht
    · exact Or.inl (Or.inl (hmap ▸ hm))
    · exact Or.inl (Or.inr (Or.inl ⟨ℓ, f, hheld ℓ f hf, hfd⟩))
    · exact Or.inl (Or.inr (Or.inr (happs ▸ ht)))

theorem holding_apps {o : Option ℕ} {t : T} [DecidableEq T] {a : App}
    (ha : ∀ d, a.conn = some d → s.Owned d) :
    Holding o s { s with apps := Function.update s.apps t a } where
  nextConnId_ := rfl
  owned d hd := by
    rcases hd with hm | hf | ⟨t', ht'⟩
    · exact Or.inl (Or.inl hm)
    · exact Or.inl (Or.inr (Or.inl hf))
    · dsimp only at ht'
      rw [Function.update_apply] at ht'
      split_ifs at ht'
      · exact Or.inl (ha d ht')
      · exact Or.inl (Or.inr (Or.inr ⟨t', ht'⟩))

theorem holding_takeOut (s : TcpServer n T) (c : ℕ) : Holding (some c) s (s.takeOut c) where
  nextConnId_ := rfl
  owned d hd := by
    rcases hd with hm | hf | ht
    · refine Or.inl (Or.inl ?_)
      obtain ⟨p, hp, rfl⟩ := List.mem_map.mp hm
      exact List.mem_map_of_mem (List.mem_filter.mp hp).1
    · exact Or.inl (Or.inr (Or.inl hf))
    · exact Or.inl (Or.inr (Or.inr ht))

variable [DecidableEq T]

theorem holding_queueInLoop {o : Option ℕ} (s : TcpServer n T) (t : LoopId n ⊕ T) (ℓ : LoopId n)
    {f : ConnFunctor} (hf : ∀ d, f.holds d = true → o = some d) :
    Holding o s (s.queueInLoop t ℓ f) where
  nextConnId_ := rfl
  owned d hd := by
    rcases hd with hm | ⟨ℓ', g, hg, hgd⟩ | ht
    · exact Or.inl (Or.inl hm)
    · rcases mem_held_queueInLoop hg with hg | rfl
      · exact Or.inl (Or.inr (Or.inl ⟨ℓ', g, hg, hgd⟩))
      · exact Or.inr (hf d hgd)
    · exact Or.inl (Or.inr (Or.inr ht))

omit [DecidableEq T] in
/-- A functor holds its own connection only. -/
theorem some_conn_of_holds {f : ConnFunctor} (d : ℕ) (h : f.holds d = true) :
    some f.conn = some d :=
  congrArg some (ConnFunctor.conn_of_holds h)

theorem holding_removeConnectionInLoop (h : s.removeConnectionInLoop ℓ c = .ok s') :
    Holding (some c) s s' := by
  obtain ⟨-, rfl⟩ := removeConnectionInLoop_ok h
  exact (holding_takeOut s c).trans (holding_queueInLoop _ _ _ some_conn_of_holds)

theorem holding_callback {r : ReadResult} {w : WriteResult} {cb : Channel.Callback}
    (h : s.callback ℓ c r w cb = .ok s') : Holding (some c) s s' := by
  obtain ⟨tcp, rfl | h⟩ := callback_ok h
  · exact holding_of_same rfl rfl rfl rfl rfl
  · have hset : Holding (some c) s (s.setConn c { s.conns c with tcp }) :=
      holding_of_same rfl rfl rfl rfl rfl
    rw [TcpServer.removeConnection, runInLoop] at h
    split_ifs at h
    · exact hset.trans (holding_removeConnectionInLoop h)
    · obtain rfl := Except.ok.inj h
      exact hset.trans (holding_queueInLoop _ _ _ some_conn_of_holds)

theorem holding_call {w : WriteResult} {f : ConnFunctor} (h : s.call ℓ w f = .ok s') :
    Holding (some f.conn) s s' := by
  cases f with
  | connectEstablished c =>
    obtain ⟨-, -, h⟩ := bind_eq_ok_iff.mp h
    obtain ⟨tcp, -, h⟩ := bind_eq_ok_iff.mp h
    obtain rfl := Except.ok.inj h
    exact holding_of_same rfl rfl rfl rfl rfl
  | removeConnectionInLoop c => exact holding_removeConnectionInLoop h
  | connectDestroyed c =>
    obtain ⟨-, -, h⟩ := bind_eq_ok_iff.mp h
    obtain ⟨tcp, -, h⟩ := bind_eq_ok_iff.mp h
    obtain rfl := Except.ok.inj h
    exact holding_of_same rfl rfl rfl rfl rfl
  | writeComplete c =>
    obtain rfl := Except.ok.inj h
    exact .refl _ s
  | sendInLoop c message late =>
    obtain ⟨-, -, h⟩ := bind_eq_ok_iff.mp h
    obtain ⟨s₁, hs₁, h⟩ := bind_eq_ok_iff.mp h
    obtain ⟨tcp, -, rfl⟩ := onTcp_ok hs₁
    have hset : Holding (some c) s (s.setConn c { s.conns c with tcp }) :=
      holding_of_same rfl rfl rfl rfl rfl
    split_ifs at h
    · exact Except.ok.inj h ▸ hset
    · exact Except.ok.inj h ▸ hset.trans (holding_queueInLoop _ _ _ some_conn_of_holds)
  | shutdownInLoop c late =>
    obtain ⟨-, -, h⟩ := bind_eq_ok_iff.mp h
    obtain ⟨tcp, -, rfl⟩ := onTcp_ok h
    exact holding_of_same rfl rfl rfl rfl rfl

/-- A turn of a loop lets go of functors, or moves them. -/
theorem holding_turn {o : Option ℕ} {e : EventLoop.Event (LoopId n ⊕ T) ConnFunctor}
    (h : s.turn ℓ e = some s') (hq : e.queued = []) (hs : e ≠ .swap) : Holding o s s' := by
  obtain ⟨l, hl, rfl⟩ := turn_eq_some_iff.mp h
  have hpend : l.pendingFunctors_ = (s.loops ℓ).pendingFunctors_ := by
    by_cases hr : e = .run
    · subst hr
      exact (EventLoop.run_rest hl).2
    · rw [(EventLoop.step_pending hl hs hr).2, hq, List.append_nil]
  refine holding_of_held rfl rfl rfl fun ℓ' f hf => ?_
  rw [setLoop_congr EventLoop.pendingFunctors_ hpend] at hf
  exact hf

theorem newConnection_holding {sockfd : ℕ} (h : s.newConnection sockfd = .ok s') :
    s'.nextConnId_ = s.nextConnId_ + 1 ∧ ∀ d, s'.Owned d → s.Owned d ∨ d = s.nextConnId_ := by
  have hold : Holding (some s.nextConnId_) (s.insert sockfd) s' := by
    rw [TcpServer.newConnection, runInLoop] at h
    split_ifs at h
    · obtain ⟨-, -, h⟩ := bind_eq_ok_iff.mp h
      obtain ⟨tcp, -, h⟩ := bind_eq_ok_iff.mp h
      obtain rfl := Except.ok.inj h
      exact holding_of_same rfl rfl rfl rfl rfl
    · obtain rfl := Except.ok.inj h
      exact holding_queueInLoop _ _ _ some_conn_of_holds
  refine ⟨hold.nextConnId_, fun d hd => ?_⟩
  rcases hold.owned d hd with (hm | hf | ht) | hd
  · obtain ⟨p, hp, rfl⟩ := List.mem_map.mp hm
    rcases List.mem_cons.mp hp with rfl | hp
    · exact Or.inr rfl
    · exact Or.inl (Or.inl (List.mem_map_of_mem (List.mem_filter.mp hp).1))
  · exact Or.inl (Or.inr (Or.inl hf))
  · exact Or.inl (Or.inr (Or.inr ht))
  · exact Or.inr (Option.some.inj hd).symm

variable [Fintype T]

omit [Fintype T] in
/-- An event that is a turn of a loop. -/
theorem holding_of_turn {o : Option ℕ} {e : EventLoop.Event (LoopId n ⊕ T) ConnFunctor}
    (hs : (s.turn ℓ e).map (pure : _ → Outcome _) = some (.ok s')) (hq : e.queued = [])
    (he : e ≠ .swap) : Holding o s s' := by
  obtain ⟨s₁, hs₁, hs⟩ := Option.map_eq_some_iff.mp hs
  exact Except.ok.inj hs ▸ holding_turn hs₁ hq he

/-- What was pending is in the vector. -/
theorem act_swap_holding {o : Option ℕ} (hs : s.act (.swap ℓ) = some (.ok s')) :
    Holding o s s' := by
  obtain ⟨-, l, hl, hs⟩ := act_swap_eq_some hs
  obtain rfl := Except.ok.inj hs
  obtain ⟨-, -, hpend⟩ := EventLoop.swap_pending hl
  refine holding_of_held rfl rfl rfl fun ℓ' f hf => ?_
  change f ∈ ((s.setLoop ℓ l).loops ℓ').pendingFunctors_ ++
    Function.update s.functions ℓ _ ℓ' at hf
  rw [setLoop_loops, Function.update_apply] at hf
  split_ifs at hf with hℓ
  · subst hℓ
    rw [hpend, List.nil_append] at hf
    exact List.mem_append_left _ hf
  · exact hf

/-- The vector of a loop is gone. -/
theorem act_finish_holding {o : Option ℕ} (hs : s.act (.finish ℓ) = some (.ok s')) :
    Holding o s s' := by
  obtain ⟨l, hl, hs⟩ := act_finish_eq_some hs
  obtain rfl := Except.ok.inj hs
  have hturn : Holding o s (s.setLoop ℓ l) :=
    holding_turn (turn_eq_some_iff.mpr ⟨l, hl, rfl⟩) rfl (by simp)
  refine hturn.trans (holding_of_held rfl rfl rfl fun ℓ' f hf => ?_)
  rcases List.mem_append.mp hf with hpend | hvec
  · exact List.mem_append_left _ hpend
  · dsimp only at hvec
    rw [Function.update_apply] at hvec
    split_ifs at hvec
    · cases hvec
    · exact List.mem_append_right _ hvec

omit [Fintype T] in
/-- An application thread that goes on with the connection it has. -/
theorem holding_keepApp {t : T} {a : App} {c : ℕ}
    (happ : (s.apps t).conn = some c) (ha : a.conn = some c) :
    Holding none s { s with apps := Function.update s.apps t a } :=
  holding_apps fun _ hd => Or.inr (Or.inr ⟨t, happ.trans (ha ▸ hd)⟩)

/-- **What a step lets go**, and what it holds on to. -/
theorem act_holding {e : Event n T} (hnew : ∀ sockfd, e ≠ .newConnection sockfd)
    (hs : s.act e = some (.ok s')) : Holding (touched s e) s s' := by
  cases e with
  | newConnection sockfd => exact absurd rfl (hnew sockfd)
  | loop ℓ => exact holding_of_turn hs rfl (by simp)
  | test ℓ => exact holding_of_turn hs rfl (by simp)
  | wakeupRead ℓ => exact holding_of_turn hs rfl (by simp)
  | wakeup t ℓ => exact holding_of_turn hs rfl (by simp)
  | poll ℓ woken revents =>
    obtain ⟨-, -, l, hl, hs⟩ := act_poll_eq_some hs
    obtain rfl := Except.ok.inj hs
    exact (holding_turn (turn_eq_some_iff.mpr ⟨l, hl, rfl⟩) rfl (by simp)).trans
      (holding_of_same rfl rfl rfl rfl rfl)
  | callback ℓ r w =>
    obtain ⟨c, cb, todo, reported, rest, s₁, hact, hs₁, rfl⟩ := act_callback_eq_ok hs
    have ht : touched s (.callback ℓ r w) = some c := by rw [touched, hact]; rfl
    rw [ht]
    exact (holding_callback hs₁).trans (holding_of_same rfl rfl rfl rfl rfl)
  | handled ℓ =>
    obtain ⟨c, reported, rest, hact, hs⟩ := act_handled_eq_some hs
    exact Except.ok.inj hs ▸ holding_of_same rfl rfl rfl rfl rfl
  | swap ℓ => exact act_swap_holding hs
  | run ℓ w =>
    obtain ⟨f, l, hf, hl, hs⟩ := act_run_eq_some hs
    have ht : touched s (.run ℓ w) = some f.conn := by rw [touched, hf]; rfl
    rw [ht]
    exact (holding_turn (turn_eq_some_iff.mpr ⟨l, hl, rfl⟩) rfl (by simp)).trans (holding_call hs)
  | finish ℓ => exact act_finish_holding hs
  | copy t c =>
    obtain ⟨hc, hs⟩ := act_copy_eq_some hs
    obtain rfl := Except.ok.inj hs
    exact holding_apps fun d hd => Option.some.inj hd ▸ hc
  | drop t =>
    obtain rfl := Except.ok.inj (act_drop_eq_some hs)
    exact holding_apps fun d hd => by cases hd
  | send t message =>
    obtain ⟨c, happ, hs⟩ := act_send_eq_some hs
    obtain rfl := Except.ok.inj hs
    split_ifs
    · exact holding_keepApp (c := c) (by rw [happ]; rfl) rfl
    · exact .refl _ s
  | shutdown t =>
    obtain ⟨c, happ, hs⟩ := act_shutdown_eq_some hs
    obtain rfl := Except.ok.inj hs
    split_ifs
    · exact holding_keepApp (c := c) (by rw [happ]; rfl) rfl
    · exact .refl _ s
  | store t =>
    obtain ⟨c, tcp, happ, rfl⟩ := act_store_eq_ok hs
    exact (holding_keepApp (c := c) (by rw [happ]; rfl) rfl).trans
      (holding_of_same rfl rfl rfl rfl rfl)
  | enqueue t =>
    obtain ⟨c, f, hf, hs⟩ := act_enqueue_eq_some hs
    obtain rfl := Except.ok.inj hs
    have hconn : (s.apps t).conn = some c := by
      rcases hf with ⟨message, happ, -⟩ | ⟨happ, -⟩ <;> rw [happ] <;> rfl
    refine (holding_keepApp (a := .holding c) hconn rfl).trans
      (holding_queueInLoop _ _ _ fun d hd => ?_)
    rcases hf with ⟨message, -, rfl⟩ | ⟨-, rfl⟩ <;> cases hd

omit [DecidableEq T] [Fintype T] in
/-- A functor that can be called belongs to a connection that is owned. -/
theorem owned_of_next (h : s.Handover) {f : ConnFunctor} (hf : s.next ℓ = some f)
    (hraw : ∀ p ∈ f.raw, s.Owned p.1) : s.Owned f.conn := by
  obtain ⟨rest, hrest⟩ := next_eq_some_iff.mp hf
  have hmem : f ∈ s.functions ℓ := h.batch ℓ f (by rw [hrest]; exact List.mem_cons_self)
  have hholds : f.holds f.conn = true → s.Owned f.conn := fun hfd =>
    Or.inr (Or.inl ⟨ℓ, f, List.mem_append_right _ hmem, hfd⟩)
  cases f with
  | sendInLoop c message late => exact hraw (c, late) rfl
  | shutdownInLoop c late => exact hraw (c, late) rfl
  | _ => exact hholds (by simp [ConnFunctor.holds, ConnFunctor.conn])

end TcpServer

/-! ## Refinement -/

namespace Process

open TcpServer TcpConnection Runs

variable {n : ℕ} {T : Type} {base : List ℕ} {P P' : Process n T} {s s' : TcpServer n T}

/-- The process does what the server with a list for each connection does. -/
structure Refines (base : List ℕ) (P : Process n T) (s : TcpServer n T) : Prop where
  server : ∃ q, P.server = TcpServer.view.set s q
  handover : s.Handover
  tidy : Tidy base s.Owned P.interest P.opened s

theorem Refines.load (h : Refines base P s) : P.load = TcpServer.view.set s P.lists := by
  obtain ⟨q, hq⟩ := h.server
  rw [Process.load, hq, View.set_set]

variable [DecidableEq T] [Fintype T]

omit [DecidableEq T] in
/-- The descriptors that are closed, by the connections that were live. -/
theorem mem_closed {q : ℕ × ℕ → Option EpollEvent} (h : P.server = TcpServer.view.set s q)
    (q' : ℕ × ℕ → Option EpollEvent) {Live : ℕ → Prop}
    (hlive : ∀ d, Live d ↔ s.Owned d ∨ s.nextConnId_ ≤ d ∧ d < s'.nextConnId_)
    (hnext : ∀ d, s.Owned d → d < s'.nextConnId_) (k : ℕ) :
    k ∈ P.closed (TcpServer.view.set s' q') ↔
      ∃ d, Live d ∧ ¬ s'.Owned d ∧ (s'.conns d).tcp.fd = k := by
  rw [closed, h, List.mem_map]
  refine exists_congr fun d => ?_
  rw [List.mem_filter, List.mem_range, decide_eq_true_iff, hlive]
  constructor
  · rintro ⟨⟨hlt, hd, hnot⟩, hk⟩
    exact ⟨hd.imp_right fun hle => ⟨hle, hlt⟩, hnot, hk⟩
  · rintro ⟨hd, hnot, hk⟩
    exact ⟨⟨hd.elim (hnext d) And.right, hd.imp_right And.left, hnot⟩, hk⟩

omit [DecidableEq T] in
/-- The end of a step. -/
theorem Refines.settle (h : Refines base P s) {e : Event n T} (hs' : s'.Handover)
    {q' : ℕ × ℕ → Option EpollEvent} (Live : ℕ → Prop)
    (hlive : ∀ d, Live d ↔ s.Owned d ∨ s.nextConnId_ ≤ d ∧ d < s'.nextConnId_)
    (hnext : s.nextConnId_ ≤ s'.nextConnId_) (howned : ∀ d, s'.Owned d → Live d)
    (htidy : Tidy base Live (P.worked e (TcpServer.view.set s' q')) (accepted e ++ P.opened) s') :
    Refines base (P.settle e (TcpServer.view.set s' q')) s' := by
  obtain ⟨q, hq⟩ := h.server
  have hclosed := mem_closed hq q' hlive fun d hd =>
    (h.handover.accepted_of_owned hd).2.trans_le hnext
  exact ⟨⟨q', rfl⟩, hs', htidy.close howned hclosed⟩

omit [DecidableEq T] [Fintype T] in
theorem touched_set (s : TcpServer n T) (q : ℕ × ℕ → Option EpollEvent) (e : Event n T) :
    touched (TcpServer.view.set s q) e = touched s e := by
  cases e <;> rfl

/-- The end of a step that accepts nothing. -/
theorem Refines.done (h : Refines base P s) {e e' : Event n T} (hs : TcpServer.step s e' = some s')
    (hnew : ∀ sockfd, e' ≠ .newConnection sockfd) (he : accepted e = [])
    (howned : ∀ c, touched s e' = some c → s.Owned c) (q' : ℕ × ℕ → Option EpollEvent)
    (htidy : Tidy base s.Owned (P.worked e (TcpServer.view.set s' q')) P.opened s') :
    Refines base (P.settle e (TcpServer.view.set s' q')) s' := by
  obtain ⟨-, hact⟩ := perform_eq_some_iff.mp (TcpServer.step_eq_some_iff.mp hs)
  have hold := act_holding hnew hact
  refine h.settle (step_handover h.handover hs) s.Owned (fun d => ?_)
    hold.nextConnId_.ge (fun d hd => (hold.owned d hd).elim id (howned d)) (by rwa [he])
  rw [hold.nextConnId_]
  exact ⟨Or.inl, fun hd => hd.elim id fun hlt => absurd hlt.2 (not_lt.mpr hlt.1)⟩

/-- An event that works on no connection. -/
theorem Refines.aside (h : Refines base P s) {e : Event n T} (he : touched s e = none)
    (hpoll : ∀ ℓ woken revents, e ≠ .poll ℓ woken revents) (hfree : ∀ t ∈ e.thread, s.Free t)
    {s₁ : TcpServer n T} (hs : P.load.act e = some (.ok s₁)) :
    ∃ s', TcpServer.step s e = some s' ∧ Refines base (P.settle e s₁) s' := by
  obtain ⟨o, hF, ho⟩ := act_aside s he hpoll
  rw [h.load, ho] at hs
  obtain ⟨F, hFo, hs₁⟩ := Option.map_eq_some_iff.mp hs
  have haside := hF F hFo
  have hs₁' : s₁ = TcpServer.view.set (F s) P.lists :=
    (Except.ok.inj hs₁).symm.trans ((haside 0).eq s P.lists)
  have hact : s.act e = some (.ok (F s)) := by
    have := ho (TcpServer.view.get s)
    rw [View.set_get, hFo] at this
    exact this
  have hstep : TcpServer.step s e = some (F s) :=
    TcpServer.step_eq_some_iff.mpr (perform_eq_some_iff.mpr ⟨hfree, hact⟩)
  have hnew : ∀ sockfd, e ≠ .newConnection sockfd := by
    rintro sockfd rfl
    cases he
  obtain ⟨q, hq⟩ := h.server
  have hworked : P.worked e s₁ = P.interest := by
    rw [worked, hq, touched_set, he]
  refine ⟨F s, hstep, hs₁' ▸ h.done hstep hnew ?_ (fun c hc => ?_) _ ?_⟩
  · cases e <;> first | rfl | exact absurd rfl (hnew _)
  · rw [he] at hc
    cases hc
  · rw [← hs₁', hworked]
    exact h.tidy.rest ((haside 0).fit s h.tidy.fit) ((haside 0).get s)

omit [DecidableEq T] [Fintype T] in
theorem Refines.load_eq (h : Refines base P s) :
    P.load = TcpServer.view.set s fun k => P.interest (s.conns k.1).loop_ k.2 := by
  obtain ⟨q, hq⟩ := h.server
  rw [h.load]
  congr 1
  funext k
  rw [Process.lists, hq]
  rfl

/-- A callback or a functor. -/
theorem Refines.working (h : Refines base P s) {e : Event n T} {c : ℕ} (he : touched s e = some c)
    (hnew : ∀ sockfd, e ≠ .newConnection sockfd) (hc : s.Owned c)
    (hfree : ∀ t ∈ e.thread, s.Free t) {s₁ : TcpServer n T}
    (hs : P.load.act e = some (.ok s₁)) :
    ∃ s', TcpServer.step s e = some s' ∧ Refines base (P.settle e s₁) s' := by
  obtain ⟨o, hf, ho⟩ := act_local s he hnew
  rw [h.load_eq, ho] at hs
  obtain ⟨f, hfo, hs₁⟩ := Option.map_eq_some_iff.mp hs
  obtain ⟨q, hq⟩ := h.server
  obtain ⟨s', q', hfs, rfl, htidy⟩ := h.tidy.run hc (hf f hfo) hs₁
  have hact : s.act e = some (.ok s') := by
    have := ho (TcpServer.view.get s)
    rw [View.set_get, hfo] at this
    exact this.trans (congrArg some hfs)
  have hstep : TcpServer.step s e = some s' :=
    TcpServer.step_eq_some_iff.mpr (perform_eq_some_iff.mpr ⟨hfree, hact⟩)
  refine ⟨s', hstep, h.done hstep hnew ?_ (fun d hd => ?_) q' ?_⟩
  · cases e <;> first | rfl | exact absurd rfl (hnew _)
  · exact Option.some.inj (he.symm.trans hd) ▸ hc
  · rw [worked, hq, touched_set, he]
    exact htidy

/-! ## Accepting -/

omit [DecidableEq T] [Fintype T] in
theorem insert_set (s : TcpServer n T) (q q' : ℕ × ℕ → Option EpollEvent) (sockfd : ℕ) :
    TcpServer.view.set ((TcpServer.view.set s q).insert sockfd) q' =
      TcpServer.view.set (s.insert sockfd) q' := by
  show TcpServer.mk _ _ _ _ _ _ _ _ _ _ = TcpServer.mk _ _ _ _ _ _ _ _ _ _
  congr 1
  funext d
  rw [insert_conns, insert_conns]
  by_cases hd : d = s.nextConnId_
  · rw [if_pos hd]
    show Conn.onList (if d = s.nextConnId_ then _ else _) _ = _
    rw [if_pos hd]
    rfl
  · rw [if_neg hd]
    show Conn.onList (if d = s.nextConnId_ then _ else _) _ = _
    rw [if_neg hd]
    rfl

omit [Fintype T] in
theorem newConnection_local (sockfd : ℕ) :
    Local TcpServer.view (entry s.nextConnId_) (TcpServer.Fit (s.insert sockfd))
      fun s' : TcpServer n T => s'.runInLoop none s.threadPool_.getNextLoop.1
        (.connectEstablished s.nextConnId_) fun s' => s'.connectEstablished none s.nextConnId_ := by
  unfold runInLoop
  split_ifs
  · exact TcpServer.connectEstablished_local none
  · exact local_pure (queueInLoop_aside _ (g := fun _ => s.threadPool_.getNextLoop.1)
      (fun _ _ => rfl) _)

omit [Fintype T] in
theorem Refines.newConnection_eq (h : Refines base P s) (sockfd : ℕ) :
    P.newConnection sockfd = (TcpServer.view.set (s.insert sockfd) fun k =>
      P.interest ((s.insert sockfd).conns k.1).loop_ k.2).runInLoop none
        s.threadPool_.getNextLoop.1 (.connectEstablished s.nextConnId_)
        fun s' => s'.connectEstablished none s.nextConnId_ := by
  obtain ⟨q, hq⟩ := h.server
  have hloop : ∀ d, (((TcpServer.view.set s q).insert sockfd).conns d).loop_ =
      ((s.insert sockfd).conns d).loop_ := fun d =>
    congrArg (fun s => (s.conns d).loop_) (insert_set s q (fun _ => none) sockfd)
  have hload : Process.load { P with server := P.server.insert sockfd } =
      TcpServer.view.set (s.insert sockfd) fun k =>
        P.interest ((s.insert sockfd).conns k.1).loop_ k.2 := by
    rw [Process.load, hq, insert_set]
    congr 1
    funext k
    exact congrArg (P.interest · k.2) (hloop k.1)
  rw [Process.newConnection, hload, hq]
  rfl

/-- What `accept` returns is not open, and the connection is new. -/
theorem Refines.accept (h : Refines base P s) {sockfd : ℕ} {o : Outcome (TcpServer n T)}
    (hs : P.act (.newConnection sockfd) = some o) : s.Handling none ∧ P.newConnection sockfd = o ∧
      Tidy base (fun d => s.Owned d ∨ d = s.nextConnId_) P.interest (sockfd :: P.opened)
        (s.insert sockfd) := by
  obtain ⟨q, hq⟩ := h.server
  rw [act] at hs
  split_ifs at hs with hguard
  have hnot : ¬ s.Owned s.nextConnId_ := fun ho =>
    lt_irrefl _ (h.handover.accepted_of_owned ho).2
  refine ⟨?_, Option.some.inj hs, h.tidy.accept hguard.2 hnot⟩
  have := hguard.1
  rw [hq] at this
  exact this

theorem Refines.newConnection (h : Refines base P s) {sockfd : ℕ}
    (hfree : ∀ t ∈ (Event.newConnection sockfd : Event n T).thread, s.Free t)
    {s₁ : TcpServer n T} (hs : P.act (.newConnection sockfd) = some (.ok s₁)) :
    ∃ s', TcpServer.step s (.newConnection sockfd) = some s' ∧
      Refines base (P.settle (.newConnection sockfd) s₁) s' := by
  obtain ⟨hhandling, hrun, htidy⟩ := h.accept hs
  rw [h.newConnection_eq] at hrun
  obtain ⟨s', q', hfs, rfl, ht⟩ := htidy.run (Or.inr rfl) (newConnection_local sockfd) hrun
  have hact : s.act (.newConnection sockfd) = some (.ok s') :=
    (if_pos hhandling).trans (congrArg some hfs)
  have hstep : TcpServer.step s (.newConnection sockfd) = some s' :=
    TcpServer.step_eq_some_iff.mpr (perform_eq_some_iff.mpr ⟨hfree, hact⟩)
  obtain ⟨hnext, howned⟩ := newConnection_holding hfs
  obtain ⟨q, hq⟩ := h.server
  refine ⟨s', hstep, h.settle (step_handover h.handover hstep)
    (fun d => s.Owned d ∨ d = s.nextConnId_) (fun d => ?_) (by omega) howned ?_⟩
  · rw [hnext]
    exact or_congr Iff.rfl ⟨fun hd => by omega, fun hd => by omega⟩
  · rw [worked, hq, touched_set]
    exact ht

/-! ## Polling -/

omit [DecidableEq T] [Fintype T] in
/-- An entry of a list is that of a connection which is owned and in this loop. -/
theorem Refines.listed (h : Refines base P s) {ℓ : LoopId n} {k : ℕ} {ev : EpollEvent}
    (he : P.interest ℓ k = some ev) : s.Owned ev.ptr ∧ (s.conns ev.ptr).loop_ = ℓ ∧
      (s.conns ev.ptr).tcp.fd = k ∧ (s.conns ev.ptr).tcp.poller k = some ev := by
  obtain ⟨c, hc, rfl, rfl⟩ := h.tidy.listed ℓ k (by rw [he]; simp)
  rw [h.tidy.entry c hc] at he
  obtain ⟨-, hself, -, hpoints⟩ := h.tidy.fit c
  obtain rfl : ev.ptr = c := (hpoints ev he).trans hself
  exact ⟨hc, rfl, rfl, he⟩

omit [DecidableEq T] [Fintype T] in
/-- The channels that are reported have the descriptors that are. -/
theorem Refines.channels (h : Refines base P s) {ℓ : LoopId n} {reports : List (ℕ × Mask)}
    (hr : ∀ r ∈ reports, P.Reported ℓ r.1 r.2) :
    ((P.channels ℓ reports).map (·.1)).map (fun c => (s.conns c).tcp.fd) = reports.map (·.1) := by
  induction reports with
  | nil => rfl
  | cons r reports ih =>
    obtain ⟨ev, he, -⟩ := hr r List.mem_cons_self
    have hcons : P.channels ℓ (r :: reports) = (ev.ptr, r.2) :: P.channels ℓ reports :=
      List.filterMap_cons_some (by rw [he]; rfl)
    rw [hcons, List.map_cons, List.map_cons, List.map_cons, ih fun r' hr' =>
      hr r' (List.mem_cons_of_mem r hr'), (h.listed he).2.2.1]

theorem Refines.poll (h : Refines base P s) {ℓ : LoopId n} {woken : Bool}
    {reports : List (ℕ × Mask)}
    (hfree : ∀ t ∈ (Event.poll ℓ woken reports : Event n T).thread, s.Free t)
    {s₁ : TcpServer n T} (hs : P.act (.poll ℓ woken reports) = some (.ok s₁)) :
    ∃ s', TcpServer.step s (.poll ℓ woken (P.channels ℓ reports)) = some s' ∧
      Refines base (P.settle (.poll ℓ woken reports) s₁) s' := by
  obtain ⟨q, hq⟩ := h.server
  rw [act] at hs
  split_ifs at hs with hguard
  obtain ⟨hr, hnodup⟩ := hguard
  obtain ⟨s₂, hs₂, hs⟩ := Option.map_eq_some_iff.mp hs
  obtain rfl := Except.ok.inj hs
  rw [hq] at hs₂
  obtain ⟨l, hl, rfl⟩ := turn_eq_some_iff.mp hs₂
  have hready : ∀ p ∈ P.channels ℓ reports, s.Ready ℓ p.1 p.2 := by
    intro p hp
    obtain ⟨r, hrm, hrp⟩ := List.mem_filterMap.mp hp
    obtain ⟨ev, he, hmask⟩ := hr r hrm
    rw [he] at hrp
    obtain rfl := Option.some.inj hrp
    obtain ⟨hc, hloop, hfd, hp⟩ := h.listed he
    refine ⟨hc, hloop, ev, ?_, hmask⟩
    show (s.conns ev.ptr).tcp.poller (s.conns ev.ptr).tcp.fd = some ev
    rw [hfd]
    exact hp
  have hnodup' : ((P.channels ℓ reports).map (·.1)).Nodup := by
    rw [← h.channels hr] at hnodup
    exact hnodup.of_map _
  have hact : s.act (.poll ℓ woken (P.channels ℓ reports)) = some (.ok { s.setLoop ℓ l with
      active := Function.update s.active ℓ
        ((P.channels ℓ reports).map fun p => ⟨p.1, Channel.callbacks p.2, false⟩) }) := by
    refine (if_pos ⟨hready, hnodup'⟩).trans ?_
    rw [turn, show (s.loops ℓ).step (.poll woken) = some l from hl]
    rfl
  have hstep : TcpServer.step s (.poll ℓ woken (P.channels ℓ reports)) = some _ :=
    TcpServer.step_eq_some_iff.mpr (perform_eq_some_iff.mpr ⟨hfree, hact⟩)
  refine ⟨_, hstep, ?_⟩
  exact h.done hstep (by simp) rfl (by simp [touched]) q (h.tidy.rest h.tidy.fit rfl)

/-! ## Steps -/

/-- An event but for what a `poll` reports. -/
def blur : Event n T → Event n T
  | .poll ℓ woken _ => .poll ℓ woken []
  | e => e

/-- The event, with the channels that `fillActiveChannels` finds. -/
def seen (P : Process n T) : Event n T → Event n T
  | .poll ℓ woken reports => .poll ℓ woken (P.channels ℓ reports)
  | e => e

omit [DecidableEq T] [Fintype T] in
theorem seen_of_ne {e : Event n T} (h : ∀ ℓ woken reports, e ≠ .poll ℓ woken reports) :
    P.seen e = e := by
  cases e with
  | poll ℓ woken reports => exact absurd rfl (h ℓ woken reports)
  | _ => rfl

omit [DecidableEq T] [Fintype T] in
theorem blur_seen (P : Process n T) (e : Event n T) : blur (P.seen e) = blur e := by
  cases e <;> rfl

/-- What works on a connection works on one that is owned. -/
theorem Refines.act_cases (h : Refines base P s) {e : Event n T}
    {o : Outcome (TcpServer n T)} (hs : P.act e = some o)
    (hpoll : ∀ ℓ woken reports, e ≠ .poll ℓ woken reports)
    (hnew : ∀ sockfd, e ≠ .newConnection sockfd) :
    P.load.act e = some o ∧ ∀ c, touched s e = some c → s.Owned c := by
  obtain ⟨q, hq⟩ := h.server
  cases e with
  | poll ℓ woken reports => exact absurd rfl (hpoll ℓ woken reports)
  | newConnection sockfd => exact absurd rfl (hnew sockfd)
  | callback ℓ r w =>
    rw [act] at hs
    split_ifs at hs with howned
    rw [hq, touched_set] at howned
    exact ⟨hs, howned⟩
  | run ℓ w =>
    refine ⟨hs, fun c hc => ?_⟩
    obtain ⟨f, hf, rfl⟩ := Option.map_eq_some_iff.mp hc
    have hs' : P.load.act (.run ℓ w) = some o := hs
    rw [h.load, act_run_some (s := TcpServer.view.set s P.lists) hf] at hs'
    split_ifs at hs' with hraw
    exact owned_of_next h.handover hf hraw
  | _ => exact ⟨hs, fun c hc => by cases hc⟩

/-- **One step.** -/
theorem step_refines (h : Refines base P s) {e : Event n T} (hs : step P e = some P') :
    ∃ s', TcpServer.step s (P.seen e) = some s' ∧ Refines base P' s' := by
  obtain ⟨s₁, hs₁, rfl⟩ := Option.map_eq_some_iff.mp hs
  obtain ⟨o, ho, hs₁⟩ := Option.bind_eq_some_iff.mp hs₁
  obtain rfl := toOption_eq_some_iff.mp hs₁
  rw [perform] at ho
  split_ifs at ho with hfree
  obtain ⟨q, hq⟩ := h.server
  rw [hq] at hfree
  by_cases hpoll : ∃ ℓ woken reports, e = .poll ℓ woken reports
  · obtain ⟨ℓ, woken, reports, rfl⟩ := hpoll
    exact h.poll hfree ho
  · have hpoll : ∀ ℓ woken reports, e ≠ .poll ℓ woken reports :=
      fun ℓ woken reports he => hpoll ⟨ℓ, woken, reports, he⟩
    rw [seen_of_ne hpoll]
    by_cases hnew : ∃ sockfd, e = .newConnection sockfd
    · obtain ⟨sockfd, rfl⟩ := hnew
      exact h.newConnection hfree ho
    · have hnew : ∀ sockfd, e ≠ .newConnection sockfd := fun sockfd he => hnew ⟨sockfd, he⟩
      obtain ⟨hact, howned⟩ := h.act_cases ho hpoll hnew
      cases ht : touched s e with
      | none => exact h.aside ht hpoll hfree hact
      | some c => exact h.working ht hnew (howned c ht) hfree hact

/-! ## Runs -/

omit [DecidableEq T] [Fintype T] in
theorem refines_new (name_ : String) (cb : Bool) (hbase : base.Nodup) :
    Refines base (new n T name_ cb base) (TcpServer.new n T name_ cb) := by
  have hnone : ∀ c, ¬ (TcpServer.new n T name_ cb).Owned c := by
    intro c hc
    obtain ⟨h1, h2⟩ := (handover_new name_ cb).accepted_of_owned hc
    exact absurd (h1.trans_lt h2) (lt_irrefl 1)
  refine ⟨⟨_, (TcpServer.view.set_get _).symm⟩, handover_new name_ cb,
    ⟨fun c => ⟨rfl, rfl, rfl, nofun⟩, ?_, ?_, hbase, fun k => ?_, ?_, ?_⟩⟩
  · exact fun c _ hc => absurd hc (hnone c)
  · exact fun c hc => absurd hc (hnone c)
  · exact ⟨Or.inl, fun h => h.elim id fun ⟨c, hc, _⟩ => absurd hc (hnone c)⟩
  · exact fun c hc => absurd hc (hnone c)
  · exact fun _ _ h => absurd rfl h

/-- The descriptors and the lists of the process, in one state. -/
structure Descriptors (base : List ℕ) (P : Process n T) : Prop where
  /-- no descriptor is open twice, so `accept` reuses none that is in use -/
  nodup : P.opened.Nodup
  /-- those of the connections that somebody holds are open, and no others but `base` -/
  opened : ∀ k, k ∈ P.opened ↔
    k ∈ base ∨ ∃ c, P.server.Owned c ∧ (P.server.conns c).tcp.fd = k
  distinct : ∀ c d, P.server.Owned c → P.server.Owned d →
    (P.server.conns c).tcp.fd = (P.server.conns d).tcp.fd → c = d
  fresh : ∀ c, P.server.Owned c → (P.server.conns c).tcp.fd ∉ base
  /-- `data.ptr` points to a connection that is there, has the descriptor and is in the loop -/
  listed : ∀ ℓ k ev, P.interest ℓ k = some ev → P.server.Owned ev.ptr ∧
    (P.server.conns ev.ptr).loop_ = ℓ ∧ (P.server.conns ev.ptr).tcp.fd = k

omit [DecidableEq T] [Fintype T] in
theorem Refines.described (h : Refines base P s) : P.Descriptors base := by
  obtain ⟨q, hq⟩ := h.server
  have howned : ∀ c, P.server.Owned c ↔ s.Owned c := fun c => by rw [hq]; rfl
  have hfd : ∀ c, (P.server.conns c).tcp.fd = (s.conns c).tcp.fd := fun c => by rw [hq]; rfl
  have hloop : ∀ c, (P.server.conns c).loop_ = (s.conns c).loop_ := fun c => by rw [hq]; rfl
  refine ⟨h.tidy.nodup, ?_, ?_, ?_, fun ℓ k ev he => ?_⟩
  · simp only [howned, hfd]
    exact h.tidy.opened
  · simp only [howned, hfd]
    exact h.tidy.distinct
  · simp only [howned, hfd]
    exact h.tidy.fresh
  · obtain ⟨hc, hl, hk, -⟩ := h.listed he
    exact ⟨(howned _).mpr hc, (hloop _).trans hl, (hfd _).trans hk⟩

/-- **Descriptors.** Whatever happens, with any number of loops, connections and threads, no two
connections that are there have one descriptor, the open descriptors are theirs, and what
`epoll_wait` reports points to the connection that has the descriptor. The process does what the
server with a list for each connection does. -/
theorem descriptors {name_ : String} {cb : Bool} (hbase : base.Nodup) {es : List (Event n T)}
    (hr : Run step (new n T name_ cb base) es P) : P.Descriptors base ∧
      ∃ es' s q, es'.map blur = es.map blur ∧
        Run TcpServer.step (TcpServer.new n T name_ cb) es' s ∧
        P.server = TcpServer.view.set s q ∧ ∀ c, s.Owned c →
          P.interest (s.conns c).loop_ (s.conns c).tcp.fd =
            (s.conns c).tcp.poller (s.conns c).tcp.fd := by
  have h := hr.history (P := fun es P => ∃ es' s, es'.map blur = es.map blur ∧
      Run TcpServer.step (TcpServer.new n T name_ cb) es' s ∧ Refines base P s) ?_
    ⟨[], _, rfl, Run.nil _, refines_new name_ cb hbase⟩
  · obtain ⟨es', s, hes, hs, h⟩ := h
    obtain ⟨q, hq⟩ := h.server
    exact ⟨h.described, es', s, q, hes, hs, hq, h.tidy.entry⟩
  · rintro es P e P' ⟨es', s, hes, hs, h⟩ hP'
    obtain ⟨s', hs', h'⟩ := step_refines h hP'
    refine ⟨es' ++ [P.seen e], s', ?_, run_snoc_iff.mpr ⟨s, hs, hs'⟩, h'⟩
    rw [List.map_append, List.map_append, hes, List.map_singleton, List.map_singleton, blur_seen]

/-- A connection is accepted, closed by its peer and destroyed; then `accept` returns its descriptor
again. -/
def reused : List (Event 1 Unit) :=
  [.loop none, .test none, .poll none false [], .newConnection 5, .wakeup (.inl none) ioLoop,
    .loop ioLoop, .test ioLoop, .poll ioLoop true [], .wakeupRead ioLoop, .swap ioLoop,
    .run ioLoop .wouldBlock, .finish ioLoop, .test ioLoop,
    .poll ioLoop false [(5, EPOLLIN)], .callback ioLoop (.received []) .wouldBlock,
    .wakeup (.inl ioLoop) none, .handled ioLoop, .swap ioLoop, .finish ioLoop, .swap none,
    .run none .wouldBlock, .wakeup (.inl none) ioLoop, .finish none, .test ioLoop,
    .poll ioLoop true [], .wakeupRead ioLoop, .swap ioLoop, .run ioLoop .wouldBlock,
    .finish ioLoop, .test none, .poll none true [], .wakeupRead none, .newConnection 5]

theorem reused_descriptors : ∃ P, Run step (new 1 Unit "server" false [0, 1, 2, 3, 4]) reused P ∧
    P.opened = [5, 0, 1, 2, 3, 4] ∧ P.Descriptors [0, 1, 2, 3, 4] := by
  have h : (reused.foldlM step (new 1 Unit "server" false [0, 1, 2, 3, 4])).map (·.opened) =
      some [5, 0, 1, 2, 3, 4] := by decide +kernel
  obtain ⟨P, hP, hq⟩ := Option.map_eq_some_iff.mp h
  exact ⟨P, hP, hq, (descriptors (by decide) hP).1⟩

end Process
end HighServer
