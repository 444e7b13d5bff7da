import Mathlib
import HighServer.Net.TcpServer

/-!
# Functors with a raw `this`

`send` and `shutdown` test `state_` in the caller's thread and queue a functor that holds no
`shared_ptr`. Behind the `connectDestroyed` of its connection nothing keeps the connection alive.

* `Order`: where these functors stand in the queue of the connection's loop, before and behind
  `connectDestroyed`;
* `Handover`: the map, the names and the order; `step_handover`: every step keeps it;
* `live_iff_of_next`: a functor starts on a live connection exactly when it was queued before
  `connectDestroyed`;
* **`functors_live_iff`**: the same over runs; `late_send` is a run with a late one.
-/

namespace HighServer

/-- The connection of a functor. -/
def ConnFunctor.conn : ConnFunctor → ℕ
  | .connectEstablished c => c
  | .removeConnectionInLoop c => c
  | .connectDestroyed c => c
  | .writeComplete c => c
  | .sendInLoop c _ _ => c
  | .shutdownInLoop c _ => c

theorem ConnFunctor.conn_of_holds {f : ConnFunctor} {c : ℕ} (h : f.holds c = true) :
    f.conn = c := by
  cases f <;> simp_all [holds, conn]

theorem ConnFunctor.conn_of_raw {f : ConnFunctor} {c : ℕ} {late : Bool}
    (h : f.raw = some (c, late)) : f.conn = c := by
  cases f <;> simp_all [raw, conn]

namespace TcpServer

open Runs

/-! ## The order of the functors of one connection -/

/-- What stands before `connectDestroyed`. -/
def Ahead (c : ℕ) (f : ConnFunctor) : Prop := f ≠ .connectDestroyed c ∧ f.raw ≠ some (c, true)

/-- What stands behind it. -/
def Behind (c : ℕ) (f : ConnFunctor) : Prop := f ≠ .connectDestroyed c ∧ f.raw ≠ some (c, false)

variable {n : ℕ} {T : Type} {c : ℕ} {k k' : Conn n} {q : List ConnFunctor} {f : ConnFunctor}

/-- The queue of the connection's loop: `connectDestroyed` not queued yet, queued, or called. -/
inductive Order (c : ℕ) (k : Conn n) (q : List ConnFunctor) : Prop
  | before (removed : k.removed = 0) (destroyed : k.destroyed = 0) (all : ∀ f ∈ q, Ahead c f)
  | queued (removed : k.removed = 1) (destroyed : k.destroyed = 0) (a b : List ConnFunctor)
      (eq : q = a ++ .connectDestroyed c :: b) (ahead : ∀ f ∈ a, Ahead c f)
      (behind : ∀ f ∈ b, Behind c f)
  | after (removed : k.removed = 1) (destroyed : k.destroyed = 1) (all : ∀ f ∈ q, Behind c f)

theorem Order.of_eq (h : Order c k q) (hr : k'.removed = k.removed)
    (hd : k'.destroyed = k.destroyed) : Order c k' q := by
  cases h with
  | before h1 h2 h3 => exact .before (hr.trans h1) (hd.trans h2) h3
  | queued h1 h2 a b h3 h4 h5 => exact .queued (hr.trans h1) (hd.trans h2) a b h3 h4 h5
  | after h1 h2 h3 => exact .after (hr.trans h1) (hd.trans h2) h3

/-- A functor other than `connectDestroyed` goes to the end, late if it has a raw `this`. -/
theorem Order.push (h : Order c k q) (hf : f ≠ .connectDestroyed c)
    (hlate : ∀ late, f.raw = some (c, late) → late = decide (0 < k.removed)) :
    Order c k (q ++ [f]) := by
  have snoc : ∀ {P : ConnFunctor → Prop} {l : List ConnFunctor}, (∀ g ∈ l, P g) → P f →
      ∀ g ∈ l ++ [f], P g := by
    intro P l hl hp g hg
    rcases List.mem_append.mp hg with hg | hg
    · exact hl g hg
    · exact List.mem_singleton.mp hg ▸ hp
  cases h with
  | before h1 h2 h3 =>
    refine .before h1 h2 (snoc h3 ⟨hf, fun hr => ?_⟩)
    have := hlate true hr
    simp [h1] at this
  | queued h1 h2 a b h3 h4 h5 =>
    refine .queued h1 h2 a (b ++ [f]) (by rw [h3]; simp) h4 (snoc h5 ⟨hf, fun hr => ?_⟩)
    have := hlate false hr
    simp [h1] at this
  | after h1 h2 h3 =>
    refine .after h1 h2 (snoc h3 ⟨hf, fun hr => ?_⟩)
    have := hlate false hr
    simp [h1] at this

/-- `connectDestroyed` is queued by `removeConnectionInLoop`. -/
theorem Order.remove (h : Order c k q) (hr : k.removed = 0) (hr' : k'.removed = 1)
    (hd' : k'.destroyed = k.destroyed) : Order c k' (q ++ [.connectDestroyed c]) := by
  cases h with
  | before h1 h2 h3 => exact .queued hr' (hd'.trans h2) q [] rfl h3 (by simp)
  | queued h1 => omega
  | after h1 => omega

/-- Another functor is called. -/
theorem Order.pop (h : Order c k (f :: q)) (hf : f ≠ .connectDestroyed c) : Order c k q := by
  cases h with
  | before h1 h2 h3 => exact .before h1 h2 fun g hg => h3 g (List.mem_cons_of_mem f hg)
  | queued h1 h2 a b h3 h4 h5 =>
    cases a with
    | nil => exact absurd (List.cons.inj h3).1 hf
    | cons x a =>
      exact .queued h1 h2 a b (List.cons.inj h3).2 (fun g hg => h4 g (List.mem_cons_of_mem x hg)) h5
  | after h1 h2 h3 => exact .after h1 h2 fun g hg => h3 g (List.mem_cons_of_mem f hg)

/-- `connectDestroyed` is called. -/
theorem Order.destroy (h : Order c k (.connectDestroyed c :: q)) (hr : k'.removed = k.removed)
    (hd : k'.destroyed = k.destroyed + 1) : Order c k' q := by
  cases h with
  | before h1 h2 h3 => exact absurd rfl (h3 _ List.mem_cons_self).1
  | queued h1 h2 a b h3 h4 h5 =>
    cases a with
    | nil =>
      rw [(List.cons.inj h3).2]
      exact .after (hr.trans h1) (by omega) h5
    | cons x a =>
      have hx := (h4 x List.mem_cons_self).1
      exact absurd (List.cons.inj h3).1.symm hx
  | after h1 h2 h3 => exact absurd rfl (h3 _ List.mem_cons_self).1

/-- An early functor comes before `connectDestroyed`. -/
theorem Order.early (h : Order c k (f :: q)) (hf : f.raw = some (c, false)) :
    k.destroyed = 0 ∧ (k.removed = 0 ∨ .connectDestroyed c ∈ q) := by
  cases h with
  | before h1 h2 => exact ⟨h2, Or.inl h1⟩
  | queued h1 h2 a b h3 h4 h5 =>
    refine ⟨h2, Or.inr ?_⟩
    cases a with
    | nil =>
      rw [(List.cons.inj h3).1] at hf
      cases hf
    | cons x a =>
      rw [(List.cons.inj h3).2]
      simp
  | after h1 h2 h3 => exact absurd hf (h3 f List.mem_cons_self).2

/-- A late one comes behind it. -/
theorem Order.late (h : Order c k (f :: q)) (hf : f.raw = some (c, true)) : k.destroyed = 1 := by
  cases h with
  | before h1 h2 h3 => exact absurd hf (h3 f List.mem_cons_self).2
  | queued h1 h2 a b h3 h4 h5 =>
    cases a with
    | nil =>
      rw [(List.cons.inj h3).1] at hf
      cases hf
    | cons x a =>
      rw [(List.cons.inj h3).1] at hf
      exact absurd hf (h4 x List.mem_cons_self).2
  | after h1 h2 => exact h2

/-! ## The server -/

/-- `connectDestroyed`, or a functor with a raw `this`. -/
def Bound (c : ℕ) (f : ConnFunctor) : Prop :=
  f = .connectDestroyed c ∨ ∃ late, f.raw = some (c, late)

theorem conn_of_bound (h : Bound c f) : f.conn = c := by
  rcases h with rfl | ⟨late, h⟩
  · rfl
  · exact ConnFunctor.conn_of_raw h

/-- The map, the names, and the functors of each connection. -/
structure Handover (s : TcpServer n T) : Prop where
  next : 1 ≤ s.nextConnId_
  map : ∀ p, p ∈ s.connections_ ↔
    s.Accepted p.2 ∧ (s.conns p.2).removed = 0 ∧ p.1 = s.connName p.2
  names : (s.connections_.map (·.1)).Nodup
  name : ∀ c, s.Accepted c → (s.conns c).name_ = s.connName c
  functors : ∀ ℓ, ∀ f ∈ (s.loops ℓ).pendingFunctors_ ++ s.functions ℓ, s.Accepted f.conn
  batch : ∀ ℓ, ∀ f ∈ (s.loops ℓ).restOfBatch, f ∈ s.functions ℓ
  apps : ∀ t c, (s.apps t).conn = some c → s.Accepted c
  active : ∀ ℓ, ∀ d ∈ s.active ℓ, s.Accepted d.conn
  home : ∀ ℓ, ∀ f ∈ s.queue ℓ, ∀ c, Bound c f → (s.conns c).loop_ = ℓ
  order : ∀ c, Order c (s.conns c) (s.queue (s.conns c).loop_)

variable {s s' : TcpServer n T} {ℓ : LoopId n}

theorem handover_new (name_ : String) (cb : Bool) : (new n T name_ cb).Handover where
  next := le_rfl
  map p := by
    simp only [new, List.not_mem_nil, false_iff, Accepted]
    omega
  names := List.nodup_nil
  name c hc := by
    obtain ⟨h1, h2⟩ := hc
    exact absurd (h1.trans_lt h2) (lt_irrefl 1)
  functors ℓ f hf := by simp [new, EventLoop.new] at hf
  batch ℓ f hf := by simp [new, EventLoop.new, EventLoop.restOfBatch] at hf
  apps t c h := by simp [new, App.conn] at h
  active ℓ d hd := by simp [new] at hd
  home ℓ f hf := by simp [new, EventLoop.new, queue, EventLoop.uncalled] at hf
  order c := .before rfl rfl fun f hf => by
    simp [new, EventLoop.new, queue, EventLoop.uncalled] at hf

theorem connName_injective (s : TcpServer n T) : Function.Injective s.connName := by
  intro c d h
  have h' := (String.append_right_inj _).mp ((String.append_right_inj _).mp h)
  exact Nat.repr_inj.mp h'

theorem Handover.mem_held (h : s.Handover) (hf : f ∈ s.queue ℓ) :
    f ∈ (s.loops ℓ).pendingFunctors_ ++ s.functions ℓ := by
  rw [queue_eq] at hf
  rcases List.mem_append.mp hf with hf | hf
  · exact List.mem_append_right _ (h.batch ℓ f hf)
  · exact List.mem_append_left _ hf

theorem Handover.accepted_of_mem (h : s.Handover) (hf : f ∈ s.queue ℓ) : s.Accepted f.conn :=
  h.functors ℓ f (h.mem_held hf)

theorem Handover.accepted_of_owned (h : s.Handover) (ho : s.Owned c) : s.Accepted c := by
  rcases ho with hm | ⟨ℓ, f, hf, hc⟩ | ⟨t, ht⟩
  · obtain ⟨p, hp, rfl⟩ := List.mem_map.mp hm
    exact ((h.map p).mp hp).1
  · exact ConnFunctor.conn_of_holds hc ▸ h.functors ℓ f hf
  · exact h.apps t c ht

/-- The connection is in the map until `removeConnectionInLoop` has run. -/
theorem Handover.mem_map_iff (h : s.Handover) :
    c ∈ s.connections_.map (·.2) ↔ s.Accepted c ∧ (s.conns c).removed = 0 := by
  constructor
  · intro hm
    obtain ⟨p, hp, rfl⟩ := List.mem_map.mp hm
    obtain ⟨h1, h2, -⟩ := (h.map p).mp hp
    exact ⟨h1, h2⟩
  · rintro ⟨h1, h2⟩
    exact List.mem_map.mpr ⟨(s.connName c, c), (h.map _).mpr ⟨h1, h2, rfl⟩, rfl⟩

/-- Before `removeConnectionInLoop` has run, `erase` finds the connection, and only this. -/
theorem Handover.erase_eq_one_iff (h : s.Handover) (hc : s.Accepted c) :
    (s.erase (s.conns c).name_).2 = 1 ↔ (s.conns c).removed = 0 := by
  have hmem : ∀ p ∈ s.connections_.filter (·.1 = (s.conns c).name_), p = (s.connName c, c) ∧
      (s.conns c).removed = 0 := by
    intro p hp
    obtain ⟨hp, heq⟩ := List.mem_filter.mp hp
    rw [decide_eq_true_iff, h.name c hc] at heq
    obtain ⟨-, hr, hname⟩ := (h.map p).mp hp
    have hpc : p.2 = c := s.connName_injective (hname.symm.trans heq)
    exact ⟨Prod.ext heq hpc, hpc ▸ hr⟩
  rw [TcpServer.erase]
  constructor
  · intro he
    obtain ⟨p, hp⟩ := List.exists_mem_of_length_pos (Nat.lt_of_lt_of_eq Nat.zero_lt_one he.symm)
    exact (hmem p hp).2
  · intro hr
    have hin : (s.connName c, c) ∈ s.connections_.filter (·.1 = (s.conns c).name_) := by
      rw [List.mem_filter, h.map, h.name c hc]
      exact ⟨⟨hc, hr, rfl⟩, by simp⟩
    have hnodup : (s.connections_.filter (·.1 = (s.conns c).name_)).Nodup :=
      (List.Nodup.of_map _ h.names).filter _
    rw [List.eq_replicate_of_mem fun p hp => (hmem p hp).1] at hnodup
    exact le_antisymm (List.nodup_replicate.mp hnodup) (List.length_pos_of_mem hin)

/-- **Before `connectDestroyed` has run** the connection is owned. -/
theorem Handover.owned (h : s.Handover) (hc : s.Accepted c)
    (hq : (s.conns c).removed = 0 ∨ .connectDestroyed c ∈ s.queue (s.conns c).loop_) :
    s.Owned c := by
  rcases hq with hr | hq
  · exact Or.inl (h.mem_map_iff.mpr ⟨hc, hr⟩)
  · exact Or.inr (Or.inl ⟨_, _, h.mem_held hq, by simp [ConnFunctor.holds]⟩)

/-! ## Steps that leave the connections and the queues alone -/

/-- What the connection is for the server. -/
structure SameConn (k k' : Conn n) : Prop where
  name_ : k'.name_ = k.name_
  loop_ : k'.loop_ = k.loop_
  removed : k'.removed = k.removed
  destroyed : k'.destroyed = k.destroyed

theorem SameConn.refl (k : Conn n) : SameConn k k := ⟨rfl, rfl, rfl, rfl⟩

structure Calm (s s' : TcpServer n T) : Prop where
  name_ : s'.name_ = s.name_
  nextConnId_ : s'.nextConnId_ = s.nextConnId_
  connections_ : s'.connections_ = s.connections_
  conns : ∀ c, SameConn (s.conns c) (s'.conns c)
  queue : ∀ ℓ, s'.queue ℓ = s.queue ℓ
  functors : ∀ ℓ, ∀ f ∈ (s'.loops ℓ).pendingFunctors_ ++ s'.functions ℓ,
    f ∈ (s.loops ℓ).pendingFunctors_ ++ s.functions ℓ
  batch : ∀ ℓ, ∀ f ∈ (s'.loops ℓ).restOfBatch, f ∈ s'.functions ℓ
  apps : ∀ t c, (s'.apps t).conn = some c → s.Accepted c
  active : ∀ ℓ, ∀ d ∈ s'.active ℓ, s.Accepted d.conn

theorem Handover.calm (h : s.Handover) (hc : Calm s s') : s'.Handover := by
  have hacc : ∀ c, s'.Accepted c ↔ s.Accepted c := fun c => by
    rw [Accepted, Accepted, hc.nextConnId_]
  have hname : ∀ c, s'.connName c = s.connName c := fun c => by
    rw [connName, connName, hc.name_]
  refine ⟨hc.nextConnId_ ▸ h.next, fun p => ?_, hc.connections_ ▸ h.names, fun c hacc' => ?_,
    fun ℓ f hf => ?_, hc.batch, fun t c ht => ?_, fun ℓ d hd => ?_, fun ℓ f hf c hb => ?_,
    fun c => ?_⟩
  · rw [hc.connections_, h.map, hacc, (hc.conns _).removed, hname]
  · rw [(hc.conns c).name_, hname]
    exact h.name c ((hacc c).mp hacc')
  · exact (hacc _).mpr (h.functors ℓ f (hc.functors ℓ f hf))
  · exact (hacc c).mpr (hc.apps t c ht)
  · exact (hacc _).mpr (hc.active ℓ d hd)
  · rw [hc.queue] at hf
    rw [(hc.conns c).loop_]
    exact h.home ℓ f hf c hb
  · rw [hc.queue, (hc.conns c).loop_]
    exact (h.order c).of_eq (hc.conns c).removed (hc.conns c).destroyed

theorem setConn_same {k : Conn n} (hk : SameConn (s.conns c) k) (d : ℕ) :
    SameConn (s.conns d) ((s.setConn c k).conns d) := by
  rw [setConn_conns]
  split_ifs with hd
  · subst hd
    exact hk
  · exact .refl _

theorem Handover.setConn (h : s.Handover) {k : Conn n} (hk : SameConn (s.conns c) k) :
    (s.setConn c k).Handover :=
  h.calm ⟨rfl, rfl, rfl, setConn_same hk, fun _ => rfl, fun _ _ => id, h.batch, h.apps, h.active⟩

theorem Handover.setTcp (h : s.Handover) (c : ℕ) (tcp : TcpConnection) :
    (s.setConn c { s.conns c with tcp }).Handover :=
  h.setConn ⟨rfl, rfl, rfl, rfl⟩

theorem Handover.setActive (h : s.Handover) {l : List Dispatch}
    (hl : ∀ d ∈ l, s.Accepted d.conn) :
    Handover { s with active := Function.update s.active ℓ l } := by
  refine h.calm ⟨rfl, rfl, rfl, fun c => .refl _, fun _ => rfl, fun _ _ => id, h.batch, h.apps,
    fun ℓ' d hd => ?_⟩
  dsimp only at hd
  rw [Function.update_apply] at hd
  split_ifs at hd
  · exact hl d hd
  · exact h.active ℓ' d hd

/-! ## Leaving the map -/

theorem takeOut_conns (s : TcpServer n T) (c d : ℕ) : (s.takeOut c).conns d =
    if d = c then { s.conns c with removed := (s.conns c).removed + 1 } else s.conns d :=
  Function.update_apply _ _ _ _

theorem takeOut_loop_ (s : TcpServer n T) (c d : ℕ) :
    ((s.takeOut c).conns d).loop_ = (s.conns d).loop_ := by
  rw [takeOut_conns]
  split_ifs with hd
  · rw [hd]
  · rfl

theorem takeOut_name_ (s : TcpServer n T) (c d : ℕ) :
    ((s.takeOut c).conns d).name_ = (s.conns d).name_ := by
  rw [takeOut_conns]
  split_ifs with hd
  · rw [hd]
  · rfl

/-- One connection has the erased name. -/
theorem Handover.mem_takeOut (h : s.Handover) (hacc : s.Accepted c)
    (hr : (s.conns c).removed = 0) (p : String × ℕ) : p ∈ (s.takeOut c).connections_ ↔
      (s.takeOut c).Accepted p.2 ∧ ((s.takeOut c).conns p.2).removed = 0 ∧
        p.1 = s.connName p.2 := by
  change p ∈ s.connections_.filter (·.1 ≠ (s.conns c).name_) ↔
    s.Accepted p.2 ∧ ((s.takeOut c).conns p.2).removed = 0 ∧ p.1 = s.connName p.2
  rw [List.mem_filter, h.map, h.name c hacc, takeOut_conns, decide_eq_true_iff]
  by_cases hp : p.2 = c
  · rw [if_pos hp, hr, hp]
    exact iff_of_false (fun hp' => hp'.2 hp'.1.2.2) (by simp)
  · rw [if_neg hp]
    refine ⟨And.left, fun hp' => ⟨hp', fun heq => hp ?_⟩⟩
    exact s.connName_injective (hp'.2.2.symm.trans heq)

/-! ## Functors that are queued -/

section

variable [DecidableEq T]

/-- A functor is queued. With a raw `this` it goes to the loop of its connection. -/
theorem Handover.queueInLoop (h : s.Handover) (t : LoopId n ⊕ T) (hacc : s.Accepted f.conn)
    (hf : ∀ c, f ≠ .connectDestroyed c)
    (hraw : ∀ c late, f.raw = some (c, late) →
      (s.conns c).loop_ = ℓ ∧ late = decide (0 < (s.conns c).removed)) :
    (s.queueInLoop t ℓ f).Handover := by
  refine ⟨h.next, h.map, h.names, h.name, fun ℓ' g hg => ?_, fun ℓ' g hg => ?_, h.apps, h.active,
    fun ℓ' g hg c hb => ?_, fun c => ?_⟩
  · rcases mem_held_queueInLoop hg with hg | rfl
    · exact h.functors ℓ' g hg
    · exact hacc
  · rw [(queueInLoop_pending s t ℓ ℓ' f).1] at hg
    exact h.batch ℓ' g hg
  · rcases mem_queue_queueInLoop.mp hg with hg | ⟨rfl, rfl⟩
    · exact h.home ℓ' g hg c hb
    · rcases hb with hb | ⟨late, hb⟩
      · exact absurd hb (hf c)
      · exact (hraw c late hb).1
  · change Order c (s.conns c) ((s.queueInLoop t ℓ f).queue (s.conns c).loop_)
    rw [queue_queueInLoop]
    split_ifs
    · exact (h.order c).push (hf c) fun late hl => (hraw c late hl).2
    · rw [List.append_nil]
      exact h.order c

/-- `removeConnectionInLoop` queues `connectDestroyed`. -/
theorem Handover.takeOut (h : s.Handover) (t : LoopId n ⊕ T) (hacc : s.Accepted c)
    (hr : (s.conns c).removed = 0) :
    ((s.takeOut c).queueInLoop t (s.conns c).loop_ (.connectDestroyed c)).Handover := by
  have hqueue := queue_queueInLoop (s.takeOut c) t (s.conns c).loop_
  refine ⟨h.next, h.mem_takeOut hacc hr, h.names.sublist (List.filter_sublist.map _),
    fun d hd => (s.takeOut_name_ c d).trans (h.name d hd), fun ℓ' g hg => ?_, fun ℓ' g hg => ?_,
    h.apps, h.active, fun ℓ' g hg d hb => ?_, fun d => ?_⟩
  · rcases mem_held_queueInLoop hg with hg | rfl
    · exact h.functors ℓ' g hg
    · exact hacc
  · rw [(queueInLoop_pending (s.takeOut c) t _ ℓ' _).1] at hg
    exact h.batch ℓ' g hg
  · change ((s.takeOut c).conns d).loop_ = ℓ'
    rw [takeOut_loop_]
    rcases mem_queue_queueInLoop.mp hg with hg | ⟨rfl, rfl⟩
    · exact h.home ℓ' g hg d hb
    · rw [← conn_of_bound hb]
      rfl
  · change Order d ((s.takeOut c).conns d)
      (((s.takeOut c).queueInLoop t _ _).queue ((s.takeOut c).conns d).loop_)
    rw [hqueue, takeOut_loop_, takeOut_conns]
    have hold : (s.takeOut c).queue (s.conns d).loop_ = s.queue (s.conns d).loop_ := rfl
    rw [hold]
    by_cases hd : d = c
    · subst hd
      rw [if_pos rfl, if_pos rfl]
      exact (h.order d).remove hr (by rw [hr]) rfl
    · rw [if_neg hd]
      split_ifs
      · refine (h.order d).push (fun heq => hd ?_) fun late hl => ?_
        · exact (ConnFunctor.connectDestroyed.inj heq).symm
        · cases hl
      · rw [List.append_nil]
        exact h.order d

end

/-! ## Accepting -/

/-- The connection that `newConnection` makes. -/
def made (s : TcpServer n T) (sockfd : ℕ) : Conn n where
  name_ := s.connName s.nextConnId_
  loop_ := s.threadPool_.getNextLoop.1
  tcp := TcpConnection.new (fun _ => none) s.nextConnId_ sockfd s.writeCompleteCallback_
  established := 0
  removed := 0
  destroyed := 0

theorem insert_conns (s : TcpServer n T) (sockfd d : ℕ) :
    (s.insert sockfd).conns d = if d = s.nextConnId_ then s.made sockfd else s.conns d :=
  Function.update_apply _ _ _ _

theorem Handover.accepted_insert (h : s.Handover) (sockfd d : ℕ) :
    (s.insert sockfd).Accepted d ↔ s.Accepted d ∨ d = s.nextConnId_ := by
  have := h.next
  simp only [Accepted, TcpServer.insert]
  omega

/-- No connection in the map has the new name. -/
theorem Handover.mem_insert (h : s.Handover) (sockfd : ℕ) (p : String × ℕ) :
    p ∈ (s.insert sockfd).connections_ ↔ (s.insert sockfd).Accepted p.2 ∧
      ((s.insert sockfd).conns p.2).removed = 0 ∧ p.1 = s.connName p.2 := by
  change p ∈ (s.connName s.nextConnId_, s.nextConnId_) ::
      s.connections_.filter (·.1 ≠ s.connName s.nextConnId_) ↔ _
  rw [List.mem_cons, List.mem_filter, h.map, h.accepted_insert, decide_eq_true_iff, insert_conns]
  by_cases hp : p.2 = s.nextConnId_
  · have hnot : ¬ s.Accepted p.2 := fun hp' => hp'.2.ne hp
    rw [if_pos hp]
    constructor
    · rintro (rfl | hp')
      · exact ⟨Or.inr rfl, rfl, rfl⟩
      · exact absurd hp'.1.1 hnot
    · rintro ⟨-, -, hp'⟩
      exact Or.inl (Prod.ext (hp'.trans (by rw [hp])) hp)
  · rw [if_neg hp]
    constructor
    · rintro (rfl | hp')
      · exact absurd rfl hp
      · exact ⟨Or.inl hp'.1.1, hp'.1.2⟩
    · rintro ⟨hp', hrest⟩
      refine Or.inr ⟨⟨hp'.resolve_right hp, hrest⟩, fun heq => hp ?_⟩
      exact s.connName_injective (hrest.2.symm.trans heq)

theorem Handover.nodup_insert (h : s.Handover) (sockfd : ℕ) :
    ((s.insert sockfd).connections_.map (·.1)).Nodup := by
  change ((s.connName s.nextConnId_, s.nextConnId_) ::
      s.connections_.filter (·.1 ≠ s.connName s.nextConnId_)).map (·.1) |>.Nodup
  rw [List.map_cons, List.nodup_cons]
  refine ⟨fun hm => ?_, h.names.sublist (List.filter_sublist.map _)⟩
  obtain ⟨p, hp, heq⟩ := List.mem_map.mp hm
  exact absurd heq (of_decide_eq_true (List.mem_filter.mp hp).2)

/-- A new connection is in no queue. -/
theorem Handover.insert (h : s.Handover) (sockfd : ℕ) : (s.insert sockfd).Handover := by
  have hacc : ∀ {d}, s.Accepted d → (s.insert sockfd).Accepted d :=
    fun hd => (h.accepted_insert sockfd _).mpr (Or.inl hd)
  have hold : ∀ {d}, s.Accepted d → (s.insert sockfd).conns d = s.conns d := fun hd => by
    rw [insert_conns, if_neg hd.2.ne]
  refine ⟨Nat.le_add_left 1 _, h.mem_insert sockfd, h.nodup_insert sockfd, fun d hd => ?_,
    fun ℓ g hg => hacc (h.functors ℓ g hg), h.batch, fun t d hd => hacc (h.apps t d hd),
    fun ℓ d hd => hacc (h.active ℓ d hd), fun ℓ g hg d hb => ?_, fun d => ?_⟩
  · rcases (h.accepted_insert sockfd d).mp hd with hd | rfl
    · rw [hold hd]
      exact h.name d hd
    · rw [insert_conns, if_pos rfl]
      rfl
  · have hd : s.Accepted d := conn_of_bound hb ▸ h.accepted_of_mem hg
    rw [hold hd]
    exact h.home ℓ g hg d hb
  · rw [insert_conns]
    split_ifs with hd
    · subst hd
      refine .before rfl rfl fun g hg => ?_
      have hg' : g.conn ≠ s.nextConnId_ := (h.accepted_of_mem hg).2.ne
      refine ⟨fun heq => hg' (by rw [heq]; rfl), fun heq => hg' (ConnFunctor.conn_of_raw heq)⟩
    · exact h.order d

/-! ## Turns of a loop -/

/-- A loop calls a functor. -/
theorem Order.run (h : Order c k (s.queue k.loop_))
    (hqueue : ∀ ℓ', s.queue ℓ' = (if ℓ' = ℓ then [f] else []) ++ s'.queue ℓ')
    (hhome : f = .connectDestroyed c → k.loop_ = ℓ) (hr : k'.removed = k.removed)
    (hd : k'.destroyed = k.destroyed + if f = .connectDestroyed c then 1 else 0) :
    Order c k' (s'.queue k.loop_) := by
  rw [hqueue] at h
  by_cases hf : f = .connectDestroyed c
  · rw [if_pos (hhome hf), hf] at h
    rw [if_pos hf] at hd
    exact h.destroy hr hd
  · rw [if_neg hf, Nat.add_zero] at hd
    split_ifs at h
    · exact (h.pop hf).of_eq hr hd
    · exact h.of_eq hr hd

section

variable [DecidableEq T] {l : EventLoop (LoopId n ⊕ T) ConnFunctor}

/-- A turn of a loop that calls nothing. -/
theorem Handover.turn (h : s.Handover) {e : EventLoop.Event (LoopId n ⊕ T) ConnFunctor}
    (hl : (s.loops ℓ).step e = some l) (hs : e ≠ .swap) (hr : e ≠ .run) (hq : e.queued = []) :
    (s.setLoop ℓ l).Handover := by
  obtain ⟨hrest, hpend⟩ := EventLoop.step_pending hl hs hr
  rw [hq, List.append_nil] at hpend
  refine h.calm ⟨rfl, rfl, rfl, fun c => .refl _, queue_turn hl hr hq, fun ℓ' f hf => ?_,
    fun ℓ' f hf => ?_, h.apps, h.active⟩
  · rw [setLoop_congr EventLoop.pendingFunctors_ hpend] at hf
    exact hf
  · rw [setLoop_congr EventLoop.restOfBatch hrest] at hf
    exact h.batch ℓ' f hf

/-- A swap moves what is pending. -/
theorem Handover.swap (h : s.Handover) (hl : (s.loops ℓ).step .swap = some l) :
    Handover { s.setLoop ℓ l with
      functions := Function.update s.functions ℓ (s.loops ℓ).pendingFunctors_ } := by
  obtain ⟨-, hrest, hpend⟩ := EventLoop.swap_pending hl
  refine h.calm ⟨rfl, rfl, rfl, fun c => .refl _, queue_turn hl (by simp) rfl, fun ℓ' f hf => ?_,
    fun ℓ' f hf => ?_, h.apps, h.active⟩
  · change f ∈ ((s.setLoop ℓ l).loops ℓ').pendingFunctors_ ++
      Function.update s.functions ℓ _ ℓ' at hf
    rw [setLoop_loops, Function.update_apply] at hf
    split_ifs at hf with hℓ
    · subst hℓ
      rw [hpend, List.nil_append] at hf
      exact List.mem_append_left _ hf
    · exact hf
  · change f ∈ ((s.setLoop ℓ l).loops ℓ').restOfBatch at hf
    change f ∈ Function.update s.functions ℓ _ ℓ'
    rw [setLoop_loops] at hf
    rw [Function.update_apply]
    split_ifs at hf ⊢ with hℓ
    · subst hℓ
      exact hrest ▸ hf
    · exact h.batch ℓ' f hf

/-- `doPendingFunctors` returns, and its vector goes. -/
theorem Handover.finish (h : s.Handover) (hl : (s.loops ℓ).step .finish = some l) :
    Handover { s.setLoop ℓ l with functions := Function.update s.functions ℓ [] } := by
  have hturn := h.turn hl (by simp) (by simp) rfl
  obtain ⟨⟨current, hp⟩, rfl⟩ := EventLoop.step_finish_iff.mp hl
  refine hturn.calm ⟨rfl, rfl, rfl, fun c => .refl _, fun ℓ' => rfl, fun ℓ' f hf => ?_,
    fun ℓ' f hf => ?_, hturn.apps, hturn.active⟩
  · rcases List.mem_append.mp hf with hf | hf
    · exact List.mem_append_left _ hf
    · dsimp only at hf
      rw [Function.update_apply] at hf
      split_ifs at hf with hℓ
      · cases hf
      · exact List.mem_append_right _ hf
  · by_cases hℓ : ℓ' = ℓ
    · subst hℓ
      change f ∈ ((s.setLoop ℓ' _).loops ℓ').restOfBatch at hf
      rw [setLoop_loops, if_pos rfl] at hf
      cases hf
    · change f ∈ Function.update s.functions ℓ [] ℓ'
      rw [Function.update_of_ne hℓ]
      exact hturn.batch ℓ' f hf

/-- A call takes the first functor of the queue, and `connectDestroyed` is counted. -/
theorem Handover.run (h : s.Handover) (hl : (s.loops ℓ).step .run = some l)
    (hf : s.next ℓ = some f) (hk : k.name_ = (s.conns f.conn).name_)
    (hloop : k.loop_ = (s.conns f.conn).loop_) (hrem : k.removed = (s.conns f.conn).removed)
    (hdes : k.destroyed = (s.conns f.conn).destroyed +
      if f = .connectDestroyed f.conn then 1 else 0) :
    ((s.setLoop ℓ l).setConn f.conn k).Handover := by
  obtain ⟨hrest, hpend⟩ := restOfBatch_run hl hf
  have hqueue := queue_run hl hf
  have hconns := setConn_conns (s.setLoop ℓ l) f.conn
  refine ⟨h.next, fun p => ?_, h.names, fun c hc => ?_, fun ℓ' g hg => ?_, fun ℓ' g hg => ?_,
    h.apps, h.active, fun ℓ' g hg c hb => ?_, fun c => ?_⟩
  · refine (h.map p).trans (and_congr Iff.rfl (and_congr ?_ Iff.rfl))
    rw [hconns]
    split_ifs with hp
    · rw [hp, hrem]
    · rfl
  · rw [hconns]
    split_ifs with hcf
    · rw [hk, ← hcf]
      exact h.name c hc
    · exact h.name c hc
  · change g ∈ ((s.setLoop ℓ l).loops ℓ').pendingFunctors_ ++ s.functions ℓ' at hg
    rw [setLoop_congr EventLoop.pendingFunctors_ hpend] at hg
    exact h.functors ℓ' g hg
  · change g ∈ ((s.setLoop ℓ l).loops ℓ').restOfBatch at hg
    refine h.batch ℓ' g ?_
    rw [setLoop_loops] at hg
    split_ifs at hg with hℓ
    · subst hℓ
      rw [hrest]
      exact List.mem_cons_of_mem f hg
    · exact hg
  · have hold := h.home ℓ' g (by rw [hqueue]; exact List.mem_append_right _ hg) c hb
    rw [hconns]
    split_ifs with hcf
    · rw [hloop, ← hcf]
      exact hold
    · exact hold
  · rw [hconns]
    by_cases hcf : c = f.conn
    · subst hcf
      rw [if_pos rfl, hloop]
      exact (h.order f.conn).run hqueue
        (fun heq => h.home ℓ f (by rw [hqueue]; simp) _ (Or.inl heq)) hrem hdes
    · rw [if_neg hcf]
      have hne : f ≠ .connectDestroyed c := fun heq => hcf (by rw [heq]; rfl)
      exact (h.order c).run hqueue (fun heq => absurd heq hne) rfl
        (by rw [if_neg hne]; rfl)

/-! ## Handlers and functors -/

theorem removeConnectionInLoop_ok (h : s.removeConnectionInLoop ℓ c = .ok s') :
    (s.erase (s.conns c).name_).2 = 1 ∧
      s' = (s.takeOut c).queueInLoop (.inl ℓ) (s.conns c).loop_ (.connectDestroyed c) := by
  obtain ⟨-, -, h⟩ := bind_eq_ok_iff.mp h
  by_cases he : (s.erase (s.conns c).name_).2 = 1
  · rw [ensure_bind_of he] at h
    exact ⟨he, (Except.ok.inj h).symm⟩
  · rw [ensure_bind_of_not he] at h
    cases h

/-- A close callback that comes to its end. -/
theorem handleClose_ok (h : s.handleClose ℓ c = .ok s') :
    ∃ tcp, (s.setConn c { s.conns c with tcp }).removeConnection ℓ c = .ok s' := by
  obtain ⟨-, -, h⟩ := bind_eq_ok_iff.mp h
  obtain ⟨-, -, h⟩ := bind_eq_ok_iff.mp h
  obtain ⟨tcp, -, h⟩ := bind_eq_ok_iff.mp h
  exact ⟨_, h⟩

theorem callback_ok {r : ReadResult} {w : WriteResult} {cb : Channel.Callback}
    (h : s.callback ℓ c r w cb = .ok s') :
    ∃ tcp, s' = s.setConn c { s.conns c with tcp } ∨
      (s.setConn c { s.conns c with tcp }).removeConnection ℓ c = .ok s' := by
  cases cb with
  | close =>
    obtain ⟨tcp, h⟩ := handleClose_ok h
    exact ⟨tcp, Or.inr h⟩
  | error =>
    obtain rfl := Except.ok.inj h
    exact ⟨(s.conns c).tcp, Or.inl (setConn_self s c).symm⟩
  | read =>
    obtain ⟨inputBuffer_, -, h⟩ := bind_eq_ok_iff.mp h
    cases r with
    | failed => exact ⟨_, Or.inl (Except.ok.inj h).symm⟩
    | received data =>
      dsimp only at h
      split_ifs at h
      · exact ⟨_, Or.inl (Except.ok.inj h).symm⟩
      · obtain ⟨tcp, h⟩ := handleClose_ok h
        refine ⟨tcp, Or.inr ?_⟩
        rw [setConn_conns, if_pos rfl, TcpServer.setConn, TcpServer.setConn] at h
        dsimp only at h
        rw [Function.update_idem] at h
        exact h
  | write =>
    have h' : s.onTcp c (·.handleWrite w) = .ok s' := h
    obtain ⟨tcp, -, h'⟩ := onTcp_ok h'
    exact ⟨tcp, Or.inl h'⟩

/-- A callback accepts nothing and handles no other channel. -/
theorem callback_frame {r : ReadResult} {w : WriteResult} {cb : Channel.Callback}
    (h : s.callback ℓ c r w cb = .ok s') :
    s'.nextConnId_ = s.nextConnId_ ∧ s'.active = s.active := by
  obtain ⟨tcp, rfl | h⟩ := callback_ok h
  · exact ⟨rfl, rfl⟩
  · rw [TcpServer.removeConnection, runInLoop] at h
    split_ifs at h
    · obtain ⟨-, rfl⟩ := removeConnectionInLoop_ok h
      exact ⟨rfl, rfl⟩
    · obtain rfl := Except.ok.inj h
      exact ⟨rfl, rfl⟩

theorem Handover.removeConnectionInLoop (h : s.Handover) (hacc : s.Accepted c)
    (hs : s.removeConnectionInLoop ℓ c = .ok s') : s'.Handover := by
  obtain ⟨he, rfl⟩ := removeConnectionInLoop_ok hs
  exact h.takeOut _ hacc ((h.erase_eq_one_iff hacc).mp he)

theorem Handover.removeConnection (h : s.Handover) (hacc : s.Accepted c)
    (hs : s.removeConnection ℓ c = .ok s') : s'.Handover := by
  rw [TcpServer.removeConnection, runInLoop] at hs
  split_ifs at hs
  · exact h.removeConnectionInLoop hacc hs
  · obtain rfl := Except.ok.inj hs
    exact h.queueInLoop _ hacc (by simp) (by simp [ConnFunctor.raw])

theorem Handover.callback (h : s.Handover) (hacc : s.Accepted c) {r : ReadResult}
    {w : WriteResult} {cb : Channel.Callback} (hs : s.callback ℓ c r w cb = .ok s') :
    s'.Handover := by
  obtain ⟨tcp, rfl | hs⟩ := callback_ok hs
  · exact h.setTcp c tcp
  · exact (h.setTcp c tcp).removeConnection hacc hs

theorem Handover.newConnection (h : s.Handover) {sockfd : ℕ}
    (hs : s.newConnection sockfd = .ok s') : s'.Handover := by
  have hi := h.insert sockfd
  rw [TcpServer.newConnection, runInLoop] at hs
  split_ifs at hs
  · obtain ⟨-, -, hs⟩ := bind_eq_ok_iff.mp hs
    obtain ⟨tcp, -, hs⟩ := bind_eq_ok_iff.mp hs
    obtain rfl := Except.ok.inj hs
    exact hi.setConn ⟨rfl, rfl, rfl, rfl⟩
  · obtain rfl := Except.ok.inj hs
    exact hi.queueInLoop _ ⟨h.next, Nat.lt_succ_self _⟩ (by simp) (by simp [ConnFunctor.raw])

/-- A functor other than `connectDestroyed` is called. -/
theorem Handover.popped (h : s.Handover) (hl : (s.loops ℓ).step .run = some l)
    (hf : s.next ℓ = some f) (hne : f ≠ .connectDestroyed f.conn) :
    (s.setLoop ℓ l).Handover := by
  have hrun := h.run hl hf (k := s.conns f.conn) rfl rfl rfl (by rw [if_neg hne, Nat.add_zero])
  have hself : (s.setLoop ℓ l).setConn f.conn (s.conns f.conn) = s.setLoop ℓ l := setConn_self _ _
  rwa [hself] at hrun

theorem Handover.call (h : s.Handover) (hl : (s.loops ℓ).step .run = some l)
    (hf : s.next ℓ = some f) {w : WriteResult} (hs : (s.setLoop ℓ l).call ℓ w f = .ok s') :
    s'.Handover := by
  have hmem : f ∈ s.queue ℓ := by rw [queue_run hl hf]; simp
  have hacc : s.Accepted f.conn := h.accepted_of_mem hmem
  cases f with
  | connectEstablished c =>
    obtain ⟨-, -, hs⟩ := bind_eq_ok_iff.mp hs
    obtain ⟨tcp, -, hs⟩ := bind_eq_ok_iff.mp hs
    obtain rfl := Except.ok.inj hs
    exact h.run hl hf rfl rfl rfl rfl
  | removeConnectionInLoop c =>
    exact (h.popped hl hf (by simp)).removeConnectionInLoop hacc hs
  | connectDestroyed c =>
    obtain ⟨-, -, hs⟩ := bind_eq_ok_iff.mp hs
    obtain ⟨tcp, -, hs⟩ := bind_eq_ok_iff.mp hs
    obtain rfl := Except.ok.inj hs
    refine h.run hl hf rfl rfl rfl ?_
    rw [if_pos (by rfl)]
    rfl
  | writeComplete c =>
    obtain rfl := Except.ok.inj hs
    exact h.popped hl hf (by simp)
  | sendInLoop c message late =>
    obtain ⟨-, -, hs⟩ := bind_eq_ok_iff.mp hs
    obtain ⟨s₁, hs₁, hs⟩ := bind_eq_ok_iff.mp hs
    obtain ⟨tcp, -, rfl⟩ := onTcp_ok hs₁
    have h₁ := (h.popped hl hf (by simp)).setTcp c tcp
    split_ifs at hs
    · obtain rfl := Except.ok.inj hs
      exact h₁
    · obtain rfl := Except.ok.inj hs
      exact h₁.queueInLoop _ hacc (by simp) (by simp [ConnFunctor.raw])
  | shutdownInLoop c late =>
    obtain ⟨-, -, hs⟩ := bind_eq_ok_iff.mp hs
    obtain ⟨tcp, -, rfl⟩ := onTcp_ok hs
    exact (h.popped hl hf (by simp)).setTcp c tcp

/-! ## Steps -/

theorem Handover.setApp (h : s.Handover) (t : T) {a : App}
    (ha : ∀ c, a.conn = some c → s.Accepted c) :
    Handover { s with apps := Function.update s.apps t a } := by
  refine h.calm ⟨rfl, rfl, rfl, fun c => .refl _, fun _ => rfl, fun _ _ => id, h.batch,
    fun t' c hc => ?_, h.active⟩
  dsimp only at hc
  rw [Function.update_apply] at hc
  split_ifs at hc
  · exact ha c hc
  · exact h.apps t' c hc

/-- A thread goes on with the pointer that it has. -/
theorem Handover.keepApp (h : s.Handover) (t : T) {a : App} (ha : a.conn = (s.apps t).conn) :
    Handover { s with apps := Function.update s.apps t a } :=
  h.setApp t fun c hc => h.apps t c (ha ▸ hc)

variable [Fintype T]

omit [Fintype T] in
/-- An event that is a turn of a loop, without functors. -/
theorem Handover.of_turn (h : s.Handover) {e : EventLoop.Event (LoopId n ⊕ T) ConnFunctor}
    (hs : (s.turn ℓ e).map (pure : _ → Outcome _) = some (.ok s')) (hswap : e ≠ .swap)
    (hrun : e ≠ .run) (hq : e.queued = []) : s'.Handover := by
  obtain ⟨l, hl, hs⟩ := map_turn_eq_some hs
  exact Except.ok.inj hs ▸ h.turn hl hswap hrun hq

/-- A callback runs for a channel that is being handled. -/
theorem Handover.runCallback (h : s.Handover) {r : ReadResult} {w : WriteResult}
    (hs : s.act (.callback ℓ r w) = some (.ok s')) : s'.Handover := by
  obtain ⟨c, cb, todo, reported, rest, s₁, hact, hs₁, rfl⟩ := act_callback_eq_ok hs
  have hhead : s.Accepted c := h.active ℓ _ (by rw [hact]; exact List.mem_cons_self)
  have hacc : ∀ d, s₁.Accepted d ↔ s.Accepted d := fun d => by
    rw [Accepted, Accepted, (callback_frame hs₁).1]
  refine (h.callback hhead hs₁).setActive fun d hd => (hacc _).mpr ?_
  rcases List.mem_cons.mp hd with rfl | hd
  · exact hhead
  · exact h.active ℓ d (by rw [hact]; exact List.mem_cons_of_mem _ hd)

/-- What an application thread has called `send` or `shutdown` on is queued. -/
theorem Handover.enqueue (h : s.Handover) {t : T} (hs : s.act (.enqueue t) = some (.ok s')) :
    s'.Handover := by
  obtain ⟨c, f, hf, hs⟩ := act_enqueue_eq_some hs
  obtain rfl := Except.ok.inj hs
  have hconn : (s.apps t).conn = some c := by
    rcases hf with ⟨message, happ, -⟩ | ⟨happ, -⟩ <;> rw [happ] <;> rfl
  refine (h.keepApp t (a := .holding c) hconn.symm).queueInLoop _ ?_ ?_ ?_
  · rcases hf with ⟨message, -, rfl⟩ | ⟨-, rfl⟩ <;> exact h.apps t c hconn
  · rcases hf with ⟨message, -, rfl⟩ | ⟨-, rfl⟩ <;> simp
  · rcases hf with ⟨message, -, rfl⟩ | ⟨-, rfl⟩ <;> simp [ConnFunctor.raw]

/-- **One step.** -/
theorem step_handover {e : Event n T} (h : s.Handover) (hs : step s e = some s') :
    s'.Handover := by
  obtain ⟨-, hs⟩ := perform_eq_some_iff.mp (step_eq_some_iff.mp hs)
  cases e with
  | loop ℓ => exact h.of_turn hs (by simp) (by simp) rfl
  | test ℓ => exact h.of_turn hs (by simp) (by simp) rfl
  | poll ℓ woken revents =>
    obtain ⟨hready, -, l, hl, hs⟩ := act_poll_eq_some hs
    obtain rfl := Except.ok.inj hs
    refine (h.turn hl (by simp) (by simp) rfl).setActive fun d hd => ?_
    obtain ⟨p, hp, rfl⟩ := List.mem_map.mp hd
    exact h.accepted_of_owned (hready p hp).1
  | wakeupRead ℓ => exact h.of_turn hs (by simp) (by simp) rfl
  | newConnection sockfd => exact h.newConnection (act_newConnection_eq_some hs).2
  | callback ℓ r w => exact h.runCallback hs
  | handled ℓ =>
    obtain ⟨c, reported, rest, hact, hs⟩ := act_handled_eq_some hs
    obtain rfl := Except.ok.inj hs
    refine h.setActive fun d hd => h.active ℓ d ?_
    rw [hact]
    exact List.mem_cons_of_mem _ hd
  | swap ℓ =>
    obtain ⟨-, l, hl, hs⟩ := act_swap_eq_some hs
    exact Except.ok.inj hs ▸ h.swap hl
  | run ℓ w =>
    obtain ⟨f, l, hf, hl, hs⟩ := act_run_eq_some hs
    exact h.call hl hf hs
  | finish ℓ =>
    obtain ⟨l, hl, hs⟩ := act_finish_eq_some hs
    exact Except.ok.inj hs ▸ h.finish hl
  | wakeup t ℓ => exact h.of_turn hs (by simp) (by simp) rfl
  | copy t c =>
    obtain ⟨hc, hs⟩ := act_copy_eq_some hs
    obtain rfl := Except.ok.inj hs
    exact h.setApp t fun d hd => Option.some.inj hd ▸ h.accepted_of_owned hc
  | drop t =>
    obtain rfl := Except.ok.inj (act_drop_eq_some hs)
    exact h.setApp t fun d hd => by cases hd
  | send t message =>
    obtain ⟨c, happ, hs⟩ := act_send_eq_some hs
    obtain rfl := Except.ok.inj hs
    split_ifs
    · exact h.keepApp t (by rw [happ]; rfl)
    · exact h
  | shutdown t =>
    obtain ⟨c, happ, hs⟩ := act_shutdown_eq_some hs
    obtain rfl := Except.ok.inj hs
    split_ifs
    · exact h.keepApp t (by rw [happ]; rfl)
    · exact h
  | store t =>
    obtain ⟨c, tcp, happ, rfl⟩ := act_store_eq_ok hs
    refine Handover.setTcp ?_ c tcp
    exact h.keepApp t (by rw [happ]; rfl)
  | enqueue t => exact h.enqueue hs

theorem handover_of_run {name_ : String} {cb : Bool} {es : List (Event n T)}
    (h : Run step (new n T name_ cb) es s) : s.Handover :=
  h.inv (P := Handover) (fun _ _ _ hs he => step_handover hs he) (handover_new name_ cb)

/-! ## Starts -/

omit [DecidableEq T] [Fintype T] in
/-- **A start.** The functor is in time exactly when its connection is alive. -/
theorem live_iff_of_next (h : s.Handover) (hf : s.next ℓ = some f) {late : Bool}
    (hraw : f.raw = some (c, late)) :
    s.Owned c ∧ (s.conns c).destroyed = 0 ↔ late = false := by
  obtain ⟨rest, hrest⟩ := next_eq_some_iff.mp hf
  have hqueue : s.queue ℓ = f :: (rest ++ (s.loops ℓ).pendingFunctors_) := by
    rw [queue_eq, hrest]
    rfl
  have hmem : f ∈ s.queue ℓ := by rw [hqueue]; exact List.mem_cons_self
  have hloop := h.home ℓ f hmem c (Or.inr ⟨late, hraw⟩)
  have hacc : s.Accepted c := ConnFunctor.conn_of_raw hraw ▸ h.accepted_of_mem hmem
  have hord := h.order c
  rw [hloop, hqueue] at hord
  cases late with
  | false =>
    obtain ⟨hd, hq⟩ := hord.early hraw
    refine iff_of_true ⟨h.owned hacc (hq.imp_right fun hq => ?_), hd⟩ rfl
    rw [hloop, hqueue]
    exact List.mem_cons_of_mem f hq
  | true =>
    have hd := hord.late hraw
    exact iff_of_false (fun hl => by omega) (by decide)

/-- The functor that an event starts. -/
def Event.started (s : TcpServer n T) : Event n T → Option ConnFunctor
  | .run ℓ _ => s.next ℓ
  | _ => none

/-- A `sendInLoop` or `shutdownInLoop` that starts finds its connection owned, and
`connectDestroyed` has not run. -/
def StartsLive (s : TcpServer n T) (e : Event n T) : Prop :=
  ∀ f ∈ e.started s, ∀ p ∈ f.raw, s.Owned p.1 ∧ (s.conns p.1).destroyed = 0

/-- It was queued before the `connectDestroyed` of its connection. -/
def StartsEarly (s : TcpServer n T) (e : Event n T) : Prop :=
  ∀ f ∈ e.started s, ∀ p ∈ f.raw, p.2 = false

omit [DecidableEq T] [Fintype T] in
theorem startsLive_iff {e : Event n T} (h : s.Handover) : StartsLive s e ↔ StartsEarly s e := by
  refine forall₂_congr fun f hf => forall₂_congr fun p hp => ?_
  cases e with
  | run ℓ w => exact live_iff_of_next h hf hp
  | _ => cases hf

/-- **Queued functors.** In every run, each `sendInLoop` and `shutdownInLoop` that starts finds its
connection owned by a `shared_ptr` and not destroyed, exactly when each of them was queued before
`removeConnectionInLoop` queued the `connectDestroyed` of its connection. -/
theorem functors_live_iff (name_ : String) (cb : Bool) (es : List (Event n T)) :
    Along step StartsLive (new n T name_ cb) es ↔ Along step StartsEarly (new n T name_ cb) es := by
  constructor
  · intro h pre e post s hes hr
    exact (startsLive_iff (handover_of_run hr)).mp (h pre e post s hes hr)
  · intro h pre e post s hes hr
    exact (startsLive_iff (handover_of_run hr)).mpr (h pre e post s hes hr)

end

/-- The I/O loop of a pool of one. -/
def ioLoop : LoopId 1 := some 0

/-- A thread finds `kConnected` in `send`; the peer closes; `removeConnectionInLoop` queues
`connectDestroyed`; the thread queues its functor and drops its pointer. -/
def lateSend : List (Event 1 Unit) :=
  [.loop none, .test none, .poll none false [], .newConnection 5, .wakeup (.inl none) ioLoop,
    .copy () 1, .loop ioLoop, .test ioLoop, .poll ioLoop true [], .wakeupRead ioLoop,
    .swap ioLoop, .run ioLoop .wouldBlock, .finish ioLoop, .send () [1], .test ioLoop,
    .poll ioLoop false [(1, EPOLLIN)], .callback ioLoop (.received []) .wouldBlock,
    .wakeup (.inl ioLoop) none, .handled ioLoop, .swap ioLoop, .finish ioLoop, .swap none,
    .run none .wouldBlock, .wakeup (.inl none) ioLoop, .enqueue (),
    .wakeup (.inr ()) ioLoop, .drop (), .test ioLoop, .poll ioLoop true [],
    .wakeupRead ioLoop, .swap ioLoop, .run ioLoop .wouldBlock]

theorem late_send : ¬ Along step StartsLive (new 1 Unit "server" false)
    (lateSend ++ [.run ioLoop .wouldBlock]) := by
  intro h
  have hrun : (lateSend.foldlM step (new 1 Unit "server" false)).map (fun s =>
      (s.next ioLoop, (s.conns 1).destroyed)) = some (some (.sendInLoop 1 [1] true), 1) := by
    decide +kernel
  obtain ⟨s, hs, hq⟩ := Option.map_eq_some_iff.mp hrun
  obtain ⟨hn, hd⟩ := Prod.mk.inj hq
  obtain ⟨-, hd'⟩ := h lateSend _ [] s rfl hs _ hn (1, true) rfl
  exact absurd (hd.symm.trans hd') (by decide)

end TcpServer

end HighServer
