import Mathlib.Data.List.Basic
import Mathlib.Tactic

/-!
# Framed streams

A stream of cells carries messages in frames. A `Framer` looks at the front of what has arrived;
`Framer.parse` takes frames off the front for as long as it can.

* `encodeBE`, `decodeBE`: numbers of a fixed width, the most significant byte first;
* `Framer`: a classification of the front that more cells do not change once it is settled;
* **`Framer.parse_append`**: the result does not depend on how the stream is cut;
* `Framer.parse_append_of_bad`: what comes behind a bad front is not parsed;
* **`Framer.parse_of_prefix`**: a prefix of a concatenation of frames parses to a prefix of their
  messages, and the whole of it to all of them.
-/

namespace Framing

/-! ## Big-endian numbers -/

/-- The lowest `k` bytes of `n`, the most significant first. -/
def encodeBE : ℕ → ℕ → List UInt8
  | 0, _ => []
  | k + 1, n => encodeBE k (n / 256) ++ [UInt8.ofNat n]

def decodeBE (l : List UInt8) : ℕ := l.foldl (fun n b => 256 * n + b.toNat) 0

@[simp] theorem length_encodeBE (k n : ℕ) : (encodeBE k n).length = k := by
  induction k generalizing n with
  | zero => rfl
  | succ k ih => rw [encodeBE, List.length_append, ih, List.length_singleton]

theorem decodeBE_encodeBE (k n : ℕ) : decodeBE (encodeBE k n) = n % 256 ^ k := by
  induction k generalizing n with
  | zero => rw [pow_zero, Nat.mod_one]; rfl
  | succ k ih =>
    have hsnoc : decodeBE (encodeBE k (n / 256) ++ [UInt8.ofNat n]) =
        256 * decodeBE (encodeBE k (n / 256)) + n % 256 := by
      rw [decodeBE, List.foldl_append, ← decodeBE]
      simp
    rw [encodeBE, hsnoc, ih, pow_succ', Nat.mod_mul, add_comm]

/-! ## Framers -/

variable {α μ : Type*}

/-- What stands at the front of a stream. -/
inductive Front (μ : Type*) where
  /-- a whole frame with its message, `len` cells long -/
  | frame (message : μ) (len : ℕ)
  /-- the beginning of a frame -/
  | more
  /-- nothing that more cells could complete -/
  | bad

structure Framer (α μ : Type*) where
  front : List α → Front μ
  front_nil : front [] = .more
  frame_len : ∀ {s m n}, front s = .frame m n → 0 < n ∧ n ≤ s.length
  frame_append : ∀ {s m n}, front s = .frame m n → ∀ t, front (s ++ t) = .frame m n
  bad_append : ∀ {s}, front s = .bad → ∀ t, front (s ++ t) = .bad

/-- The messages taken off the front of a stream, what is left, and whether it is bad. -/
structure Parsed (α μ : Type*) where
  messages : List μ
  rest : List α
  bad : Bool

namespace Framer

variable (p : Framer α μ)

/-- Take frames off the front until there is none. -/
def parse (s : List α) : Parsed α μ :=
  match _h : p.front s with
  | .frame m n =>
    { parse (s.drop n) with messages := m :: (parse (s.drop n)).messages }
  | .more => ⟨[], s, false⟩
  | .bad => ⟨[], s, true⟩
termination_by s.length
decreasing_by
  all_goals
    have := p.frame_len _h
    rw [List.length_drop]
    omega

variable {p} {s : List α}

theorem parse_of_frame {m : μ} {n : ℕ} (h : p.front s = .frame m n) :
    p.parse s = { p.parse (s.drop n) with messages := m :: (p.parse (s.drop n)).messages } := by
  rw [parse]
  split
  · next m' n' h' =>
    cases h'.symm.trans h
    rfl
  · next h' => cases h'.symm.trans h
  · next h' => cases h'.symm.trans h

theorem parse_of_more (h : p.front s = .more) : p.parse s = ⟨[], s, false⟩ := by
  rw [parse]
  split
  · next h' => cases h'.symm.trans h
  · rfl
  · next h' => cases h'.symm.trans h

theorem parse_of_bad (h : p.front s = .bad) : p.parse s = ⟨[], s, true⟩ := by
  rw [parse]
  split
  · next h' => cases h'.symm.trans h
  · next h' => cases h'.symm.trans h
  · rfl

@[simp] theorem parse_nil : p.parse [] = ⟨[], [], false⟩ := parse_of_more p.front_nil

/-- **A stream may be cut anywhere**: what arrives later is parsed behind what was left. -/
theorem parse_append (s t : List α) :
    p.parse (s ++ t) =
      { p.parse ((p.parse s).rest ++ t) with
        messages := (p.parse s).messages ++ (p.parse ((p.parse s).rest ++ t)).messages } := by
  induction hn : s.length using Nat.strong_induction_on generalizing s with
  | _ n ih =>
    cases hf : p.front s with
    | frame m k =>
      obtain ⟨hk, hle⟩ := p.frame_len hf
      have hrec := ih (s.drop k).length (by rw [List.length_drop]; omega) (s.drop k) rfl
      rw [parse_of_frame hf, parse_of_frame (p.frame_append hf t),
        List.drop_append_of_le_length hle, hrec]
      rfl
    | more => rw [parse_of_more hf]; rfl
    | bad => rw [parse_of_bad hf]; rfl

/-- What is left of a bad stream begins badly. -/
theorem front_rest_of_bad (hb : (p.parse s).bad = true) : p.front (p.parse s).rest = .bad := by
  induction hn : s.length using Nat.strong_induction_on generalizing s with
  | _ n ih =>
    cases hf : p.front s with
    | frame m k =>
      obtain ⟨hk, hle⟩ := p.frame_len hf
      rw [parse_of_frame hf] at hb ⊢
      exact ih (s.drop k).length (by rw [List.length_drop]; omega) hb rfl
    | more =>
      rw [parse_of_more hf] at hb
      cases hb
    | bad =>
      rw [parse_of_bad hf]
      exact hf

/-- **A bad stream stays bad**, and yields no more messages. -/
theorem parse_append_of_bad (hb : (p.parse s).bad = true) (t : List α) :
    p.parse (s ++ t) = ⟨(p.parse s).messages, (p.parse s).rest ++ t, true⟩ := by
  rw [parse_append, parse_of_bad (p.bad_append (front_rest_of_bad hb) t), List.append_nil]

/-! ## Streams of whole frames -/

/-- A proper prefix of a frame needs more. -/
theorem front_of_piece {f : List α} {m : μ} (hf : p.front f = .frame m f.length) (hs : s <+: f)
    (hlt : s.length < f.length) : p.front s = .more := by
  obtain ⟨t, rfl⟩ := hs
  cases h : p.front s with
  | frame m' n =>
    have heq := (p.frame_append h t).symm.trans hf
    obtain ⟨-, rfl⟩ := Front.frame.inj heq
    have := (p.frame_len h).2
    omega
  | more => rfl
  | bad => cases (p.bad_append h t).symm.trans hf

/-- **A prefix of a stream of frames** parses to a prefix of their messages, the whole stream to
all of them. -/
theorem parse_of_prefix {f : μ → List α} {ms : List μ}
    (hf : ∀ m ∈ ms, p.front (f m) = .frame m (f m).length) (hs : s <+: (ms.map f).flatten) :
    (p.parse s).messages <+: ms ∧ (p.parse s).bad = false ∧
      (s = (ms.map f).flatten → (p.parse s).messages = ms ∧ (p.parse s).rest = []) := by
  induction ms generalizing s with
  | nil =>
    obtain rfl := List.prefix_nil.mp hs
    rw [parse_nil]
    exact ⟨List.prefix_rfl, rfl, fun _ => ⟨rfl, rfl⟩⟩
  | cons m ms ih =>
    have hm := hf m List.mem_cons_self
    rw [List.map_cons, List.flatten_cons] at hs ⊢
    by_cases hlen : (f m).length ≤ s.length
    · -- the first frame has arrived whole
      obtain ⟨s', rfl⟩ := List.prefix_of_prefix_length_le (List.prefix_append _ _) hs hlen
      rw [List.prefix_append_right_inj] at hs
      obtain ⟨hpre, hbad, hall⟩ := ih (fun x hx => hf x (List.mem_cons_of_mem m hx)) hs
      rw [parse_of_frame (p.frame_append hm s'), List.drop_left]
      refine ⟨List.cons_prefix_cons.mpr ⟨rfl, hpre⟩, hbad, fun heq => ?_⟩
      obtain ⟨h₁, h₂⟩ := hall (List.append_cancel_left heq)
      exact ⟨congrArg (m :: ·) h₁, h₂⟩
    · have hpiece : s <+: f m :=
        List.prefix_of_prefix_length_le hs (List.prefix_append _ _) (by omega)
      rw [parse_of_more (front_of_piece hm hpiece (by omega))]
      refine ⟨List.nil_prefix, rfl, fun heq => ?_⟩
      rw [heq, List.length_append] at hlen
      omega

end Framer

end Framing
