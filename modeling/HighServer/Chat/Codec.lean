import HighServer.Lib.Framing
import HighServer.Net.TcpConnection

/-!
# The codec of the chat example

`Codec` puts the length of a message before it, as a big-endian `int32_t`, and takes the messages
out of an input buffer again. The message callback is taken to leave the input buffer alone; the
model returns the messages it is called with.

* `encode`, `send`, `onMessage`: the member functions; `handleRead`: the connection's, with
  `onMessage` as its message callback;
* `encode_eq`: what `send` hands to `TcpConnection::send`;
* `framer`: the front of an input buffer, as `onMessage` classifies it;
* **`onMessage_spec`**: `onMessage` parses the readable bytes.
-/

namespace HighServer.Codec

open Framing

def kHeaderLen : ℕ := 4

/-- The largest length that `onMessage` accepts. -/
def maxLen : ℤ := 65536

/-- `htobe32(len)`, as the bytes of `be32` in memory. -/
def htobe32 (len : BitVec 32) : Bytes := encodeBE kHeaderLen len.toNat

/-- `be32toh(be32)`, with the bytes of `be32` in memory. -/
def be32toh (be32 : Bytes) : BitVec 32 := BitVec.ofNat 32 (decodeBE be32)

/-- The string that `send` makes of a message; the length is cast to `int32_t`. -/
def encode (message : Bytes) : Outcome Bytes := do
  let buf ← Buffer.new.append message
  let len := BitVec.ofNat 32 message.length
  let be32 := htobe32 len
  let buf ← buf.prepend be32
  pure (buf.peek buf.readableBytes)

/-- `send`, called in the loop thread. -/
def send (conn : TcpConnection) (message : Bytes) (w : WriteResult) : Outcome TcpConnection := do
  let s ← encode message
  conn.send s w

/-- At most `n` rounds of the loop in `onMessage`: the connection after them, and the messages
that `messageCallback_` is called with. -/
def rounds : ℕ → TcpConnection → Outcome (TcpConnection × List Bytes)
  | 0, conn => pure (conn, [])
  | n + 1, conn =>
    if kHeaderLen ≤ conn.inputBuffer_.readableBytes then
      let be32 := conn.inputBuffer_.peek kHeaderLen
      let len := (be32toh be32).toInt
      if maxLen < len ∨ len < 0 then pure (conn.shutdown, [])
      else if len.toNat + kHeaderLen ≤ conn.inputBuffer_.readableBytes then do
        let buf ← conn.inputBuffer_.retrieve kHeaderLen
        let message := buf.peek len.toNat
        let buf ← buf.retrieve len.toNat
        let (conn, messages) ← rounds n { conn with inputBuffer_ := buf }
        pure (conn, message :: messages)
      else pure (conn, [])
    else pure (conn, [])

/-- Every round that does not end the loop takes a header off the buffer, so `readableBytes()`
bounds their number. -/
def onMessage (conn : TcpConnection) : Outcome (TcpConnection × List Bytes) :=
  rounds conn.inputBuffer_.readableBytes conn

/-- `TcpConnection::handleRead`, with `onMessage` as the message callback. -/
def handleRead (conn : TcpConnection) (r : ReadResult) :
    Outcome (TcpConnection × List Bytes) := do
  let inputBuffer_ ← conn.inputBuffer_.readFd r
  let conn := { conn with inputBuffer_ }
  match r with
  | .received data =>
    if 0 < data.length then onMessage conn
    else do
      let conn ← conn.handleClose
      pure (conn, [])
  | .failed => pure (conn, [])

/-- `handleRead` is that of the connection. -/
theorem handleRead_fst (conn : TcpConnection) (r : ReadResult) :
    Prod.fst <$> handleRead conn r =
      conn.handleRead (fun conn => Prod.fst <$> onMessage conn) r := by
  rw [handleRead, TcpConnection.handleRead]
  cases conn.inputBuffer_.readFd r with
  | error a => rfl
  | ok b =>
    rw [ok_bind, ok_bind]
    cases r with
    | failed => rfl
    | received data =>
      dsimp only
      split_ifs with hd
      · rfl
      · cases TcpConnection.handleClose { conn with inputBuffer_ := b } <;> rfl

/-! ## Encoding -/

/-- A message on the wire. -/
def frame (message : Bytes) : Bytes := htobe32 (BitVec.ofNat 32 message.length) ++ message

@[simp] theorem length_htobe32 (len : BitVec 32) : (htobe32 len).length = kHeaderLen :=
  length_encodeBE _ _

@[simp] theorem length_frame (message : Bytes) :
    (frame message).length = kHeaderLen + message.length := by
  rw [frame, List.length_append, length_htobe32]

theorem be32toh_htobe32 (len : BitVec 32) : be32toh (htobe32 len) = len := by
  rw [be32toh, htobe32, decodeBE_encodeBE, kHeaderLen]
  apply BitVec.eq_of_toNat_eq
  have := len.isLt
  rw [BitVec.toNat_ofNat]
  omega

/-- The prepend area of a new buffer has room for the header, whatever the length. -/
theorem encode_eq (message : Bytes) : encode message = .ok (frame message) := by
  obtain ⟨b, hb, hwf, hread, hpre⟩ := Buffer.yields_append Buffer.wf_new message
  have hroom : (htobe32 (BitVec.ofNat 32 message.length)).length ≤ b.prependableBytes := by
    rw [length_htobe32]
    exact le_trans (by decide) (hpre le_rfl)
  obtain ⟨b', hb', hwf', hread'⟩ := Buffer.prepend_eq hwf hroom
  rw [encode, hb, ok_bind]
  dsimp only
  rw [hb', ok_bind, Buffer.peek_readableBytes hwf', hread', hread, Buffer.readable_new,
    List.nil_append]
  rfl

/-! ## Decoding -/

/-- The header at the front of `s`. -/
def header (s : Bytes) : ℤ := (be32toh (s.take kHeaderLen)).toInt

def front (s : Bytes) : Front Bytes :=
  if s.length < kHeaderLen then .more
  else if header s < 0 ∨ maxLen < header s then .bad
  else if s.length < kHeaderLen + (header s).toNat then .more
  else .frame ((s.drop kHeaderLen).take (header s).toNat) (kHeaderLen + (header s).toNat)

theorem header_append {s : Bytes} (h : ¬ s.length < kHeaderLen) (t : Bytes) :
    header (s ++ t) = header s := by
  rw [header, header, List.take_append_of_le_length (not_lt.mp h)]

theorem front_eq_frame_iff {s m : Bytes} {n : ℕ} :
    front s = .frame m n ↔ ¬ s.length < kHeaderLen ∧ ¬ (header s < 0 ∨ maxLen < header s) ∧
      ¬ s.length < kHeaderLen + (header s).toNat ∧
      (s.drop kHeaderLen).take (header s).toNat = m ∧ kHeaderLen + (header s).toNat = n := by
  unfold front
  split_ifs with h₁ h₂ h₃
  · simp [h₁]
  · simp [h₂]
  · simp [h₃]
  · simp [h₁, h₂, h₃]

theorem front_eq_bad_iff {s : Bytes} :
    front s = .bad ↔ ¬ s.length < kHeaderLen ∧ (header s < 0 ∨ maxLen < header s) := by
  unfold front
  split_ifs with h₁ h₂ h₃
  · simp [h₁]
  · simp [h₁, h₂]
  · simp [h₂]
  · simp [h₂]

theorem front_eq_more_iff {s : Bytes} :
    front s = .more ↔ s.length < kHeaderLen ∨
      ¬ (header s < 0 ∨ maxLen < header s) ∧ s.length < kHeaderLen + (header s).toNat := by
  unfold front
  split_ifs with h₁ h₂ h₃
  · simp [h₁]
  · simp [h₁, h₂]
  · simp [h₂, h₃]
  · simp [h₁, h₃]

def framer : Framer UInt8 Bytes where
  front := front
  front_nil := rfl
  frame_len := by
    intro s m n h
    obtain ⟨-, -, h₃, -, rfl⟩ := front_eq_frame_iff.mp h
    exact ⟨by rw [kHeaderLen]; omega, not_lt.mp h₃⟩
  frame_append := by
    intro s m n h t
    obtain ⟨h₁, h₂, h₃, rfl, rfl⟩ := front_eq_frame_iff.mp h
    rw [front_eq_frame_iff, header_append h₁, List.length_append]
    refine ⟨by omega, h₂, by omega, ?_, rfl⟩
    rw [List.drop_append_of_le_length (not_lt.mp h₁),
      List.take_append_of_le_length (by rw [List.length_drop]; omega)]
  bad_append := by
    intro s h t
    obtain ⟨h₁, h₂⟩ := front_eq_bad_iff.mp h
    rw [front_eq_bad_iff, header_append h₁, List.length_append]
    exact ⟨by omega, h₂⟩

theorem header_frame (message : Bytes) :
    header (frame message) = (BitVec.ofNat 32 message.length).toInt := by
  rw [header, frame, List.take_left' (length_htobe32 _), be32toh_htobe32]

theorem toInt_ofNat_of_le {n : ℕ} (h : (n : ℤ) ≤ maxLen) : (BitVec.ofNat 32 n).toInt = n := by
  rw [maxLen] at h
  have hn : (BitVec.ofNat 32 n).toNat = n := by rw [BitVec.toNat_ofNat]; omega
  rw [BitVec.toInt_eq_toNat_of_lt (by rw [hn]; omega), hn]

/-- The frame of a message that is not too long is one frame. -/
theorem front_frame {message : Bytes} (h : (message.length : ℤ) ≤ maxLen) :
    front (frame message) = .frame message (frame message).length := by
  rw [front_eq_frame_iff, header_frame, toInt_ofNat_of_le h, Int.toNat_natCast, length_frame]
  refine ⟨by omega, by omega, by omega, ?_, rfl⟩
  rw [frame, List.drop_left' (length_htobe32 _), List.take_length]

/-! ## The loop -/

/-- A connection after its input has been parsed: a bad header shuts it down. -/
def settle (conn : TcpConnection) (bad : Bool) (buf : Buffer) : TcpConnection :=
  if bad then TcpConnection.shutdown { conn with inputBuffer_ := buf }
  else { conn with inputBuffer_ := buf }

variable {conn : TcpConnection}

theorem be32toh_peek (h : conn.inputBuffer_.Wf)
    (hk : kHeaderLen ≤ conn.inputBuffer_.readableBytes) :
    (be32toh (conn.inputBuffer_.peek kHeaderLen)).toInt = header conn.inputBuffer_.readable := by
  rw [Buffer.peek_eq_take h hk, header]

/-- A round at a bad header ends the loop. -/
theorem rounds_bad (h : conn.inputBuffer_.Wf) (hf : front conn.inputBuffer_.readable = .bad)
    (n : ℕ) : rounds (n + 1) conn = .ok (conn.shutdown, []) := by
  obtain ⟨h₁, h₂⟩ := front_eq_bad_iff.mp hf
  have hk : kHeaderLen ≤ conn.inputBuffer_.readableBytes := by
    rw [← h.length_readable]
    exact not_lt.mp h₁
  rw [rounds, if_pos hk]
  dsimp only
  rw [be32toh_peek h hk, if_pos h₂.symm]
  rfl

/-- So does one without a whole frame. -/
theorem rounds_more (h : conn.inputBuffer_.Wf) (hf : front conn.inputBuffer_.readable = .more)
    (n : ℕ) : rounds (n + 1) conn = .ok (conn, []) := by
  have hlen := h.length_readable
  rw [rounds]
  rcases front_eq_more_iff.mp hf with h₁ | ⟨h₂, h₃⟩
  · rw [if_neg (by omega)]
    rfl
  · split_ifs with hk
    · dsimp only
      rw [be32toh_peek h hk, if_neg fun hb => h₂ hb.symm, if_neg (by omega)]
      rfl
    · rfl

/-- A round with a frame takes it off the buffer. -/
theorem rounds_frame (h : conn.inputBuffer_.Wf) {m : Bytes} {k : ℕ}
    (hf : front conn.inputBuffer_.readable = .frame m k) :
    ∃ buf : Buffer, buf.Wf ∧ buf.readable = conn.inputBuffer_.readable.drop k ∧
      ∀ n, rounds (n + 1) conn = (do
        let (conn, messages) ← rounds n { conn with inputBuffer_ := buf }
        pure (conn, m :: messages)) := by
  obtain ⟨h₁, h₂, h₃, rfl, rfl⟩ := front_eq_frame_iff.mp hf
  have hlen := h.length_readable
  have hk : kHeaderLen ≤ conn.inputBuffer_.readableBytes := by omega
  obtain ⟨b₁, hb₁, hwf₁, hread₁, -⟩ := Buffer.yields_retrieve h hk
  have hfit : (header conn.inputBuffer_.readable).toNat ≤ b₁.readableBytes := by
    rw [← hwf₁.length_readable, hread₁, List.length_drop]
    omega
  obtain ⟨b₂, hb₂, hwf₂, hread₂, -⟩ := Buffer.yields_retrieve hwf₁ hfit
  refine ⟨b₂, hwf₂, by rw [hread₂, hread₁, List.drop_drop], fun n => ?_⟩
  rw [rounds, if_pos hk]
  dsimp only
  rw [be32toh_peek h hk, if_neg fun hb => h₂ hb.symm, if_pos (by omega), hb₁, ok_bind, hb₂,
    ok_bind, Buffer.peek_eq_take hwf₁ hfit, hread₁]

/-- A frame takes bytes out of the buffer. -/
theorem readableBytes_lt_of_frame {b b' : Buffer} {m : Bytes} {k : ℕ} (h : b.Wf)
    (hf : framer.front b.readable = .frame m k) (h' : b'.Wf)
    (hread : b'.readable = b.readable.drop k) : b'.readableBytes < b.readableBytes := by
  obtain ⟨hpos, hle⟩ := framer.frame_len hf
  rw [h.length_readable] at hle
  rw [← h'.length_readable, hread, List.length_drop, h.length_readable]
  omega

/-- With as many rounds as there are bytes, the loop parses the readable bytes. -/
theorem rounds_spec (n : ℕ) : ∀ {conn : TcpConnection}, conn.inputBuffer_.Wf →
    conn.inputBuffer_.readableBytes ≤ n →
    ∃ buf : Buffer, buf.Wf ∧ buf.readable = (framer.parse conn.inputBuffer_.readable).rest ∧
      rounds n conn = .ok (settle conn (framer.parse conn.inputBuffer_.readable).bad buf,
        (framer.parse conn.inputBuffer_.readable).messages) := by
  induction n with
  | zero =>
    intro conn h hn
    have hnil := h.readable_eq_nil_iff.mpr (Nat.le_zero.mp hn)
    rw [hnil, Framer.parse_nil]
    exact ⟨conn.inputBuffer_, h, hnil, rfl⟩
  | succ n ih =>
    intro conn h hn
    cases hf : framer.front conn.inputBuffer_.readable with
    | bad =>
      rw [Framer.parse_of_bad hf]
      exact ⟨conn.inputBuffer_, h, rfl, rounds_bad h hf n⟩
    | more =>
      rw [Framer.parse_of_more hf]
      exact ⟨conn.inputBuffer_, h, rfl, rounds_more h hf n⟩
    | frame m k =>
      obtain ⟨b, hwf, hread, hround⟩ := rounds_frame h hf
      have hlt := (readableBytes_lt_of_frame h hf hwf hread).trans_le hn
      obtain ⟨buf, hwf', hread', hrest⟩ :=
        @ih { conn with inputBuffer_ := b } hwf (Nat.lt_succ_iff.mp hlt)
      rw [Framer.parse_of_frame hf, hround n, hrest, ok_bind]
      dsimp only at hread' ⊢
      rw [hread] at hread' ⊢
      exact ⟨buf, hwf', hread', rfl⟩

/-- **`onMessage` is the parser**: it never aborts, delivers the messages parsed from the readable
bytes, leaves the rest in the buffer, and shuts the connection down at a bad header. -/
theorem onMessage_spec (h : conn.inputBuffer_.Wf) :
    ∃ buf : Buffer, buf.Wf ∧ buf.readable = (framer.parse conn.inputBuffer_.readable).rest ∧
      onMessage conn = .ok (settle conn (framer.parse conn.inputBuffer_.readable).bad buf,
        (framer.parse conn.inputBuffer_.readable).messages) :=
  rounds_spec _ h le_rfl

/-- **A read** parses the new bytes behind those that were left. -/
theorem handleRead_received (h : conn.inputBuffer_.Wf) {data : Bytes} (hd : data ≠ []) :
    ∃ buf : Buffer, buf.Wf ∧
      buf.readable = (framer.parse (conn.inputBuffer_.readable ++ data)).rest ∧
      handleRead conn (.received data) =
        .ok (settle conn (framer.parse (conn.inputBuffer_.readable ++ data)).bad buf,
          (framer.parse (conn.inputBuffer_.readable ++ data)).messages) := by
  obtain ⟨b, hb, hwf, hread, -⟩ := Buffer.yields_readFd_received h data
  obtain ⟨buf, hwf', hread', hok⟩ := @onMessage_spec { conn with inputBuffer_ := b } hwf
  dsimp only at hread' hok
  rw [hread] at hread' hok
  refine ⟨buf, hwf', hread', ?_⟩
  rw [handleRead, hb, ok_bind]
  dsimp only
  rw [if_pos (List.length_pos_iff.mpr hd), hok]
  rfl

end HighServer.Codec
