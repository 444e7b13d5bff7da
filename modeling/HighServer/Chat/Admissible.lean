import HighServer.Chat.Decoder

/-!
# Admissible messages

`Codec::send` casts the size of a message to `int32_t` and hands the frame over whatever comes out;
`Codec::onMessage` has a limit of its own.

* `castLen`: the length in the header, which is that of the message up to `2 ^ 31`;
* `parse_frame`: what the peer makes of a frame. A header that is negative or too large is bad; one
  that has wrapped around cuts the payload, and what is left of it is parsed as frames;
* `AcceptedAs`, `Refused`: the two ways of agreeing;
* **`agreed_iff`**: encoder and decoder agree on the messages of at most 65536 bytes.
-/

namespace HighServer.Codec

open Framing

/-- `static_cast<int32_t>(message.size())`. -/
def castLen (message : Bytes) : ℤ := (BitVec.ofNat 32 message.length).toInt

theorem castLen_of_le {message : Bytes} (h : message.length ≤ 65536) :
    castLen message = message.length :=
  toInt_ofNat_of_le (by rw [maxLen]; omega)

/-- A cast that is not negative does not exceed the length. -/
theorem toNat_castLen_le (message : Bytes) : (castLen message).toNat ≤ message.length := by
  rw [castLen, BitVec.toInt_eq_toNat_cond, BitVec.toNat_ofNat]
  split_ifs with h
  · rw [Int.toNat_natCast]
    exact Nat.mod_le _ _
  · omega

/-! ## The frame at the peer -/

/-- **The frame at the peer**: rejected, or cut at the length in the header. -/
theorem parse_frame (message : Bytes) : framer.parse (frame message) =
    if castLen message < 0 ∨ maxLen < castLen message then ⟨[], frame message, true⟩
    else { framer.parse (message.drop (castLen message).toNat) with
      messages := message.take (castLen message).toNat ::
        (framer.parse (message.drop (castLen message).toNat)).messages } := by
  have hheader : header (frame message) = castLen message := header_frame message
  have hlen := length_frame message
  have hpayload : (frame message).drop kHeaderLen = message := by
    rw [frame, List.drop_left' (length_htobe32 _)]
  split_ifs with hbad
  · have hf : front (frame message) = .bad :=
      front_eq_bad_iff.mpr ⟨by omega, by rw [hheader]; exact hbad⟩
    exact Framer.parse_of_bad (p := framer) hf
  · have hle := toNat_castLen_le message
    have hf : framer.front (frame message) = .frame (message.take (castLen message).toNat)
        (kHeaderLen + (castLen message).toNat) := by
      refine front_eq_frame_iff.mpr ⟨?_, by rw [hheader]; exact hbad, ?_, ?_, ?_⟩
      · omega
      · rw [hheader]
        omega
      · rw [hheader, hpayload]
      · rw [hheader]
    rw [Framer.parse_of_frame hf, ← List.drop_drop, hpayload]

/-- The peer takes the frame for the message exactly when the message is not too long. -/
theorem parse_frame_eq_iff (message : Bytes) :
    framer.parse (frame message) = ⟨[message], [], false⟩ ↔ message.length ≤ 65536 := by
  rw [parse_frame]
  constructor
  · intro h
    split_ifs at h with hbad
    · exact absurd (congrArg Parsed.bad h) (by simp)
    · -- the one message is the payload up to the length in the header
      have hm := (List.cons.inj (congrArg Parsed.messages h)).1
      have hlen := congrArg List.length hm
      rw [List.length_take, maxLen] at *
      omega
  · intro h
    have hcast := castLen_of_le h
    rw [if_neg (by rw [hcast, maxLen]; omega), hcast, Int.toNat_natCast, List.take_length,
      List.drop_length, Framer.parse_nil]

/-! ## Agreement -/

/-- The peer delivers exactly this message, however the bytes arrive, and rejects nothing. -/
def AcceptedAs (s message : Bytes) : Prop :=
  ∀ conn : TcpConnection, conn.inputBuffer_.Wf → conn.inputBuffer_.readable = [] →
    conn.state_ = .kConnected → ∀ pieces : List Bytes, (∀ data ∈ pieces, data ≠ []) →
      pieces.flatten = s → ∃ conn', receive conn pieces = .ok (conn', [message]) ∧
        conn'.inputBuffer_.readable = [] ∧ conn'.state_ = .kConnected

/-- `send` emits nothing for this message. -/
def Refused (message : Bytes) : Prop :=
  ∀ conn w t, send conn message w = .ok t →
    t.accepted ++ t.outputBuffer_.readable = conn.accepted ++ conn.outputBuffer_.readable

/-- The message reaches the peer as one frame with its length in the header, or is refused. -/
def Agreed (message : Bytes) : Prop :=
  (∃ s, encode message = .ok s ∧ header s = message.length ∧ AcceptedAs s message) ∨
    Refused message

theorem acceptedAs_iff (s message : Bytes) :
    AcceptedAs s message ↔ s ≠ [] ∧ framer.parse s = ⟨[message], [], false⟩ := by
  constructor
  · intro h
    have hne : s ≠ [] := by
      rintro rfl
      obtain ⟨_, hc, -⟩ := h (.established (fun _ => none) 0 5 false) Buffer.wf_new
        Buffer.readable_new rfl [] (by simp) rfl
      cases hc
    refine ⟨hne, ?_⟩
    -- all the bytes in one read
    obtain ⟨c, hc, hrest, hst⟩ := h (.established (fun _ => none) 0 5 false) Buffer.wf_new
      Buffer.readable_new rfl [s] (by simpa using hne) (by simp)
    obtain ⟨c', hc', hrest', hst', -⟩ := @receive_eq_decode
      (.established (fun _ => none) 0 5 false) Buffer.wf_new Buffer.readable_new rfl
      [s] (by simpa using hne)
    rw [hc] at hc'
    obtain ⟨rfl, hmsg⟩ := Prod.mk.inj (Except.ok.inj hc')
    rw [List.flatten_singleton, decode_eq_parse] at hmsg hrest' hst'
    rw [hrest] at hrest'
    rw [hst] at hst'
    have hbad : (framer.parse s).bad = false := by
      by_contra hb
      rw [if_pos (by simpa using hb)] at hst'
      cases hst'
    calc framer.parse s
        = ⟨(framer.parse s).messages, (framer.parse s).rest, (framer.parse s).bad⟩ := rfl
      _ = ⟨[message], [], false⟩ := by rw [← hmsg, ← hrest', hbad]
  · rintro ⟨-, hp⟩ conn hwf hnil hst pieces hne hs
    obtain ⟨c, hc, hrest, hst', -⟩ := receive_eq_decode hwf hnil hst hne
    rw [hs, decode_eq_parse, hp] at hc hrest hst'
    exact ⟨c, hc, hrest, hst'⟩

theorem frame_ne_nil (message : Bytes) : frame message ≠ [] := by
  intro h
  have hlen := congrArg List.length h
  rw [length_frame, kHeaderLen, List.length_nil] at hlen
  omega

/-- `send` never refuses: a connection takes the frame on, if only into its output buffer. -/
theorem not_refused (message : Bytes) : ¬ Refused message := by
  intro h
  obtain ⟨t, ht, hstreams, -⟩ := TcpConnection.sendInLoop_streams
    (TcpConnection.streams_established (fun _ => none) 0 5 false) (frame message) .wouldBlock
  have hsend : send (.established (fun _ => none) 0 5 false) message .wouldBlock = .ok t := by
    rw [send, encode_eq, ok_bind, TcpConnection.send]
    exact ht
  have hsame := h _ _ _ hsend
  rw [hstreams.conserved] at hsame
  exact frame_ne_nil message
    (hsame.trans (TcpConnection.streams_established (fun _ => none) 0 5 false).conserved)

theorem agreed_iff_parse (message : Bytes) :
    Agreed message ↔ framer.parse (frame message) = ⟨[message], [], false⟩ := by
  rw [Agreed, or_iff_left (not_refused message), encode_eq]
  constructor
  · rintro ⟨s, hs, -, hacc⟩
    obtain rfl := Except.ok.inj hs
    exact ((acceptedAs_iff _ _).mp hacc).2
  · intro h
    refine ⟨frame message, rfl, ?_, (acceptedAs_iff _ _).mpr ⟨frame_ne_nil message, h⟩⟩
    rw [header_frame]
    exact castLen_of_le ((parse_frame_eq_iff message).mp h)

/-- **Encoder and decoder** agree on a message exactly when it has at most 65536 bytes. -/
theorem agreed_iff (message : Bytes) : Agreed message ↔ message.length ≤ 65536 :=
  (agreed_iff_parse message).trans (parse_frame_eq_iff message)

/-- One byte too many, which the peer rejects, and `2 ^ 32` bytes, of which it makes an empty
message and as many frames as the payload looks like. -/
theorem not_agreed_long : ¬ Agreed (List.replicate 65537 0) ∧
    framer.parse (frame (List.replicate 65537 0)) =
      ⟨[], frame (List.replicate 65537 0), true⟩ ∧
    ¬ Agreed (List.replicate (2 ^ 32) 0) ∧
    (framer.parse (frame (List.replicate (2 ^ 32) 0))).messages.head? = some [] := by
  have h₁ : castLen (List.replicate 65537 0) = 65537 := by
    rw [castLen, List.length_replicate]
    decide
  have h₂ : castLen (List.replicate (2 ^ 32) 0) = 0 := by
    rw [castLen, List.length_replicate]
    decide
  refine ⟨?_, ?_, ?_, ?_⟩
  · rw [agreed_iff_parse, parse_frame_eq_iff, List.length_replicate]
    omega
  · rw [parse_frame, h₁, if_pos (by rw [maxLen]; omega)]
  · rw [agreed_iff_parse, parse_frame_eq_iff, List.length_replicate]
    omega
  · rw [parse_frame, h₂, if_neg (by rw [maxLen]; omega)]
    rfl

end HighServer.Codec
