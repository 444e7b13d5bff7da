import HighServer.Chat.Codec

/-!
# The decoder and its reference

`decode` says what a byte stream means, without buffers, rounds or reads. `receive` is what a
connection makes of the stream, a `handleRead` for each piece of it.

* `decode`: the reference parse; `decode_eq_parse`: the front of a buffer is classified likewise;
* `rounds_of_le`: more rounds than there are bytes make no difference to `onMessage`;
* `handleRead_decoded`: one read;
* **`receive_eq_decode`**: `receive` is the reference parse, however the stream is cut.
-/

namespace HighServer.Codec

open Framing

/-- The signed number in the first four bytes, the most significant first. -/
def int32BE (s : Bytes) : ℤ :=
  let u := decodeBE (s.take 4)
  if u < 2 ^ 31 then u else u - 2 ^ 32

/-- The reference parse. -/
def decode (s : Bytes) : Parsed UInt8 Bytes :=
  if s.length < 4 then ⟨[], s, false⟩
  else if int32BE s < 0 ∨ 65536 < int32BE s then ⟨[], s, true⟩
  else if (s.drop 4).length < (int32BE s).toNat then ⟨[], s, false⟩
  else
    { decode ((s.drop 4).drop (int32BE s).toNat) with
      messages := (s.drop 4).take (int32BE s).toNat ::
        (decode ((s.drop 4).drop (int32BE s).toNat)).messages }
termination_by s.length
decreasing_by
  all_goals
    rw [List.length_drop, List.length_drop]
    omega

/-- The reads of the pieces of a stream: the connection after them, and the messages delivered. -/
def receive (conn : TcpConnection) (pieces : List Bytes) : Outcome (TcpConnection × List Bytes) :=
  pieces.foldlM (fun p data => do
    let (conn, messages) ← handleRead p.1 (.received data)
    pure (conn, p.2 ++ messages)) (conn, [])

/-! ## The reference -/

theorem decodeBE_lt (l : Bytes) : decodeBE l < 256 ^ l.length := by
  induction l using List.reverseRecOn with
  | nil => simp [decodeBE]
  | append_singleton l b ih =>
    have hb := b.toNat_lt
    rw [decodeBE, List.foldl_append, ← decodeBE, List.length_append, List.length_singleton,
      pow_succ]
    simp only [List.foldl_cons, List.foldl_nil]
    omega

theorem header_eq_int32BE (s : Bytes) : header s = int32BE s := by
  have hlt : decodeBE (s.take 4) < 2 ^ 32 := by
    refine lt_of_lt_of_le (decodeBE_lt _) ?_
    calc 256 ^ (s.take 4).length ≤ 256 ^ 4 :=
          Nat.pow_le_pow_right (by norm_num) (by rw [List.length_take]; omega)
      _ = 2 ^ 32 := by norm_num
  rw [header, be32toh, BitVec.toInt_eq_toNat_cond, BitVec.toNat_ofNat, kHeaderLen, int32BE,
    Nat.mod_eq_of_lt hlt]
  split_ifs <;> first | rfl | omega

/-- **The reference parse** is the parse of the code's framer. -/
theorem decode_eq_parse (s : Bytes) : decode s = framer.parse s := by
  induction hn : s.length using Nat.strong_induction_on generalizing s with
  | _ n ih =>
    have hh := header_eq_int32BE s
    have hdrop : (s.drop 4).length = s.length - 4 := List.length_drop
    rw [decode]
    split_ifs with h₁ h₂ h₃
    · exact (Framer.parse_of_more (front_eq_more_iff.mpr (Or.inl h₁))).symm
    · exact (Framer.parse_of_bad (front_eq_bad_iff.mpr ⟨h₁, by rw [hh]; exact h₂⟩)).symm
    · refine (Framer.parse_of_more (front_eq_more_iff.mpr (Or.inr ⟨by rw [hh]; exact h₂, ?_⟩))).symm
      rw [hh, kHeaderLen]
      omega
    · have hf : framer.front s =
          .frame ((s.drop 4).take (int32BE s).toNat) (4 + (int32BE s).toNat) := by
        refine front_eq_frame_iff.mpr
          ⟨h₁, by rw [hh]; exact h₂, ?_, by rw [hh]; rfl, by rw [hh]; rfl⟩
        rw [hh, kHeaderLen]
        omega
      rw [Framer.parse_of_frame hf, List.drop_drop,
        ih (s.drop (4 + (int32BE s).toNat)).length (by rw [List.length_drop]; omega) _ rfl]

/-! ## The loop ends -/

/-- **As many rounds as there are bytes are enough.** -/
theorem rounds_of_le {n : ℕ} : ∀ {conn : TcpConnection}, conn.inputBuffer_.Wf →
    conn.inputBuffer_.readableBytes ≤ n → rounds (n + 1) conn = rounds n conn := by
  induction n with
  | zero =>
    intro conn h hn
    have hnil := h.readable_eq_nil_iff.mpr (Nat.le_zero.mp hn)
    exact rounds_more h (by rw [hnil]; rfl) 0
  | succ n ih =>
    intro conn h hn
    cases hf : framer.front conn.inputBuffer_.readable with
    | bad => rw [rounds_bad h hf, rounds_bad h hf]
    | more => rw [rounds_more h hf, rounds_more h hf]
    | frame m k =>
      obtain ⟨b, hwf, hread, hround⟩ := rounds_frame h hf
      have hlt := (readableBytes_lt_of_frame h hf hwf hread).trans_le hn
      rw [hround (n + 1), hround n,
        @ih { conn with inputBuffer_ := b } hwf (Nat.lt_succ_iff.mp hlt)]

theorem onMessage_eq_rounds {conn : TcpConnection} (h : conn.inputBuffer_.Wf) {n : ℕ}
    (hn : conn.inputBuffer_.readableBytes ≤ n) : rounds n conn = onMessage conn := by
  induction n, hn using Nat.le_induction with
  | base => rfl
  | succ n hn ih => rw [rounds_of_le h hn, ih]

/-! ## Reads -/

/-- The connection has received `s` and parsed it. -/
structure Decoded (conn : TcpConnection) (s : Bytes) : Prop where
  wf : conn.inputBuffer_.Wf
  rest : conn.inputBuffer_.readable = (decode s).rest
  state : conn.state_ = if (decode s).bad then .kDisconnected else .kConnected

theorem decode_append (s t : Bytes) :
    decode (s ++ t) = { decode ((decode s).rest ++ t) with
      messages := (decode s).messages ++ (decode ((decode s).rest ++ t)).messages } := by
  simp only [decode_eq_parse]
  exact Framer.parse_append s t

theorem decode_append_of_bad {s : Bytes} (h : (decode s).bad = true) (t : Bytes) :
    decode (s ++ t) = ⟨(decode s).messages, (decode s).rest ++ t, true⟩ := by
  simp only [decode_eq_parse] at h ⊢
  exact Framer.parse_append_of_bad h t

theorem state_settle (conn : TcpConnection) (bad : Bool) (buf : Buffer) :
    (settle conn bad buf).state_ =
      if bad ∧ conn.state_ = .kConnected then .kDisconnected else conn.state_ := by
  unfold settle
  cases bad with
  | false => rfl
  | true =>
    simp only [if_true, true_and, TcpConnection.shutdown, TcpConnection.shutdownInLoop]
    split_ifs <;> rfl

theorem inputBuffer_settle (conn : TcpConnection) (bad : Bool) (buf : Buffer) :
    (settle conn bad buf).inputBuffer_ = buf := by
  unfold settle
  cases bad with
  | false => rfl
  | true =>
    simp only [if_true, TcpConnection.shutdown, TcpConnection.shutdownInLoop]
    split_ifs <;> rfl

/-- **One read** delivers what the reference parse has more after it. -/
theorem handleRead_decoded {conn : TcpConnection} {s data : Bytes} (h : Decoded conn s)
    (hd : data ≠ []) :
    ∃ conn' messages, handleRead conn (.received data) = .ok (conn', messages) ∧
      Decoded conn' (s ++ data) ∧
      (decode (s ++ data)).messages = (decode s).messages ++ messages := by
  obtain ⟨buf, hwf, hread, hok⟩ := handleRead_received h.wf hd
  rw [h.rest, ← decode_eq_parse] at hread hok
  refine ⟨_, _, hok, ⟨?_, ?_, ?_⟩, by rw [decode_append s]⟩
  · rw [inputBuffer_settle]
    exact hwf
  · rw [inputBuffer_settle, hread, decode_append s]
  · rw [state_settle, h.state]
    by_cases hb : (decode s).bad = true
    · -- the bad header is still there
      have hbad := congrArg Parsed.bad (decode_append_of_bad hb data)
      rw [hbad, if_pos hb]
      simp
    · have hbad : (decode (s ++ data)).bad = (decode ((decode s).rest ++ data)).bad := by
        rw [decode_append s]
      rw [hbad, if_neg hb]
      simp

theorem receive_snoc (conn : TcpConnection) (pieces : List Bytes) (data : Bytes) :
    receive conn (pieces ++ [data]) = (do
      let p ← receive conn pieces
      let (conn, messages) ← handleRead p.1 (.received data)
      pure (conn, p.2 ++ messages)) := by
  rw [receive, List.foldlM_append]
  refine bind_congr fun p => ?_
  rw [List.foldlM_cons]
  cases handleRead p.1 (.received data) <;> rfl

theorem receive_decoded {conn : TcpConnection} (h : Decoded conn []) {pieces : List Bytes}
    (hne : ∀ data ∈ pieces, data ≠ []) :
    ∃ conn', receive conn pieces = .ok (conn', (decode pieces.flatten).messages) ∧
      Decoded conn' pieces.flatten := by
  induction pieces using List.reverseRecOn with
  | nil =>
    refine ⟨conn, ?_, h⟩
    rw [List.flatten_nil, decode_eq_parse, Framer.parse_nil]
    rfl
  | append_singleton pieces data ih =>
    obtain ⟨c, hc, hdec⟩ := ih fun d hd => hne d (List.mem_append_left _ hd)
    obtain ⟨c', messages, hc', hdec', hm⟩ := handleRead_decoded hdec (hne data (by simp))
    rw [List.flatten_append, List.flatten_singleton, receive_snoc, hc, ok_bind]
    dsimp only
    rw [hc', ok_bind, hm]
    exact ⟨c', rfl, hdec'⟩

/-- **The decoder is the reference parser.** However a byte stream is cut into reads, a connected
connection with an empty input buffer delivers the messages of the reference parse and keeps its
rest; it has called `shutdown` exactly when the reference parse stopped at a bad header, and then
no further reads deliver anything; and every call of `onMessage` ends. -/
theorem receive_eq_decode {conn : TcpConnection} (hwf : conn.inputBuffer_.Wf)
    (hnil : conn.inputBuffer_.readable = []) (hst : conn.state_ = .kConnected)
    {pieces : List Bytes} (hne : ∀ data ∈ pieces, data ≠ []) :
    ∃ conn', receive conn pieces = .ok (conn', (decode pieces.flatten).messages) ∧
      conn'.inputBuffer_.readable = (decode pieces.flatten).rest ∧
      conn'.state_ = (if (decode pieces.flatten).bad then .kDisconnected else .kConnected) ∧
      ((decode pieces.flatten).bad = true → ∀ more : List Bytes, (∀ data ∈ more, data ≠ []) →
        ∃ conn'', receive conn (pieces ++ more) =
          .ok (conn'', (decode pieces.flatten).messages)) ∧
      ∀ data : Bytes, ∀ b, conn'.inputBuffer_.readFd (.received data) = .ok b → ∀ n,
        b.readableBytes ≤ n → rounds n { conn' with inputBuffer_ := b } =
          onMessage { conn' with inputBuffer_ := b } := by
  have hd : Decoded conn [] := by
    have hdec : decode [] = ⟨[], [], false⟩ := by rw [decode_eq_parse, Framer.parse_nil]
    exact ⟨hwf, by rw [hnil, hdec], by rw [hst, hdec]; rfl⟩
  obtain ⟨c, hc, hdec⟩ := receive_decoded hd hne
  refine ⟨c, hc, hdec.rest, hdec.state, fun hbad more hmore => ?_, fun data b hb n hn => ?_⟩
  · obtain ⟨c', hc', -⟩ := @receive_decoded _ hd (pieces ++ more) fun d hm =>
      (List.mem_append.mp hm).elim (hne d) (hmore d)
    rw [List.flatten_append, decode_append_of_bad hbad] at hc'
    exact ⟨c', hc'⟩
  · obtain ⟨b', hb', hwf', -⟩ := Buffer.yields_readFd_received hdec.wf data
    obtain rfl := Except.ok.inj (hb.symm.trans hb')
    exact @onMessage_eq_rounds { c with inputBuffer_ := b } hwf' n hn

/-- An empty message, a header cut in two, and a negative length. -/
def badStream : List Bytes :=
  [[0, 0, 0, 0, 0, 0], [0, 1, 65, 255], [255, 255, 255, 0]]

theorem badStream_received : ∃ conn',
    receive (TcpConnection.established (fun _ => none) 0 5 false) badStream =
      .ok (conn', [[], [65]]) ∧
    conn'.inputBuffer_.readable = [255, 255, 255, 255, 0] ∧ conn'.state_ = .kDisconnected := by
  have hm : (decode badStream.flatten).messages = [[], [65]] := by
    simp [badStream, decode, int32BE, decodeBE]
  have hr : (decode badStream.flatten).rest = [255, 255, 255, 255, 0] := by
    simp [badStream, decode, int32BE, decodeBE]
  have hb : (decode badStream.flatten).bad = true := by
    simp [badStream, decode, int32BE, decodeBE]
  obtain ⟨c, hc, hrest, hstate, -⟩ := @receive_eq_decode
    (TcpConnection.established (fun _ => none) 0 5 false) Buffer.wf_new
    Buffer.readable_new rfl badStream (by decide)
  exact ⟨c, by rw [← hm]; exact hc, by rw [← hr]; exact hrest, by rw [hstate, hb]; rfl⟩

end HighServer.Codec
