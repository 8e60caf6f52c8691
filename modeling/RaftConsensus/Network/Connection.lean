import RaftConsensus.Library.Framing

/-!
# Framed messages over TCP

`connection.h`, `connection.cpp` and the part of `raft_client.cpp` that writes to and reads from a
socket.  A frame is the size of a payload in four bytes, in network byte order, and the payload.
There are two writers (`TcpConnection.sendFrame`, `RaftClient.commandFrame`) and two readers
(`TcpConnection.readMessage`, `RaftClient.readReply`).

A stream is the list of the pieces it arrives in, until the peer closes it; `async_read` and `read`
complete when all the bytes they ask for are there, and fail when the stream ends before.

`framing_round_trip` is the law of framing: whatever the pieces are, a session reads back the
payloads of the complete frames and nothing else.
-/

namespace RaftConsensus

open Framing

/-! ## Writing -/

/-- A size as a `uint32_t`. -/
def uint32 (n : ℕ) : ℕ := n % 2 ^ 32

/-- What `TcpConnection::send` writes for a payload: a buffer of the size it announces. -/
def TcpConnection.sendFrame (payload : Bytes) : Bytes :=
  let msgSize := uint32 payload.length
  bigEndian msgSize ++ payload.take msgSize

/-- What `RaftClient::runCommand` writes for a payload: the header, and then the payload. -/
def RaftClient.commandFrame (payload : Bytes) : Bytes :=
  bigEndian (uint32 payload.length) ++ payload

/-! ## Reading -/

/-- Why a connection is closed. -/
inductive CloseReason
  /-- The stream ends, or fails, within a header. -/
  | header
  /-- The header announces more than the limit. -/
  | tooLarge (bodyLen : ℕ)
  /-- The stream ends, or fails, within a body. -/
  | body
  deriving DecidableEq, Repr

namespace TcpConnection

/-- The most a body may have. -/
def maxBodyLen : ℕ := 10 * 1024 * 1024

/-- `TcpConnection::readMessage`: the body, and what is left of the stream. -/
def readMessage (stream : List Bytes) : Except CloseReason (Bytes × List Bytes) :=
  match readExactly 4 stream with
  | none => .error .header
  | some (header, stream) =>
      let bodyLen := ofBigEndian header
      if maxBodyLen < bodyLen then .error (.tooLarge bodyLen)
      else
        match readExactly bodyLen stream with
        | none => .error .body
        | some message => .ok message

/-- The loop of a session, which reads the next message when it is done with one: at most `k`
turns. -/
def readLoop (k : ℕ) (stream : List Bytes) : Reception (List Bytes) Bytes CloseReason :=
  receive readMessage k stream

end TcpConnection

/-- The reading end of `RaftClient::runCommand`, which knows no limit; an exception if the stream
ends before. -/
def RaftClient.readReply (stream : List Bytes) : Option (Bytes × List Bytes) :=
  match readExactly 4 stream with
  | none => none
  | some (header, stream) => readExactly (ofBigEndian header) stream

/-! ## Frames -/

/-- The two writers. -/
inductive Writer
  | tcpConnection
  | raftClient
  deriving DecidableEq, Repr

/-- What a writer writes. -/
def Writer.frame : Writer → Bytes → Bytes
  | .tcpConnection => TcpConnection.sendFrame
  | .raftClient => RaftClient.commandFrame

/-- The bytes of a list of messages, each with its writer. -/
def wire (messages : List (Writer × Bytes)) : Bytes :=
  messages.flatMap fun m => m.1.frame m.2

variable {stream : List Bytes} {payload tail : Bytes} {payloads : List Bytes}
  {messages : List (Writer × Bytes)} {k n : ℕ}

/-- A size of 32 bits, and the payload. -/
def frame (payload : Bytes) : Bytes := bigEndian payload.length ++ payload

@[simp] lemma length_frame (payload : Bytes) : (frame payload).length = 4 + payload.length := by
  rw [frame, List.length_append, length_bigEndian]

/-- **Both writers write the same.** -/
lemma Writer.frame_eq (w : Writer) (h : payload.length < 2 ^ 32) :
    w.frame payload = RaftConsensus.frame payload := by
  have hsize : uint32 payload.length = payload.length := Nat.mod_eq_of_lt h
  cases w with
  | tcpConnection =>
      show TcpConnection.sendFrame payload = _
      rw [TcpConnection.sendFrame, hsize, List.take_length, RaftConsensus.frame]
  | raftClient =>
      show RaftClient.commandFrame payload = _
      rw [RaftClient.commandFrame, hsize, RaftConsensus.frame]

/-- The messages are within the limit of the reader. -/
def WithinLimit (payloads : List Bytes) : Prop :=
  ∀ p ∈ payloads, p.length ≤ TcpConnection.maxBodyLen

lemma maxBodyLen_lt : TcpConnection.maxBodyLen < 2 ^ 32 := by decide

lemma wire_eq (h : WithinLimit (messages.map Prod.snd)) :
    wire messages = (messages.map Prod.snd).flatMap frame := by
  rw [wire, List.flatMap_map]
  refine List.flatMap_congr fun m hm => ?_
  exact m.1.frame_eq ((h m.2 (List.mem_map_of_mem hm)).trans_lt maxBodyLen_lt)

/-- A frame tells where it ends. -/
lemma frame_append_inj {p q r t : Bytes} (hp : p.length < 2 ^ 32) (hq : q.length < 2 ^ 32)
    (h : frame p ++ r = frame q ++ t) : p = q ∧ r = t := by
  rw [frame, frame, List.append_assoc, List.append_assoc] at h
  obtain ⟨hheader, hbody⟩ := List.append_inj h rfl
  have hlength : p.length = q.length := by
    rw [← ofBigEndian_bigEndian hp, hheader, ofBigEndian_bigEndian hq]
  exact List.append_inj hbody hlength

/-- Frames at the beginning of other frames are the first of them. -/
lemma isPrefix_of_frames {ps qs : List Bytes} (hps : ∀ p ∈ ps, p.length < 2 ^ 32)
    (hqs : ∀ q ∈ qs, q.length < 2 ^ 32) (h : ps.flatMap frame <+: qs.flatMap frame) :
    ps <+: qs := by
  induction ps generalizing qs with
  | nil => exact List.nil_prefix
  | cons p ps ih =>
      obtain ⟨t, ht⟩ := h
      rw [List.flatMap_cons, List.append_assoc] at ht
      cases qs with
      | nil =>
          have hlength := congrArg List.length ht
          simp at hlength
      | cons q qs =>
          rw [List.flatMap_cons] at ht
          obtain ⟨rfl, hrest⟩ := frame_append_inj (hps p (by simp)) (hqs q (by simp)) ht
          exact List.cons_prefix_cons.mpr ⟨rfl, ih (fun x hx => hps x (by simp [hx]))
            (fun x hx => hqs x (by simp [hx])) ⟨t, hrest⟩⟩

namespace TcpConnection

/-! ## One read -/

/-- What is read was framed at the beginning of the stream. -/
lemma readMessage_eq_ok {body : Bytes} {rest : List Bytes}
    (h : readMessage stream = .ok (body, rest)) :
    body.length ≤ maxBodyLen ∧ stream.flatten = frame body ++ rest.flatten := by
  rw [readMessage] at h
  split at h
  · cases h
  · rename_i header stream' hheader
    simp only at h
    split at h
    · cases h
    · rename_i hlen
      split at h
      · cases h
      · rename_i hbody
        cases h
        obtain ⟨hfour, hsplit⟩ := readExactly_eq_some hheader
        obtain ⟨hlength, hsplit'⟩ := readExactly_eq_some hbody
        refine ⟨by omega, ?_⟩
        rw [hsplit, hsplit', frame, hlength, (bigEndian_ofBigEndian hfour).1, List.append_assoc]

/-- A complete frame is read, however it arrives, and what follows it is left. -/
lemma readMessage_frame (hlen : payload.length ≤ maxBodyLen)
    (h : stream.flatten = frame payload ++ tail) :
    ∃ rest, readMessage stream = .ok (payload, rest) ∧ rest.flatten = tail := by
  rw [frame, List.append_assoc] at h
  obtain ⟨rest, hheader, hrest⟩ := readExactly_append h
  obtain ⟨rest', hbody, hrest'⟩ := readExactly_append hrest
  refine ⟨rest', ?_, hrest'⟩
  rw [length_bigEndian] at hheader
  simp only [readMessage, hheader]
  rw [ofBigEndian_bigEndian (hlen.trans_lt maxBodyLen_lt), if_neg (not_lt.mpr hlen), hbody]

/-- What is announced to be larger than the limit is not read. -/
lemma readMessage_tooLarge (hlarge : maxBodyLen < n) (hn : n < 2 ^ 32)
    (h : stream.flatten = bigEndian n ++ tail) :
    readMessage stream = .error (.tooLarge n) := by
  obtain ⟨rest, hheader, -⟩ := readExactly_append h
  rw [length_bigEndian] at hheader
  simp only [readMessage, hheader]
  rw [ofBigEndian_bigEndian hn, if_pos hlarge]

/-- Nothing is read from less than a header. -/
lemma readMessage_short (h : stream.flatten.length < 4) :
    readMessage stream = .error .header := by
  simp only [readMessage, readExactly_of_lt h]

/-- Nothing is read from a frame that has been cut off. -/
lemma readMessage_truncated (hlen : payload.length ≤ maxBodyLen)
    (hk : k < (frame payload).length) (h : stream.flatten = (frame payload).take k) :
    ∃ e, readMessage stream = .error e := by
  rw [length_frame] at hk
  by_cases hheader : k < 4
  · refine ⟨.header, readMessage_short ?_⟩
    rw [h, List.length_take]
    omega
  · -- the body is cut off
    obtain ⟨j, rfl⟩ := Nat.exists_eq_add_of_le (not_lt.mp hheader)
    have hsplit : (frame payload).take (4 + j) =
        bigEndian payload.length ++ payload.take j := by
      rw [frame, ← length_bigEndian payload.length, List.take_length_add_append]
    obtain ⟨rest, hread, hrest⟩ := readExactly_append (h.trans hsplit)
    have hshort : rest.flatten.length < payload.length := by
      rw [hrest, List.length_take]
      omega
    refine ⟨.body, ?_⟩
    rw [length_bigEndian] at hread
    simp only [readMessage, hread]
    rw [ofBigEndian_bigEndian (hlen.trans_lt maxBodyLen_lt), if_neg (not_lt.mpr hlen),
      readExactly_of_lt hshort]

/-! ## Reading on -/

/-- The frames at the beginning of a stream are read one after the other. -/
lemma reads_frames (hlimit : WithinLimit payloads) :
    ∀ {stream : List Bytes}, stream.flatten = payloads.flatMap frame ++ tail →
      ∃ rest, Reads readMessage stream payloads rest ∧ rest.flatten = tail := by
  induction payloads with
  | nil => exact fun {stream} h => ⟨stream, .nil, h⟩
  | cons p ps ih =>
      intro stream h
      rw [List.flatMap_cons, List.append_assoc] at h
      obtain ⟨rest, hread, hrest⟩ := readMessage_frame (hlimit p (by simp)) h
      obtain ⟨rest', hreads, hrest'⟩ := ih (fun q hq => hlimit q (by simp [hq])) hrest
      exact ⟨rest', .cons hread hreads, hrest'⟩

/-- `ds` are the payloads whose frames are complete within the first `k` bytes. -/
structure CompleteWithin (payloads : List Bytes) (k : ℕ) (ds : List Bytes) : Prop where
  shorter : ds <+: payloads
  complete : ∀ m ≤ payloads.length,
    m ≤ ds.length ↔ ((payloads.take m).flatMap frame).length ≤ k

/-- From a stream that has been cut off the complete frames are read, and then nothing. -/
lemma reads_truncated (hlimit : WithinLimit payloads) :
    ∀ {stream : List Bytes} {k : ℕ}, stream.flatten = (payloads.flatMap frame).take k →
      ∃ ds rest e, CompleteWithin payloads k ds ∧ Reads readMessage stream ds rest ∧
        readMessage rest = .error e := by
  induction payloads with
  | nil =>
      intro stream k h
      refine ⟨[], stream, .header, ⟨List.prefix_rfl, fun m hm => ?_⟩, .nil, ?_⟩
      · simpa using hm
      · refine readMessage_short ?_
        rw [h]
        simp
  | cons p ps ih =>
      intro stream k h
      have hp := hlimit p (by simp)
      by_cases hk : (frame p).length ≤ k
      · rw [List.flatMap_cons, List.take_append, List.take_of_length_le hk] at h
        obtain ⟨rest, hread, hrest⟩ := readMessage_frame hp h
        obtain ⟨ds, rest', e, hds, hreads, herror⟩ := ih (fun q hq => hlimit q (by simp [hq])) hrest
        refine ⟨p :: ds, rest', e, ⟨?_, fun m hm => ?_⟩, .cons hread hreads, herror⟩
        · exact List.cons_prefix_cons.mpr ⟨rfl, hds.shorter⟩
        · cases m with
          | zero => simp
          | succ m =>
              have hm' := hds.complete m (by simpa using hm)
              rw [List.length_cons, Nat.succ_le_succ_iff, hm', List.take_succ_cons,
                List.flatMap_cons, List.length_append]
              omega
      · rw [List.flatMap_cons, List.take_append_of_le_length (by omega)] at h
        obtain ⟨e, herror⟩ := readMessage_truncated hp (not_le.mp hk) h
        refine ⟨[], stream, e, ⟨List.nil_prefix, fun m hm => ?_⟩, .nil, herror⟩
        cases m with
        | zero => simp
        | succ m =>
            rw [List.take_succ_cons, List.flatMap_cons, List.length_append]
            simp only [List.length_nil]
            omega

/-! ## Round trip -/

/-- **Framing round trip.**  Messages within the limit, of either writer, in whatever pieces they
arrive: all of them are read back and nothing is left; from a stream that is cut off the payloads
of its complete frames are read back; and a frame that announces more than the limit delivers
nothing and ends the reading. -/
theorem framing_round_trip (hlimit : WithinLimit (messages.map Prod.snd)) :
    (∀ stream : List Bytes, stream.flatten = wire messages →
      (∃ rest, rest.flatten = [] ∧
        readLoop messages.length stream = ⟨messages.map Prod.snd, .ok rest⟩) ∧
      ∀ k, messages.length < k →
        readLoop k stream = ⟨messages.map Prod.snd, .error .header⟩) ∧
    (∀ (stream : List Bytes) (cut : ℕ), stream.flatten = (wire messages).take cut →
      ∃ ds e, CompleteWithin (messages.map Prod.snd) cut ds ∧
        ∀ k, messages.length < k → readLoop k stream = ⟨ds, .error e⟩) ∧
    (∀ (stream : List Bytes) (n : ℕ) (tail : Bytes), maxBodyLen < n → n < 2 ^ 32 →
      stream.flatten = wire messages ++ (bigEndian n ++ tail) →
        ∀ k, messages.length < k →
          readLoop k stream = ⟨messages.map Prod.snd, .error (.tooLarge n)⟩) := by
  have hlength : (messages.map Prod.snd).length = messages.length := List.length_map _
  rw [wire_eq hlimit]
  refine ⟨fun stream h => ?_, fun stream cut h => ?_, fun stream n tail hlarge hn h k hk => ?_⟩
  · rw [← List.append_nil (List.flatMap _ _)] at h
    obtain ⟨rest, hreads, hrest⟩ := reads_frames hlimit h
    have hend : readMessage rest = .error .header := readMessage_short (by simp [hrest])
    refine ⟨⟨rest, hrest, ?_⟩, fun k hk => ?_⟩
    · rw [← hlength]
      exact receive_of_reads hreads
    · exact receive_of_error hreads hend (hlength ▸ hk)
  · obtain ⟨ds, rest, e, hds, hreads, herror⟩ := reads_truncated hlimit h
    refine ⟨ds, e, hds, fun k hk => receive_of_error hreads herror ?_⟩
    have hle := hds.shorter.length_le
    omega
  · obtain ⟨rest, hreads, hrest⟩ := reads_frames hlimit h
    exact receive_of_error hreads (readMessage_tooLarge hlarge hn hrest) (hlength ▸ hk)

/-- An empty payload and one of two bytes, in four pieces. -/
theorem two_messages_read_back :
    readLoop 3 [[0, 0], [0, 0, 0], [0, 0], [2, 7, 8]] = ⟨[[], [7, 8]], .error .header⟩ := by
  have hlimit : WithinLimit ([(Writer.raftClient, []), (.tcpConnection, [7, 8])].map Prod.snd) := by
    intro p hp
    simp only [List.map_cons, List.map_nil, List.mem_cons, List.not_mem_nil, or_false] at hp
    obtain rfl | rfl := hp <;> decide
  obtain ⟨hall, -⟩ := framing_round_trip hlimit
  exact (hall [[0, 0], [0, 0, 0], [0, 0], [2, 7, 8]] (by decide)).2 3 (by decide)

end TcpConnection

/-- **A client reads a response back**, which the server writes and which may be of any size. -/
theorem RaftClient.readReply_sendFrame (hlen : payload.length < 2 ^ 32)
    (h : stream.flatten = TcpConnection.sendFrame payload ++ tail) :
    ∃ rest, RaftClient.readReply stream = some (payload, rest) ∧ rest.flatten = tail := by
  have hframe : TcpConnection.sendFrame payload = frame payload :=
    Writer.tcpConnection.frame_eq hlen
  rw [hframe, frame, List.append_assoc] at h
  obtain ⟨rest, hheader, hrest⟩ := readExactly_append h
  obtain ⟨rest', hbody, hrest'⟩ := readExactly_append hrest
  refine ⟨rest', ?_, hrest'⟩
  rw [length_bigEndian] at hheader
  simp only [readReply, hheader]
  rw [ofBigEndian_bigEndian hlen, hbody]

/-- What a client reads was framed at the beginning of the stream. -/
lemma RaftClient.readReply_eq_some {reply : Bytes} {rest : List Bytes}
    (h : RaftClient.readReply stream = some (reply, rest)) :
    reply.length < 2 ^ 32 ∧ stream.flatten = frame reply ++ rest.flatten := by
  rw [readReply] at h
  split at h
  · cases h
  · rename_i header stream' hheader
    obtain ⟨hfour, hsplit⟩ := readExactly_eq_some hheader
    obtain ⟨hlength, hsplit'⟩ := readExactly_eq_some h
    obtain ⟨hback, hlt⟩ := bigEndian_ofBigEndian hfour
    refine ⟨hlength ▸ hlt, ?_⟩
    rw [hsplit, hsplit', frame, hlength, hback, List.append_assoc]

end RaftConsensus
