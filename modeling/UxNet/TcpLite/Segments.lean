import UxNet.Lib.Ring
import UxNet.TcpLite.Machine

/-!
# Segmentation

How `pump_tx` cuts what is passed to `send` into packets. `Segmented` says that the packets transmitted
so far are numbered from 0 on and that their payloads, followed by what is pending, are the bytes passed
to `send`; `Counted` is about `bytes_sent_`. A round of `pump_tx` that is suspended in `transmit_` has
made its packet but not yet moved `tx_off_` and `next_seq_`, so both count the suspended rounds as done.
Neither depends on what the session receives, on the size of its buffers or on when the pool is
exhausted.
-/

namespace UxNet.TcpLite

open TcpLiteSession

/-- The payload of a packet. -/
def payloadOf (packet : Bytes) : Bytes := packet.drop headerSize

/-- A data packet as `pump_tx` makes them. -/
def IsPacket (seq ack : BitVec 32) (bs : Bytes) : Prop :=
  ∃ payload : Bytes, 0 < payload.length ∧ payload.length ≤ maxPayload ∧
    bs = (TcpLiteHeader.makeData seq ack (BitVec.ofNat 16 payload.length)).encode payload

/-- The payload of a packet is read behind its header. -/
lemma payloadOf_encode (h : TcpLiteHeader) (payload : Bytes) :
    payloadOf (h.encode payload) = payload := by
  rw [payloadOf, TcpLiteHeader.encode, List.drop_left' (TcpLiteHeader.length_toBytes _)]

/-- A packet is at most `TCP_LITE_MTU` bytes long. -/
lemma IsPacket.length_le {seq ack : BitVec 32} {bs : Bytes} (h : IsPacket seq ack bs) :
    bs.length ≤ mtu := by
  obtain ⟨payload, _, le, rfl⟩ := h
  rw [TcpLiteHeader.length_encode]
  exact Nat.add_le_add_left le _

/-- The payload of the next packet has the length that was computed. -/
lemma pumpPayload_length (s : TcpLiteSession) : s.pumpPayload.length = s.pumpLen := by
  simp only [pumpPayload, pumpLen, List.length_take, List.length_drop]
  omega

/-- The next packet is at most `TCP_LITE_MTU` bytes long. -/
lemma pumpPacket_length_le (s : TcpLiteSession) : s.pumpPacket.length ≤ mtu := by
  rw [pumpPacket, TcpLiteHeader.length_encode, pumpPayload_length]
  exact Nat.add_le_add_left (Nat.min_le_right _ _) _

/-- The packet that `pump_tx` makes next. -/
lemma isPacket_pumpPacket {s : TcpLiteSession} (op : s.pumpOpen = true) :
    IsPacket s.nextSeq s.recvBitmap.cumulativeAck s.pumpPacket := by
  have pending := (pumpOpen_window op).1
  refine ⟨s.pumpPayload, ?_, ?_, ?_⟩
  · rw [pumpPayload_length]
    exact lt_min (Nat.sub_pos_of_lt pending) (by decide)
  · rw [pumpPayload_length]
    exact Nat.min_le_right _ _
  · rw [pumpPayload_length]
    rfl

/-- A transmission of data is one more packet. -/
lemma packets_concat {l l' : Log} {kind : TxKind} {bytes : Bytes}
    (wire : l'.wire = l.wire ++ [{ kind := kind, bytes := bytes }]) :
    l'.packets = l.packets ++ if kind = .data then [bytes] else [] := by
  rw [Log.packets, wire]
  cases kind with
  | data => simp [Log.packets]
  | retransmit => simp [Log.packets]
  | ack => simp [Log.packets]

/-- The packets after a transmission. -/
lemma packets_transmit (s : TcpLiteSession) (kind : TxKind) (bytes : Bytes) :
    (s.transmit kind bytes).log.packets
      = s.log.packets ++ if kind = .data then [bytes] else [] := packets_concat rfl

/-- A retransmission or a pure ACK makes no packet. -/
lemma packets_transmit_old (s : TcpLiteSession) {kind : TxKind} (bytes : Bytes) (old : kind ≠ .data) :
    (s.transmit kind bytes).log.packets = s.log.packets := by
  rw [packets_transmit, if_neg old, List.append_nil]

/-- `pump_tx` drops the pending bytes only when no round of it is suspended. -/
lemma pumpReset_drop (s : TcpLiteSession) {k : ℕ} (room : s.txOff + k ≤ s.pendingTx.length) :
    ∃ pending off, s.pumpReset = { s with pendingTx := pending, txOff := off } ∧
      pending.drop (off + k) = s.pendingTx.drop (s.txOff + k) ∧ off + k ≤ pending.length := by
  rcases Nat.eq_zero_or_pos k with rfl | pos
  · obtain ⟨pending, off, e, drop, le⟩ := pumpReset_frame s
    exact ⟨pending, off, e, drop, le.mpr room⟩
  · have stay : s.pumpReset = s := by
      unfold pumpReset
      rw [if_neg]
      simp only [Bool.and_eq_true, beq_iff_eq, not_and]
      intro _
      omega
    exact ⟨s.pendingTx, s.txOff, stay, rfl, room⟩

/-! ## The invariant -/

/-- The packets transmitted and the bytes pending are what was passed to `send`. -/
structure Segmented (s : TcpLiteSession) (fs : List Frame) : Prop where
  next : s.nextSeq + BitVec.ofNat 32 (pumps fs).length = BitVec.ofNat 32 s.log.packets.length
  room : s.txOff + (pumps fs).sum ≤ s.pendingTx.length
  chunks : (s.log.packets.map payloadOf).flatten ++ s.pendingTx.drop (s.txOff + (pumps fs).sum)
    = s.log.sent
  packets : ∀ j bs, s.log.packets[j]? = some bs → ∃ ack, IsPacket (BitVec.ofNat 32 j) ack bs

/-- `bytes_sent_` counts the payload bytes of the packets. -/
def Counted (s : TcpLiteSession) (fs : List Frame) : Prop :=
  s.bytesSent + BitVec.ofNat 64 (pumps fs).sum
    = BitVec.ofNat 64 (s.log.packets.map payloadOf).flatten.length

section Step

variable {s s' : TcpLiteSession} {f : Frame} {new fs fs' : List Frame}

namespace Segmented

/-- A fresh session has nothing to cut up. -/
lemma fresh (pool : BufferPool) (clock : TscClock) (rtoNs : BitVec 64) (tape : Tape) :
    Segmented (.new pool clock rtoNs tape) [] where
  next := rfl
  room := Nat.le_refl 0
  chunks := rfl
  packets := by
    intro j bs get
    cases get

/-- Between rounds of `pump_tx` the next number is the number of packets. -/
lemma nextSeq_eq (h : Segmented s fs) (idle : pumps fs = []) :
    s.nextSeq = BitVec.ofNat 32 s.log.packets.length := by
  have next := h.next
  rw [idle] at next
  simpa using next

/-- A step that neither makes a packet nor takes one off the pending bytes. -/
lemma of_same (h : Segmented s fs) (pump : pumps fs' = pumps fs)
    (packets : s'.log.packets = s.log.packets) (sent : s'.log.sent = s.log.sent)
    (next : s'.nextSeq = s.nextSeq)
    (pending : s'.pendingTx.drop (s'.txOff + (pumps fs).sum)
      = s.pendingTx.drop (s.txOff + (pumps fs).sum))
    (room : s'.txOff + (pumps fs).sum ≤ s'.pendingTx.length) : Segmented s' fs' where
  next := by
    rw [next, pump, packets]
    exact h.next
  room := by
    rw [pump]
    exact room
  chunks := by
    rw [pump, packets, pending, sent]
    exact h.chunks
  packets := by
    rw [packets]
    exact h.packets

/-- A call is made. -/
lemma push {g : Frame} (h : Segmented s fs) (idle : g.pumping = none) : Segmented s (g :: fs) := by
  have same : pumps (g :: fs) = pumps fs := by simp [pumps, idle]
  exact h.of_same same rfl rfl rfl rfl h.room

/-- A new packet. -/
lemma pumpSend {pool : BufferPool} {queue : UnackedQueue} {tape : Tape} (op : s.pumpOpen = true)
    (h : Segmented s (.pumpTx :: fs)) (nil : pumps fs = []) :
    Segmented (transmit .data s.pumpPacket { s with pool := pool, unacked := queue, tape := tape })
      (.transmitting :: .pumpSent s.pumpLen :: fs) := by
  have packets := packets_transmit { s with pool := pool, unacked := queue, tape := tape } .data
    s.pumpPacket
  have next := h.nextSeq_eq (show pumps (.pumpTx :: fs) = [] from nil)
  have room := h.room
  have chunks := h.chunks
  rw [show pumps (.pumpTx :: fs) = pumps fs from rfl, nil] at room chunks
  have pumped : pumps (.transmitting :: .pumpSent s.pumpLen :: fs) = [s.pumpLen] := by
    show s.pumpLen :: pumps fs = [s.pumpLen]
    rw [nil]
  have pkt := isPacket_pumpPacket op
  rw [next] at pkt
  refine ⟨?_, ?_, ?_, ?_⟩
  · rw [packets, pumped, List.length_append]
    show s.nextSeq + BitVec.ofNat 32 1 = BitVec.ofNat 32 (s.log.packets.length + 1)
    rw [next, BitVec.ofNat_add]
  · rw [pumped]
    show s.txOff + [s.pumpLen].sum ≤ s.pendingTx.length
    rw [List.sum_singleton, pumpLen]
    have := (pumpOpen_window op).1
    omega
  · rw [packets, pumped, List.sum_singleton, if_pos rfl]
    show ((s.log.packets ++ [s.pumpPacket]).map payloadOf).flatten
      ++ s.pendingTx.drop (s.txOff + s.pumpLen) = s.log.sent
    have cut : s.pumpPayload ++ s.pendingTx.drop (s.txOff + s.pumpLen)
        = s.pendingTx.drop s.txOff := by
      rw [← List.drop_drop]
      exact List.take_append_drop _ _
    have payload : payloadOf s.pumpPacket = s.pumpPayload := payloadOf_encode _ _
    simp only [List.map_append, List.map_cons, List.map_nil, List.flatten_append,
      List.flatten_cons, List.flatten_nil, List.append_nil, List.append_assoc, payload, cut]
    simpa using chunks
  · rw [packets, if_pos rfl]
    intro j bs get
    rcases Ring.getElem?_concat_cases get with ⟨_, get⟩ | ⟨rfl, rfl⟩
    · exact h.packets j bs get
    · exact ⟨_, pkt⟩

/-- The code between two callbacks, as long as no round of `pump_tx` starts inside another one. -/
lemma exec (c : Case s f s' new) (h : Segmented s (f :: fs)) (idle : Pumping s f → pumps fs = []) :
    Segmented s' (new ++ fs) := by
  cases c with
  | sendsCons =>
    have room : s.txOff + (pumps fs).sum ≤ s.pendingTx.length := h.room
    refine ⟨h.next, ?_, ?_, h.packets⟩
    · show s.txOff + (pumps fs).sum ≤ (s.pendingTx ++ _).length
      rw [List.length_append]
      exact Nat.le_add_right_of_le room
    · show (s.log.packets.map payloadOf).flatten
        ++ (s.pendingTx ++ _).drop (s.txOff + (pumps fs).sum) = s.log.sent ++ _
      rw [List.drop_append_of_le_length room, ← List.append_assoc]
      exact congrArg (· ++ _) h.chunks
  | pumpStop _ =>
    obtain ⟨pending, off, e, drop, le⟩ := pumpReset_drop s h.room
    rw [e]
    exact h.of_same rfl rfl rfl rfl drop le
  | pumpFull _ _ =>
    obtain ⟨pending, off, e, drop, le⟩ := pumpReset_drop { s with pool := _, tape := s.rest } h.room
    rw [e]
    exact h.of_same rfl rfl rfl rfl drop le
  | pumpSend op acq _ => exact h.pumpSend op (idle (pumping_of_acquire op acq))
  | @pumpSent plen =>
    have next : s.nextSeq + BitVec.ofNat 32 ((pumps fs).length + 1)
        = BitVec.ofNat 32 s.log.packets.length := h.next
    have room : s.txOff + (plen :: pumps fs).sum ≤ s.pendingTx.length := h.room
    have chunks : (s.log.packets.map payloadOf).flatten
        ++ s.pendingTx.drop (s.txOff + (plen :: pumps fs).sum) = s.log.sent := h.chunks
    rw [List.sum_cons, ← Nat.add_assoc] at room chunks
    refine ⟨?_, room, chunks, h.packets⟩
    show s.nextSeq + 1 + BitVec.ofNat 32 (pumps fs).length = BitVec.ofNat 32 s.log.packets.length
    rw [← next, BitVec.ofNat_add, BitVec.add_assoc, BitVec.add_comm 1]
    rfl
  | @ack buf hd _ _ =>
    obtain ⟨_, _, e⟩ := takeAck_frame s hd.ackNum
    rw [e]
    exact ⟨h.next, h.room, h.chunks, h.packets⟩
  | store _ =>
    obtain ⟨_, _, e⟩ := storeData_frame s _ _
    rw [e]
    exact ⟨h.next, h.room, h.chunks, h.packets⟩
  | resend _ => exact h.of_same rfl (packets_transmit_old s _ nofun) rfl rfl rfl h.room
  | tickAck _ => exact h.of_same rfl (packets_transmit_old s _ nofun) rfl rfl rfl h.room
  | _ => exact ⟨h.next, h.room, h.chunks, h.packets⟩

end Segmented

namespace Counted

/-- The count depends on the packets and `bytes_sent_` only. -/
lemma of_same (h : Counted s fs) (pump : pumps fs' = pumps fs)
    (packets : s'.log.packets = s.log.packets) (sent : s'.bytesSent = s.bytesSent) :
    Counted s' fs' := by
  rw [Counted, pump, packets, sent]
  exact h

/-- The code between two callbacks counts what it sends. -/
lemma exec (c : Case s f s' new) (h : Counted s (f :: fs)) : Counted s' (new ++ fs) := by
  cases c with
  | pumpStop _ =>
    obtain ⟨_, _, e, _⟩ := pumpReset_frame s
    rw [e]
    exact h
  | pumpFull _ _ =>
    obtain ⟨_, _, e, _⟩ := pumpReset_frame { s with pool := _, tape := s.rest }
    rw [e]
    exact h
  | @pumpSend buf pool queue pool' _ _ _ =>
    have count : s.bytesSent + BitVec.ofNat 64 (pumps fs).sum
      = BitVec.ofNat 64 (s.log.packets.map payloadOf).flatten.length := h
    have payload : (payloadOf s.pumpPacket).length = s.pumpLen := by
      rw [pumpPacket, payloadOf_encode, pumpPayload_length]
    have packets := packets_transmit { s with pool := pool', unacked := queue, tape := s.rest } .data
      s.pumpPacket
    rw [Counted, packets, if_pos rfl]
    show s.bytesSent + BitVec.ofNat 64 (s.pumpLen :: pumps fs).sum
      = BitVec.ofNat 64 ((s.log.packets ++ [s.pumpPacket]).map payloadOf).flatten.length
    rw [List.map_append, List.flatten_append, List.length_append, List.sum_cons, Nat.add_comm s.pumpLen,
      BitVec.ofNat_add, BitVec.ofNat_add, ← BitVec.add_assoc, count, List.map_singleton,
      List.flatten_singleton, payload]
  | @pumpSent plen =>
    have count : s.bytesSent + BitVec.ofNat 64 (plen :: pumps fs).sum
      = BitVec.ofNat 64 (s.log.packets.map payloadOf).flatten.length := h
    rw [List.sum_cons, BitVec.ofNat_add, ← BitVec.add_assoc] at count
    exact count
  | @ack buf hd _ _ =>
    obtain ⟨_, _, e⟩ := takeAck_frame s hd.ackNum
    rw [e]
    exact h
  | store _ =>
    obtain ⟨_, _, e⟩ := storeData_frame s _ _
    rw [e]
    exact h
  | resend _ => exact h.of_same rfl (packets_transmit_old s _ nofun) rfl
  | tickAck _ => exact h.of_same rfl (packets_transmit_old s _ nofun) rfl
  | _ => exact h

/-- A call is made. -/
lemma push {g : Frame} (h : Counted s fs) (idle : g.pumping = none) : Counted s (g :: fs) :=
  h.of_same (by simp [pumps, idle]) rfl rfl

end Counted

end Step

/-! ## Runs -/

/-- One step of a session and the program around it. -/
lemma Segmented.step {c c' : Config} (st : Config.Step c c') (quiet : Quiet c.stack)
    (h : Segmented c.session c.stack) (count : Counted c.session c.stack) :
    Segmented c'.session c'.stack ∧ Counted c'.session c'.stack := by
  cases st with
  | exec ex =>
    cases ex with
    | @step s f fs =>
      have cs := exec_case s f
      exact ⟨h.exec cs quiet.guard, count.exec cs⟩
  | send data _ => exact ⟨h.push rfl, count.push rfl⟩
  | tick _ => exact ⟨h.push rfl, count.push rfl⟩
  | receive _ _ => exact ⟨⟨h.next, h.room, h.chunks, h.packets⟩, count⟩
  | program _ _ _ => exact ⟨⟨h.next, h.room, h.chunks, h.packets⟩, count⟩

/-- The packets and their count are right in every run. -/
lemma Segmented.steps {pool : BufferPool} {clock : TscClock} {rtoNs : BitVec 64} {tape : Tape}
    {c : Config} (run : Config.Steps (Config.fresh pool clock rtoNs tape) c) :
    Quiet c.stack ∧ Segmented c.session c.stack ∧ Counted c.session c.stack := by
  induction run with
  | refl => exact ⟨trivial, .fresh pool clock rtoNs tape, rfl⟩
  | tail _ st ih =>
    obtain ⟨quiet, seg, count⟩ := ih
    exact ⟨quiet.step st, seg.step st quiet count⟩

/-- A packet has between one byte and a full payload. -/
lemma Segmented.payload_length {s : TcpLiteSession} {fs : List Frame} {x : Bytes} (h : Segmented s fs)
    (mem : x ∈ s.log.packets.map payloadOf) : 1 ≤ x.length ∧ x.length ≤ maxPayload := by
  obtain ⟨bs, mem', rfl⟩ := List.mem_map.mp mem
  obtain ⟨j, get⟩ := List.mem_iff_getElem?.mp mem'
  obtain ⟨ack, payload, pos, le, rfl⟩ := h.packets j bs get
  rw [payloadOf_encode]
  exact ⟨pos, le⟩

/-- Payloads of packets are not longer than `MAX_PAYLOAD` each. -/
lemma Segmented.flatten_length_le {s : TcpLiteSession} {fs : List Frame} {xs : List Bytes}
    (h : Segmented s fs)
    (sub : ∀ x ∈ xs, x ∈ s.log.packets.map payloadOf) : xs.flatten.length ≤ xs.length * maxPayload := by
  have each : ∀ k ∈ xs.map List.length, k ≤ maxPayload := by
    intro k mem
    obtain ⟨x, mem', rfl⟩ := List.mem_map.mp mem
    exact (h.payload_length (sub x mem')).2
  have le := List.sum_le_card_nsmul _ _ each
  rw [List.length_map, smul_eq_mul, ← List.length_flatten] at le
  exact le

/-- Between two calls without pending bytes, the packets have everything that was to be sent. -/
lemma Segmented.all_packed {s : TcpLiteSession} (h : Segmented s [])
    (packed : s.pendingTx.length ≤ s.txOff) :
    (s.log.packets.map payloadOf).flatten = s.log.sent := by
  have chunks := h.chunks
  have pumped : s.pendingTx.drop (s.txOff + (pumps []).sum) = [] := List.drop_eq_nil_of_le packed
  rw [pumped, List.append_nil] at chunks
  exact chunks

/-- Every packet has a byte. -/
lemma Segmented.packets_le {s : TcpLiteSession} {fs : List Frame} (h : Segmented s fs) :
    s.log.packets.length ≤ (s.log.packets.map payloadOf).flatten.length := by
  have each : ∀ k ∈ (s.log.packets.map payloadOf).map List.length, 1 ≤ k := by
    intro k mem
    obtain ⟨x, mem', rfl⟩ := List.mem_map.mp mem
    exact (h.payload_length mem').1
  have le := List.length_le_sum_of_one_le _ each
  rw [List.length_map, List.length_map, ← List.length_flatten] at le
  exact le

/-- Every packet has a byte of what was to be sent, and so has every pending one. -/
lemma Segmented.length_le {s : TcpLiteSession} (h : Segmented s []) :
    s.log.packets.length + (s.pendingTx.length - s.txOff) ≤ s.log.sent.length := by
  rw [← h.chunks, List.length_append, List.length_drop]
  exact Nat.add_le_add_right h.packets_le _

/-- What the header of a packet that `pump_tx` makes says about it. -/
lemma IsPacket.header {seq ack : BitVec 32} {bs : Bytes} (h : IsPacket seq ack bs) :
    1 ≤ (payloadOf bs).length ∧ (payloadOf bs).length ≤ 1024 ∧
    (TcpLiteHeader.ofBytes bs).seqNum = seq ∧
    (TcpLiteHeader.ofBytes bs).payloadLen.toNat = (payloadOf bs).length ∧
    (TcpLiteHeader.ofBytes bs).verifyChecksum (payloadOf bs) = true := by
  obtain ⟨payload, pos, le, rfl⟩ := h
  rw [payloadOf_encode, TcpLiteHeader.encode, TcpLiteHeader.ofBytes_toBytes]
  refine ⟨pos, le, rfl, ?_, TcpLiteHeader.verifyChecksum_computeChecksum _ _⟩
  show (BitVec.ofNat 16 payload.length).toNat = payload.length
  rw [BitVec.toNat_ofNat]
  exact Nat.mod_eq_of_lt (lt_of_le_of_lt le (by decide))

/-- Segmentation loses and duplicates nothing. Along every run of a fresh session, under arbitrary
packets, with the pool exhausted at any moment and with a `transmit_` that does not call back: whenever
no code of the session runs, the payloads of the packets transmitted for the sequence numbers `0, 1, …`,
followed by the pending bytes, are the bytes passed to `send`; each packet has 1 to 1024 payload bytes,
and a header with its number, its length and a checksum that is accepted; and `bytes_sent_` counts the
payload bytes. -/
theorem segments_complete (pool : BufferPool) (clock : TscClock) (rtoNs : BitVec 64) (tape : Tape)
    (c : Config) (run : Config.Steps (Config.fresh pool clock rtoNs tape) c) (out : Outside c.stack) :
    (c.session.log.packets.map payloadOf).flatten ++ c.session.pendingTx.drop c.session.txOff
      = c.session.log.sent ∧
    c.session.nextSeq = BitVec.ofNat 32 c.session.log.packets.length ∧
    (∀ j bs, c.session.log.packets[j]? = some bs →
      1 ≤ (payloadOf bs).length ∧ (payloadOf bs).length ≤ 1024 ∧
      (TcpLiteHeader.ofBytes bs).seqNum = BitVec.ofNat 32 j ∧
      (TcpLiteHeader.ofBytes bs).payloadLen.toNat = (payloadOf bs).length ∧
      (TcpLiteHeader.ofBytes bs).verifyChecksum (payloadOf bs) = true) ∧
    c.session.txOff ≤ c.session.pendingTx.length ∧
    c.session.bytesSent
      = BitVec.ofNat 64 (c.session.log.packets.map payloadOf).flatten.length := by
  obtain ⟨quiet, seg, count⟩ := Segmented.steps run
  have nil := out.pumps_nil quiet
  have chunks := seg.chunks
  have room := seg.room
  rw [Counted, nil] at count
  rw [nil] at chunks room
  refine ⟨chunks, seg.nextSeq_eq nil, ?_, room, by simpa using count⟩
  intro j bs get
  obtain ⟨ack, pkt⟩ := seg.packets j bs get
  exact pkt.header

/-- A fresh session after one call of `send`. -/
def Config.sentOne : Config where
  session := (TcpLiteSession.new (.new mtu 1 fun _ => 0) .unit 0 .silent).send [7]
  stack := []

/-- One byte makes one packet. -/
theorem segments_complete_one_byte :
    Config.sentOne.session.log.packets.length = 1 ∧
    (Config.sentOne.session.log.packets.map payloadOf).flatten
      ++ Config.sentOne.session.pendingTx.drop Config.sentOne.session.txOff = [7] := by
  have call : Config.Step (Config.fresh (.new mtu 1 fun _ => 0) .unit 0 .silent) ⟨_, [.sends [[7]]]⟩ :=
    .send [7] trivial
  have code := sends_execs (.new (.new mtu 1 fun _ => 0) .unit 0 .silent) [[7]] []
  have run : Config.Steps _ Config.sentOne := (Relation.ReflTransGen.single call).trans code.steps
  exact ⟨by decide +kernel, (segments_complete _ _ _ _ _ run trivial).1.trans (by decide +kernel)⟩

end UxNet.TcpLite
