import UxNet.TcpLite.Agreement
import UxNet.TcpLite.Inbox

/-!
# What a call transmits and receives

`tick` as a whole: it transmits the packets that have timed out, the new packets of its `pump_tx`, and a
pure ACK if one is pending (`tick_wire`). A delivered datagram as a whole: what it does to the receive
side and to `pending_ack_` is decided by whether it is a data packet (`deliver_packet`, `deliver_ack`).
-/

namespace UxNet.TcpLite

open TcpLiteSession

/-! ## Transmitting -/

/-- What was transmitted from one state of a session to another. -/
def transmitted (s t : TcpLiteSession) : List Transmission := t.log.wire.drop s.log.wire.length

/-- `touch` changes no buffer. -/
lemma UnackedQueue.bufferFor_touch (q : UnackedQueue) (seq seq' : BitVec 32) (now : BitVec 64) :
    (q.touch seq now).bufferFor seq' = q.bufferFor seq' := by
  obtain ⟨tsc, e⟩ := q.touch_slots seq now (slotIdx seq')
  unfold bufferFor
  rw [occupied_touch, e]

/-- The retransmissions of the given sequence numbers. -/
def TcpLiteSession.again (s : TcpLiteSession) (seqs : List (BitVec 32)) : List Transmission :=
  seqs.filterMap fun seq => (s.unacked.bufferFor seq).map fun b =>
    { kind := .retransmit, bytes := s.pool.content b }

/-- A retransmission is nothing else. -/
lemma TcpLiteSession.again_filter (s : TcpLiteSession) (seqs : List (BitVec 32)) {kind : TxKind}
    (ne : kind ≠ .retransmit) : (s.again seqs).filter (·.kind = kind) = [] := by
  apply List.filter_eq_nil_iff.mpr
  intro x mem
  obtain ⟨_, _, hx⟩ := List.mem_filterMap.mp mem
  obtain ⟨_, _, rfl⟩ := Option.map_eq_some_iff.mp hx
  simpa using ne.symm

/-- The retransmission loop of `tick`. -/
lemma resend_foldl (now : BitVec 64) (seqs : List (BitVec 32)) (s : TcpLiteSession) :
    ∃ queue, seqs.foldl (resend now) s = { s with
      unacked := queue
      retransmits := s.retransmits + BitVec.ofNat 64 (s.again seqs).length
      log := { s.log with wire := s.log.wire ++ s.again seqs } } := by
  induction seqs generalizing s with
  | nil => exact ⟨s.unacked, by simp [again]⟩
  | cons seq seqs ih =>
    rw [List.foldl_cons]
    cases hb : s.unacked.bufferFor seq with
    | none =>
      have skip : resend now s seq = s := by
        unfold resend
        rw [hb]
      obtain ⟨queue, e⟩ := ih s
      refine ⟨queue, ?_⟩
      rw [skip, e]
      simp [again, hb]
    | some b =>
      have sent : resend now s seq = (s.transmit .retransmit (s.pool.content b)).resent now seq := by
        unfold resend
        rw [hb]
      obtain ⟨queue, e⟩ := ih (resend now s seq)
      refine ⟨queue, ?_⟩
      have rest : (resend now s seq).again seqs = s.again seqs := by
        rw [sent]
        simp [again, transmit, resent, UnackedQueue.bufferFor_touch]
      have first : s.again (seq :: seqs)
          = { kind := .retransmit, bytes := s.pool.content b } :: s.again seqs := by
        simp [again, hb]
      have count : s.retransmits + 1 + BitVec.ofNat 64 (s.again seqs).length
          = s.retransmits + BitVec.ofNat 64 (s.again (seq :: seqs)).length := by
        rw [first, List.length_cons, BitVec.ofNat_add, BitVec.add_assoc, BitVec.add_comm 1]
        rfl
      rw [e, rest, ← count, first, sent]
      simp [transmit, resent]

/-- A round of `pump_tx` finds the pool exhausted, or transmits the next packet. -/
lemma pumpSend_wire {s u : TcpLiteSession} {r : Option ℕ} (e : s.pumpSend = (u, r)) :
    (r = none ∧ u.log.wire = s.log.wire ∧ (s.pool.callerOps (s.tape 0).ops).free = [] ∧
        u.pool.free = []) ∨
      (r = some s.pumpLen ∧ u.log.wire = s.log.wire ++ [{ kind := .data, bytes := s.pumpPacket }]) := by
  unfold TcpLiteSession.pumpSend at e
  rcases ha : (s.pool.callerOps (s.tape 0).ops).acquire with ⟨_ | buf, pool⟩
  · simp only [ha, Prod.mk.injEq] at e
    obtain ⟨rfl, rfl⟩ := e
    obtain ⟨none, rfl⟩ := BufferPool.acquire_none ha
    exact .inl ⟨rfl, rfl, none, none⟩
  · simp only [ha, Prod.mk.injEq] at e
    obtain ⟨rfl, rfl⟩ := e
    exact .inr ⟨rfl, rfl⟩

/-- Transmissions of data are the packets. -/
lemma packets_of_data (ds : List Bytes) :
    ((ds.map (Transmission.mk .data)).filter (·.kind = .data)).map (·.bytes) = ds := by
  rw [List.filter_map, List.map_map]
  simp [Function.comp_def]

/-- `pump_tx` transmits new packets only, and leaves `snd_una_` and `pending_ack_` alone. -/
lemma pumpTx_sends (s : TcpLiteSession) :
    s.pumpTx.sndUna = s.sndUna ∧ s.pumpTx.pendingAck = s.pendingAck ∧
      ∃ ds : List Bytes, s.pumpTx.log.wire = s.log.wire ++ ds.map (Transmission.mk .data) ∧
        ∀ d ∈ ds, ∃ seq, IsPacket seq s.recvBitmap.cumulativeAck d := by
  suffices all : s.pumpTx.recvBitmap = s.recvBitmap ∧ s.pumpTx.sndUna = s.sndUna ∧
      s.pumpTx.pendingAck = s.pendingAck ∧
      ∃ ds : List Bytes, s.pumpTx.log.wire = s.log.wire ++ ds.map (Transmission.mk .data) ∧
        ∀ d ∈ ds, ∃ seq, IsPacket seq s.recvBitmap.cumulativeAck d from all.2
  apply pumpTx_ind (R := fun t => t.recvBitmap = s.recvBitmap ∧ t.sndUna = s.sndUna ∧
    t.pendingAck = s.pendingAck ∧
    ∃ ds : List Bytes, t.log.wire = s.log.wire ++ ds.map (Transmission.mk .data) ∧
      ∀ d ∈ ds, ∃ seq, IsPacket seq s.recvBitmap.cumulativeAck d)
  · rintro t u r ⟨bitmap, una, pending, ds, wire, made⟩ op hs
    have sent := pumpSend_wire hs
    have packet := isPacket_pumpPacket op
    rw [bitmap] at packet
    obtain ⟨_, _, _, _, rfl, _⟩ := pumpSend_frame hs
    refine ⟨bitmap, una, pending, ?_⟩
    rcases sent with ⟨_, same, _⟩ | ⟨_, more⟩
    · exact ⟨ds, same.trans wire, made⟩
    · refine ⟨ds ++ [t.pumpPacket], more.trans ?_, ?_⟩
      · rw [wire, List.append_assoc, List.map_append]
        rfl
      · exact List.forall_mem_append.mpr ⟨made, List.forall_mem_singleton.mpr ⟨_, packet⟩⟩
  · exact fun t plen ht => ht
  · intro t ht
    obtain ⟨_, _, e, _⟩ := pumpReset_frame t
    rw [e]
    exact ht
  · exact ⟨rfl, rfl, rfl, [], (List.append_nil _).symm, nofun⟩

/-- The pure ACK that `tick` transmits, if one is pending. -/
def TcpLiteSession.owedAck (s : TcpLiteSession) : List Transmission :=
  if s.pendingAck then
    [{ kind := .ack, bytes := (TcpLiteHeader.makeAck s.tick.nextSeq s.recvBitmap.cumulativeAck).toBytes }]
  else []

/-- What `tick` transmits. -/
lemma tick_wire (s : TcpLiteSession) :
    ∃ ds : List Bytes, s.tick.log.packets = s.log.packets ++ ds ∧ s.tick.sndUna = s.sndUna ∧
      transmitted s s.tick = s.again s.timedOut ++ ds.map (Transmission.mk .data) ++ s.owedAck := by
  obtain ⟨queue, e⟩ := resend_foldl (s.tape 0).tsc s.timedOut { s with tape := s.rest }
  obtain ⟨una, pending, ds, wire, _⟩ := pumpTx_sends
    (s.timedOut.foldl (resend (s.tape 0).tsc) { s with tape := s.rest })
  have inbox := pumpTx_inbox (s.timedOut.foldl (resend (s.tape 0).tsc) { s with tape := s.rest })
  unfold transmitted owedAck
  rw [tick]
  generalize (s.timedOut.foldl (resend (s.tape 0).tsc) { s with tape := s.rest }).pumpTx = t
    at una pending wire inbox ⊢
  rw [e] at una pending wire inbox
  have bitmap : t.recvBitmap = s.recvBitmap := congrArg Inbox.bitmap inbox
  have wire : t.log.wire = s.log.wire ++ (s.again s.timedOut ++ ds.map (Transmission.mk .data)) := by
    rw [wire, List.append_assoc]
    rfl
  have flushed : t.flushAck.log.wire = t.log.wire ++ (if s.pendingAck then
      [{ kind := .ack, bytes := (TcpLiteHeader.makeAck t.flushAck.nextSeq
        s.recvBitmap.cumulativeAck).toBytes }] else []) := by
    have pending : t.pendingAck = s.pendingAck := pending
    unfold flushAck
    rw [pending]
    cases s.pendingAck with
    | false => exact (List.append_nil _).symm
    | true =>
      rw [← bitmap]
      rfl
  have sndUna : t.flushAck.sndUna = t.sndUna := by
    obtain ⟨_, _, e⟩ := flushAck_frame t
    rw [e]
  refine ⟨ds, ?_, sndUna.trans una, ?_⟩
  · have old := s.again_filter s.timedOut (show TxKind.data ≠ .retransmit from nofun)
    unfold Log.packets
    rw [flushed, wire, List.filter_append, List.filter_append, List.filter_append, old, List.map_append,
      List.map_append, List.map_append, packets_of_data]
    cases s.pendingAck with
    | false => simp
    | true => simp
  · rw [flushed, wire, List.append_assoc, List.drop_left]

/-- What `send` transmits. -/
lemma send_wire (s : TcpLiteSession) (data : Bytes) :
    ∃ ds : List Bytes, (s.send data).log.packets = s.log.packets ++ ds ∧
      transmitted s (s.send data) = ds.map (Transmission.mk .data) ∧
      ∀ d ∈ ds, ∃ seq, IsPacket seq s.recvBitmap.cumulativeAck d := by
  obtain ⟨_, _, ds, wire, made⟩ := pumpTx_sends (s.append data)
  have wire : (s.send data).log.wire = s.log.wire ++ ds.map (Transmission.mk .data) := wire
  refine ⟨ds, ?_, ?_, made⟩
  · rw [Log.packets, wire, List.filter_append, List.map_append, packets_of_data]
    rfl
  · rw [transmitted, wire, List.drop_left]

/-- Only `send` adds to what is to be sent. -/
lemma pumpTx_sent (s : TcpLiteSession) : s.pumpTx.log.sent = s.log.sent := by
  obtain ⟨_, _, _, _, _, _, _, _, e⟩ := pumpTx_frame s
  rw [e]

/-- `tick` takes no new bytes to send. -/
lemma tick_sent (s : TcpLiteSession) : s.tick.log.sent = s.log.sent := by
  have flush : ∀ t : TcpLiteSession, t.flushAck.log.sent = t.log.sent := by
    intro t
    obtain ⟨_, _, e⟩ := flushAck_frame t
    rw [e]
  obtain ⟨queue, e⟩ := resend_foldl (s.tape 0).tsc s.timedOut { s with tape := s.rest }
  rw [tick, flush, pumpTx_sent, e]

section Pump

variable {s : TcpLiteSession}

/-- A round of `pump_tx` does not take packets back. -/
lemma pumpSend_packets {u : TcpLiteSession} {r : Option ℕ} (e : s.pumpSend = (u, r)) :
    s.log.packets.length ≤ u.log.packets.length := by
  unfold Log.packets
  rcases pumpSend_wire e with ⟨_, same, _⟩ | ⟨_, more⟩
  · rw [same]
  · rw [more, List.filter_append, List.map_append, List.length_append]
    exact Nat.le_add_right _ _

/-- `pump_tx` logs nothing when it clears its bytes. -/
lemma pumpReset_log (s : TcpLiteSession) : s.pumpReset.log = s.log := by
  obtain ⟨_, _, e, _⟩ := pumpReset_frame s
  rw [e]

/-- `pump_tx` makes a packet if there are bytes, a place in the window and a buffer. -/
lemma pumpTx_grows (op : s.pumpOpen = true) (free : (s.pool.callerOps (s.tape 0).ops).free ≠ []) :
    s.log.packets.length < s.pumpTx.log.packets.length := by
  unfold pumpTx
  rw [pumpReset_log]
  have run := pumpTx_runs s
  generalize Loop.loop pumpRound (window + 1) s = r at run
  cases run with
  | done e =>
    rcases pumpRound_done e with ⟨closed, _⟩ | ⟨_, full⟩
    · rw [op] at closed
      cases closed
    · rcases pumpSend_wire full with ⟨_, _, none, _⟩ | ⟨some, _⟩
      · exact absurd none free
      · cases some
  | @yield _ t _ e rest =>
    obtain ⟨u, plen, _, sent, rfl⟩ := pumpRound_yield e
    have first : s.log.packets.length < (u.pumpAdvance plen).log.packets.length := by
      rcases pumpSend_wire sent with ⟨none, _⟩ | ⟨_, more⟩
      · cases none
      · show _ < u.log.packets.length
        unfold Log.packets
        rw [more, List.filter_append, List.map_append, List.length_append]
        exact Nat.lt_add_one _
    refine rest.inv (I := fun t => s.log.packets.length < t.log.packets.length) ?_ ?_ first
    · intro t r lt e
      rcases pumpRound_done e with ⟨_, rfl⟩ | ⟨_, sent⟩
      · exact lt
      · exact lt_of_lt_of_le lt (pumpSend_packets sent)
    · intro t t' lt e
      obtain ⟨u, plen, _, sent, rfl⟩ := pumpRound_yield e
      show s.log.packets.length < u.log.packets.length
      exact lt_of_lt_of_le lt (pumpSend_packets sent)

/-- `pump_tx` stops for want of bytes, of a place in the window, or of a buffer. -/
lemma pumpTx_stop (s : TcpLiteSession) : s.pumpTx.pumpOpen = false ∨ s.pumpTx.pool.free = [] := by
  unfold pumpTx
  obtain ⟨t, e⟩ := (pumpTx_runs s).last
  generalize Loop.loop pumpRound (window + 1) s = r at e
  rcases pumpRound_done e with ⟨closed, rfl⟩ | ⟨_, full⟩
  · left
    unfold pumpReset
    split
    · rfl
    · exact closed
  · right
    obtain ⟨_, _, e', _⟩ := pumpReset_frame r
    rw [e']
    rcases pumpSend_wire full with ⟨_, _, _, none⟩ | ⟨some, _⟩
    · exact none
    · cases some

end Pump

/-! ## Receiving -/

section Reading

variable {m : ℕ → BitVec 8} {p : BufferPool} {buf : ℕ} {seq ack : BitVec 32} {bs : Bytes}

/-- A data packet in a buffer is seen as such. -/
lemma IsPacket.dataIn (h : IsPacket seq ack bs) (mem : p.read buf bs.length = bs) :
    dataIn (p.view buf) = some (seq, payloadOf bs) := by
  obtain ⟨payload, pos, le, rfl⟩ := h
  have len : (BitVec.ofNat 16 payload.length).toNat = payload.length := by
    rw [BitVec.toNat_ofNat]
    exact Nat.mod_eq_of_lt (lt_of_le_of_lt le (by decide))
  rw [payloadOf_encode]
  rw [TcpLiteHeader.length_encode] at mem
  have read := readChecked_encode mem len
  have payload' := readPayload_encode mem
  have seq' : ((TcpLiteHeader.makeData seq ack (BitVec.ofNat 16 payload.length)).computeChecksum
      payload).seqNum = seq := rfl
  have len' : ((TcpLiteHeader.makeData seq ack (BitVec.ofNat 16 payload.length)).computeChecksum
      payload).payloadLen.toNat = payload.length := len
  generalize (TcpLiteHeader.makeData seq ack (BitVec.ofNat 16 payload.length)).computeChecksum payload = hd
    at read seq' len'
  simp [TcpLite.dataIn, read, seq', len', payload', pos]

/-- A pure ACK has no data. -/
lemma dataIn_makeAck (mem : p.read buf (TcpLiteHeader.makeAck seq ack).toBytes.length
      = (TcpLiteHeader.makeAck seq ack).toBytes) : dataIn (p.view buf) = none := by
  obtain ⟨hd, read, _, _, len⟩ := makeAck_read mem
  unfold dataIn
  rw [read]
  simp [len]

/-- A datagram that passes the check, with its ACK number. -/
def CarriesAck (ack : BitVec 32) (d : Bytes) : Prop :=
  d.length ≤ mtu ∧ ∀ (p : BufferPool) (buf : ℕ), p.read buf d.length = d →
    ∃ hd, readChecked.run (p.view buf) = (hd, true) ∧ hd.ackNum = ack ∧ hd.flags = tcpAck

/-- A data packet carries an ACK. -/
lemma IsPacket.carriesAck (h : IsPacket seq ack bs) : CarriesAck ack bs := by
  refine ⟨h.length_le, ?_⟩
  intro p buf mem
  obtain ⟨hd, read, num, flags, _⟩ := h.read mem
  exact ⟨hd, read, num, flags⟩

/-- A pure ACK carries an ACK. -/
lemma carriesAck_makeAck (seq ack : BitVec 32) :
    CarriesAck ack (TcpLiteHeader.makeAck seq ack).toBytes := by
  refine ⟨?_, ?_⟩
  · rw [TcpLiteHeader.length_toBytes]
    exact Nat.le_add_right _ _
  · intro p buf mem
    obtain ⟨hd, read, num, flags, _⟩ := makeAck_read mem
    exact ⟨hd, read, num, flags⟩

end Reading

section Pending

/-- The ACK part leaves `pending_ack_` alone. -/
lemma receiveAck_pending (s : TcpLiteSession) (h : TcpLiteHeader) :
    (s.receiveAck h).pendingAck = s.pendingAck := by
  unfold receiveAck
  split
  · rw [(pumpTx_sends _).2.1]
    obtain ⟨_, _, e⟩ := takeAck_frame s h.ackNum
    rw [e]
  · rfl

/-- An ACK is pending after a data packet. -/
lemma onPacketReceived_pending (s : TcpLiteSession) (buf : ℕ) :
    (s.onPacketReceived buf).pendingAck = (s.pendingAck || (dataIn (s.pool.view buf)).isSome) := by
  have view : (s.handOver buf).pool.view buf = s.pool.view buf := rfl
  unfold onPacketReceived dataIn
  dsimp only
  rw [view]
  obtain ⟨h, ok⟩ := readChecked.run (s.pool.view buf)
  have before : ((s.handOver buf).receiveAck h).pendingAck = s.pendingAck := receiveAck_pending _ h
  generalize (s.handOver buf).receiveAck h = t at before ⊢
  cases ok with
  | false => simp [TcpLiteSession.release, handOver]
  | true =>
    by_cases pos : 0 < h.payloadLen.toNat
    · simp [TcpLiteSession.release, receiveData, pos]
    · simp [TcpLiteSession.release, receiveData, pos, before]

/-- Without data there is no callback, and so nothing more to send. -/
lemma onPacketReceived_sent {s : TcpLiteSession} {buf : ℕ} (none : dataIn (s.pool.view buf) = none) :
    (s.onPacketReceived buf).log.sent = s.log.sent := by
  have view : (s.handOver buf).pool.view buf = s.pool.view buf := rfl
  have before : ∀ h, ((s.handOver buf).receiveAck h).log.sent = s.log.sent := by
    intro h
    unfold receiveAck
    split
    · rw [pumpTx_sent]
      obtain ⟨_, _, e⟩ := takeAck_frame (s.handOver buf) h.ackNum
      rw [e]
      rfl
    · rfl
  unfold dataIn at none
  unfold onPacketReceived
  dsimp only
  rw [view]
  generalize readChecked.run (s.pool.view buf) = r at none ⊢
  obtain ⟨h, ok⟩ := r
  cases ok with
  | false => rfl
  | true =>
    by_cases pos : 0 < h.payloadLen.toNat
    · simp [pos] at none
    · simp only [receiveData, pos, if_true, if_false]
      exact before h

end Pending

section Delivery

variable {size n : ℕ} {s t : TcpLiteSession} {d : Bytes} {seq ack : BitVec 32}

/-- A datagram arrives: the program copies it to a buffer and passes the buffer on. -/
lemma deliver_cases (e : s.deliver d = some t) (fit : d.length ≤ s.pool.bufferSize) :
    ∃ buf ops, (s.program ops s.tape).onPacketReceived buf = t ∧
      buf ∈ (s.program ops s.tape).pool.caller ∧ (s.program ops s.tape).pool.read buf d.length = d := by
  obtain ⟨⟨buf, u⟩, arr, received⟩ := Option.map_eq_some_iff.mp e
  refine ⟨buf, [.acquire, .fill buf d], ?_⟩
  suffices eq : s.program [.acquire, .fill buf d] s.tape = u ∧ buf ∈ u.pool.caller ∧
      u.pool.read buf d.length = d by
    rw [eq.1]
    exact ⟨received, eq.2⟩
  unfold TcpLiteSession.arrive at arr
  rcases acq : s.pool.acquire with ⟨_ | b, pool⟩
  · rw [acq] at arr
    cases arr
  · rw [acq] at arr
    cases arr
    have size : pool.bufferSize = s.pool.bufferSize := by
      have same := BufferPool.acquire_size (p := s.pool)
      rw [acq] at same
      exact same
    have first : s.pool.callerOp .acquire = { pool with caller := buf :: pool.caller } := by
      rw [BufferPool.callerOp, acq]
    have filled : s.pool.callerOps [.acquire, .fill buf d]
        = { pool.store buf d with caller := buf :: pool.caller } := by
      show (s.pool.callerOp .acquire).callerOp (.fill buf d) = _
      rw [first, BufferPool.callerOp, if_pos ⟨List.mem_cons_self, by rw [← size] at fit; exact fit⟩]
      rfl
    refine ⟨?_, List.mem_cons_self, BufferPool.read_store buf d⟩
    rw [program, filled]

/-- A delivery is a run of the session and the program around it. -/
lemma deliver_steps (e : s.deliver d = some t) (fit : d.length ≤ s.pool.bufferSize) :
    Config.Steps ⟨s, []⟩ ⟨t, []⟩ := by
  obtain ⟨buf, ops, received, mem, _⟩ := deliver_cases e fit
  have call := (onPacketReceived_execs buf (s.program ops s.tape) []).steps
  rw [received] at call
  exact .head (.program ops s.tape trivial) (.head (.receive trivial mem) call)

/-- A `tick` keeps the sending side in order. -/
lemma Sender.tick (h : Sender size n s []) : Sender size n s.tick [] :=
  (Sender.run (c := ⟨s, []⟩) h trivial (.head (.tick trivial) (tick_execs s []).steps)).1

/-- So does a delivery. -/
lemma Sender.deliver (h : Sender size n s []) (e : s.deliver d = some t) (fit : d.length ≤ mtu) :
    Sender size n t [] :=
  (Sender.run (c := ⟨s, []⟩) h trivial (deliver_steps e (fit.trans h.mtu_le))).1

/-- A delivery starts with the ACK part of `on_packet_received`. -/
lemma deliver_starts (h : Sender size n s []) (carries : CarriesAck ack d) (e : s.deliver d = some t) :
    ∃ u pool buf plen s' new, u = { s with pool := pool } ∧ Sender size n u [.receive buf] ∧
      Case u (.receive buf) s' new ∧ Config.Execs ⟨s', new⟩ ⟨t, []⟩ ∧
      ((0 < (ack - s.sndUna).toInt ∧ s' = u.takeAck ack ∧ new = [.pumpTx, .receiveData buf plen]) ∨
        (¬ 0 < (ack - s.sndUna).toInt ∧ s' = u ∧ new = [.receiveData buf plen])) := by
  obtain ⟨fit, reads⟩ := carries
  obtain ⟨buf, ops, received, mem, read⟩ := deliver_cases e (fit.trans h.mtu_le)
  obtain ⟨hd, checked, num, flags⟩ := reads _ _ read
  have call : Sender size n ((s.program ops s.tape).handOver buf) [.receive buf] :=
    Sender.step (c := ⟨s.program ops s.tape, []⟩) (h.program ops s.tape) trivial (.receive trivial mem)
  have run := onPacketReceived_execs buf (s.program ops s.tape) []
  rw [received] at run
  have checked' : readChecked.run (((s.program ops s.tape).handOver buf).pool.view buf) = (hd, true) :=
    checked
  have same : (s.program ops s.tape).handOver buf
      = { s with pool := ((s.program ops s.tape).handOver buf).pool } := rfl
  have taken : ((s.program ops s.tape).handOver buf).ackTaken hd
      = decide (0 < (ack - s.sndUna).toInt) := by
    rw [ackTaken, flags, num]
    rfl
  generalize (s.program ops s.tape).handOver buf = u at call run checked' same taken
  rcases run.cases_head with eq | ⟨c, st, rest⟩
  · cases congrArg Config.stack eq
  · cases st with
    | step =>
      have code := exec_case u (.receive buf)
      generalize TcpLite.exec u (.receive buf) = r at code rest
      obtain ⟨s', new⟩ := r
      rw [List.append_nil] at rest
      refine ⟨u, u.pool, buf, hd.payloadLen.toNat, s', new, same, call, code, rest, ?_⟩
      cases code with
      | corrupt bad =>
        rw [checked'] at bad
        cases bad
      | ack ok yes =>
        obtain ⟨rfl, _⟩ := Prod.mk.inj (ok.symm.trans checked')
        rw [taken, decide_eq_true_eq] at yes
        exact .inl ⟨yes, congrArg (fun a => u.takeAck a) num, rfl⟩
      | noAck ok no =>
        obtain ⟨rfl, _⟩ := Prod.mk.inj (ok.symm.trans checked')
        rw [taken, decide_eq_false_iff_not] at no
        exact .inr ⟨no, rfl, rfl⟩

/-- A delivery to a session whose buffers hold a full packet. -/
lemma deliver_data (h : Sender size n s []) {ops : List CallerOp} {buf : ℕ}
    (received : (s.program ops s.tape).onPacketReceived buf = t)
    (mem : buf ∈ (s.program ops s.tape).pool.caller)
    (long : headerSize + (readChecked.run ((s.program ops s.tape).pool.view buf)).1.payloadLen.toNat
      ≤ mtu) :
    t.inbox = (match dataIn ((s.program ops s.tape).pool.view buf) with
      | some p => (s.inbox.store p.1 p.2).deliver
      | none => s.inbox) ∧
    t.pendingAck = (s.pendingAck || (dataIn ((s.program ops s.tape).pool.view buf)).isSome) := by
  have arrived : Sender size n (s.program ops s.tape) [] := h.program ops s.tape
  have calm : (s.program ops s.tape).Undisturbed buf := .inr ⟨arrived.mtu_le, long.trans arrived.mtu_le⟩
  have inbox := onPacketReceived_inbox fun k lt =>
    receiveAck_view arrived.toSegmented arrived.bufs mem calm _ lt
  have pending := onPacketReceived_pending (s.program ops s.tape) buf
  have same : (s.program ops s.tape).inbox = s.inbox := rfl
  have same' : (s.program ops s.tape).pendingAck = s.pendingAck := rfl
  rw [received, same] at inbox
  rw [received, same'] at pending
  generalize dataIn ((s.program ops s.tape).pool.view buf) = data at inbox pending ⊢
  cases data with
  | none => exact ⟨inbox, pending⟩
  | some p => exact ⟨inbox, pending⟩

/-- A data packet is delivered. -/
lemma deliver_packet (h : Sender size n s []) (e : s.deliver d = some t) (pkt : IsPacket seq ack d) :
    t.inbox = (s.inbox.store seq (payloadOf d)).deliver ∧ t.pendingAck = true := by
  obtain ⟨buf, ops, received, mem, read⟩ := deliver_cases e (pkt.length_le.trans h.mtu_le)
  obtain ⟨hd, read', _, _, len, _⟩ := pkt.read read
  have long : d.length = headerSize + (payloadOf d).length := by
    obtain ⟨payload, _, _, rfl⟩ := pkt
    rw [payloadOf_encode, TcpLiteHeader.length_encode]
  have done := deliver_data h received mem (by
    rw [read']
    show headerSize + hd.payloadLen.toNat ≤ mtu
    rw [len, ← long]
    exact pkt.length_le)
  rw [pkt.dataIn read, Option.isSome_some, Bool.or_true] at done
  exact done

/-- A pure ACK is delivered. -/
lemma deliver_ack (h : Sender size n s [])
    (e : s.deliver (TcpLiteHeader.makeAck seq ack).toBytes = some t) :
    t.inbox = s.inbox ∧ t.pendingAck = s.pendingAck ∧ t.log.sent = s.log.sent := by
  have fit : (TcpLiteHeader.makeAck seq ack).toBytes.length ≤ mtu := by
    rw [TcpLiteHeader.length_toBytes]
    exact Nat.le_add_right _ _
  obtain ⟨buf, ops, received, mem, read⟩ := deliver_cases e (fit.trans h.mtu_le)
  obtain ⟨hd, read', _, _, len⟩ := makeAck_read read
  have done := deliver_data h received mem (by
    rw [read']
    show headerSize + hd.payloadLen.toNat ≤ mtu
    rw [len]
    exact Nat.le_add_right _ _)
  have sent := onPacketReceived_sent (dataIn_makeAck read)
  rw [received] at sent
  rw [dataIn_makeAck read, Option.isSome_none, Bool.or_false] at done
  exact ⟨done.1, done.2, sent⟩

end Delivery

end UxNet.TcpLite
