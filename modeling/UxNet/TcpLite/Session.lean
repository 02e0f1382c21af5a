import UxNet.Lib.Loop
import UxNet.TcpLite.Bitmap

/-!
# TCP-Lite session

`TcpLiteSession` of `tcp_lite.cpp`. Each method is cut at the points where it leaves the session's own
code, that is around every `transmit_` and `data_cb_` call; the pieces between the cuts are the
definitions of the first part. The second part puts them together to the methods, for a `transmit_`
that does not call back into the session and a data callback that may call `send`.

What the session cannot know is on a tape: `Choice` holds a `rdtsc` reading, what the rest of the
program does to the pool before an `acquire` (so that the pool may be found empty at any moment), and
the byte strings a data callback passes to `send`. The two conversions between cycles and nanoseconds
are floating point in the source and enter as functions. Sockets are left out: `transmit_` is always
replaced. `Log` is history that no method reads: the bytes passed to `send`, everything passed to
`transmit_`, and everything passed to the data callback.
-/

namespace UxNet.TcpLite

/-- What the environment decides at one point of a call. -/
structure Choice where
  tsc : BitVec 64
  ops : List CallerOp
  sends : List Bytes

/-- The environment's decisions, in the order they are asked for. -/
abbrev Tape := ℕ → Choice

/-- Conversions of `rdtsc.h` between cycles and nanoseconds. -/
structure TscClock where
  cyclesToNs : BitVec 64 → BitVec 64
  nsToCycles : BitVec 64 → BitVec 64

/-- A clock of one cycle a nanosecond. -/
def TscClock.unit : TscClock where
  cyclesToNs := id
  nsToCycles := id

/-- An environment in which the time stands still and nothing happens. -/
def Tape.silent : Tape := fun _ => { tsc := 0, ops := [], sends := [] }

/-- Why a packet is transmitted. -/
inductive TxKind where
  | data
  | retransmit
  | ack
deriving DecidableEq, Repr

/-- One call of `transmit_`. -/
structure Transmission where
  kind : TxKind
  bytes : Bytes
deriving DecidableEq, Repr

/-- History of a session. -/
structure Log where
  sent : Bytes
  wire : List Transmission
  delivered : List Bytes

/-- The packets first transmitted for the sequence numbers `0, 1, …`. -/
def Log.packets (l : Log) : List Bytes := (l.wire.filter (·.kind = .data)).map (·.bytes)

/-- `class TcpLiteSession`. -/
structure TcpLiteSession where
  pool : BufferPool
  clock : TscClock
  rtoNs : BitVec 64
  unacked : UnackedQueue
  pendingTx : Bytes
  txOff : ℕ
  nextSeq : BitVec 32
  sndUna : BitVec 32
  recvBitmap : RecvBitmap
  reasm : Fin window → Bytes
  pendingAck : Bool
  bytesSent : BitVec 64
  bytesReceived : BitVec 64
  retransmits : BitVec 64
  rttNs : BitVec 64
  tape : Tape
  log : Log

/-- The 16 header bytes at the start of a buffer. -/
def readHeader : Access TcpLiteHeader := do
  let bs ← Access.bytes 0 headerSize
  pure (TcpLiteHeader.ofBytes bs)

/-- `h->seq_num`. -/
def readSeq : Access (BitVec 32) := do
  let b0 ← Access.byte 0
  let b1 ← Access.byte 1
  let b2 ← Access.byte 2
  let b3 ← Access.byte 3
  pure (of32 b0 b1 b2 b3)

/-- The `plen` bytes after the header. -/
def readPayload (plen : ℕ) : Access Bytes := Access.bytes headerSize plen

/-- The header of a received buffer and the verdict of `h->verify_checksum(payload, plen)`. -/
def readChecked : Access (TcpLiteHeader × Bool) := do
  let h ← readHeader
  let payload ← readPayload h.payloadLen.toNat
  pure (h, h.verifyChecksum payload)

/-- The sequence number and payload of a packet that `mark_received` accepts. -/
def fetchData (bitmap : RecvBitmap) (plen : ℕ) : Access (Option (BitVec 32 × Bytes)) := do
  let seq ← readSeq
  if (bitmap.markReceived seq).1 then
    let payload ← readPayload plen
    pure (some (seq, payload))
  else pure none

section ReadBack

variable {m : ℕ → BitVec 8} {h : TcpLiteHeader} {payload : Bytes}

/-- The header that is read is the one that was written. -/
lemma readHeader_encode (mem : (List.range (headerSize + payload.length)).map m = h.encode payload) :
    readHeader.run m = h.computeChecksum payload := by
  have cut : (List.range headerSize).map m = (h.computeChecksum payload).toBytes := by
    have e := congrArg (List.take headerSize) mem
    rw [← List.map_take, List.take_range, Nat.min_eq_left (by omega)] at e
    rw [e, TcpLiteHeader.encode, List.take_left' (TcpLiteHeader.length_toBytes _)]
  have back := (h.computeChecksum payload).ofBytes_toBytes []
  rw [List.append_nil, ← cut] at back
  simpa [readHeader, Access.run_bytes] using back

/-- The payload that is read is the one that was written. -/
lemma readPayload_encode (mem : (List.range (headerSize + payload.length)).map m = h.encode payload) :
    (readPayload payload.length).run m = payload := by
  have cut := congrArg (List.drop headerSize) mem
  rw [TcpLiteHeader.encode, List.drop_left' (TcpLiteHeader.length_toBytes _), List.range_add,
    List.map_append, List.drop_left' (by simp), List.map_map] at cut
  rw [readPayload, Access.run_bytes]
  exact cut

/-- A packet that lies in a buffer as it was encoded passes the check. -/
lemma readChecked_encode (mem : (List.range (headerSize + payload.length)).map m = h.encode payload)
    (len : h.payloadLen.toNat = payload.length) :
    readChecked.run m = (h.computeChecksum payload, true) := by
  have len' : (h.computeChecksum payload).payloadLen.toNat = payload.length := len
  simp [readChecked, readHeader_encode mem, len', readPayload_encode mem,
    TcpLiteHeader.verifyChecksum_computeChecksum]

/-- The number that is read is the one that was written. -/
lemma readSeq_encode (mem : (List.range (headerSize + payload.length)).map m = h.encode payload) :
    readSeq.run m = h.seqNum := by
  have e := readHeader_encode mem
  have seq := congrArg TcpLiteHeader.seqNum e
  simpa [readHeader, Access.run_bytes, TcpLiteHeader.ofBytes, readSeq,
    TcpLiteHeader.computeChecksum, headerSize, List.range_succ] using seq

/-- What the data part of `on_packet_received` sees of a buffer. -/
lemma fetchData_run (bitmap : RecvBitmap) {plen : ℕ} {seq : BitVec 32} (hseq : readSeq.run m = seq)
    (hpay : (readPayload plen).run m = payload) :
    (fetchData bitmap plen).run m
      = if (bitmap.markReceived seq).1 then some (seq, payload) else none := by
  rw [fetchData, Access.run_bind, hseq]
  split
  · rw [Access.run_bind, hpay, Access.run_pure]
  · rw [Access.run_pure]

end ReadBack

namespace TcpLiteSession

/-- A session as constructed. -/
def new (pool : BufferPool) (clock : TscClock) (rtoNs : BitVec 64) (tape : Tape) :
    TcpLiteSession where
  pool := pool
  clock := clock
  rtoNs := rtoNs
  unacked := .new
  pendingTx := []
  txOff := 0
  nextSeq := 0
  sndUna := 0
  recvBitmap := .new
  reasm := fun _ => []
  pendingAck := false
  bytesSent := 0
  bytesReceived := 0
  retransmits := 0
  rttNs := 0
  tape := tape
  log := { sent := [], wire := [], delivered := [] }

/-- The tape after one decision has been read off it. -/
def rest (s : TcpLiteSession) : Tape := fun n => s.tape (n + 1)

/-- `transmit_(bytes)`. -/
def transmit (kind : TxKind) (bytes : Bytes) (s : TcpLiteSession) : TcpLiteSession :=
  { s with log := { s.log with wire := s.log.wire ++ [{ kind := kind, bytes := bytes }] } }

/-- `send` up to its call of `pump_tx`. -/
def append (data : Bytes) (s : TcpLiteSession) : TcpLiteSession :=
  { s with
    pendingTx := s.pendingTx ++ data
    log := { s.log with sent := s.log.sent ++ data } }

/-- The loop test of `pump_tx`. -/
def pumpOpen (s : TcpLiteSession) : Bool :=
  s.txOff < s.pendingTx.length && (s.nextSeq - s.sndUna).toNat < window

/-- The payload length `pump_tx` chooses for the next packet. -/
def pumpLen (s : TcpLiteSession) : ℕ := min (s.pendingTx.length - s.txOff) maxPayload

/-- The payload of the next packet. -/
def pumpPayload (s : TcpLiteSession) : Bytes := (s.pendingTx.drop s.txOff).take s.pumpLen

/-- The next packet, header and payload. -/
def pumpPacket (s : TcpLiteSession) : Bytes :=
  (TcpLiteHeader.makeData s.nextSeq s.recvBitmap.cumulativeAck (BitVec.ofNat 16 s.pumpLen)).encode
    s.pumpPayload

/-- A round of `pump_tx` through its `transmit_` call. The result is the payload length, or nothing
if the pool is exhausted. -/
def pumpSend (s : TcpLiteSession) : TcpLiteSession × Option ℕ :=
  let c := s.tape 0
  -- the rest of the program may have used the pool in the meantime
  match (s.pool.callerOps c.ops).acquire with
  | (none, pool) => ({ s with pool := pool, tape := s.rest }, none)
  | (some buf, pool) =>
    let packet := s.pumpPacket
    let qp := s.unacked.markSent s.nextSeq buf c.tsc (pool.store buf packet)
    (transmit .data packet { s with pool := qp.2, unacked := qp.1, tape := s.rest },
      some s.pumpLen)

/-- A round of `pump_tx` after its `transmit_` call. -/
def pumpAdvance (plen : ℕ) (s : TcpLiteSession) : TcpLiteSession :=
  { s with
    bytesSent := s.bytesSent + BitVec.ofNat 64 plen
    txOff := s.txOff + plen
    nextSeq := s.nextSeq + 1 }

/-- The end of `pump_tx`, after its loop. -/
def pumpReset (s : TcpLiteSession) : TcpLiteSession :=
  if s.txOff > 0 && s.txOff == s.pendingTx.length then { s with pendingTx := [], txOff := 0 } else s

/-- The RTT estimate after an ACK whose newest packet was sent at `sent`. -/
def rttSample (sent : BitVec 64) (s : TcpLiteSession) : TcpLiteSession :=
  if sent ≠ 0 then
    let sample := s.clock.cyclesToNs ((s.tape 0).tsc - sent)
    { s with
      rttNs := if s.rttNs ≠ 0 then (7 * s.rttNs + sample) / 8 else sample
      tape := s.rest }
  else s

/-- Whether `on_packet_received` takes the ACK number of a header. -/
def ackTaken (h : TcpLiteHeader) (s : TcpLiteSession) : Bool :=
  h.flags &&& tcpAck ≠ 0 && 0 < (h.ackNum - s.sndUna).toInt

/-- `on_packet_received`: a cumulative ACK that is taken, up to the call of `pump_tx`. -/
def takeAck (ack : BitVec 32) (s : TcpLiteSession) : TcpLiteSession :=
  let r := s.unacked.markAcked ack s.pool
  rttSample r.1 { s with unacked := r.2.1, pool := r.2.2, sndUna := ack }

/-- `on_packet_received`: put the payload of a buffer in its reassembly slot. -/
def storeData (buf plen : ℕ) (s : TcpLiteSession) : TcpLiteSession :=
  match (fetchData s.recvBitmap plen).run (s.pool.view buf) with
  | some (seq, payload) =>
    { s with
      recvBitmap := (s.recvBitmap.markReceived seq).2
      reasm := Function.update s.reasm (slotIdx seq) payload }
  | none => s

/-- The loop test of `deliver_in_order`. -/
def deliverOpen (s : TcpLiteSession) : Bool := s.recvBitmap.has s.recvBitmap.baseSeq

/-- A round of `deliver_in_order` through its `data_cb_` call. -/
def deliverCall (s : TcpLiteSession) : TcpLiteSession :=
  { s with
    tape := s.rest
    log := { s.log with
      delivered := s.log.delivered ++ [s.reasm (slotIdx s.recvBitmap.baseSeq)] } }

/-- A round of `deliver_in_order` after its `data_cb_` call; `seq` is the local of that round. -/
def deliverAdvance (seq : BitVec 32) (s : TcpLiteSession) : TcpLiteSession :=
  { s with
    bytesReceived := s.bytesReceived + BitVec.ofNat 64 (s.reasm (slotIdx seq)).length
    reasm := Function.update s.reasm (slotIdx seq) []
    recvBitmap := s.recvBitmap.advance (seq + 1) }

/-- Give a received buffer back. -/
def release (site : Site) (buf : ℕ) (s : TcpLiteSession) : TcpLiteSession :=
  { s with pool := s.pool.release site buf }

/-- `tick`: the sequence numbers to send again. -/
def timedOut (s : TcpLiteSession) : List (BitVec 32) :=
  s.unacked.checkTimeouts (s.tape 0).tsc (s.clock.nsToCycles s.rtoNs)

/-- `tick`: after a retransmission. -/
def resent (now : BitVec 64) (seq : BitVec 32) (s : TcpLiteSession) : TcpLiteSession :=
  { s with
    unacked := s.unacked.touch seq now
    retransmits := s.retransmits + 1 }

/-- `tick`: the pure ACK. -/
def ackPacket (s : TcpLiteSession) : Bytes :=
  (TcpLiteHeader.makeAck s.nextSeq s.recvBitmap.cumulativeAck).toBytes

variable (s : TcpLiteSession)

/-- `pump_tx` drops the pending bytes only once all of them are packets. -/
lemma pumpReset_frame : ∃ pending off, s.pumpReset = { s with pendingTx := pending, txOff := off } ∧
    pending.drop off = s.pendingTx.drop s.txOff ∧ (off ≤ pending.length ↔ s.txOff ≤ s.pendingTx.length) := by
  unfold pumpReset
  split
  · rename_i full
    simp only [Bool.and_eq_true, beq_iff_eq] at full
    refine ⟨[], 0, rfl, ?_, ?_⟩
    · rw [full.2]
      simp
    · simp [full.2]
  · exact ⟨s.pendingTx, s.txOff, rfl, rfl, Iff.rfl⟩

/-- A sample of the RTT changes nothing else. -/
lemma rttSample_frame (sent : BitVec 64) :
    ∃ rtt tape, s.rttSample sent = { s with rttNs := rtt, tape := tape } := by
  unfold rttSample
  split
  · exact ⟨_, _, rfl⟩
  · exact ⟨s.rttNs, s.tape, rfl⟩

/-- Taking an ACK is `mark_acked` and the new `snd_una_`. -/
lemma takeAck_frame (ack : BitVec 32) : ∃ rtt tape, s.takeAck ack = { s with
      unacked := (s.unacked.markAcked ack s.pool).2.1
      pool := (s.unacked.markAcked ack s.pool).2.2
      sndUna := ack
      rttNs := rtt
      tape := tape } := by
  unfold takeAck
  generalize s.unacked.markAcked ack s.pool = r
  exact rttSample_frame _ r.1

/-- An ACK that is taken becomes `snd_una_`. -/
lemma takeAck_una (ack : BitVec 32) : (s.takeAck ack).sndUna = ack := by
  obtain ⟨_, _, e⟩ := takeAck_frame s ack
  rw [e]

/-- Storing a packet changes the receive side only. -/
lemma storeData_frame (buf plen : ℕ) :
    ∃ bitmap reasm, s.storeData buf plen = { s with recvBitmap := bitmap, reasm := reasm } := by
  unfold storeData
  split
  · exact ⟨_, _, rfl⟩
  · exact ⟨s.recvBitmap, s.reasm, rfl⟩

/-! ## Methods -/

/-- The loop body of `pump_tx`. -/
def pumpRound (s : TcpLiteSession) : ForInStep TcpLiteSession :=
  if s.pumpOpen then
    match s.pumpSend with
    | (t, none) => .done t
    | (t, some plen) => .yield (t.pumpAdvance plen)
  else .done s

/-- `TcpLiteSession::pump_tx`. -/
def pumpTx (s : TcpLiteSession) : TcpLiteSession := (Loop.loop pumpRound (window + 1) s).pumpReset

/-- `TcpLiteSession::send`. -/
def send (data : Bytes) (s : TcpLiteSession) : TcpLiteSession := (s.append data).pumpTx

/-- The loop body of `deliver_in_order`; the data callback makes the `send` calls of the tape. -/
def deliverRound (s : TcpLiteSession) : ForInStep TcpLiteSession :=
  if s.deliverOpen then
    let t := (s.tape 0).sends.foldl (fun t data => t.send data) s.deliverCall
    .yield (t.deliverAdvance s.recvBitmap.baseSeq)
  else .done s

/-- `TcpLiteSession::deliver_in_order`. -/
def deliverInOrder (s : TcpLiteSession) : TcpLiteSession := Loop.loop deliverRound (window + 1) s

/-- The buffer passes from the caller to `on_packet_received`. -/
def handOver (buf : ℕ) (s : TcpLiteSession) : TcpLiteSession :=
  { s with pool := { s.pool with
      caller := s.pool.caller.erase buf
      handed := s.pool.handed ++ [buf] } }

/-- `TcpLiteSession::on_packet_received`: the data part. -/
def receiveData (buf plen : ℕ) (s : TcpLiteSession) : TcpLiteSession :=
  if plen > 0 then { (s.storeData buf plen).deliverInOrder with pendingAck := true } else s

/-- `TcpLiteSession::on_packet_received`: the ACK part. -/
def receiveAck (h : TcpLiteHeader) (s : TcpLiteSession) : TcpLiteSession :=
  if s.ackTaken h then (s.takeAck h.ackNum).pumpTx else s

/-- `TcpLiteSession::on_packet_received`. -/
def onPacketReceived (buf : ℕ) (s : TcpLiteSession) : TcpLiteSession :=
  let s := s.handOver buf
  -- the length that is checked and copied is the one in the header, not `buf->len`
  let r := readChecked.run (s.pool.view buf)
  if r.2 then
    ((s.receiveAck r.1).receiveData buf r.1.payloadLen.toNat).release .received buf
  else s.release .corrupt buf

/-- One round of the retransmission loop of `tick`. -/
def resend (now : BitVec 64) (s : TcpLiteSession) (seq : BitVec 32) : TcpLiteSession :=
  match s.unacked.bufferFor seq with
  | some b => (s.transmit .retransmit (s.pool.content b)).resent now seq
  | none => s

/-- `tick`: the last part. -/
def flushAck (s : TcpLiteSession) : TcpLiteSession :=
  if s.pendingAck then { s.transmit .ack s.ackPacket with pendingAck := false } else s

/-- `TcpLiteSession::tick`. -/
def tick (s : TcpLiteSession) : TcpLiteSession :=
  (s.timedOut.foldl (resend (s.tape 0).tsc) { s with tape := s.rest }).pumpTx.flushAck

/-- `TcpLiteSession::~TcpLiteSession`: the session's own call of `release_all`, and the one of the
destructor of its `unacked_` member. -/
def destroy (s : TcpLiteSession) : UnackedQueue × BufferPool :=
  let qp := s.unacked.releaseAll s.pool
  qp.1.releaseAll qp.2

/-- A datagram is copied to a fresh buffer of the session's pool, as the test program's `deliver`
does; nothing if the pool is exhausted. -/
def arrive (bytes : Bytes) (s : TcpLiteSession) : Option (ℕ × TcpLiteSession) :=
  match s.pool.acquire with
  | (none, _) => none
  | (some buf, pool) =>
    some (buf, { s with pool := { pool.store buf bytes with caller := buf :: pool.caller } })

/-- A datagram is copied to a fresh buffer and handed to the session. -/
def deliver (bytes : Bytes) (s : TcpLiteSession) : Option TcpLiteSession :=
  (s.arrive bytes).map fun r => r.2.onPacketReceived r.1

end TcpLiteSession

end UxNet.TcpLite
