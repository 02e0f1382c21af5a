import UxNet.TcpLite.Frames

/-!
# What `on_packet_received` reads of a datagram

`receiveReads` is the list of indices of `buf->data` that a call of `on_packet_received` reads. It is
never compared with `buf->len`: the length of what is read comes from the `payload_len` field of the
header itself. The second part compares two runs, on memories that differ outside the datagram.
-/

namespace UxNet.TcpLite

namespace TcpLiteSession

/-- The indices of `buf->data` that the data part of `on_packet_received` reads. -/
def dataReads (buf plen : ℕ) (s : TcpLiteSession) : List ℕ :=
  if plen > 0 then (fetchData s.recvBitmap plen).reads (s.pool.view buf) else []

/-- The indices of `buf->data` that `on_packet_received` reads. -/
def receiveReads (buf : ℕ) (s : TcpLiteSession) : List ℕ :=
  let s := s.handOver buf
  let r := readChecked.run (s.pool.view buf)
  readChecked.reads (s.pool.view buf) ++
    if r.2 then (s.receiveAck r.1).dataReads buf r.1.payloadLen.toNat else []

end TcpLiteSession

open TcpLiteSession

/-- The `payload_len` field in a memory. -/
def payloadLenAt (m : ℕ → BitVec 8) : ℕ := (of16 (m 10) (m 11)).toNat

/-- The length in the header, as it is read. -/
lemma readChecked_payloadLen (m : ℕ → BitVec 8) :
    (readChecked.run m).1.payloadLen.toNat = payloadLenAt m := by
  simp [readChecked, readHeader, Access.run_bytes, TcpLiteHeader.ofBytes, payloadLenAt, headerSize,
    List.range_succ]

/-- The checksum is computed over the header and as many bytes as the header says. -/
lemma readChecked_reads (m : ℕ → BitVec 8) :
    readChecked.reads m = List.range (headerSize + payloadLenAt m) := by
  have len := readChecked_payloadLen m
  simp only [readChecked, Access.run_bind, Access.run_pure] at len
  simp only [readChecked, readPayload, Access.reads_bind, Access.reads_pure, len, List.append_nil,
    Access.reads_bytes]
  have header : readHeader.reads m = List.range' 0 headerSize := by
    simp [readHeader, Access.reads_bytes]
  rw [header, List.range_eq_range', ← List.range'_append_1]
  simp

/-- The data part reads nothing that was not under the checksum. -/
lemma fetchData_reads_lt (bitmap : RecvBitmap) (plen : ℕ) (m : ℕ → BitVec 8) {i : ℕ}
    (mem : i ∈ (fetchData bitmap plen).reads m) : i < headerSize + plen := by
  have seq : readSeq.reads m = [0, 1, 2, 3] := rfl
  rw [fetchData, Access.reads_bind, seq, List.mem_append] at mem
  rcases mem with mem | mem
  · simp only [List.mem_cons, List.not_mem_nil, or_false] at mem
    show i < 16 + plen
    omega
  · split at mem
    · simp only [readPayload, Access.reads_bind, Access.reads_bytes, Access.reads_pure,
        List.append_nil, List.mem_range'_1] at mem
      omega
    · simp at mem

/-- A call stays inside the datagram exactly if the length in the header does. -/
lemma receiveReads_lt_iff (buf len : ℕ) (s : TcpLiteSession) :
    (∀ i ∈ s.receiveReads buf, i < len) ↔ headerSize + payloadLenAt (s.pool.view buf) ≤ len := by
  have view : (s.handOver buf).pool.view buf = s.pool.view buf := rfl
  unfold receiveReads
  dsimp only
  rw [view, readChecked_reads, readChecked_payloadLen]
  constructor
  · intro h
    have last := h (headerSize + payloadLenAt (s.pool.view buf) - 1) (List.mem_append_left _ (by
      rw [List.mem_range]
      show 16 + payloadLenAt (s.pool.view buf) - 1 < 16 + _
      omega))
    show 16 + payloadLenAt (s.pool.view buf) ≤ len
    have last' : 16 + payloadLenAt (s.pool.view buf) - 1 < len := last
    omega
  · intro le i mem
    rcases List.mem_append.mp mem with mem | mem
    · exact lt_of_lt_of_le (List.mem_range.mp mem) le
    · split at mem
      · unfold dataReads at mem
        split at mem
        · exact lt_of_lt_of_le (fetchData_reads_lt _ _ _ mem) le
        · simp at mem
      · simp at mem

/-! ## Two memories -/

/-- Two pools that differ at most in the bytes at the addresses `D`. -/
def Alike (D : Set ℕ) (p p' : BufferPool) : Prop :=
  ∃ m, p' = { p with mem := m } ∧ ∀ a ∉ D, m a = p.mem a

namespace Alike

variable {D : Set ℕ} {p p' : BufferPool}

/-- Pools that are alike give the same buffer. -/
lemma acquire (h : Alike D p p') :
    p'.acquire.1 = p.acquire.1 ∧ Alike D p.acquire.2 p'.acquire.2 := by
  obtain ⟨m, rfl, agree⟩ := h
  unfold BufferPool.acquire
  cases p.free with
  | nil => exact ⟨rfl, m, rfl, agree⟩
  | cons i rest => exact ⟨rfl, m, rfl, agree⟩

/-- Releasing a buffer keeps them alike. -/
lemma release (h : Alike D p p') (site : Site) (i : ℕ) :
    Alike D (p.release site i) (p'.release site i) := by
  obtain ⟨m, rfl, agree⟩ := h
  exact ⟨m, rfl, agree⟩

/-- So does releasing the buffer of a slot. -/
lemma releaseBuf (h : Alike D p p') (site : Site) (buf : Option ℕ) :
    Alike D (TcpLite.releaseBuf site buf p) (TcpLite.releaseBuf site buf p') := by
  cases buf with
  | none => exact h
  | some b => exact h.release site b

/-- So does writing a buffer. -/
lemma store (h : Alike D p p') (i : ℕ) (bs : Bytes) : Alike D (p.store i bs) (p'.store i bs) := by
  obtain ⟨m, rfl, agree⟩ := h
  refine ⟨_, rfl, ?_⟩
  intro a notin
  simp only [BufferPool.store, agree a notin]

/-- So does an operation of the caller. -/
lemma callerOp (h : Alike D p p') (op : CallerOp) : Alike D (p.callerOp op) (p'.callerOp op) := by
  have caller : p'.caller = p.caller ∧ p'.bufferSize = p.bufferSize := by
    obtain ⟨m, rfl, _⟩ := h
    exact ⟨rfl, rfl⟩
  cases op with
  | acquire =>
    obtain ⟨same, alike⟩ := h.acquire
    unfold BufferPool.callerOp
    rcases e : p.acquire with ⟨_ | i, q⟩
    · rcases e' : p'.acquire with ⟨_ | i', q'⟩
      · rw [e, e'] at alike
        exact alike
      · rw [e, e'] at same
        cases same
    · rcases e' : p'.acquire with ⟨_ | i', q'⟩
      · rw [e, e'] at same
        cases same
      · rw [e, e'] at same alike
        cases same
        obtain ⟨m, rfl, agree⟩ := alike
        exact ⟨m, rfl, agree⟩
  | fill i bs =>
    simp only [BufferPool.callerOp, caller]
    split
    · exact h.store i bs
    · exact h
  | release i =>
    simp only [BufferPool.callerOp, caller]
    split
    · obtain ⟨m, rfl, agree⟩ := h
      exact ⟨m, rfl, agree⟩
    · exact h

/-- So do all of them. -/
lemma callerOps (h : Alike D p p') (ops : List CallerOp) :
    Alike D (p.callerOps ops) (p'.callerOps ops) := by
  unfold BufferPool.callerOps
  induction ops generalizing p p' with
  | nil => exact h
  | cons op ops ih => exact ih (h.callerOp op)

/-- `mark_sent` does the same to both. -/
lemma markSent (h : Alike D p p') (seq : BitVec 32) (buf : ℕ) (tsc : BitVec 64) (q : UnackedQueue) :
    (q.markSent seq buf tsc p').1 = (q.markSent seq buf tsc p).1 ∧
      Alike D (q.markSent seq buf tsc p).2 (q.markSent seq buf tsc p').2 := by
  refine ⟨rfl, ?_⟩
  unfold UnackedQueue.markSent
  dsimp only
  split
  · exact h.releaseBuf _ _
  · exact h

/-- `mark_acked` looks at no byte of the pool. -/
lemma markAcked (h : Alike D p p') (upTo : BitVec 32) (q : UnackedQueue) :
    ∃ p₁, q.markAcked upTo p' = ((q.markAcked upTo p).1, (q.markAcked upTo p).2.1, p₁) ∧
      Alike D (q.markAcked upTo p).2.2 p₁ := by
  have scan : ∀ (ks : List (Fin window)) (a : UnackedQueue.AckScan) (p₀ : BufferPool),
      Alike D a.pool p₀ →
      ∃ p₁, ks.foldl (UnackedQueue.ackSlot upTo) { a with pool := p₀ }
          = { ks.foldl (UnackedQueue.ackSlot upTo) a with pool := p₁ } ∧
        Alike D (ks.foldl (UnackedQueue.ackSlot upTo) a).pool p₁ := by
    intro ks
    induction ks with
    | nil => exact fun a p₀ alike => ⟨p₀, rfl, alike⟩
    | cons k ks ih =>
      intro a p₀ alike
      have round : ∃ p₁, UnackedQueue.ackSlot upTo { a with pool := p₀ } k
            = { UnackedQueue.ackSlot upTo a k with pool := p₁ } ∧
          Alike D (UnackedQueue.ackSlot upTo a k).pool p₁ := by
        unfold UnackedQueue.ackSlot
        dsimp only
        split
        · unfold UnackedQueue.AckScan.note
          dsimp only
          split
          · exact ⟨_, rfl, alike.releaseBuf _ _⟩
          · exact ⟨_, rfl, alike.releaseBuf _ _⟩
        · exact ⟨p₀, rfl, alike⟩
      obtain ⟨p₁, e, alike₁⟩ := round
      rw [List.foldl_cons, List.foldl_cons, e]
      exact ih _ p₁ alike₁
  obtain ⟨p₁, e, alike⟩ := scan (List.finRange window)
    { queue := q, pool := p, newestTsc := 0, newestSeq := 0, any := false } p' h
  unfold UnackedQueue.markAcked
  dsimp only at e ⊢
  rw [e]
  generalize (List.finRange window).foldl (UnackedQueue.ackSlot upTo) _ = r at alike ⊢
  exact ⟨p₁, rfl, alike⟩

end Alike

/-- Two sessions that differ at most in the bytes of their pools at the addresses `D`. -/
def Twin (D : Set ℕ) (s s' : TcpLiteSession) : Prop :=
  ∃ p', s' = { s with pool := p' } ∧ Alike D s.pool p'

namespace Twin

variable {D : Set ℕ} {s s' : TcpLiteSession}

/-- Appending bytes keeps the sessions alike. -/
lemma append (h : Twin D s s') (data : Bytes) : Twin D (s.append data) (s'.append data) := by
  obtain ⟨p', rfl, alike⟩ := h
  exact ⟨p', rfl, alike⟩

/-- So does clearing them. -/
lemma pumpReset (h : Twin D s s') : Twin D s.pumpReset s'.pumpReset := by
  obtain ⟨p', rfl, alike⟩ := h
  unfold TcpLiteSession.pumpReset
  dsimp only
  split
  · exact ⟨p', rfl, alike⟩
  · exact ⟨p', rfl, alike⟩

/-- The packets `pump_tx` makes come from `pending_tx_`, not from the pool. -/
lemma pumpSend (h : Twin D s s') :
    s'.pumpSend.2 = s.pumpSend.2 ∧ Twin D s.pumpSend.1 s'.pumpSend.1 := by
  obtain ⟨p', rfl, alike⟩ := h
  obtain ⟨same, alike'⟩ := (alike.callerOps (s.tape 0).ops).acquire
  unfold TcpLiteSession.pumpSend
  dsimp only
  rcases e : (s.pool.callerOps (s.tape 0).ops).acquire with ⟨r, q⟩
  rcases e' : (p'.callerOps (s.tape 0).ops).acquire with ⟨r', q'⟩
  rw [e, e'] at same alike'
  dsimp only at same alike'
  subst same
  cases r' with
  | none => exact ⟨rfl, q', rfl, alike'⟩
  | some buf =>
    have marked := ((alike'.store buf s.pumpPacket).markSent s.nextSeq buf (s.tape 0).tsc
      s.unacked).2
    exact ⟨rfl, _, rfl, marked⟩

/-- A round of `pump_tx` does the same in both. -/
lemma pumpRound (h : Twin D s s') : Loop.Both (Twin D) s.pumpRound s'.pumpRound := by
  have op : s'.pumpOpen = s.pumpOpen := by
    obtain ⟨p', rfl, _⟩ := h
    rfl
  obtain ⟨same, twin⟩ := h.pumpSend
  unfold TcpLiteSession.pumpRound
  rw [op]
  split
  · rcases e : s.pumpSend with ⟨t, r⟩
    rcases e' : s'.pumpSend with ⟨t', r'⟩
    rw [e, e'] at same twin
    dsimp only at same twin
    subst same
    cases r' with
    | none => exact .done twin
    | some plen =>
      obtain ⟨p', rfl, alike⟩ := twin
      exact .yield ⟨p', rfl, alike⟩
  · exact .done h

/-- So does `pump_tx`. -/
lemma pumpTx (h : Twin D s s') : Twin D s.pumpTx s'.pumpTx :=
  (Loop.loop_both (fun _ _ => pumpRound) h (window + 1)).pumpReset

/-- So do the calls of `send`. -/
lemma sends (h : Twin D s s') (ds : List Bytes) :
    Twin D (ds.foldl (fun t data => t.send data) s) (ds.foldl (fun t data => t.send data) s') := by
  induction ds generalizing s s' with
  | nil => exact h
  | cons d ds ih => exact ih (h.append d).pumpTx

/-- A round of `deliver_in_order` does the same in both. -/
lemma deliverRound (h : Twin D s s') : Loop.Both (Twin D) s.deliverRound s'.deliverRound := by
  have call : Twin D s.deliverCall s'.deliverCall := by
    obtain ⟨p', rfl, alike⟩ := h
    exact ⟨p', rfl, alike⟩
  obtain ⟨p', rfl, alike⟩ := h
  unfold TcpLiteSession.deliverRound
  have op : deliverOpen { s with pool := p' } = s.deliverOpen := rfl
  rw [op]
  split
  · obtain ⟨q', e, alike'⟩ := call.sends (s.tape 0).sends
    dsimp only
    rw [e]
    exact .yield ⟨q', rfl, alike'⟩
  · exact .done ⟨p', rfl, alike⟩

/-- So does `deliver_in_order`. -/
lemma deliverInOrder (h : Twin D s s') : Twin D s.deliverInOrder s'.deliverInOrder :=
  Loop.loop_both (fun _ _ => deliverRound) h (window + 1)

/-- So does the ACK part. -/
lemma receiveAck (h : Twin D s s') (hd : TcpLiteHeader) :
    Twin D (s.receiveAck hd) (s'.receiveAck hd) := by
  obtain ⟨p', rfl, alike⟩ := h
  unfold TcpLiteSession.receiveAck
  have taken : ackTaken hd { s with pool := p' } = s.ackTaken hd := rfl
  rw [taken]
  split
  · apply pumpTx
    obtain ⟨p₁, e, alike₁⟩ := alike.markAcked hd.ackNum s.unacked
    unfold TcpLiteSession.takeAck
    dsimp only
    rw [e]
    generalize s.unacked.markAcked hd.ackNum s.pool = r at alike₁ ⊢
    unfold TcpLiteSession.rttSample
    dsimp only
    split
    · exact ⟨p₁, rfl, alike₁⟩
    · exact ⟨p₁, rfl, alike₁⟩
  · exact ⟨p', rfl, alike⟩

/-- The bytes of a buffer that both pools have. -/
lemma view (h : Twin D s s') {buf n : ℕ} (out : ∀ i < n, buf * s.pool.bufferSize + i ∉ D) {i : ℕ}
    (lt : i < n) : s.pool.view buf i = s'.pool.view buf i := by
  obtain ⟨p', rfl, m, rfl, agree⟩ := h
  exact (agree _ (out i lt)).symm

/-- So does the data part, if the packet is read outside of what differs. -/
lemma receiveData (h : Twin D s s') (buf plen : ℕ)
    (out : ∀ i < headerSize + plen, buf * s.pool.bufferSize + i ∉ D) :
    Twin D (s.receiveData buf plen) (s'.receiveData buf plen) := by
  have same : (fetchData s'.recvBitmap plen).run (s'.pool.view buf)
      = (fetchData s.recvBitmap plen).run (s.pool.view buf) := by
    have bitmap : s'.recvBitmap = s.recvBitmap := by
      obtain ⟨p', rfl, _⟩ := h
      rfl
    rw [bitmap]
    refine (Access.run_congr _ ?_).1.symm
    intro i mem
    exact h.view out (fetchData_reads_lt _ _ _ mem)
  have stored : Twin D (s.storeData buf plen) (s'.storeData buf plen) := by
    unfold storeData
    rw [same]
    obtain ⟨p', rfl, alike⟩ := h
    split
    · exact ⟨p', rfl, alike⟩
    · exact ⟨p', rfl, alike⟩
  unfold TcpLiteSession.receiveData
  split
  · obtain ⟨q', e, alike⟩ := stored.deliverInOrder
    rw [e]
    exact ⟨q', rfl, alike⟩
  · exact h

end Twin

/-- The ACK part does not change the size of the buffers. -/
lemma receiveAck_size (hd : TcpLiteHeader) (s : TcpLiteSession) :
    (s.receiveAck hd).pool.bufferSize = s.pool.bufferSize := by
  unfold receiveAck
  split
  · apply pumpTx_ind (R := fun t => t.pool.bufferSize = s.pool.bufferSize)
    · intro t u r ht _ e
      unfold pumpSend at e
      have acq := (BufferPool.acquire_size (p := t.pool.callerOps (t.tape 0).ops)).trans
        ((BufferPool.callerOps_size _).trans ht)
      rcases ha : (t.pool.callerOps (t.tape 0).ops).acquire with ⟨_ | buf, q⟩
      · simp only [ha, Prod.mk.injEq] at e
        rw [ha] at acq
        obtain ⟨rfl, _⟩ := e
        exact acq
      · simp only [ha, Prod.mk.injEq] at e
        rw [ha] at acq
        obtain ⟨rfl, _⟩ := e
        simp only [transmit, UnackedQueue.markSent]
        split
        · exact (releaseBuf_memory _ _ _).2.trans acq
        · exact acq
    · exact fun t plen ht => ht
    · intro t ht
      obtain ⟨_, _, e, _⟩ := pumpReset_frame t
      rw [e]
      exact ht
    · obtain ⟨_, _, e⟩ := takeAck_frame s hd.ackNum
      rw [e]
      dsimp only
      rw [(UnackedQueue.markAcked_memory _ _ _).2]
  · rfl

/-- On a datagram that covers the length its header gives, two runs of `on_packet_received` whose
memories differ only outside the datagram differ only there. -/
lemma onPacketReceived_twin {D : Set ℕ} {s s' : TcpLiteSession} {buf : ℕ} (h : Twin D s s')
    (out : ∀ i < headerSize + payloadLenAt (s.pool.view buf), buf * s.pool.bufferSize + i ∉ D) :
    Twin D (s.onPacketReceived buf) (s'.onPacketReceived buf) := by
  have hand : Twin D (s.handOver buf) (s'.handOver buf) := by
    obtain ⟨p', rfl, m, rfl, agree⟩ := h
    exact ⟨_, rfl, m, rfl, agree⟩
  have same : readChecked.run (s'.pool.view buf) = readChecked.run (s.pool.view buf) := by
    refine (Access.run_congr _ ?_).1.symm
    intro i mem
    rw [readChecked_reads, List.mem_range] at mem
    exact h.view out mem
  have view : (s.handOver buf).pool.view buf = s.pool.view buf := rfl
  have view' : (s'.handOver buf).pool.view buf = s'.pool.view buf := rfl
  unfold onPacketReceived
  dsimp only
  rw [view, view', same]
  have len := readChecked_payloadLen (s.pool.view buf)
  split
  · have data := (hand.receiveAck (readChecked.run (s.pool.view buf)).1).receiveData buf
      (readChecked.run (s.pool.view buf)).1.payloadLen.toNat (by
        rw [receiveAck_size, len]
        exact out)
    obtain ⟨p', e, alike⟩ := data
    rw [e]
    exact ⟨_, rfl, alike.release _ _⟩
  · obtain ⟨p', e, alike⟩ := hand
    rw [e]
    exact ⟨_, rfl, alike.release _ _⟩

/-- For every session and every buffer: a call of `on_packet_received` reads only bytes of the datagram,
and depends on nothing else in the memory, exactly if the header and the payload length it gives lie
within `buf->len`. -/
theorem reads_inside_datagram_iff (s : TcpLiteSession) (buf : ℕ) :
    ((∀ i ∈ s.receiveReads buf, i < (s.pool.len buf).toNat) ∧
      ∀ m : ℕ → BitVec 8,
        (∀ i < (s.pool.len buf).toNat, m (buf * s.pool.bufferSize + i) = s.pool.view buf i) →
        ∃ m', onPacketReceived buf { s with pool := { s.pool with mem := m } }
            = { s.onPacketReceived buf with
                pool := { (s.onPacketReceived buf).pool with mem := m' } } ∧
          ∀ a, m a = s.pool.mem a → m' a = (s.onPacketReceived buf).pool.mem a) ↔
    headerSize + payloadLenAt (s.pool.view buf) ≤ (s.pool.len buf).toNat := by
  rw [receiveReads_lt_iff]
  constructor
  · exact fun h => h.1
  · intro le
    refine ⟨le, ?_⟩
    intro m same
    have twin : Twin { a | m a ≠ s.pool.mem a } s { s with pool := { s.pool with mem := m } } :=
      ⟨_, rfl, m, rfl, fun a notin => by simpa using notin⟩
    obtain ⟨p', e, m', rfl, agree⟩ := onPacketReceived_twin twin
      fun i lt ne => ne (same i (lt_of_lt_of_le lt le))
    exact ⟨m', e, fun a eq => agree a (by simpa using eq)⟩

/-- A packet of an earlier use of a buffer. -/
def stalePacket : Bytes := (TcpLiteHeader.makeData 0 0 1).encode [7]

/-- A fresh session over a given memory, whose caller holds buffer 0 with an empty datagram. -/
def emptyDatagram (mem : ℕ → BitVec 8) : TcpLiteSession :=
  .new ((BufferPool.new 32 1 mem).callerOps [.acquire]) .unit 0 .silent

/-- An empty datagram in a recycled buffer: the call reads the stale packet behind it and hands its
payload to the data callback, and does not if the stale bytes are zero. -/
theorem stale_packet_received :
    (emptyDatagram fun a => stalePacket.getD a 0).pool.len 0 = 0 ∧
    0 ∈ (emptyDatagram fun a => stalePacket.getD a 0).receiveReads 0 ∧
    ((emptyDatagram fun a => stalePacket.getD a 0).onPacketReceived 0).log.delivered = [[7]] ∧
    ((emptyDatagram fun _ => 0).onPacketReceived 0).log.delivered = [] := by
  decide +kernel

end UxNet.TcpLite
