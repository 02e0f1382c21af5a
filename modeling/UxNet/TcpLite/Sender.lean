import UxNet.Pool.Contents
import UxNet.TcpLite.Ownership
import UxNet.TcpLite.Segments

/-!
# The sending side of a session

`Sender` is what holds of a session as a sender whatever packets it receives, if its buffers are large
enough: what is passed to `send` is `Segmented`, and each packet that is still in the queue of
unacknowledged packets lies in its buffer as it was first transmitted. It is kept by every step of the
session as long as no round of `pump_tx` starts inside another one; the memory part rests on
`exec_untouched`, by which a step changes no buffer that is in use before and after it.
-/

namespace UxNet.TcpLite

open TcpLiteSession

section Reading

variable {seq ack : BitVec 32} {bs : Bytes} {p : BufferPool} {buf : ℕ}

/-- What `on_packet_received` reads of a data packet. -/
lemma IsPacket.read (h : IsPacket seq ack bs) (mem : p.read buf bs.length = bs) :
    ∃ hd, readChecked.run (p.view buf) = (hd, true) ∧ hd.ackNum = ack ∧ hd.flags = tcpAck ∧
      hd.payloadLen.toNat = (payloadOf bs).length ∧ 0 < (payloadOf bs).length := by
  obtain ⟨payload, pos, le, rfl⟩ := h
  have len : (BitVec.ofNat 16 payload.length).toNat = payload.length := by
    rw [BitVec.toNat_ofNat]
    exact Nat.mod_eq_of_lt (lt_of_le_of_lt le (by decide))
  rw [payloadOf_encode]
  rw [TcpLiteHeader.length_encode] at mem
  exact ⟨_, readChecked_encode mem len, rfl, rfl, len, pos⟩

/-- What `on_packet_received` reads of a pure ACK. -/
lemma makeAck_read (mem : p.read buf (TcpLiteHeader.makeAck seq ack).toBytes.length
      = (TcpLiteHeader.makeAck seq ack).toBytes) :
    ∃ hd, readChecked.run (p.view buf) = (hd, true) ∧ hd.ackNum = ack ∧ hd.flags = tcpAck ∧
      hd.payloadLen.toNat = 0 := by
  rw [TcpLiteHeader.makeAck_toBytes, TcpLiteHeader.length_encode] at mem
  exact ⟨_, readChecked_encode mem rfl, rfl, rfl, rfl⟩

end Reading

section Untouched

variable {size n i : ℕ} {p : BufferPool} {q : UnackedQueue} {hs : List ℕ}

/-- A buffer in use is neither free nor with the caller. -/
lemma Owned.in_use (h : Owned size n p q hs) (use : 0 < q.holds i + hs.count i) :
    i ∉ p.free ∧ i ∉ p.caller := by
  have once := h.once i
  have le : (if i < n then 1 else 0) ≤ 1 := by
    split
    · exact le_refl 1
    · exact Nat.zero_le 1
  constructor
  · intro mem
    have := List.count_pos_iff.mpr mem
    omega
  · intro mem
    have := List.count_pos_iff.mpr mem
    omega

/-- `mark_acked` touches only what it frees. -/
lemma markAcked_untouched (upTo : BitVec 32) (q : UnackedQueue) (p : BufferPool)
    (out : i ∉ (q.markAcked upTo p).2.2.free) : Untouched p (q.markAcked upTo p).2.2 i := by
  have scan : ∀ (ks : List (Fin window)) (a : UnackedQueue.AckScan),
      (∀ b ∈ a.pool.free, b ∈ (ks.foldl (UnackedQueue.ackSlot upTo) a).pool.free) ∧
      (i ∉ (ks.foldl (UnackedQueue.ackSlot upTo) a).pool.free →
        Untouched a.pool (ks.foldl (UnackedQueue.ackSlot upTo) a).pool i) := by
    intro ks
    induction ks with
    | nil => exact fun a => ⟨fun _ mem => mem, fun _ => .refl _ _⟩
    | cons k ks ih =>
      intro a
      have round : (∀ b ∈ a.pool.free, b ∈ (UnackedQueue.ackSlot upTo a k).pool.free) ∧
          (i ∉ (UnackedQueue.ackSlot upTo a k).pool.free →
            Untouched a.pool (UnackedQueue.ackSlot upTo a k).pool i) := by
        have drop : ∀ buf, (∀ b ∈ a.pool.free, b ∈ (releaseBuf .acked buf a.pool).free) ∧
            (i ∉ (releaseBuf .acked buf a.pool).free →
              Untouched a.pool (releaseBuf .acked buf a.pool) i) := by
          intro buf
          cases buf with
          | none => exact ⟨fun _ mem => mem, fun _ => .refl _ _⟩
          | some b =>
            refine ⟨fun _ mem => List.mem_cons_of_mem b mem, ?_⟩
            intro notin
            exact .release _ (List.ne_of_not_mem_cons notin)
        unfold UnackedQueue.ackSlot UnackedQueue.AckScan.note
        dsimp only
        split
        · split
          · exact drop _
          · exact drop _
        · exact ⟨fun _ mem => mem, fun _ => .refl _ _⟩
      obtain ⟨sub, same⟩ := ih (UnackedQueue.ackSlot upTo a k)
      rw [List.foldl_cons]
      refine ⟨fun b mem => sub b (round.1 b mem), ?_⟩
      intro notin
      exact (round.2 fun mem => notin (sub i mem)).trans (same notin)
  have all := scan (List.finRange window)
    { queue := q, pool := p, newestTsc := 0, newestSeq := 0, any := false }
  unfold UnackedQueue.markAcked at out ⊢
  dsimp only at out ⊢
  generalize (List.finRange window).foldl (UnackedQueue.ackSlot upTo) _ = r at all out ⊢
  exact all.2 out

/-- In a free slot `mark_sent` releases nothing. -/
lemma markSent_of_free {seq : BitVec 32} (free : (q.slots (slotIdx seq)).occupied = false) (buf : ℕ)
    (tsc : BitVec 64) (p : BufferPool) :
    q.markSent seq buf tsc p
      = (q.set (slotIdx seq) { buf := some buf, sentTsc := tsc, seq := seq, occupied := true }, p) := by
  unfold UnackedQueue.markSent
  dsimp only
  rw [free]
  rfl

variable {s s' : TcpLiteSession} {f : Frame} {new fs : List Frame}

/-- In a window with room and no suspended round of `pump_tx`, the slot of the next packet is free. -/
lemma Buffers.slot_free (h : Buffers size n ⟨s, f :: fs⟩) (idle : pumps (f :: fs) = [])
    (op : s.pumpOpen = true) : (s.unacked.slots (slotIdx s.nextSeq)).occupied = false := by
  have live : Live s.unacked s.sndUna (s.nextSeq + BitVec.ofNat 32 (pumps (f :: fs)).length) := h.live
  rw [idle] at live
  have live' : Live s.unacked s.sndUna s.nextSeq := by simpa using live
  exact live'.free (pumpOpen_window op).2

/-- A step changes no buffer that is in use before and after it. -/
lemma exec_untouched (c : Case s f s' new) (h : Buffers size n ⟨s, f :: fs⟩) (fits : mtu ≤ size)
    (idle : Pumping s f → pumps fs = [])
    (before : 0 < s.unacked.holds i + (held (f :: fs)).count i)
    (after : 0 < s'.unacked.holds i + (held (new ++ fs)).count i) :
    Untouched s.pool s'.pool i := by
  have owned' : Owned size n s'.pool s'.unacked (held (new ++ fs)) := (h.exec c idle).owned
  have out := (owned'.in_use after).1
  obtain ⟨free, caller⟩ := h.owned.in_use before
  cases c with
  | pumpStop _ =>
    obtain ⟨_, _, e, _⟩ := pumpReset_frame s
    rw [e]
    exact .refl _ _
  | pumpFull _ none =>
    obtain ⟨_, _, e, _⟩ := pumpReset_frame { s with pool := _, tape := s.rest }
    rw [e]
    exact (Untouched.callerOps _ free caller).1.trans (.acquire (by rw [none]))
  | @pumpSend buf pool queue pool' op some marked =>
    have nil := idle (pumping_of_acquire op some)
    obtain ⟨same, free', _⟩ := Untouched.callerOps (s.tape 0).ops free caller
    have acq : Untouched _ pool i := .acquire (by rw [some])
    obtain ⟨rest, hf, _⟩ := BufferPool.acquire_some some
    rw [markSent_of_free (h.slot_free nil op), Prod.mk.injEq] at marked
    rw [← marked.2]
    refine (same.trans acq).trans (.store ?_ ?_)
    · rintro rfl
      exact free' (hf ▸ List.mem_cons_self)
    · have eq : pool.bufferSize = size := (same.trans acq).size.trans h.owned.size_eq
      rw [eq]
      exact (pumpPacket_length_le s).trans fits
  | corrupt _ => exact .release _ (List.ne_of_not_mem_cons out)
  | @ack buf hd _ _ =>
    obtain ⟨_, _, e⟩ := takeAck_frame s hd.ackNum
    rw [e] at out ⊢
    exact markAcked_untouched _ _ _ out
  | store _ =>
    obtain ⟨_, _, e⟩ := storeData_frame s _ _
    rw [e]
    exact .refl _ _
  | noData => exact .release _ (List.ne_of_not_mem_cons out)
  | received => exact .release _ (List.ne_of_not_mem_cons out)
  | _ => exact .refl _ _

end Untouched

/-! ## The invariant -/

/-- What holds of a session as a sender, with `fs` its active calls. -/
structure Sender (size n : ℕ) (s : TcpLiteSession) (fs : List Frame) : Prop extends Segmented s fs where
  bufs : Buffers size n ⟨s, fs⟩
  fits : mtu ≤ size
  stored : ∀ k i, (s.unacked.slots k).occupied = true → (s.unacked.slots k).buf = some i →
    ∃ j, (s.unacked.slots k).seq = BitVec.ofNat 32 j ∧
      s.log.packets[j]? = some (s.pool.content i) ∧ s.log.packets.length ≤ j + 256

/-- What a step transmits, and why. -/
inductive Sends (s : TcpLiteSession) : Frame → TxKind → Bytes → Prop where
  | data :
    Pumping s .pumpTx →
    Sends s .pumpTx .data s.pumpPacket
  | retransmit {now seq seqs b} :
    s.unacked.bufferFor seq = some b →
    Sends s (.resend now (seq :: seqs)) .retransmit (s.pool.content b)
  | ack :
    Sends s .tickAck .ack s.ackPacket

/-- What is transmitted is a new packet, one that is held, or a pure ACK. -/
lemma Sends.cases {s : TcpLiteSession} {f : Frame} {kind : TxKind} {bytes : Bytes}
    (h : Sends s f kind bytes) :
    (kind = .data ∧ Pumping s f ∧ bytes = s.pumpPacket) ∨
    (kind = .retransmit ∧ ∃ seq b, s.unacked.bufferFor seq = some b ∧ bytes = s.pool.content b) ∨
    (kind = .ack ∧ bytes = s.ackPacket) := by
  cases h with
  | data pumping => exact .inl ⟨rfl, pumping, rfl⟩
  | retransmit hb => exact .inr (.inl ⟨rfl, _, _, hb, rfl⟩)
  | ack => exact .inr (.inr ⟨rfl, rfl⟩)

/-- A step transmits at most one packet. -/
lemma Case.wire {s s' : TcpLiteSession} {f : Frame} {new : List Frame} (c : Case s f s' new) :
    s'.log.wire = s.log.wire ∨ ∃ kind bytes fs, Sends s f kind bytes ∧
      s'.log.wire = s.log.wire ++ [{ kind := kind, bytes := bytes }] ∧ new = .transmitting :: fs := by
  cases c with
  | pumpStop _ =>
    obtain ⟨_, _, e, _⟩ := pumpReset_frame s
    rw [e]
    exact .inl rfl
  | pumpFull _ _ =>
    obtain ⟨_, _, e, _⟩ := pumpReset_frame { s with pool := _, tape := s.rest }
    rw [e]
    exact .inl rfl
  | pumpSend op acq _ => exact .inr ⟨_, _, _, .data (pumping_of_acquire op acq), rfl, rfl⟩
  | ack _ _ =>
    obtain ⟨_, _, e⟩ := takeAck_frame s _
    rw [e]
    exact .inl rfl
  | store _ =>
    obtain ⟨_, _, e⟩ := storeData_frame s _ _
    rw [e]
    exact .inl rfl
  | resend hb => exact .inr ⟨_, _, _, .retransmit hb, rfl, rfl⟩
  | tickAck _ => exact .inr ⟨_, _, _, .ack, rfl, rfl⟩
  | _ => exact .inl rfl

namespace Sender

variable {size n : ℕ} {s s' : TcpLiteSession} {f : Frame} {new fs fs' : List Frame}

/-- A packet that is held fits its buffer. -/
lemma content_length (h : Sender size n s fs) {k : Fin window} {i : ℕ}
    (occ : (s.unacked.slots k).occupied = true) (hb : (s.unacked.slots k).buf = some i) :
    (s.pool.len i).toNat ≤ s.pool.bufferSize := by
  obtain ⟨j, _, get, _⟩ := h.stored k i occ hb
  obtain ⟨ack, pkt⟩ := h.packets j _ get
  have le := pkt.length_le
  rw [BufferPool.content, BufferPool.read, List.length_map, List.length_range] at le
  rw [h.bufs.owned.size_eq]
  exact le.trans h.fits

/-- The buffers hold a full packet. -/
lemma mtu_le (h : Sender size n s fs) : mtu ≤ s.pool.bufferSize := by
  have eq : s.pool.bufferSize = size := h.bufs.owned.size_eq
  rw [eq]
  exact h.fits

/-- A buffer that an active call of `on_packet_received` holds is left alone by the others. -/
lemma untouched {buf : ℕ} (c : Case s f s' new) (h : Sender size n s (f :: fs))
    (idle : Pumping s f → pumps fs = []) (before : buf ∈ held (f :: fs))
    (after : buf ∈ held (new ++ fs)) :
    Untouched s.pool s'.pool buf :=
  exec_untouched c h.bufs h.fits idle (Nat.add_pos_right _ (List.count_pos_iff.mpr before))
    (Nat.add_pos_right _ (List.count_pos_iff.mpr after))

/-- The packets in the queue stay as they are through a step that adds none. -/
lemma stored_of_untouched (h : Sender size n s fs)
    (same : ∀ i, 0 < s.unacked.holds i → 0 < s'.unacked.holds i → Untouched s.pool s'.pool i)
    (slots : ∀ k, (s'.unacked.slots k).occupied = true →
      (s.unacked.slots k).occupied = true ∧ (s'.unacked.slots k).buf = (s.unacked.slots k).buf ∧
      (s'.unacked.slots k).seq = (s.unacked.slots k).seq)
    (packets : s'.log.packets = s.log.packets) :
    ∀ k i, (s'.unacked.slots k).occupied = true → (s'.unacked.slots k).buf = some i →
      ∃ j, (s'.unacked.slots k).seq = BitVec.ofNat 32 j ∧
        s'.log.packets[j]? = some (s'.pool.content i) ∧ s'.log.packets.length ≤ j + 256 := by
  intro k i occ' hb'
  obtain ⟨occ, buf, seq⟩ := slots k occ'
  have hb := buf.symm.trans hb'
  obtain ⟨j, hj, get, near⟩ := h.stored k i occ hb
  have keep := same i (UnackedQueue.holds_pos occ hb) (UnackedQueue.holds_pos occ' hb')
  refine ⟨j, seq.trans hj, ?_, ?_⟩
  · rw [packets, keep.content (h.content_length occ hb)]
    exact get
  · rw [packets]
    exact near

/-- A step that makes no packet. -/
lemma of_quiet (h : Sender size n s fs) (seg : Segmented s' fs') (bufs : Buffers size n ⟨s', fs'⟩)
    (same : ∀ i, 0 < s.unacked.holds i → 0 < s'.unacked.holds i → Untouched s.pool s'.pool i)
    (slots : ∀ k, (s'.unacked.slots k).occupied = true →
      (s.unacked.slots k).occupied = true ∧ (s'.unacked.slots k).buf = (s.unacked.slots k).buf ∧
      (s'.unacked.slots k).seq = (s.unacked.slots k).seq)
    (packets : s'.log.packets = s.log.packets) : Sender size n s' fs' :=
  ⟨seg, bufs, h.fits, h.stored_of_untouched same slots packets⟩

/-- A new packet. -/
lemma pumpSend {buf : ℕ} {pool pool' : BufferPool} {queue : UnackedQueue} (op : s.pumpOpen = true)
    (acq : (s.pool.callerOps (s.tape 0).ops).acquire = (some buf, pool))
    (marked : s.unacked.markSent s.nextSeq buf (s.tape 0).tsc (pool.store buf s.pumpPacket)
      = (queue, pool'))
    (h : Sender size n s (.pumpTx :: fs)) (idle : Pumping s .pumpTx → pumps fs = []) :
    Sender size n
      (transmit .data s.pumpPacket { s with pool := pool', unacked := queue, tape := s.rest })
      (.transmitting :: .pumpSent s.pumpLen :: fs) := by
  have nil := idle (pumping_of_acquire op acq)
  have bufs := h.bufs.exec (.pumpSend op acq marked) idle
  have step := fun i => exec_untouched (i := i) (.pumpSend op acq marked) h.bufs h.fits idle
  have packets := packets_transmit { s with pool := pool', unacked := queue, tape := s.rest } .data
    s.pumpPacket
  have next := h.nextSeq_eq (show pumps (.pumpTx :: fs) = [] from nil)
  have short : s.pumpPacket.length < 2 ^ 32 := lt_of_le_of_lt (pumpPacket_length_le s) (by decide)
  have free := h.bufs.slot_free (show pumps (.pumpTx :: fs) = [] from nil) op
  refine ⟨h.toSegmented.pumpSend op nil, bufs, h.fits, ?_⟩
  rw [packets, if_pos rfl]
  rw [markSent_of_free free, Prod.mk.injEq] at marked
  obtain ⟨rfl, rfl⟩ := marked
  intro k i occ hb
  by_cases hk : k = slotIdx s.nextSeq
  · subst hk
    have hi : i = buf := by
      have : some buf = some i := by simpa [transmit] using hb
      exact (Option.some.inj this).symm
    subst hi
    refine ⟨s.log.packets.length, by simp [transmit, next], ?_, by simp⟩
    rw [List.getElem?_concat_length]
    exact congrArg some (BufferPool.content_store short).symm
  · have occ₀ : (s.unacked.slots k).occupied = true := by
      simpa [transmit, s.unacked.set_slots_ne _ hk] using occ
    have hb₀ : (s.unacked.slots k).buf = some i := by
      simpa [transmit, s.unacked.set_slots_ne _ hk] using hb
    obtain ⟨j, seq, get, near⟩ := h.stored k i occ₀ hb₀
    have lt : j < s.log.packets.length := (List.getElem?_eq_some_iff.mp get).1
    have keep := step i (Nat.add_pos_left (UnackedQueue.holds_pos occ₀ hb₀) _)
      (Nat.add_pos_left (UnackedQueue.holds_pos occ hb) _)
    refine ⟨j, ?_, ?_, ?_⟩
    · simpa [transmit, s.unacked.set_slots_ne _ hk] using seq
    · rw [List.getElem?_append_left lt, get]
      exact congrArg some (keep.content (h.content_length occ₀ hb₀)).symm
    · -- a packet a full window back would be in the slot of the new one
      have own : slotIdx (BitVec.ofNat 32 j) = k := by
        rw [← seq]
        exact (h.bufs.live k occ₀).1
      have apart : j % 256 ≠ s.log.packets.length % 256 := by
        rw [← slotIdx_ofNat, ← slotIdx_ofNat, own, ← next]
        exact fun e => hk (Fin.ext e)
      rw [List.length_append]
      show s.log.packets.length + 1 ≤ j + 256
      omega

/-- The code between two callbacks keeps the sending side in order, as long as no round of `pump_tx`
starts inside another one. -/
lemma exec (c : Case s f s' new) (h : Sender size n s (f :: fs))
    (idle : Pumping s f → pumps fs = []) : Sender size n s' (new ++ fs) := by
  have seg := h.toSegmented.exec c idle
  have bufs := h.bufs.exec c idle
  have same : ∀ i, 0 < s.unacked.holds i → 0 < s'.unacked.holds i → Untouched s.pool s'.pool i := by
    intro i before after
    exact exec_untouched c h.bufs h.fits idle (Nat.add_pos_left before _) (Nat.add_pos_left after _)
  have slots : ∀ q : UnackedQueue, q = s.unacked → ∀ k, (q.slots k).occupied = true →
      (s.unacked.slots k).occupied = true ∧ (q.slots k).buf = (s.unacked.slots k).buf ∧
      (q.slots k).seq = (s.unacked.slots k).seq := by
    rintro q rfl k occ
    exact ⟨occ, rfl, rfl⟩
  cases c with
  | pumpStop _ =>
    obtain ⟨_, _, e, _⟩ := pumpReset_frame s
    rw [e] at seg bufs same ⊢
    exact h.of_quiet seg bufs same (slots _ rfl) rfl
  | pumpFull _ _ =>
    obtain ⟨_, _, e, _⟩ := pumpReset_frame { s with pool := _, tape := s.rest }
    rw [e] at seg bufs same ⊢
    exact h.of_quiet seg bufs same (slots _ rfl) rfl
  | pumpSend op acq marked => exact h.pumpSend op acq marked idle
  | @ack buf hd _ _ =>
    obtain ⟨_, _, e⟩ := takeAck_frame s hd.ackNum
    have acked := s.unacked.markAcked_slots hd.ackNum s.pool
    rw [e] at seg bufs same ⊢
    generalize s.unacked.markAcked hd.ackNum s.pool = r at seg bufs same acked ⊢
    refine h.of_quiet seg bufs same ?_ rfl
    intro k occ
    have eq := acked k
    unfold UnackedQueue.ackedSlot at eq
    split at eq
    · rw [eq] at occ
      cases occ
    · rw [eq] at occ ⊢
      exact ⟨occ, rfl, rfl⟩
  | store _ =>
    obtain ⟨_, _, e⟩ := storeData_frame s _ _
    rw [e] at seg bufs same ⊢
    exact h.of_quiet seg bufs same (slots _ rfl) rfl
  | @resend now seq seqs b _ =>
    have packets := packets_transmit s .retransmit (s.pool.content b)
    exact h.of_quiet seg bufs same (slots _ rfl) (packets.trans (List.append_nil _))
  | tickAck _ =>
    have packets := packets_transmit s .ack s.ackPacket
    exact h.of_quiet seg bufs same (slots _ rfl) (packets.trans (List.append_nil _))
  | @resent now seq seqs =>
    refine h.of_quiet seg bufs same ?_ rfl
    intro k occ
    obtain ⟨tsc, e⟩ := s.unacked.touch_slots seq now k
    have e' : (s.resent now seq).unacked.slots k = { s.unacked.slots k with sentTsc := tsc } := e
    rw [e'] at occ ⊢
    exact ⟨occ, rfl, rfl⟩
  | _ => exact h.of_quiet seg bufs same (slots _ rfl) rfl

/-- A fresh session holds nothing. -/
lemma fresh (size n : ℕ) (mem : ℕ → BitVec 8) (clock : TscClock) (rtoNs : BitVec 64) (tape : Tape)
    (fits : mtu ≤ size) : Sender size n (.new (.new size n mem) clock rtoNs tape) [] where
  toSegmented := .fresh _ clock rtoNs tape
  bufs := ⟨.new size n mem, .new _ _⟩
  fits := fits
  stored := by
    intro k i occ
    cases occ

/-- A call is made that holds no buffer. -/
lemma push {g : Frame} (h : Sender size n s fs) (idle : g.pumping = none) (free : g.holding = none) :
    Sender size n s (g :: fs) :=
  h.of_quiet (h.toSegmented.push idle) (h.bufs.push idle free) (fun _ _ _ => .refl _ _)
    (fun _ occ => ⟨occ, rfl, rfl⟩) rfl

/-- The rest of the program uses the pool. -/
lemma program (h : Sender size n s fs) (ops : List CallerOp) (tape : Tape) :
    Sender size n { s with pool := s.pool.callerOps ops, tape := tape } fs := by
  refine h.of_quiet ⟨h.next, h.room, h.chunks, h.packets⟩ ⟨h.bufs.owned.callerOps ops, h.bufs.live⟩ ?_
    (fun _ occ => ⟨occ, rfl, rfl⟩) rfl
  intro i use _
  obtain ⟨free, caller⟩ := h.bufs.owned.in_use (Nat.add_pos_left use _)
  exact (Untouched.callerOps ops free caller).1

/-- A datagram is copied to a buffer of the pool and handed to the session. -/
lemma arrive {bytes : Bytes} {buf : ℕ} (h : Sender size n s fs) (arr : s.arrive bytes = some (buf, s'))
    (fit : bytes.length ≤ size) :
    Sender size n (s'.handOver buf) (.receive buf :: fs) ∧
      (s'.handOver buf).pool.read buf bytes.length = bytes ∧
      ∀ i, 0 < s.unacked.holds i + (held fs).count i → Untouched s.pool (s'.handOver buf).pool i := by
  unfold TcpLiteSession.arrive at arr
  rcases acq : s.pool.acquire with ⟨_ | b, pool⟩
  · rw [acq] at arr
    cases arr
  · rw [acq] at arr
    cases arr
    obtain ⟨rest, hf, hp⟩ := BufferPool.acquire_some acq
    have taken : Owned size n { pool with caller := buf :: pool.caller } s.unacked (held fs) := by
      apply h.bufs.owned.of_acquire acq _ h.bufs.owned.full
      intro j
      rw [List.count_cons, hp]
      simp only [beq_iff_eq, eq_comm (a := buf)]
      omega
    have owned := (taken.store buf bytes).handOver List.mem_cons_self
    have same : ∀ i, 0 < s.unacked.holds i + (held fs).count i →
        Untouched s.pool (pool.store buf bytes) i := by
      intro i use
      obtain ⟨free, _⟩ := h.bufs.owned.in_use use
      have got : Untouched s.pool pool i := .acquire (by rw [acq])
      refine got.trans (.store ?_ ?_)
      · rintro rfl
        exact free (hf ▸ List.mem_cons_self)
      · rw [got.size, h.bufs.owned.size_eq]
        exact fit
    refine ⟨?_, BufferPool.read_store buf bytes, fun i use => ⟨(same i use).size, (same i use).view,
      (same i use).len⟩⟩
    refine h.of_quiet ⟨h.next, h.room, h.chunks, h.packets⟩ ⟨owned, h.bufs.live⟩ ?_
      (fun _ occ => ⟨occ, rfl, rfl⟩) rfl
    intro i use _
    have kept := same i (Nat.add_pos_left use _)
    exact ⟨kept.size, kept.view, kept.len⟩

/-- What `tick` sends again is a packet of the last window as it was first transmitted. -/
lemma bufferFor (h : Sender size n s fs) {seq : BitVec 32} {b : ℕ}
    (e : s.unacked.bufferFor seq = some b) :
    ∃ j, seq = BitVec.ofNat 32 j ∧ s.log.packets[j]? = some (s.pool.content b) ∧
      s.log.packets.length ≤ j + 256 := by
  unfold UnackedQueue.bufferFor UnackedQueue.occupied at e
  split at e
  · rename_i cond
    rw [Bool.and_eq_true, beq_iff_eq] at cond
    obtain ⟨j, hj, get, near⟩ := h.stored _ b cond.1 e
    exact ⟨j, cond.2.symm.trans hj, get, near⟩
  · cases e

/-- Every step keeps the sending side in order. -/
lemma step {c c' : Config} (h : Sender size n c.session c.stack) (quiet : Quiet c.stack)
    (st : Config.Step c c') : Sender size n c'.session c'.stack := by
  cases st with
  | exec ex =>
    cases ex with
    | @step s f fs => exact h.exec (exec_case s f) quiet.guard
  | send data _ => exact h.push rfl rfl
  | tick _ => exact h.push rfl rfl
  | receive _ mem =>
    exact h.of_quiet ⟨h.next, h.room, h.chunks, h.packets⟩ ⟨h.bufs.owned.handOver mem, h.bufs.live⟩
      (fun _ _ _ => ⟨rfl, fun _ _ => rfl, rfl⟩) (fun _ occ => ⟨occ, rfl, rfl⟩) rfl
  | program ops tape _ => exact h.program ops tape

/-- The sending side stays in order along every run, under arbitrary packets. -/
lemma run {c c' : Config} (h : Sender size n c.session c.stack) (quiet : Quiet c.stack)
    (run : Config.Steps c c') : Sender size n c'.session c'.stack ∧ Quiet c'.stack := by
  induction run with
  | refl => exact ⟨h, quiet⟩
  | tail _ st ih => exact ⟨ih.1.step ih.2 st, ih.2.step st⟩

end Sender

end UxNet.TcpLite
