import UxNet.Lib.Reassembly
import UxNet.TcpLite.Receiver

/-!
# The receive side as a reassembly window

`on_packet_received` sees of a buffer at most one data packet (`dataIn`), and what it does to the
receive side depends on nothing else: the packet is stored and everything that has become deliverable is
delivered (`onPacketReceived_inbox`). `Inbox.At` relates the receive side to the reassembly window of
`Lib/Reassembly.lean`, with the bitmap indexed from the base and the slots by the sequence number.

In between, the ACK part may run `pump_tx` while the packet still lies in its buffer. It is not
disturbed if nothing was ever passed to `send`, or if the buffers of the pool hold a full packet and it
lies within its own (`Undisturbed`). Nothing in the code sees to that, so the results about whole runs
have it as a hypothesis; `arrival_rewritten` is what happens without it.
-/

namespace UxNet.TcpLite

open TcpLiteSession Reassembly

/-! ## The receive side alone -/

namespace Inbox

/-- The data part of `on_packet_received`, up to `deliver_in_order`. -/
def store (seq : BitVec 32) (payload : Bytes) (b : Inbox) : Inbox :=
  if (b.bitmap.markReceived seq).1 then
    { b with
      bitmap := (b.bitmap.markReceived seq).2
      reasm := Function.update b.reasm (slotIdx seq) payload }
  else b

/-- A round of `deliver_in_order`. -/
def pass (b : Inbox) : Inbox where
  bitmap := b.bitmap.advance (b.bitmap.baseSeq + 1)
  reasm := Function.update b.reasm (slotIdx b.bitmap.baseSeq) []
  bytes := b.bytes + BitVec.ofNat 64 (b.reasm (slotIdx b.bitmap.baseSeq)).length
  delivered := b.delivered ++ [b.reasm (slotIdx b.bitmap.baseSeq)]

/-- The loop body of `deliver_in_order`. -/
def round (b : Inbox) : ForInStep Inbox :=
  if b.bitmap.has b.bitmap.baseSeq then .yield b.pass else .done b

/-- `deliver_in_order`. -/
def deliver (b : Inbox) : Inbox := Loop.loop round (window + 1) b

/-- Whether the base is received is its first bit. -/
lemma has_base (b : Inbox) : b.bitmap.has b.bitmap.baseSeq = b.bitmap.received.getLsbD 0 := by
  simp [RecvBitmap.has]

/-- The contiguous part bounds the rounds of `deliver_in_order`. -/
lemma deliver_runs (b : Inbox) : Loop.Runs round b b.deliver := by
  apply Loop.loop_runs fun b => contig b.bitmap.received
  · intro b t e
    unfold round at e
    split at e
    · rename_i bit
      cases e
      rw [has_base] at bit
      have shift := contig_shift bit
      rw [pass, RecvBitmap.advance_one]
      dsimp only
      omega
    · cases e
  · exact Nat.lt_succ_of_le (contig_le _)

end Inbox

/-- Callbacks that only call `send` do not show in what `deliver_in_order` does to the receive side. -/
lemma deliverInOrder_inbox (s : TcpLiteSession) : s.deliverInOrder.inbox = s.inbox.deliver := by
  unfold deliverInOrder Inbox.deliver
  apply Loop.loop_map TcpLiteSession.inbox
  · intro s r e
    obtain ⟨stop, rfl⟩ := deliverRound_done e
    exact if_neg (Bool.eq_false_iff.mp stop)
  · intro s t e
    obtain ⟨go, rfl⟩ := deliverRound_yield e
    have same := sends_inbox (s.tape 0).sends s.deliverCall
    generalize (s.tape 0).sends.foldl (fun t data => t.send data) s.deliverCall = u at same
    have pass : (u.deliverAdvance s.recvBitmap.baseSeq).inbox = s.inbox.pass := by
      simp only [inbox, Inbox.mk.injEq, deliverCall] at same
      obtain ⟨bitmap, reasm, bytes, delivered⟩ := same
      simp only [deliverAdvance, inbox, Inbox.pass, bitmap, reasm, bytes, delivered]
    rw [pass]
    exact if_pos go

/-! ## One call -/

/-- The data packet that `on_packet_received` sees in a buffer, if there is one. -/
def dataIn (m : ℕ → BitVec 8) : Option (BitVec 32 × Bytes) :=
  if (readChecked.run m).2 && 0 < (readChecked.run m).1.payloadLen.toNat then
    some ((readChecked.run m).1.seqNum, (readPayload (readChecked.run m).1.payloadLen.toNat).run m)
  else none

/-- The number is read again from where it was checked. -/
lemma readSeq_eq (m : ℕ → BitVec 8) : readSeq.run m = (readChecked.run m).1.seqNum := by
  simp [readSeq, readChecked, readHeader, Access.run_bytes, TcpLiteHeader.ofBytes, headerSize,
    List.range_succ]

/-- The receive side after `mark_received` and the copy to the reassembly slot. -/
lemma storeData_inbox {s : TcpLiteSession} {buf plen : ℕ} {seq : BitVec 32} {payload : Bytes}
    (hseq : readSeq.run (s.pool.view buf) = seq)
    (hpay : (readPayload plen).run (s.pool.view buf) = payload) :
    (s.storeData buf plen).inbox = s.inbox.store seq payload := by
  unfold storeData
  rw [fetchData_run s.recvBitmap hseq hpay]
  by_cases fresh : (s.recvBitmap.markReceived seq).1 = true
  · rw [if_pos fresh]
    exact (if_pos fresh).symm
  · rw [if_neg fresh]
    exact (if_neg fresh).symm

/-- What `on_packet_received` reads of a buffer after its ACK part is what it would have read before. -/
lemma read_eq {m m' : ℕ → BitVec 8} {plen : ℕ} (same : ∀ k < headerSize + plen, m' k = m k) :
    readSeq.run m' = readSeq.run m ∧ (readPayload plen).run m' = (readPayload plen).run m := by
  have header : 4 ≤ headerSize + plen := by
    show 4 ≤ 16 + plen
    omega
  constructor
  · simp only [readSeq, Access.run_bind, Access.run_byte, Access.run_pure]
    rw [same 0 (by omega), same 1 (by omega), same 2 (by omega), same 3 (by omega)]
  · rw [readPayload, Access.run_bytes, Access.run_bytes]
    apply List.map_congr_left
    intro k mem
    exact same _ (Nat.add_lt_add_left (List.mem_range.mp mem) _)

/-- Taking an ACK leaves the receive side alone. -/
lemma takeAck_inbox (s : TcpLiteSession) (ack : BitVec 32) : (s.takeAck ack).inbox = s.inbox := by
  obtain ⟨_, _, e⟩ := takeAck_frame s ack
  rw [e]
  rfl

/-- So does the whole ACK part. -/
lemma receiveAck_inbox (s : TcpLiteSession) (h : TcpLiteHeader) : (s.receiveAck h).inbox = s.inbox := by
  unfold receiveAck
  split
  · rw [pumpTx_inbox, takeAck_inbox]
  · rfl

/-- What a call of `on_packet_received` does to the receive side, if the ACK part leaves the packet
alone. -/
lemma onPacketReceived_inbox {s : TcpLiteSession} {buf : ℕ}
    (kept : ∀ k < headerSize + (readChecked.run (s.pool.view buf)).1.payloadLen.toNat,
      ((s.handOver buf).receiveAck (readChecked.run (s.pool.view buf)).1).pool.view buf k
        = s.pool.view buf k) :
    (s.onPacketReceived buf).inbox = match dataIn (s.pool.view buf) with
      | some p => (s.inbox.store p.1 p.2).deliver
      | none => s.inbox := by
  have view : (s.handOver buf).pool.view buf = s.pool.view buf := rfl
  obtain ⟨hseq, hpay⟩ := read_eq kept
  rw [readSeq_eq (s.pool.view buf)] at hseq
  unfold onPacketReceived dataIn
  dsimp only
  rw [view]
  generalize readChecked.run (s.pool.view buf) = r at hseq hpay ⊢
  obtain ⟨h, ok⟩ := r
  dsimp only at hseq hpay ⊢
  have before := receiveAck_inbox (s.handOver buf) h
  generalize (s.handOver buf).receiveAck h = t at hseq hpay before ⊢
  cases ok with
  | false => rfl
  | true =>
    by_cases pos : 0 < h.payloadLen.toNat
    · have stored := storeData_inbox hseq hpay
      have done := deliverInOrder_inbox (t.storeData buf h.payloadLen.toNat)
      rw [stored, before] at done
      simp only [receiveData, pos, if_true, Bool.true_and, decide_true]
      generalize (t.storeData buf h.payloadLen.toNat).deliverInOrder = u at done ⊢
      exact done
    · simp only [receiveData, pos, if_true, if_false, Bool.true_and, decide_false,
        Bool.false_eq_true]
      exact before

/-! ## The buffer during the ACK part -/

/-- A buffer that neither the pool nor the rest of the program nor the queue of unacknowledged packets
has. -/
structure Apart (buf : ℕ) (p : BufferPool) (q : UnackedQueue) : Prop where
  free : buf ∉ p.free
  caller : buf ∉ p.caller
  slots : ∀ k, (q.slots k).occupied = true → (q.slots k).buf ≠ some buf

section Apart

variable {buf size n : ℕ} {p : BufferPool} {q : UnackedQueue} {hs : List ℕ} {s u : TcpLiteSession}

/-- A buffer that is given to the session is nobody else's. -/
lemma Owned.apart (h : Owned size n p q hs) (mem : buf ∈ hs) : Apart buf p q := by
  have held := List.count_pos_iff.mpr mem
  obtain ⟨free, caller⟩ := h.in_use (Nat.add_pos_right (q.holds buf) held)
  refine ⟨free, caller, ?_⟩
  intro k occ hb
  have once := h.once buf
  have pos := UnackedQueue.holds_pos occ hb
  split at once
  · omega
  · omega

/-- A packet that `pump_tx` makes goes to another buffer. -/
lemma Apart.pumpSend {r : Option ℕ} (h : Apart buf s.pool s.unacked) (fits : mtu ≤ s.pool.bufferSize)
    (e : s.pumpSend = (u, r)) : Apart buf u.pool u.unacked ∧ Untouched s.pool u.pool buf := by
  obtain ⟨ops, free, caller⟩ := Untouched.callerOps (s.tape 0).ops h.free h.caller
  unfold TcpLiteSession.pumpSend at e
  dsimp only at e
  rcases acq : (s.pool.callerOps (s.tape 0).ops).acquire with ⟨_ | b, pool⟩
  · rw [acq, Prod.mk.injEq] at e
    obtain ⟨rfl, _⟩ := e
    have same : Untouched _ pool buf := .acquire (by rw [acq])
    obtain ⟨_, rfl⟩ := BufferPool.acquire_none acq
    exact ⟨⟨free, caller, h.slots⟩, ops.trans same⟩
  · rw [acq, Prod.mk.injEq] at e
    obtain ⟨rfl, _⟩ := e
    have same : Untouched _ pool buf := .acquire (by rw [acq])
    have room : s.pumpPacket.length ≤ pool.bufferSize := by
      rw [(ops.trans same).size]
      exact (pumpPacket_length_le s).trans fits
    obtain ⟨rest, hf, rfl⟩ := BufferPool.acquire_some acq
    rw [hf, List.mem_cons, not_or] at free
    have stored := (ops.trans same).trans (.store free.1 room)
    have queue : ∀ k, ((s.unacked.set (slotIdx s.nextSeq)
        { buf := some b, sentTsc := (s.tape 0).tsc, seq := s.nextSeq, occupied := true }).slots k).occupied
          = true → ((s.unacked.set (slotIdx s.nextSeq)
        { buf := some b, sentTsc := (s.tape 0).tsc, seq := s.nextSeq, occupied := true }).slots k).buf
          ≠ some buf := by
      intro k occ
      by_cases hk : k = slotIdx s.nextSeq
      · subst hk
        rw [UnackedQueue.set_slots_self]
        exact fun e => free.1 (Option.some.inj e).symm
      · rw [UnackedQueue.set_slots_ne _ _ hk] at occ ⊢
        exact h.slots k occ
    unfold UnackedQueue.markSent
    dsimp only [transmit]
    split
    · -- the slot was in use and its packet is given back: not this buffer either
      rename_i occ
      cases hb : (s.unacked.slots (slotIdx s.nextSeq)).buf with
      | none => exact ⟨⟨free.2, caller, queue⟩, stored⟩
      | some old =>
        have ne : buf ≠ old := by
          rintro rfl
          exact h.slots _ occ hb
        refine ⟨⟨?_, caller, queue⟩, stored.trans (.release _ ne)⟩
        exact List.not_mem_cons_of_ne_of_not_mem ne free.2
    · exact ⟨⟨free.2, caller, queue⟩, stored⟩

/-- `pump_tx` does not touch a buffer that is nobody's, if its packets fit. -/
lemma Apart.pumpTx (h : Apart buf s.pool s.unacked) (fits : mtu ≤ s.pool.bufferSize) :
    Untouched s.pool s.pumpTx.pool buf := by
  refine (pumpTx_ind (R := fun t => Apart buf t.pool t.unacked ∧ Untouched s.pool t.pool buf) ?_ ?_ ?_
    ⟨h, .refl _ _⟩).2
  · rintro t u r ⟨apart, same⟩ _ e
    obtain ⟨apart', same'⟩ := apart.pumpSend (by rw [same.size]; exact fits) e
    exact ⟨apart', same.trans same'⟩
  · exact fun t plen ht => ht
  · intro t ht
    obtain ⟨_, _, e, _⟩ := pumpReset_frame t
    rw [e]
    exact ht

end Apart

/-- The packet in a buffer is safe from `pump_tx` while `on_packet_received` works on it: nothing was ever
passed to `send`, or the buffers hold a full packet and this one lies within its own. -/
def TcpLiteSession.Undisturbed (buf : ℕ) (s : TcpLiteSession) : Prop :=
  s.log.sent = [] ∨ mtu ≤ s.pool.bufferSize ∧
    headerSize + (readChecked.run (s.pool.view buf)).1.payloadLen.toNat ≤ s.pool.bufferSize

section Undisturbed

variable {buf size n : ℕ} {s : TcpLiteSession}

/-- With nothing to send `pump_tx` only clears its bytes. -/
lemma pumpTx_of_closed (closed : s.pumpOpen = false) : s.pumpTx = s.pumpReset := by
  unfold TcpLiteSession.pumpTx
  rw [Loop.loop, pumpRound, closed]
  rfl

/-- Where nothing was passed to `send`, nothing is pending. -/
lemma Segmented.pending_le (h : Segmented s []) (none : s.log.sent = []) :
    s.pendingTx.length ≤ s.txOff := by
  have chunks := h.chunks
  rw [none, List.append_eq_nil_iff] at chunks
  exact List.drop_eq_nil_iff.mp chunks.2

/-- Taking an ACK writes no buffer. -/
lemma takeAck_view (ack : BitVec 32) (i : ℕ) : (s.takeAck ack).pool.view i = s.pool.view i := by
  obtain ⟨_, _, e⟩ := takeAck_frame s ack
  obtain ⟨mem, size⟩ := s.unacked.markAcked_memory ack s.pool
  rw [e]
  unfold BufferPool.view
  rw [mem, size]

/-- The ACK part of `on_packet_received` leaves an undisturbed packet alone. -/
lemma receiveAck_view (seg : Segmented s []) (bufs : Buffers size n ⟨s, []⟩) (mem : buf ∈ s.pool.caller)
    (calm : s.Undisturbed buf) (h : TcpLiteHeader) {k : ℕ}
    (lt : k < headerSize + (readChecked.run (s.pool.view buf)).1.payloadLen.toNat) :
    ((s.handOver buf).receiveAck h).pool.view buf k = s.pool.view buf k := by
  have start : (s.handOver buf).pool.view buf = s.pool.view buf := rfl
  unfold receiveAck
  split
  · rw [← start, ← takeAck_view (s := s.handOver buf) h.ackNum]
    rcases calm with none | ⟨fits, inside⟩
    · have closed : ((s.handOver buf).takeAck h.ackNum).pumpOpen = false := by
        rw [← Bool.not_eq_true]
        intro op
        have lt := (pumpOpen_window op).1
        obtain ⟨_, _, e⟩ := takeAck_frame (s.handOver buf) h.ackNum
        rw [e] at lt
        exact Nat.not_lt.mpr (seg.pending_le none) lt
      obtain ⟨_, _, e, _⟩ := pumpReset_frame ((s.handOver buf).takeAck h.ackNum)
      rw [pumpTx_of_closed closed, e]
    · have owned := (bufs.owned.handOver mem).markAcked h.ackNum
      obtain ⟨_, size⟩ := s.unacked.markAcked_memory h.ackNum (s.handOver buf).pool
      obtain ⟨_, _, e⟩ := takeAck_frame (s.handOver buf) h.ackNum
      have apart : Apart buf ((s.handOver buf).takeAck h.ackNum).pool
          ((s.handOver buf).takeAck h.ackNum).unacked := by
        rw [e]
        exact owned.apart List.mem_cons_self
      have eq : ((s.handOver buf).takeAck h.ackNum).pool.bufferSize = s.pool.bufferSize := by
        rw [e]
        exact size
      have same := apart.pumpTx (by rw [eq]; exact fits)
      exact same.view k (by rw [eq]; omega)
  · rfl

end Undisturbed

/-! ## Reassembly -/

/-- The receive side holds what has arrived, with base `n`. -/
structure Inbox.At (first : ℕ → Option Bytes) (n : ℕ) (b : Inbox) : Prop extends Within 256 n first where
  base : b.bitmap.baseSeq = BitVec.ofNat 32 n
  delivered : b.delivered.map some = (List.range n).map first
  bits : ∀ k < 256, b.bitmap.received.getLsbD k = (first (n + k)).isSome
  slots : ∀ k < 256, b.reasm (slotIdx (BitVec.ofNat 32 (n + k))) = (first (n + k)).getD []
  counted : b.bytes = BitVec.ofNat 64 b.delivered.flatten.length

namespace Inbox.At

variable {first : ℕ → Option Bytes} {n : ℕ} {b b' : Inbox}

/-- A fresh session has received nothing. -/
lemma fresh (pool : BufferPool) (clock : TscClock) (rtoNs : BitVec 64) (tape : Tape) :
    (TcpLiteSession.new pool clock rtoNs tape).inbox.At (fun _ => none) 0 where
  below := fun i lt => absurd lt (Nat.not_lt_zero i)
  above := fun _ _ => rfl
  base := rfl
  delivered := rfl
  bits := fun _ _ => BitVec.getLsbD_zero
  slots := fun _ _ => rfl
  counted := rfl

/-- A round of `deliver_in_order`. -/
lemma pass (h : b.At first n) (there : (first n).isSome = true) : b.pass.At first (n + 1) := by
  have bitmap := b.bitmap.advance_one
  have slot : b.reasm (slotIdx b.bitmap.baseSeq) = (first n).getD [] := by
    rw [h.base]
    exact h.slots 0 (by omega)
  obtain ⟨x, hx⟩ := Option.isSome_iff_exists.mp there
  refine ⟨⟨?_, ?_⟩, ?_, ?_, ?_, ?_, ?_⟩
  · intro i lt
    rcases Nat.lt_succ_iff_lt_or_eq.mp lt with lt | rfl
    · exact h.below i lt
    · rw [hx]
      exact Option.some_ne_none x
  · exact fun i ge => h.above i (by omega)
  · rw [Inbox.pass, bitmap, h.base, BitVec.ofNat_add]
    rfl
  · rw [Inbox.pass, slot, List.map_append, h.delivered, List.range_succ, List.map_append, hx,
      List.map_singleton, List.map_singleton, hx]
    rfl
  · intro k lt
    rw [Inbox.pass, bitmap, BitVec.getLsbD_ushiftRight, Nat.add_assoc]
    rcases Nat.lt_or_ge (1 + k) 256 with inside | last
    · exact h.bits _ inside
    · rw [BitVec.getLsbD_of_ge _ _ last, h.above _ (by omega)]
      rfl
  · intro k lt
    rw [Inbox.pass, h.base, Nat.add_assoc]
    dsimp only
    rcases Nat.lt_or_ge (1 + k) 256 with inside | last
    · have ne := slotIdx_ne (i := n) (j := n + (1 + k)) (by omega) (by omega)
      rw [Function.update_of_ne ne.symm]
      exact h.slots _ inside
    · -- the slot of the packet that was passed on is the one of the last index of the new window
      have same : slotIdx (BitVec.ofNat 32 (n + (1 + k))) = slotIdx (BitVec.ofNat 32 n) := by
        apply Fin.ext
        rw [slotIdx_ofNat, slotIdx_ofNat]
        omega
      rw [same, Function.update_self, h.above _ (by omega)]
      rfl
  · rw [Inbox.pass, h.counted, slot, hx, ← BitVec.ofNat_add]
    simp

/-- The data part of `on_packet_received`, up to `deliver_in_order`. -/
lemma store (h : b.At first n) (next : first n = none) (seq : BitVec 32) (payload : Bytes) :
    (b.store seq payload).At (arrive 256 first (seq, payload)) n := by
  have within := h.arrive_base next (seq, payload)
  have eq := base_eq h.below next
  have off : index n seq = n + (seq - b.bitmap.baseSeq).toNat := by rw [index, h.base]
  have wire := ofNat_index n seq
  have mark := b.bitmap.markReceived_eq seq
  have early : ∀ i < n, arrive 256 first (seq, payload) i = first i := by
    intro i lt
    obtain ⟨x, hx⟩ := Option.ne_none_iff_exists'.mp (h.below i lt)
    simp [Reassembly.arrive, hx]
  rw [off] at wire
  generalize (seq - b.bitmap.baseSeq).toNat = d at off wire mark
  have arrived : ∀ i, arrive 256 first (seq, payload) i
      = (first i).or (if n + d = i ∧ d < 256 then some payload else none) := by
    intro i
    simp only [Reassembly.arrive, eq, off]
    congr 1
    apply if_congr _ rfl rfl
    omega
  split at mark
  · rename_i new
    obtain ⟨lt, clear⟩ := new
    have empty : first (n + d) = none := by
      rw [h.bits d lt, Option.isSome_eq_false_iff] at clear
      exact Option.isNone_iff_eq_none.mp clear
    rw [Inbox.store, mark]
    refine ⟨within, h.base, ?_, ?_, ?_, h.counted⟩
    · refine h.delivered.trans (List.map_congr_left ?_)
      intro i mem
      exact (early i (List.mem_range.mp mem)).symm
    · intro k hk
      have bit := h.bits k hk
      rw [arrived]
      by_cases here : d = k
      · subst here
        simp [lt, empty]
      · simp [here, bit, lt]
    · intro k hk
      rw [arrived]
      by_cases here : d = k
      · subst here
        simp [wire, lt, empty]
      · have ne : slotIdx (BitVec.ofNat 32 (n + k)) ≠ slotIdx seq := by
          rw [← wire]
          rcases Nat.lt_or_gt_of_ne here with less | more
          · exact (slotIdx_ne (by omega) (by omega)).symm
          · exact slotIdx_ne (by omega) (by omega)
        have slot := h.slots k hk
        simp [here, slot, Function.update_of_ne ne]
  · rename_i old
    have same : arrive 256 first (seq, payload) = first := by
      funext i
      rw [arrived]
      split
      · rename_i here
        obtain ⟨rfl, lt⟩ := here
        have bit := h.bits d lt
        cases there : first (n + d) with
        | none =>
          rw [there] at bit
          exact absurd ⟨lt, bit⟩ old
        | some x => rfl
      · exact Option.or_none
    rw [Inbox.store, mark, same]
    exact h

/-- `deliver_in_order` stops at the first index with nothing. -/
lemma deliver (h : b.At first n) : b.deliver.At first (Reassembly.base first) := by
  have run := b.deliver_runs
  generalize b.deliver = r at run
  induction run generalizing n with
  | @done b r e =>
    unfold round at e
    split at e
    · cases e
    · rename_i stop
      cases e
      have bit := h.bits 0 (by omega)
      rw [has_base, Bool.not_eq_true] at stop
      rw [stop, eq_comm, Option.isSome_eq_false_iff, Option.isNone_iff_eq_none] at bit
      rw [base_eq h.below bit]
      exact h
  | @yield b t r e _ ih =>
    unfold round at e
    split at e
    · rename_i go
      cases e
      rw [has_base] at go
      have bit := h.bits 0 (by omega)
      rw [go] at bit
      exact ih (h.pass bit.symm)
    · cases e

/-- What has arrived determines the receive side. -/
lemma unique (h : b.At first n) (h' : b'.At first n) : b = b' := by
  have delivered : b.delivered = b'.delivered :=
    List.map_injective_iff.mpr (Option.some_injective _) (h.delivered.trans h'.delivered.symm)
  have received : b.bitmap.received = b'.bitmap.received := by
    apply BitVec.eq_of_getLsbD_eq
    intro k lt
    rw [h.bits k lt, h'.bits k lt]
  have base := h.base.trans h'.base.symm
  have reasm : b.reasm = b'.reasm := by
    funext j
    obtain ⟨k, lt, rfl⟩ : ∃ k < 256, slotIdx (BitVec.ofNat 32 (n + k)) = j := by
      refine ⟨(j + 256 - n % 256) % 256, Nat.mod_lt _ (by decide), Fin.ext ?_⟩
      rw [slotIdx_ofNat]
      have lt : j.val < 256 := j.isLt
      omega
    rw [h.slots k lt, h'.slots k lt]
  refine Inbox.ext (congrArg₂ RecvBitmap.mk received base) reasm ?_ delivered
  rw [h.counted, h'.counted, delivered]

/-- Between two calls the packet at the base is missing. -/
lemma clear (h : b.At first (Reassembly.base first)) : b.bitmap.received.getLsbD 0 = false := by
  have bit := h.bits 0 (by omega)
  rw [Nat.add_zero, h.base_mem.1] at bit
  exact bit

/-- The base is not received, so the cumulative ACK is the base. -/
lemma cumulativeAck (h : b.At first (Reassembly.base first)) :
    b.bitmap.cumulativeAck = b.bitmap.baseSeq := by
  have none : contig b.bitmap.received = 0 := contig_eq (by omega) h.clear
  rw [RecvBitmap.cumulativeAck, none]
  exact BitVec.add_zero _

end Inbox.At

/-! ## Runs -/

/-- What a call of `on_packet_received` is given: the session before the call, and a buffer. -/
structure Given where
  session : TcpLiteSession
  buf : ℕ

/-- The data packet in the buffer, if there is one. -/
def Given.data (g : Given) : Option (BitVec 32 × Bytes) := dataIn (g.session.pool.view g.buf)

/-- The call does not disturb the packet. -/
def Given.Undisturbed (g : Given) : Prop := g.session.Undisturbed g.buf

/-- The data packets among what some calls of `on_packet_received` are given. -/
def packets (given : List Given) : List (BitVec 32 × Bytes) := given.filterMap Given.data

/-- One more call adds its data packet, if there is one. -/
lemma packets_given_concat (given : List Given) (g : Given) :
    packets (given ++ [g]) = packets given ++ g.data.toList := by
  have one : [g].filterMap Given.data = g.data.toList := by
    rw [List.filterMap_cons, List.filterMap_nil]
    generalize g.data = data
    cases data with
    | none => rfl
    | some p => rfl
  rw [packets, List.filterMap_append, one, packets]

/-- Calls of a session and of the program around it, one after another, with what `on_packet_received`
was given. -/
inductive Received (s : TcpLiteSession) : List Given → TcpLiteSession → Prop where
  | nil :
    Received s [] s
  | send {given t} (data : Bytes) :
    Received s given t →
    Received s given (t.send data)
  | tick {given t} :
    Received s given t →
    Received s given t.tick
  | program {given t} (ops : List CallerOp) (tape : Tape) :
    Received s given t →
    Received s given { t with pool := t.pool.callerOps ops, tape := tape }
  | receive {given t buf} :
    Received s given t →
    buf ∈ t.pool.caller →
    Received s (given ++ [{ session := t, buf := buf }]) (t.onPacketReceived buf)

/-- `tick` leaves the receive side alone. -/
lemma tick_inbox (s : TcpLiteSession) : s.tick.inbox = s.inbox := by
  have loop : ∀ (now : BitVec 64) (seqs : List (BitVec 32)) (t : TcpLiteSession),
      (seqs.foldl (TcpLiteSession.resend now) t).inbox = t.inbox := by
    intro now seqs
    induction seqs with
    | nil => exact fun t => rfl
    | cons seq seqs ih =>
      intro t
      refine (ih _).trans ?_
      unfold TcpLiteSession.resend
      cases t.unacked.bufferFor seq with
      | none => rfl
      | some b => rfl
  have flush : ∀ t : TcpLiteSession, t.flushAck.inbox = t.inbox := by
    intro t
    obtain ⟨_, _, e⟩ := flushAck_frame t
    rw [e]
    rfl
  unfold TcpLiteSession.tick
  rw [flush, pumpTx_inbox, loop]
  rfl

namespace Received

variable {s t : TcpLiteSession} {given : List Given}

/-- Whole calls are steps of the session. -/
lemma steps (run : Received s given t) : Config.Steps ⟨s, []⟩ ⟨t, []⟩ := by
  induction run with
  | nil => exact .refl
  | @send _ t data _ ih => exact (ih.tail (.send data trivial)).trans (sends_execs t [data] []).steps
  | @tick _ t _ ih => exact (ih.tail (.tick trivial)).trans (tick_execs t []).steps
  | program ops tape _ ih => exact ih.tail (.program ops tape trivial)
  | @receive _ t buf _ mem ih =>
    exact (ih.tail (.receive trivial mem)).trans (onPacketReceived_execs buf t []).steps

/-- The receive side of a reachable session follows the reassembly window. -/
lemma follows {size n : ℕ} {mem : ℕ → BitVec 8} {clock : TscClock} {rtoNs : BitVec 64} {tape : Tape}
    {first : ℕ → Option Bytes}
    (reach : Config.Steps (Config.fresh (.new size n mem) clock rtoNs tape) ⟨s, []⟩)
    (run : Received s given t) (calm : ∀ g ∈ given, g.Undisturbed) (h : s.inbox.At first (base first)) :
    t.inbox.At ((packets given).foldl (arrive 256) first)
      (base ((packets given).foldl (arrive 256) first)) := by
  induction run with
  | nil => exact h
  | @send given t data _ ih =>
    have same : (t.send data).inbox = t.inbox := sends_inbox [data] t
    rw [same]
    exact ih calm
  | @tick given t _ ih =>
    rw [tick_inbox]
    exact ih calm
  | program _ _ _ ih => exact ih calm
  | @receive given t buf run held ih =>
    have now := reach.trans run.steps
    obtain ⟨_, seg, _⟩ := Segmented.steps now
    obtain ⟨bufs, _⟩ := Buffers.steps now
    have before := ih fun g mem => calm g (List.mem_append_left _ mem)
    have this := calm _ (List.mem_append_right _ (List.mem_singleton.mpr rfl))
    have data : Given.data { session := t, buf := buf } = dataIn (t.pool.view buf) := rfl
    rw [onPacketReceived_inbox fun k lt => receiveAck_view seg bufs held this _ lt, packets_given_concat, data,
      List.foldl_append]
    cases dataIn (t.pool.view buf) with
    | none => exact before
    | some p => exact (before.store before.base_mem.1 p.1 p.2).deliver

end Received

/-- Receiver specification. A fresh session is given any buffers to `on_packet_received`, each of them
undisturbed by the call, as they all are if nothing is passed to `send`. Of the data packets among them, for each index the first eligible one that arrived
for it counts. The data callback has been given the packets of the indices below the first one with none,
in order; `base_seq_` is that index; it is not marked, so that `cumulative_ack` is `base_seq_`; and an
offset is marked exactly if a packet arrived for it, whose payload is then in its slot. -/
theorem receiver_reassembles (size n : ℕ) (mem : ℕ → BitVec 8) (clock : TscClock) (rtoNs : BitVec 64)
    (tape : Tape) (given : List Given) (l : List (BitVec 32 × Bytes)) (s : TcpLiteSession)
    (run : Received (.new (.new size n mem) clock rtoNs tape) given s)
    (calm : ∀ g ∈ given, g.Undisturbed) (data : packets given = l) :
    (∀ i < base (arrivals 256 l), arrivals 256 l i ≠ none) ∧
    arrivals 256 l (base (arrivals 256 l)) = none ∧
    s.log.delivered.map some = (List.range (base (arrivals 256 l))).map (arrivals 256 l) ∧
    s.recvBitmap.baseSeq = BitVec.ofNat 32 (base (arrivals 256 l)) ∧
    s.recvBitmap.has s.recvBitmap.baseSeq = false ∧
    s.recvBitmap.cumulativeAck = s.recvBitmap.baseSeq ∧
    ∀ off < 256,
      s.recvBitmap.received.getLsbD off = (arrivals 256 l (base (arrivals 256 l) + off)).isSome ∧
      ∀ payload, arrivals 256 l (base (arrivals 256 l) + off) = some payload →
        s.reasm (slotIdx (s.recvBitmap.baseSeq + BitVec.ofNat 32 off)) = payload := by
  have start := Inbox.At.fresh (.new size n mem) clock rtoNs tape
  have none : base (fun _ => (none : Option Bytes)) = 0 := base_eq (by omega) rfl
  rw [← none] at start
  have now := run.follows .refl calm start
  rw [data] at now
  obtain ⟨next, all⟩ := now.base_mem
  refine ⟨all, next, now.delivered, now.base, ?_, now.cumulativeAck, ?_⟩
  · exact (Inbox.has_base s.inbox).trans now.clear
  · intro off lt
    refine ⟨now.bits off lt, ?_⟩
    intro payload there
    have slot := now.slots off lt
    have base : s.recvBitmap.baseSeq = BitVec.ofNat 32 (base (arrivals 256 l)) := now.base
    rw [base, ← BitVec.ofNat_add]
    refine slot.trans ?_
    rw [show l.foldl (arrive 256) _ = arrivals 256 l from rfl, there]
    rfl

/-- A fresh session whose caller holds the packets `[7]` and `[8]` with the numbers 0 and 1. -/
def TcpLiteSession.twoWaiting : TcpLiteSession :=
  { TcpLiteSession.new (.new 17 2 fun _ => 0) .unit 0 .silent with
    pool := (BufferPool.new 17 2 fun _ => 0).callerOps [.acquire, .acquire,
      .fill 0 ((TcpLiteHeader.makeData 0 0 1).encode [7]),
      .fill 1 ((TcpLiteHeader.makeData 1 0 1).encode [8])] }

/-- The session comes about by what its program does. -/
lemma twoWaiting_received :
    Received (.new (.new 17 2 fun _ => 0) .unit 0 .silent) [] .twoWaiting := by
  have fresh : Received (.new (.new 17 2 fun _ => 0) .unit 0 .silent) []
      (.new (.new 17 2 fun _ => 0) .unit 0 .silent) := .nil
  exact fresh.program [.acquire, .acquire, .fill 0 ((TcpLiteHeader.makeData 0 0 1).encode [7]),
    .fill 1 ((TcpLiteHeader.makeData 1 0 1).encode [8])] .silent

/-- First the packet in buffer `i` and then the one in buffer `j`. -/
def bothGiven (i j : ℕ) : List Given :=
  [{ session := twoWaiting, buf := i }, { session := twoWaiting.onPacketReceived i, buf := j }]

/-- The two packets can be given in either order. -/
lemma bothGiven_received {s : TcpLiteSession} {given : List Given} (run : Received s given .twoWaiting) :
    Received s (given ++ bothGiven 0 1) ((twoWaiting.onPacketReceived 0).onPacketReceived 1) ∧
    Received s (given ++ bothGiven 1 0) ((twoWaiting.onPacketReceived 1).onPacketReceived 0) := by
  have held : 0 ∈ twoWaiting.pool.caller ∧ 1 ∈ (twoWaiting.onPacketReceived 0).pool.caller ∧
      1 ∈ twoWaiting.pool.caller ∧ 0 ∈ (twoWaiting.onPacketReceived 1).pool.caller := by
    decide +kernel
  constructor
  · have both := (run.receive held.1).receive held.2.1
    rw [List.append_assoc] at both
    exact both
  · have both := (run.receive held.2.2.1).receive held.2.2.2
    rw [List.append_assoc] at both
    exact both

/-- What is in the two buffers. -/
lemma bothGiven_packets : packets (bothGiven 0 1) = [(0, [7]), (1, [8])] ∧
    packets (bothGiven 1 0) = [(1, [8]), (0, [7])] := by
  decide +kernel

/-- The session has sent nothing that could disturb them. -/
lemma bothGiven_undisturbed : (∀ g ∈ bothGiven 0 1, g.Undisturbed) ∧
    ∀ g ∈ bothGiven 1 0, g.Undisturbed := by
  have silent : (∀ g ∈ bothGiven 0 1, g.session.log.sent = []) ∧
      ∀ g ∈ bothGiven 1 0, g.session.log.sent = [] := by
    decide +kernel
  exact ⟨fun g mem => .inl (silent.1 g mem), fun g mem => .inl (silent.2 g mem)⟩

/-- The later packet comes first. -/
theorem receiver_reassembles_swapped :
    ((twoWaiting.onPacketReceived 1).onPacketReceived 0).log.delivered = [[7], [8]] ∧
    ((twoWaiting.onPacketReceived 1).onPacketReceived 0).log.delivered.map some
      = (List.range (base (arrivals 256 [(1#32, [8#8]), (0#32, [7#8])]))).map
        (arrivals 256 [(1#32, [8#8]), (0#32, [7#8])]) :=
  ⟨by decide +kernel,
    (receiver_reassembles _ _ _ _ _ _ _ _ _ (bothGiven_received twoWaiting_received).2
      bothGiven_undisturbed.2 bothGiven_packets.2).2.2.1⟩

/-- Arrival order is irrelevant inside the window, for packets that the calls do not disturb. From every
session reached so, two lists of data packets over the same sequence numbers of the window, with one payload
for each number, leave the same receive side behind, whatever the program sends and does with its other
buffers in between. -/
theorem arrival_order_irrelevant (size n : ℕ) (mem : ℕ → BitVec 8) (clock : TscClock)
    (rtoNs : BitVec 64) (tape : Tape) (g₀ g₁ g₂ : List Given) (s s₁ s₂ : TcpLiteSession)
    (φ : BitVec 32 → Bytes) (reach : Received (.new (.new size n mem) clock rtoNs tape) g₀ s)
    (run₁ : Received s g₁ s₁) (run₂ : Received s g₂ s₂)
    (calm : ∀ g ∈ g₀ ++ g₁ ++ g₂, g.Undisturbed)
    (near : ∀ p ∈ packets g₁, (p.1 - s.recvBitmap.baseSeq).toNat < 256)
    (same : ∀ seq, seq ∈ (packets g₁).map Prod.fst ↔ seq ∈ (packets g₂).map Prod.fst)
    (payload : ∀ p ∈ packets g₁ ++ packets g₂, p.2 = φ p.1) :
    s₁.log.delivered.flatten = s₂.log.delivered.flatten ∧
    s₁.recvBitmap.baseSeq = s₂.recvBitmap.baseSeq ∧
    s₁.recvBitmap.received = s₂.recvBitmap.received ∧
    s₁.reasm = s₂.reasm ∧
    s₁.bytesReceived = s₂.bytesReceived := by
  have start := Inbox.At.fresh (.new size n mem) clock rtoNs tape
  have none : base (fun _ => (none : Option Bytes)) = 0 := base_eq (by omega) rfl
  rw [← none] at start
  rw [List.forall_mem_append, List.forall_mem_append] at calm
  have now := reach.follows .refl calm.1.1 start
  have there := run₁.follows reach.steps calm.1.2 now
  have there' := run₂.follows reach.steps calm.2 now
  have congr := foldl_arrive_congr (by decide) now.toWithin
    (fun p mem => by
      have base : s.recvBitmap.baseSeq = _ := now.base
      have lt := near p mem
      rw [base] at lt
      exact Nat.add_lt_add_left lt _)
    payload same
  rw [congr] at there
  have eq := there.unique there'
  exact ⟨congrArg (fun b => b.delivered.flatten) eq, congrArg (fun b => b.bitmap.baseSeq) eq,
    congrArg (fun b => b.bitmap.received) eq, congrArg Inbox.reasm eq, congrArg Inbox.bytes eq⟩

/-- Both orders of two packets. -/
theorem arrival_order_irrelevant_swapped :
    ((twoWaiting.onPacketReceived 0).onPacketReceived 1).log.delivered.flatten
      = ((twoWaiting.onPacketReceived 1).onPacketReceived 0).log.delivered.flatten := by
  obtain ⟨run₁, run₂⟩ := bothGiven_received .nil
  obtain ⟨data₁, data₂⟩ := bothGiven_packets
  have calm : ∀ g ∈ [] ++ bothGiven 0 1 ++ bothGiven 1 0, g.Undisturbed :=
    List.forall_mem_append.mpr bothGiven_undisturbed
  have all := arrival_order_irrelevant 17 2 (fun _ => 0) .unit 0 .silent [] (bothGiven 0 1)
    (bothGiven 1 0) _ _ _ (fun seq => if seq = 0 then [7] else [8]) twoWaiting_received run₁ run₂ calm
  rw [data₁, data₂] at all
  exact (all (by decide +kernel) (by simp [or_comm]) (by decide +kernel)).1

/-- A session that has sent `[1]` and has `[2, 3]` pending: the program has the other two buffers. -/
def TcpLiteSession.pendingTwo : TcpLiteSession :=
  (({ TcpLiteSession.new (.new 17 3 fun _ => 0) .unit 0 .silent with
    pool := (BufferPool.new 17 3 fun _ => 0).callerOps [.acquire, .acquire] } : TcpLiteSession).send
      [1]).send [2, 3]

/-- The same session with a packet in the program's buffer 1: number 5, payload `[7]`, and this
`ack_num`. -/
def TcpLiteSession.fiveWaiting (ack : BitVec 32) : TcpLiteSession :=
  { pendingTwo with
    pool := pendingTwo.pool.callerOps [.fill 1 ((TcpLiteHeader.makeData 5 ack 1).encode [7])]
    tape := .silent }

/-- A packet that is disturbed. Its ACK lets `pump_tx` send the pending bytes from buffer 0, which is one
byte too short for them: the byte 3 becomes the first one of the `seq_num` of the packet in buffer 1, and
`on_packet_received` files the payload under number 3 instead of 5. -/
theorem arrival_rewritten :
    Received (.new (.new 17 3 fun _ => 0) .unit 0 .silent) [] pendingTwo ∧
    Received pendingTwo [{ session := fiveWaiting 0, buf := 1 }] ((fiveWaiting 0).onPacketReceived 1) ∧
    Received pendingTwo [{ session := fiveWaiting 1, buf := 1 }] ((fiveWaiting 1).onPacketReceived 1) ∧
    packets [{ session := fiveWaiting 0, buf := 1 }] = [(5, [7])] ∧
    packets [{ session := fiveWaiting 1, buf := 1 }] = [(5, [7])] ∧
    ((fiveWaiting 0).onPacketReceived 1).recvBitmap.received = 1#256 <<< 5 ∧
    ((fiveWaiting 0).onPacketReceived 1).reasm 5 = [7] ∧
    ((fiveWaiting 1).onPacketReceived 1).recvBitmap.received = 1#256 <<< 3 ∧
    ((fiveWaiting 1).onPacketReceived 1).reasm 5 = [] := by
  have filled : ∀ ack, Received pendingTwo [] (fiveWaiting ack) := by
    intro ack
    have start : Received pendingTwo [] pendingTwo := .nil
    exact start.program [.fill 1 ((TcpLiteHeader.makeData 5 ack 1).encode [7])] .silent
  refine ⟨?_, (filled 0).receive (by decide +kernel), (filled 1).receive (by decide +kernel),
    by decide +kernel, by decide +kernel, by decide +kernel, by decide +kernel, by decide +kernel,
    by decide +kernel⟩
  have fresh : Received (.new (.new 17 3 fun _ => 0) .unit 0 .silent) []
      (.new (.new 17 3 fun _ => 0) .unit 0 .silent) := .nil
  exact ((fresh.program [.acquire, .acquire] .silent).send [1]).send [2, 3]

end UxNet.TcpLite
