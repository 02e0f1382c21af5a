import UxNet.Lib.Loop
import UxNet.TcpLite.Header

/-!
# Queue of unacknowledged packets

`UnackedQueue` of `tcp_lite.cpp`: 256 slots indexed by `seq & 255`, each holding a buffer of the pool
with the time it was last sent. The loops over `slots_` are folds over the slot indices in order.
The pool is passed in and out, as the source holds it by reference.
-/

namespace UxNet.TcpLite

/-- `seq & (TCP_LITE_WINDOW - 1)`. -/
def slotIdx (seq : BitVec 32) : Fin window :=
  ⟨(seq &&& 255).toNat, by
    rw [BitVec.toNat_and]
    exact Nat.lt_succ_of_le Nat.and_le_right⟩

/-- `UnackedQueue::Slot`. -/
structure Slot where
  buf : Option ℕ
  sentTsc : BitVec 64
  seq : BitVec 32
  occupied : Bool
deriving DecidableEq, Repr

/-- `s.buf = nullptr; s.occupied = false`. -/
def Slot.clear (s : Slot) : Slot := { s with buf := none, occupied := false }

/-- `UnackedQueue`. -/
structure UnackedQueue where
  slots : Fin window → Slot

/-- Give a buffer back, if there is one. -/
def releaseBuf (site : Site) (buf : Option ℕ) (pool : BufferPool) : BufferPool :=
  match buf with
  | some b => pool.release site b
  | none => pool

namespace UnackedQueue

/-- A queue as constructed. -/
def new : UnackedQueue where
  slots := fun _ => { buf := none, sentTsc := 0, seq := 0, occupied := false }

/-- Replace one slot. -/
def set (q : UnackedQueue) (k : Fin window) (s : Slot) : UnackedQueue where
  slots := Function.update q.slots k s

/-- `UnackedQueue::mark_sent`. -/
def markSent (seq : BitVec 32) (buf : ℕ) (sentTsc : BitVec 64) (q : UnackedQueue)
    (pool : BufferPool) : UnackedQueue × BufferPool :=
  let s := q.slots (slotIdx seq)
  let pool := if s.occupied then releaseBuf .overwritten s.buf pool else pool
  (q.set (slotIdx seq) { buf := some buf, sentTsc := sentTsc, seq := seq, occupied := true }, pool)

/-- The variables of the loop in `mark_acked`. -/
structure AckScan where
  queue : UnackedQueue
  pool : BufferPool
  newestTsc : BitVec 64
  newestSeq : BitVec 32
  any : Bool

/-- Clear one slot and give its buffer back. -/
def AckScan.drop (a : AckScan) (k : Fin window) : AckScan :=
  let s := a.queue.slots k
  { a with
    pool := releaseBuf .acked s.buf a.pool
    queue := a.queue.set k s.clear }

/-- Remember the newest packet acked so far. -/
def AckScan.note (a : AckScan) (s : Slot) : AckScan :=
  if !a.any || 0 < (s.seq - a.newestSeq).toInt then
    { a with newestTsc := s.sentTsc, newestSeq := s.seq, any := true }
  else a

/-- One round of the loop in `mark_acked`. -/
def ackSlot (upToSeq : BitVec 32) (a : AckScan) (k : Fin window) : AckScan :=
  let s := a.queue.slots k
  if s.occupied && (s.seq - upToSeq).toInt < 0 then (a.note s).drop k else a

/-- `UnackedQueue::mark_acked`; the result is the `sent_tsc` of the newest acked packet, or 0. -/
def markAcked (upToSeq : BitVec 32) (q : UnackedQueue) (pool : BufferPool) :
    BitVec 64 × UnackedQueue × BufferPool :=
  let a := (List.finRange window).foldl (ackSlot upToSeq)
    { queue := q, pool := pool, newestTsc := 0, newestSeq := 0, any := false }
  (if a.any then a.newestTsc else 0, a.queue, a.pool)

/-- `UnackedQueue::check_timeouts`. -/
def checkTimeouts (nowTsc timeoutTsc : BitVec 64) (q : UnackedQueue) : List (BitVec 32) :=
  ((List.finRange window).filter fun k =>
    (q.slots k).occupied && timeoutTsc ≤ nowTsc - (q.slots k).sentTsc).map fun k => (q.slots k).seq

/-- `UnackedQueue::occupied`. -/
def occupied (seq : BitVec 32) (q : UnackedQueue) : Bool :=
  (q.slots (slotIdx seq)).occupied && (q.slots (slotIdx seq)).seq == seq

/-- `UnackedQueue::buffer_for`. -/
def bufferFor (seq : BitVec 32) (q : UnackedQueue) : Option ℕ :=
  if q.occupied seq then (q.slots (slotIdx seq)).buf else none

/-- `UnackedQueue::touch`. -/
def touch (seq : BitVec 32) (nowTsc : BitVec 64) (q : UnackedQueue) : UnackedQueue :=
  if q.occupied seq then
    q.set (slotIdx seq) { q.slots (slotIdx seq) with sentTsc := nowTsc }
  else q

/-- One round of the loop in `release_all`. -/
def releaseSlot (qp : UnackedQueue × BufferPool) (k : Fin window) : UnackedQueue × BufferPool :=
  let s := qp.1.slots k
  (qp.1.set k s.clear,
    if s.occupied then releaseBuf .destroyed s.buf qp.2 else qp.2)

/-- `UnackedQueue::release_all`. -/
def releaseAll (q : UnackedQueue) (pool : BufferPool) : UnackedQueue × BufferPool :=
  (List.finRange window).foldl releaseSlot (q, pool)

end UnackedQueue

/-- Releasing a buffer writes nothing. -/
lemma releaseBuf_memory (site : Site) (buf : Option ℕ) (pool : BufferPool) :
    (releaseBuf site buf pool).mem = pool.mem ∧
      (releaseBuf site buf pool).bufferSize = pool.bufferSize := by
  cases buf with
  | none => exact ⟨rfl, rfl⟩
  | some b => exact ⟨rfl, rfl⟩

/-- A slot is the number modulo 256. -/
lemma slotIdx_val (seq : BitVec 32) : (slotIdx seq).val = seq.toNat % 256 := by
  simp only [slotIdx, BitVec.toNat_and]
  exact Nat.and_two_pow_sub_one_eq_mod seq.toNat 8

/-- The slot of a sequence number depends on its index modulo the window only. -/
lemma slotIdx_ofNat (j : ℕ) : (slotIdx (BitVec.ofNat 32 j)).val = j % 256 := by
  rw [slotIdx_val, BitVec.toNat_ofNat]
  omega

/-- Two sequence numbers less than a window apart have different slots. -/
lemma slotIdx_ne {i j : ℕ} (lt : i < j) (near : j < i + 256) :
    slotIdx (BitVec.ofNat 32 i) ≠ slotIdx (BitVec.ofNat 32 j) := by
  intro e
  have val := congrArg Fin.val e
  rw [slotIdx_ofNat, slotIdx_ofNat] at val
  omega

namespace UnackedQueue

/-- The slot that was written. -/
@[simp] lemma set_slots_self (q : UnackedQueue) (k : Fin window) (s : Slot) :
    (q.set k s).slots k = s := by
  simp [set]

/-- The other slots stay as they are. -/
lemma set_slots_ne (q : UnackedQueue) {k k' : Fin window} (s : Slot) (ne : k' ≠ k) :
    (q.set k s).slots k' = q.slots k' := by
  simp [set, ne]

/-- The slot as `mark_acked` leaves it. -/
def ackedSlot (upToSeq : BitVec 32) (s : Slot) : Slot :=
  if s.occupied && (s.seq - upToSeq).toInt < 0 then s.clear else s

/-- Noting a slot leaves the queue alone. -/
lemma AckScan.note_queue (a : AckScan) (s : Slot) : (a.note s).queue = a.queue := by
  unfold AckScan.note
  split
  · rfl
  · rfl

/-- A round of `mark_acked` treats its own slot. -/
lemma ackSlot_slots (upToSeq : BitVec 32) (a : AckScan) (k k' : Fin window) :
    (ackSlot upToSeq a k).queue.slots k'
      = if k' = k then ackedSlot upToSeq (a.queue.slots k) else a.queue.slots k' := by
  unfold ackSlot ackedSlot
  dsimp only
  by_cases hk : k' = k
  · subst hk
    split
    · simp [AckScan.drop, AckScan.note_queue]
    · simp
  · split
    · simp [AckScan.drop, AckScan.note_queue, set_slots_ne _ _ hk]
    · simp

/-- `mark_acked` clears exactly the occupied slots serially before its argument. -/
lemma markAcked_slots (upToSeq : BitVec 32) (q : UnackedQueue) (pool : BufferPool)
    (k : Fin window) :
    (markAcked upToSeq q pool).2.1.slots k = ackedSlot upToSeq (q.slots k) := by
  unfold markAcked
  dsimp only
  rw [Loop.foldl_cells (fun a : AckScan => a.queue.slots) (ackSlot_slots upToSeq)
    (List.nodup_finRange window), if_pos (List.mem_finRange k)]

/-- `mark_acked` gives buffers back as they are. -/
lemma markAcked_memory (upToSeq : BitVec 32) (q : UnackedQueue) (pool : BufferPool) :
    (markAcked upToSeq q pool).2.2.mem = pool.mem ∧
      (markAcked upToSeq q pool).2.2.bufferSize = pool.bufferSize := by
  have scan : ∀ (ks : List (Fin window)) (a : AckScan),
      (ks.foldl (ackSlot upToSeq) a).pool.mem = a.pool.mem ∧
        (ks.foldl (ackSlot upToSeq) a).pool.bufferSize = a.pool.bufferSize := by
    intro ks
    induction ks with
    | nil => exact fun a => ⟨rfl, rfl⟩
    | cons k ks ih =>
      intro a
      have round : (ackSlot upToSeq a k).pool.mem = a.pool.mem ∧
          (ackSlot upToSeq a k).pool.bufferSize = a.pool.bufferSize := by
        unfold ackSlot AckScan.note
        dsimp only
        split
        · split
          · exact releaseBuf_memory _ _ _
          · exact releaseBuf_memory _ _ _
        · exact ⟨rfl, rfl⟩
      obtain ⟨mem, size⟩ := ih (ackSlot upToSeq a k)
      exact ⟨mem.trans round.1, size.trans round.2⟩
  have all := scan (List.finRange window)
    { queue := q, pool := pool, newestTsc := 0, newestSeq := 0, any := false }
  unfold markAcked
  dsimp only
  generalize (List.finRange window).foldl (ackSlot upToSeq) _ = r at all ⊢
  exact all

/-- `release_all` clears every slot. -/
lemma releaseAll_slots (q : UnackedQueue) (pool : BufferPool) (k : Fin window) :
    (releaseAll q pool).1.slots k = (q.slots k).clear := by
  have own : ∀ (qp : UnackedQueue × BufferPool) (k k' : Fin window),
      (releaseSlot qp k).1.slots k' = if k' = k then (qp.1.slots k).clear else qp.1.slots k' := by
    intro qp k k'
    unfold releaseSlot
    by_cases hk : k' = k
    · subst hk
      simp
    · simp [set_slots_ne _ _ hk, hk]
  unfold releaseAll
  rw [Loop.foldl_cells (fun qp : UnackedQueue × BufferPool => qp.1.slots) own
    (List.nodup_finRange window), if_pos (List.mem_finRange k)]

/-- `touch` changes times only. -/
lemma touch_slots (seq : BitVec 32) (now : BitVec 64) (q : UnackedQueue) (k : Fin window) :
    ∃ tsc, (q.touch seq now).slots k = { q.slots k with sentTsc := tsc } := by
  unfold touch
  split
  · by_cases hk : k = slotIdx seq
    · subst hk
      exact ⟨now, by simp⟩
    · exact ⟨(q.slots k).sentTsc, set_slots_ne _ _ hk⟩
  · exact ⟨(q.slots k).sentTsc, rfl⟩

-- The loops over the 256 slots are used through their lemmas only: unfolding them is slow.
attribute [irreducible] markAcked releaseAll

end UnackedQueue

end UxNet.TcpLite
