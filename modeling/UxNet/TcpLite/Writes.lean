import UxNet.TcpLite.Sender

/-!
# What `pump_tx` writes

`pump_tx` writes a header and up to 1024 payload bytes into a buffer without looking at its capacity,
and the constructors of the pool and of the session do not compare the two either. `Config.WritesInside`
says of the next step that a packet it prepares stays within its buffer and leaves the other
unacknowledged packets alone; it holds along all runs exactly for the pools whose buffers hold a full
packet.

Buffer `i` starts at `i * bufferSize` of an unbounded memory, which is what the pool does as long as
`bufferSize * bufferCount` does not wrap around (`Apart`). Where it wraps, the allocation is too small and
buffers overlap before anything is written; that is in `Pool/Geometry.lean`.
-/

namespace UxNet.TcpLite

open TcpLiteSession

/-- `capacity` of the descriptors, `static_cast<uint32_t>(buffer_size_)`. -/
def capacity (p : BufferPool) : ℕ := p.bufferSize % 2 ^ 32

/-- A pool of at least one buffer, whose `buffer_size * buffer_count` bytes do not wrap around. -/
structure BufferPool.Apart (size n : ℕ) : Prop where
  some : 0 < n
  total : size * n < 2 ^ 64

/-- If the next step prepares a packet, every byte of it is written at an offset below the capacity of its
buffer, `buf->len` is at most the capacity, and the packets waiting for an ACK stay as they are. -/
def Config.WritesInside (c : Config) : Prop :=
  ∀ fs buf pool, c.stack = .pumpTx :: fs → c.session.pumpOpen = true →
    (c.session.pool.callerOps (c.session.tape 0).ops).acquire = (some buf, pool) →
    (∀ off < c.session.pumpPacket.length, off < capacity pool) ∧
    ((exec c.session .pumpTx).1.pool.len buf).toNat ≤ capacity pool ∧
    ∀ k i, (c.session.unacked.slots k).occupied = true → (c.session.unacked.slots k).buf = some i →
      (exec c.session .pumpTx).1.pool.content i = c.session.pool.content i

/-- A packet is its header and its payload. -/
lemma pumpPacket_length (s : TcpLiteSession) : s.pumpPacket.length = headerSize + s.pumpLen := by
  rw [pumpPacket, TcpLiteHeader.length_encode, pumpPayload_length]

/-- A round of `pump_tx` that finds its slot free. -/
lemma exec_pumpTx {s : TcpLiteSession} {buf : ℕ} {pool : BufferPool} (op : s.pumpOpen = true)
    (acq : (s.pool.callerOps (s.tape 0).ops).acquire = (some buf, pool))
    (free : (s.unacked.slots (slotIdx s.nextSeq)).occupied = false) :
    (exec s .pumpTx).1.pool = pool.store buf s.pumpPacket ∧
    (exec s .pumpTx).1.unacked = s.unacked.set (slotIdx s.nextSeq)
      { buf := some buf, sentTsc := (s.tape 0).tsc, seq := s.nextSeq, occupied := true } := by
  simp only [exec, op, if_true, TcpLiteSession.pumpSend, acq, markSent_of_free free]
  exact ⟨rfl, rfl⟩

namespace Sender

variable {size n : ℕ}

/-- The sending side stays in order along every run of a fresh session, under arbitrary packets. -/
lemma steps {mem : ℕ → BitVec 8} {clock : TscClock} {rtoNs : BitVec 64} {tape : Tape} {c : Config}
    (fits : mtu ≤ size) (run : Config.Steps (Config.fresh (.new size n mem) clock rtoNs tape) c) :
    Sender size n c.session c.stack ∧ Quiet c.stack :=
  Sender.run (c := Config.fresh _ _ _ _) (.fresh size n mem clock rtoNs tape fits) trivial run

/-- Where buffers hold a full packet, preparing one stays within its buffer. -/
lemma writesInside {c : Config} (h : Sender size n c.session c.stack) (quiet : Quiet c.stack)
    (fits : mtu ≤ size % 2 ^ 32) : c.WritesInside := by
  obtain ⟨s, stack⟩ := c
  intro fs buf pool top op acq
  dsimp only at top op acq h quiet ⊢
  subst top
  have nil : pumps fs = [] := quiet.tail (by simp)
  have free := h.bufs.slot_free nil op
  obtain ⟨pool', queue⟩ := exec_pumpTx op acq free
  have cap : capacity pool = size % 2 ^ 32 := by
    have got := BufferPool.acquire_size (p := s.pool.callerOps (s.tape 0).ops)
    rw [acq, BufferPool.callerOps_size] at got
    have eq : s.pool.bufferSize = size := h.bufs.owned.size_eq
    rw [capacity, got, eq]
  have le := (pumpPacket_length_le s).trans fits
  rw [cap]
  refine ⟨fun off lt => lt_of_lt_of_le lt le, ?_, ?_⟩
  · rw [pool']
    simp only [BufferPool.store, Function.update_self, BitVec.toNat_ofNat]
    exact (Nat.mod_le _ _).trans le
  · intro k i occ hb
    -- the slot of the new packet was free, so the one of the other packet is another one
    have ne : k ≠ slotIdx s.nextSeq := by
      rintro rfl
      rw [free] at occ
      cases occ
    have stays : (TcpLite.exec s .pumpTx).1.unacked.slots k = s.unacked.slots k := by
      rw [queue, UnackedQueue.set_slots_ne _ _ ne]
    have same := exec_untouched (i := i) (exec_case s .pumpTx) h.bufs h.fits quiet.guard
      (Nat.add_pos_left (UnackedQueue.holds_pos occ hb) _)
      (Nat.add_pos_left (UnackedQueue.holds_pos (k := k) (by rw [stays, occ]) (by rw [stays, hb])) _)
    exact same.content (h.content_length occ hb)

end Sender

/-- A fresh session in a call of `send` with one packet's worth of bytes, before `pump_tx`. -/
def Config.fullSend (size n : ℕ) : Config where
  session := (TcpLiteSession.new (.new size n fun _ => 0) .unit 0 .silent).append
    (List.replicate maxPayload 0)
  stack := [.pumpTx, .sends []]

/-- Such a call is reached. -/
lemma Config.fullSend_steps (size n : ℕ) :
    Config.Steps (Config.fresh (.new size n fun _ => 0) .unit 0 .silent) (Config.fullSend size n) :=
  (Relation.ReflTransGen.single (.send (List.replicate maxPayload 0) trivial)).tail (.exec .step)

/-- The packet fills `TCP_LITE_MTU` bytes. -/
lemma Config.fullSend_length (size n : ℕ) : (Config.fullSend size n).session.pumpPacket.length = mtu := by
  rw [pumpPacket_length]
  have len : (Config.fullSend size n).session.pendingTx.length = maxPayload := List.length_replicate
  show headerSize + min ((Config.fullSend size n).session.pendingTx.length - 0) maxPayload = mtu
  rw [len]
  rfl

/-- It can be sent. -/
lemma Config.fullSend_pumpOpen (size n : ℕ) : (Config.fullSend size n).session.pumpOpen = true := by
  have op : ∀ data : Bytes, 0 < data.length →
      ((TcpLiteSession.new (.new size n fun _ => 0) .unit 0 .silent).append data).pumpOpen = true := by
    intro data pos
    have window : (0#32 - 0#32).toNat < 256 := by decide
    rw [pumpOpen, Bool.and_eq_true, decide_eq_true_eq, decide_eq_true_eq]
    exact ⟨pos, window⟩
  apply op
  rw [List.length_replicate]
  decide

/-- A pool whose buffers lie apart serves every run of every session without a write past the end of a
buffer exactly if its buffers hold a full packet. -/
theorem writes_inside_iff (size n : ℕ) (apart : BufferPool.Apart size n) :
    (∀ mem clock rtoNs tape c, Config.Steps (Config.fresh (.new size n mem) clock rtoNs tape) c →
      c.WritesInside) ↔ mtu ≤ size % 2 ^ 32 := by
  constructor
  · intro all
    have inside := all _ _ _ _ _ (Config.fullSend_steps size n)
    obtain ⟨m, rfl⟩ := Nat.exists_eq_add_of_lt apart.some
    rcases acq : (Config.fullSend size (0 + m + 1)).session.pool.acquire with ⟨_ | buf, pool⟩
    · obtain ⟨empty, _⟩ := BufferPool.acquire_none acq
      have len := congrArg List.length empty
      simp [Config.fullSend, append, TcpLiteSession.new, BufferPool.new] at len
    · have writes := (inside _ buf pool rfl (Config.fullSend_pumpOpen _ _) acq).1
      have cap : capacity pool = size % 2 ^ 32 := by
        obtain ⟨_, _, rfl⟩ := BufferPool.acquire_some acq
        rfl
      rw [Config.fullSend_length, cap] at writes
      by_contra small
      exact Nat.lt_irrefl _ (writes _ (Nat.lt_of_not_le small))
  · intro fits mem clock rtoNs tape c run
    obtain ⟨sender, quiet⟩ := Sender.steps (fits.trans (Nat.mod_le _ _)) run
    exact sender.writesInside quiet fits

/-- With buffers of `TCP_LITE_MTU` bytes it stays inside. -/
theorem full_packet_inside : (Config.fullSend mtu 1).WritesInside :=
  (writes_inside_iff mtu 1 ⟨by decide, by decide⟩).mpr (by decide) _ _ _ _ _ (Config.fullSend_steps mtu 1)

/-- One byte was sent on a pool of two 17-byte buffers, and two more are about to be. -/
def Config.secondSend : Config where
  session := ((TcpLiteSession.new (.new 17 2 fun _ => 0) .unit 0 .silent).send [1]).append [2, 3]
  stack := [.pumpTx, .sends []]

/-- The second packet is one byte too long for buffer 0, and that byte lands in the header of the first
packet, which waits for its ACK in buffer 1. -/
theorem second_packet_overwrites_first :
    Config.Steps (Config.fresh (.new 17 2 fun _ => 0) .unit 0 .silent) Config.secondSend ∧
    ¬ Config.secondSend.WritesInside ∧
    (exec Config.secondSend.session .pumpTx).1.pool.content 1
      ≠ Config.secondSend.session.pool.content 1 := by
  have first := sends_execs (.new (.new 17 2 fun _ => 0) .unit 0 .silent) [[1]] []
  have sent : Config.Steps (Config.fresh (.new 17 2 fun _ => 0) .unit 0 .silent) ⟨_, []⟩ :=
    (Relation.ReflTransGen.single (.send [1] trivial)).trans first.steps
  have changed : (exec Config.secondSend.session .pumpTx).1.pool.content 1
      ≠ Config.secondSend.session.pool.content 1 := by decide +kernel
  refine ⟨(sent.tail (.send [2, 3] trivial)).tail (.exec .step), ?_, changed⟩
  intro inside
  have free : Config.secondSend.session.pool.free = [0] := by decide +kernel
  rcases acq : Config.secondSend.session.pool.acquire with ⟨_ | buf, pool⟩
  · obtain ⟨empty, _⟩ := BufferPool.acquire_none acq
    rw [free] at empty
    cases empty
  · exact changed ((inside _ buf pool rfl (by decide +kernel) acq).2.2 0 1 (by decide +kernel)
      (by decide +kernel))

end UxNet.TcpLite
