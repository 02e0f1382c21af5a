import Mathlib.Data.BitVec
import UxNet.Packet.Batch
import UxNet.Pool.Basic

/-!
# Batch processor

`BatchProcessor::run_once` of `batch_processor.cpp`: up to 32 buffers are taken from the queue, parsed,
dispatched to the handlers and given back to the pool. The queue is the list of the buffers in it, the
next one first. A handler does not write to the frames of the batch.

`dispatch_batch` never looks at the `valid` flag that the parser sets: a frame that the parser calls
invalid is handled like any other if a handler is there for it.
-/

namespace UxNet.Packet

/-- `ProcessingBatch::BATCH_SIZE`. -/
def batchSize : ℕ := 32

/-- `class BatchProcessor`, with its pool and its queue. -/
structure BatchProcessor (Handler : Type) where
  pool : BufferPool
  queue : List ℕ
  table : HandlerTable Handler
  batchesProcessed : BitVec 64
  packetsProcessed : BitVec 64
  packetsDispatched : BitVec 64

namespace BatchProcessor

variable {Handler : Type}

/-- `buf->len`, as the `size_t` argument of `parse`. -/
def lenOf (p : BatchProcessor Handler) (buf : ℕ) : BitVec 64 := (p.pool.len buf).setWidth 64

/-- The parsed packet of a buffer. -/
def packet (p : BatchProcessor Handler) (buf : ℕ) : ParsedPacket :=
  (parse (p.lenOf buf)).run (p.pool.view buf)

/-- A buffer of the batch, parsed. -/
def entry (p : BatchProcessor Handler) (buf : ℕ) : BatchEntry ℕ where
  pkt := p.packet buf
  mem := p.pool.view buf
  buf := buf

/-- `BatchProcessor::run_once`, with what `dispatch_batch` does in it. -/
def runOnce [DecidableEq Handler] (p : BatchProcessor Handler) :
    BatchProcessor Handler × Dispatch Handler ℕ :=
  let bufs := p.queue.take batchSize
  if bufs = [] then
    (p, { handled := [], touched := [], packetsDispatched := p.packetsDispatched })
  else
    let d := p.table.dispatchBatch p.packetsDispatched (bufs.map p.entry)
    ({ p with
      pool := bufs.foldl (fun pool buf => pool.release .caller buf) p.pool
      queue := p.queue.drop batchSize
      batchesProcessed := p.batchesProcessed + 1
      packetsProcessed := p.packetsProcessed + BitVec.ofNat 64 bufs.length
      packetsDispatched := d.packetsDispatched }, d)

end BatchProcessor

/-! ## Validity -/

/-- The folded sum of the header words that `checksum_valid` compares with `0xFFFF`. -/
def headerSumAt (m : ℕ → BitVec 8) : BitVec 32 :=
  foldCarry ((IPv4View.sumWords (ihlAt m / 2) 14 0).run m)

/-- A frame shorter than an Ethernet header, or one taken for IPv4 whose header checksum does not
verify. -/
def BadFrame (m : ℕ → BitVec 8) (len : ℕ) : Prop :=
  len < 14 ∨ (LooksIPv4 m len ∧ headerSumAt m ≠ 0xFFFF)

/-- The UDP destination port of a frame. -/
def dstPortAt (m : ℕ → BitVec 8) : BitVec 16 := m (14 + ihlAt m + 2) ++ m (14 + ihlAt m + 3)

/-- `valid` is false exactly for bad frames. -/
lemma parse_valid_iff (m : ℕ → BitVec 8) (len : BitVec 64) :
    ((parse len).run m).valid = false ↔ BadFrame m len.toNat := by
  obtain ⟨_, _, hasIp, _⟩ := parse_flags m len
  have sum : (IPv4View.checksumValid { buf := 14, len := len - 14 }).run m
      = (headerSumAt m == 0xFFFF) := by
    simp only [IPv4View.checksumValid, Access.run_bind, Access.run_pure, toNat_headerLen, headerSumAt]
  have flag : ((parse len).run m).valid = (decide (14#64 ≤ len) &&
      (!((parse len).run m).hasIp || (headerSumAt m == 0xFFFF))) := by
    rw [← sum]
    simp [parse, EthernetView.valid, EthernetView.payload]
  have short : decide (14#64 ≤ len) = decide (14 ≤ len.toNat) := rfl
  rw [flag, short, hasIp, BadFrame]
  by_cases h : 14 ≤ len.toNat
  · by_cases looks : LooksIPv4 m len.toNat
    · simp [h, looks]
    · simp [h, looks]
  · simp [h, Nat.lt_of_not_le h]

section Dispatch

variable {Handler Buf : Type}

/-- The handler of a frame: the one of its port if it is taken for UDP, else the default one. -/
lemma HandlerTable.handlerFor_eq_none (table : HandlerTable Handler) (m : ℕ → BitVec 8)
    (len : BitVec 64) :
    (table.handlerFor ((parse len).run m)).run m = none ↔
      table.default = none ∧ (LooksUdp m len.toNat → table.udp (dstPortAt m) = none) := by
  obtain ⟨_, udpBuf, _, hasUdp⟩ := parse_flags m len
  by_cases looks : LooksUdp m len.toNat
  · rw [decide_eq_true looks] at hasUdp
    have port : ((parse len).run m).udp.dstPort.run m = dstPortAt m := by
      rw [UDPView.dstPort, run_rd16, udpBuf]
      rfl
    cases hu : table.udp (dstPortAt m) with
    | none => simp [handlerFor, hasUdp, port, hu]
    | some h => simp [handlerFor, hasUdp, port, hu, looks]
  · rw [decide_eq_false looks] at hasUdp
    simp [handlerFor, hasUdp, looks]

/-- `packets_dispatched` counts the `handle` calls. -/
lemma HandlerTable.dispatchBatch_count [DecidableEq Handler] (table : HandlerTable Handler)
    (n : BitVec 64) (batch : List (BatchEntry Buf)) :
    (table.dispatchBatch n batch).packetsDispatched
      = n + BitVec.ofNat 64 (table.dispatchBatch n batch).handled.length := by
  have run : ∀ d : Dispatch Handler Buf,
      (batch.foldl table.dispatchOne d).packetsDispatched + BitVec.ofNat 64 d.handled.length
      = d.packetsDispatched
        + BitVec.ofNat 64 (batch.foldl table.dispatchOne d).handled.length := by
    induction batch with
    | nil => exact fun d => rfl
    | cons e batch ih =>
      intro d
      have rest := ih (table.dispatchOne d e)
      rw [List.foldl_cons]
      rw [dispatchOne] at rest ⊢
      cases found : (table.handlerFor e.pkt).run e.mem with
      | none =>
        rw [found] at rest
        exact rest
      | some h =>
        simp only [found, List.length_append, List.length_singleton, BitVec.ofNat_add,
          BitVec.ofNat_eq_ofNat] at rest ⊢
        linear_combination rest
  exact (BitVec.add_zero _).symm.trans (run { handled := [], touched := [], packetsDispatched := n })

end Dispatch

namespace BatchProcessor

variable {Handler : Type} [DecidableEq Handler] (p : BatchProcessor Handler)

/-- The `handle` calls of `run_once` are those for the buffers of the batch that have a handler. -/
lemma runOnce_handled : p.runOnce.2.handled = (p.queue.take batchSize).filterMap fun buf =>
    ((p.table.handlerFor (p.packet buf)).run (p.pool.view buf)).map fun h => (h, buf) := by
  unfold runOnce
  dsimp only
  split
  · rename_i none
    rw [none]
    rfl
  · rw [HandlerTable.dispatchBatch_handled, List.filterMap_map]
    rfl

/-- `packets_dispatched` counts the `handle` calls of `run_once`. -/
lemma runOnce_dispatched : p.runOnce.1.packetsDispatched
    = p.packetsDispatched + BitVec.ofNat 64 p.runOnce.2.handled.length := by
  unfold runOnce
  dsimp only
  split
  · exact (BitVec.add_zero _).symm
  · exact HandlerTable.dispatchBatch_count _ _ _

/-- No frame of the batch that the parser calls invalid has a handler. -/
def NoHandlerForBad : Prop :=
  ∀ buf ∈ p.queue.take batchSize, BadFrame (p.pool.view buf) (p.lenOf buf).toNat →
    p.table.default = none ∧
    (LooksUdp (p.pool.view buf) (p.lenOf buf).toNat →
      p.table.udp (dstPortAt (p.pool.view buf)) = none)

/-- For every table of handlers and every queue: the handlers are called with valid packets only, and
`packets_dispatched` counts valid packets only, exactly if no frame of the batch that is too short or has
a wrong header checksum has a handler. -/
theorem handled_valid_iff :
    ((∀ c ∈ p.runOnce.2.handled, (p.packet c.2).valid = true) ∧
      p.runOnce.1.packetsDispatched = p.packetsDispatched + BitVec.ofNat 64
        (p.runOnce.2.handled.filter fun c => (p.packet c.2).valid).length) ↔
    p.NoHandlerForBad := by
  constructor
  · rintro ⟨valid, _⟩ buf mem bad
    apply (p.table.handlerFor_eq_none _ _).mp
    by_contra some
    obtain ⟨h, found⟩ := Option.ne_none_iff_exists'.mp some
    have handled : (h, buf) ∈ p.runOnce.2.handled := by
      rw [runOnce_handled]
      refine List.mem_filterMap.mpr ⟨buf, mem, ?_⟩
      rw [packet, found]
      rfl
    have bad' := (parse_valid_iff _ (p.lenOf buf)).mpr bad
    exact Bool.false_ne_true (bad'.symm.trans (valid _ handled))
  · intro none
    have valid : ∀ c ∈ p.runOnce.2.handled, (p.packet c.2).valid = true := by
      intro c handled
      rw [runOnce_handled] at handled
      obtain ⟨buf, mem, found⟩ := List.mem_filterMap.mp handled
      obtain ⟨h, found', rfl⟩ := Option.map_eq_some_iff.mp found
      by_contra bad
      have bad' := (parse_valid_iff _ (p.lenOf buf)).mp (Bool.eq_false_iff.mpr bad)
      have gone := (p.table.handlerFor_eq_none _ _).mpr (none buf mem bad')
      exact Option.some_ne_none h (found'.symm.trans gone)
    refine ⟨valid, ?_⟩
    rw [List.filter_eq_self.mpr valid]
    exact p.runOnce_dispatched

/-- A UDP datagram to port 7 in an IPv4 header whose checksum field is 0. -/
def wrongChecksumFrame : Bytes :=
  [0, 0, 0, 0, 0, 0, 0, 0, 0, 0, 0, 0, 0x08, 0x00,
   0x45, 0, 0, 28, 0, 0, 0, 0, 64, 17, 0, 0, 10, 0, 0, 1, 10, 0, 0, 2,
   0, 9, 0, 7, 0, 8, 0, 0]

/-- A processor with a handler for port 7 and that datagram in its queue. -/
def portSeven : BatchProcessor Unit where
  pool := (BufferPool.new 64 1 fun _ => 0).store 0 wrongChecksumFrame
  queue := [0]
  table := { udp := fun port => if port = 7 then some () else none, default := none }
  batchesProcessed := 0
  packetsProcessed := 0
  packetsDispatched := 0

/-- The parser calls the datagram invalid; the handler gets it, and it is counted. -/
theorem wrong_checksum_dispatched :
    (portSeven.packet 0).valid = false ∧ portSeven.runOnce.2.handled = [((), 0)] ∧
    portSeven.runOnce.1.packetsDispatched = 1 := by
  decide +kernel

end BatchProcessor

end UxNet.Packet
