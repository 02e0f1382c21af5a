import UxNet.Packet.Batch
import UxNet.Pool.Basic
import UxNet.Ring.Spsc

/-!
# Capture pipeline

The capture loop of `multiqueue_capture.cpp` and `WorkerPool::worker_loop`, one worker for each queue.
Every call to the pool or to a ring is one step, and the threads take their steps in any order. The
frames are whatever the packet ring gives.

`taken`, `arrival`, `pushes` and `seen` are history: the frames taken from the packet ring, the number
of the frame that was copied into a buffer, what was pushed and what the callback was called with.
-/

namespace UxNet.Packet

/-- The addresses and ports that `queue_for` looks at. -/
structure Flow where
  hasIp : Bool
  hasUdp : Bool
  srcIp : BitVec 32
  dstIp : BitVec 32
  srcPort : BitVec 16
  dstPort : BitVec 16
deriving DecidableEq, Repr

/-- The flow of a parsed packet. -/
def ParsedPacket.flow (pkt : ParsedPacket) : Access Flow := do
  let srcIp ← pkt.ip.srcIp
  let dstIp ← pkt.ip.dstIp
  let srcPort ← pkt.udp.srcPort
  let dstPort ← pkt.udp.dstPort
  pure { hasIp := pkt.hasIp, hasUdp := pkt.hasUdp, srcIp := srcIp, dstIp := dstIp, srcPort := srcPort,
         dstPort := dstPort }

/-- The flags are the same, and so is what they say is there. -/
structure Flow.Same (f g : Flow) : Prop where
  hasIp : f.hasIp = g.hasIp
  hasUdp : f.hasUdp = g.hasUdp
  ips : f.hasIp = true ∨ f.hasUdp = true → f.srcIp = g.srcIp ∧ f.dstIp = g.dstIp
  ports : f.hasUdp = true → f.srcPort = g.srcPort ∧ f.dstPort = g.dstPort

namespace RSSDistributor

/-- The queue of a flow. -/
def indexOf (d : RSSDistributor) (f : Flow) : BitVec 32 :=
  if f.hasUdp then d.hash f.srcIp f.dstIp f.srcPort f.dstPort
  else if f.hasIp then d.hash f.srcIp f.dstIp 0 0
  else 0

variable (d : RSSDistributor)

/-- The queue depends on the flow only. -/
lemma run_submitIndex (pkt : ParsedPacket) (m : ℕ → BitVec 8) :
    (d.submitIndex pkt).run m = d.indexOf (pkt.flow.run m) := by
  unfold submitIndex indexOf ParsedPacket.flow
  cases pkt.hasUdp with
  | true => simp
  | false =>
    cases pkt.hasIp with
    | true => simp
    | false => simp

/-- Two frames of one flow have the same index. -/
lemma indexOf_same {f g : Flow} (same : f.Same g) : d.indexOf f = d.indexOf g := by
  unfold indexOf
  rw [← same.hasIp, ← same.hasUdp]
  split
  · rename_i udp
    obtain ⟨src, dst⟩ := same.ips (.inr udp)
    obtain ⟨srcPort, dstPort⟩ := same.ports udp
    rw [src, dst, srcPort, dstPort]
  · split
    · rename_i ip
      obtain ⟨src, dst⟩ := same.ips (.inl ip)
      rw [src, dst]
    · rfl

/-- The queue is one of those there are. -/
lemma indexOf_lt {bits : ℕ} (le : bits ≤ 32) (count : d.queueCount = 2 ^ bits) (f : Flow) :
    (d.indexOf f).toNat < 2 ^ bits := by
  have pos := Nat.two_pow_pos bits
  have masked : ∀ x : BitVec 32, (x &&& d.mask).toNat < 2 ^ bits := by
    intro x
    have top := Nat.pow_le_pow_right (n := 2) (by decide) le
    have mask : d.mask.toNat = 2 ^ bits - 1 := by
      rw [mask, count, BitVec.toNat_ofNat]
      exact Nat.mod_eq_of_lt (by omega)
    have and_le : (x &&& d.mask).toNat ≤ d.mask.toNat := by
      rw [BitVec.toNat_and]
      exact Nat.and_le_right
    omega
  unfold indexOf
  split
  · exact masked _
  · split
    · exact masked _
    · exact pos

end RSSDistributor

/-- How far the parser and `queue_for` can look. -/
def reach : ℕ := 78

/-- Memories that agree on what can be looked at are parsed alike. -/
lemma parse_congr {m m' : ℕ → BitVec 8} (agree : ∀ i < reach, m i = m' i) (len : BitVec 64) :
    (parse len).run m = (parse len).run m' ∧
      ((parse len).run m).flow.run m = ((parse len).run m').flow.run m' := by
  have ihl := ihlAt_le (m := m)
  have inside := (parse_reads_lt_iff m len reach).mpr (by unfold reach; omega)
  have same := (Access.run_congr (parse len) fun i mem => agree i (inside i mem)).1
  refine ⟨same, ?_⟩
  rw [← same]
  refine (Access.run_congr _ fun i mem => agree i ?_).1
  obtain ⟨ip, udp, _, _⟩ := parse_flags m len
  simp [ParsedPacket.flow, IPv4View.srcIp, IPv4View.dstIp, UDPView.srcPort, UDPView.dstPort, rd16, rd32,
    ip, udp] at mem
  unfold reach
  omega

end UxNet.Packet

namespace UxNet.Capture

open Packet

/-- The sizes that `main` chooses, and which queue each worker serves. -/
structure Setup where
  queueBits : Fin 33
  ringBits : Fin 64
  bufferSize : ℕ
  bufferCount : ℕ
  mem : ℕ → BitVec 8
  slots : Fin (2 ^ queueBits.val) → Fin (2 ^ ringBits.val) → ℕ
  queueIndex : Fin (2 ^ queueBits.val) → Fin (2 ^ queueBits.val)
  distinct : Function.Injective queueIndex
  fits : reach ≤ bufferSize

/-- `RSSDistributor rss(kQueues)`. -/
def Setup.rss (p : Setup) : RSSDistributor where
  queueCount := 2 ^ p.queueBits.val

/-- The index of a queue, and also of a worker. -/
abbrev Setup.Queue (p : Setup) : Type := Fin (2 ^ p.queueBits.val)

/-- `queue_for`, which has the text of `RSSDistributor::submit`. -/
def queueFor (rss : RSSDistributor) (pkt : ParsedPacket) : Access (BitVec 32) := rss.submitIndex pkt

/-- `rss.get_queue(queue_for(rss, parsed))`: which of the queues it is. -/
def Setup.route (p : Setup) (pkt : ParsedPacket) (m : ℕ → BitVec 8) : p.Queue :=
  ⟨((queueFor p.rss pkt).run m).toNat, by
    rw [queueFor, RSSDistributor.run_submitIndex]
    exact p.rss.indexOf_lt (Nat.le_of_lt_succ p.queueBits.isLt) rfl _⟩

/-- The queue of a packet is the one `submit` computes. -/
lemma Setup.route_val (p : Setup) (pkt : ParsedPacket) (m : ℕ → BitVec 8) :
    (p.route pkt m).val = (p.rss.indexOf (pkt.flow.run m)).toNat := by
  rw [← RSSDistributor.run_submitIndex]
  rfl

/-- `buf->capacity`. -/
def Setup.capacity (p : Setup) : BitVec 32 := BitVec.ofNat 32 p.bufferSize

/-- What `main` sets up, with all memory zero. -/
def Setup.main : Setup where
  queueBits := 2
  ringBits := 13
  bufferSize := 2048
  bufferCount := 8192
  mem := fun _ => 0
  slots := fun _ _ => 0
  queueIndex := id
  distinct := Function.injective_id
  fits := by decide

/-- One queue with a ring of one slot, and two buffers. -/
def Setup.small : Setup where
  queueBits := 0
  ringBits := 0
  bufferSize := reach
  bufferCount := 2
  mem := fun _ => 0
  slots := fun _ _ => 0
  queueIndex := id
  distinct := Function.injective_id
  fits := le_rfl

/-- `struct WorkerStats`. -/
structure WorkerStats where
  packetsProcessed : BitVec 64
  packetsDropped : BitVec 64
  idleSpins : BitVec 64
deriving DecidableEq, Repr

/-- Where the capture loop is. -/
inductive Producer (p : Setup) where
  /-- about to test the clock and `g_stop`, and to call `ring.receive` -/
  | idle
  /-- about to call `pool.acquire` -/
  | acquire (frame : Bytes)
  /-- about to copy the frame, and to choose the queue -/
  | fill (frame : Bytes) (buf : ℕ)
  /-- about to call `push` -/
  | push (buf : ℕ) (q : p.Queue)
  /-- about to call `workers.record_drop` -/
  | recordDrop (buf : ℕ) (q : p.Queue)
  /-- about to call `pool.release` -/
  | release (buf : ℕ)
  /-- about to call `ring.release` -/
  | ringRelease
  /-- after `workers.stop` has set `stop_` -/
  | stopped

/-- Where a worker is. -/
inductive Worker where
  /-- about to call `queue.pop` -/
  | pop
  /-- about to parse, and to call `callback_` -/
  | callback (buf : ℕ)
  /-- about to call `pool_.release` -/
  | release (buf : ℕ)
  /-- about to add to `packets_processed` -/
  | count
  /-- about to test whether to stop -/
  | test
  | stopped

/-- A packet as the callback gets it; `arrival` is the number of its frame. -/
structure Entry where
  arrival : ℕ
  buf : ℕ
  bytes : Bytes
  parsed : ParsedPacket
  flow : Flow

/-- The threads and what they share. -/
structure State (p : Setup) where
  pool : BufferPool
  queues : p.Queue → SPSCRing ℕ p.ringBits
  producer : Producer p
  workers : p.Queue → Worker
  iters : p.Queue → BitVec 64
  stats : p.Queue → WorkerStats
  stop : Bool
  taken : List Bytes
  arrival : ℕ → ℕ
  pushes : List (p.Queue × Entry)
  seen : p.Queue → List Entry

/-- `PacketParser::parse(buf->data, buf->len)`. -/
def parsedIn (pool : BufferPool) (buf : ℕ) : ParsedPacket :=
  (parse ((pool.len buf).setWidth 64)).run (pool.view buf)

/-- `WorkerPool::record_drop`. -/
def recordDrop (p : Setup) (q : p.Queue) (stats : p.Queue → WorkerStats) : p.Queue → WorkerStats :=
  match (List.finRange (2 ^ p.queueBits.val)).find? fun i => p.queueIndex i = q with
  | some i => Function.update stats i { stats i with packetsDropped := (stats i).packetsDropped + 1 }
  | none => stats

namespace State

variable {p : Setup}

/-- The threads are about to start. -/
def init (p : Setup) : State p where
  pool := .new p.bufferSize p.bufferCount p.mem
  queues := fun q => .new (p.slots q)
  producer := .idle
  workers := fun _ => .pop
  iters := fun _ => 0
  stats := fun _ => { packetsProcessed := 0, packetsDropped := 0, idleSpins := 0 }
  stop := false
  taken := []
  arrival := fun _ => 0
  pushes := []
  seen := fun _ => []

/-- What a buffer holds. -/
def entry (s : State p) (buf : ℕ) : Entry where
  arrival := s.arrival buf
  buf := buf
  bytes := s.pool.content buf
  parsed := parsedIn s.pool buf
  flow := (parsedIn s.pool buf).flow.run (s.pool.view buf)

/-- What was pushed to a queue. -/
def pushed (s : State p) (q : p.Queue) : List Entry := (s.pushes.filter (·.1 = q)).map (·.2)

/-- `std::memcpy(buf->data, frame.data, n); buf->len = n`. -/
def copied (s : State p) (frame : Bytes) (buf : ℕ) : BufferPool :=
  s.pool.store buf (frame.take p.capacity.toNat)

/-- The frame is copied, parsed, and its queue chosen. -/
def fill (s : State p) (frame : Bytes) (buf : ℕ) : State p :=
  { s with
    pool := s.copied frame buf
    arrival := Function.update s.arrival buf (s.taken.length - 1)
    producer := .push buf (p.route (parsedIn (s.copied frame buf) buf) ((s.copied frame buf).view buf)) }

/-- The state with another ring for a queue. -/
def setQueue (s : State p) (q : p.Queue) (ring : SPSCRing ℕ p.ringBits) : State p :=
  { s with queues := Function.update s.queues q ring }

/-- The state with a worker elsewhere. -/
def setWorker (s : State p) (w : p.Queue) (pc : Worker) : State p :=
  { s with workers := Function.update s.workers w pc }

/-- The callback is called. -/
def call (s : State p) (q : p.Queue) (buf : ℕ) : State p :=
  { s with seen := Function.update s.seen q (s.seen q ++ [s.entry buf]) }

/-- `st.packets_processed.fetch_add(1)`. -/
def processed (s : State p) (w : p.Queue) : State p :=
  { s with
    stats := Function.update s.stats w
      { s.stats w with packetsProcessed := (s.stats w).packetsProcessed + 1 } }

/-- `st.idle_spins.fetch_add(1)`. -/
def spun (s : State p) (w : p.Queue) : State p :=
  { s with stats := Function.update s.stats w { s.stats w with idleSpins := (s.stats w).idleSpins + 1 } }

/-- A step of the capture loop. -/
inductive Produce : State p → State p → Prop where
  | receive {s} (frame : Bytes) :
    s.producer = .idle →
    Produce s { s with producer := .acquire frame, taken := s.taken ++ [frame] }
  | stop {s} :
    s.producer = .idle →
    Produce s { s with producer := .stopped, stop := true }
  | acquire {s frame buf pool} :
    s.producer = .acquire frame →
    s.pool.acquire = (some buf, pool) →
    Produce s { s with producer := .fill frame buf, pool := pool }
  | exhausted {s frame pool} :
    s.producer = .acquire frame →
    s.pool.acquire = (none, pool) →
    Produce s { s with producer := .ringRelease, pool := pool }
  | fill {s frame buf} :
    s.producer = .fill frame buf →
    Produce s (s.fill frame buf)
  | push {s buf q ring} :
    s.producer = .push buf q →
    (s.queues q).push buf = (true, ring) →
    Produce s { s.setQueue q ring with producer := .ringRelease, pushes := s.pushes ++ [(q, s.entry buf)] }
  | full {s buf q ring} :
    s.producer = .push buf q →
    (s.queues q).push buf = (false, ring) →
    Produce s { s.setQueue q ring with producer := .recordDrop buf q }
  | recordDrop {s buf q} :
    s.producer = .recordDrop buf q →
    Produce s { s with producer := .release buf, stats := recordDrop p q s.stats }
  | release {s buf} :
    s.producer = .release buf →
    Produce s { s with producer := .ringRelease, pool := s.pool.release .caller buf }
  | ringRelease {s} :
    s.producer = .ringRelease →
    Produce s { s with producer := .idle }

/-- A step of a worker. -/
inductive Work (w : p.Queue) : State p → State p → Prop where
  | pop {s buf ring} :
    s.workers w = .pop →
    (s.queues (p.queueIndex w)).pop = (some buf, ring) →
    Work w s ((s.setQueue (p.queueIndex w) ring).setWorker w (.callback buf))
  | empty {s ring} :
    s.workers w = .pop →
    (s.queues (p.queueIndex w)).pop = (none, ring) →
    Work w s (((s.setQueue (p.queueIndex w) ring).spun w).setWorker w .test)
  | callback {s buf} :
    s.workers w = .callback buf →
    Work w s ((s.call (p.queueIndex w) buf).setWorker w (.release buf))
  | release {s buf} :
    s.workers w = .release buf →
    Work w s ({ s with pool := s.pool.release .caller buf }.setWorker w .count)
  | count {s} :
    s.workers w = .count →
    Work w s ((s.processed w).setWorker w .test)
  | again {s} :
    s.workers w = .test →
    ¬((s.iters w + 1) % 1000 = 0 ∧ s.stop = true) →
    Work w s ({ s with iters := Function.update s.iters w (s.iters w + 1) }.setWorker w .pop)
  | stop {s} :
    s.workers w = .test →
    (s.iters w + 1) % 1000 = 0 → s.stop = true →
    Work w s ({ s with iters := Function.update s.iters w (s.iters w + 1) }.setWorker w .stopped)

/-- A step of one of the threads. -/
inductive Step : State p → State p → Prop where
  | produce {s t} : Produce s t → Step s t
  | work {s t} (w : p.Queue) : Work w s t → Step s t

/-- Any number of steps. -/
def Steps : State p → State p → Prop := Relation.ReflTransGen Step

end State

end UxNet.Capture
