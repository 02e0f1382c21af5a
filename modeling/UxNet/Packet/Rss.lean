import UxNet.Packet.Parser

/-!
# Receive-side scaling

The Toeplitz hash of `rss_distributor.cpp` and the choice of the queue in `RSSDistributor::submit`. The
rings behind the queues are not part of this file.
-/

namespace UxNet.Packet

/-- `kRssKey`. -/
def kRssKey : List (BitVec 8) :=
  [0x6d, 0x5a, 0x56, 0xda, 0x25, 0x5b, 0x0e, 0xc2, 0x41, 0x67,
   0x25, 0x3d, 0x43, 0xa3, 0x8f, 0xb0, 0xd0, 0xca, 0x2b, 0xcb,
   0xae, 0x7b, 0x30, 0xb4, 0x77, 0xcb, 0x2d, 0xa3, 0x80, 0x30,
   0xf2, 0x0c, 0x6a, 0x42, 0xb7, 0x3b, 0xbe, 0xac, 0x01, 0xfa]

/-- The variables of the loops in `toeplitz`. -/
structure ToeplitzScan where
  result : BitVec 32
  window : BitVec 32
  nextBit : ℕ
deriving DecidableEq, Repr

/-- `kRssKey` as a memory. -/
def keyMem (i : ℕ) : BitVec 8 := kRssKey.getD i 0

/-- One round of the inner loop of `toeplitz`, for bit `bit` of an input byte. -/
def toeplitzBitRead (input : BitVec 8) (t : ToeplitzScan) (bit : ℕ) : Access ToeplitzScan := do
  let keyByte ← Access.byte (t.nextBit / 8)
  let keyBit := (keyByte >>> (7 - t.nextBit % 8)) &&& 1
  pure
    { result := if (input >>> bit) &&& 1 = 1 then t.result ^^^ t.window else t.result
      window := (t.window <<< 1) ||| keyBit.setWidth 32
      nextBit := t.nextBit + 1 }

/-- The inner loop of `toeplitz`. -/
def toeplitzByteRead (t : ToeplitzScan) (input : BitVec 8) : Access ToeplitzScan :=
  [7, 6, 5, 4, 3, 2, 1, 0].foldlM (toeplitzBitRead input) t

/-- `RSSDistributor::toeplitz`, as the reads of `kRssKey` that it makes. -/
def toeplitzRead (srcIp dstIp : BitVec 32) (srcPort dstPort : BitVec 16) : Access (BitVec 32) := do
  let input : List (BitVec 8) :=
    [(srcIp >>> 24).setWidth 8, (srcIp >>> 16).setWidth 8, (srcIp >>> 8).setWidth 8,
     srcIp.setWidth 8, (dstIp >>> 24).setWidth 8, (dstIp >>> 16).setWidth 8,
     (dstIp >>> 8).setWidth 8, dstIp.setWidth 8, (srcPort >>> 8).setWidth 8, srcPort.setWidth 8,
     (dstPort >>> 8).setWidth 8, dstPort.setWidth 8]
  let k0 ← Access.byte 0
  let k1 ← Access.byte 1
  let k2 ← Access.byte 2
  let k3 ← Access.byte 3
  let t ← input.foldlM toeplitzByteRead { result := 0, window := k0 ++ k1 ++ k2 ++ k3, nextBit := 32 }
  pure t.result

/-- What `RSSDistributor::toeplitz` returns. -/
def toeplitz (srcIp dstIp : BitVec 32) (srcPort dstPort : BitVec 16) : BitVec 32 :=
  (toeplitzRead srcIp dstIp srcPort dstPort).run keyMem

/-- `class RSSDistributor`, without its rings. -/
structure RSSDistributor where
  queueCount : ℕ

namespace RSSDistributor

/-- `mask_`. -/
def mask (d : RSSDistributor) : BitVec 32 := BitVec.ofNat 32 (d.queueCount - 1)

/-- `RSSDistributor::hash`. -/
def hash (d : RSSDistributor) (srcIp dstIp : BitVec 32) (srcPort dstPort : BitVec 16) : BitVec 32 :=
  toeplitz srcIp dstIp srcPort dstPort &&& d.mask

/-- `RSSDistributor::submit`: the index of the queue that the buffer goes to. -/
def submitIndex (d : RSSDistributor) (pkt : ParsedPacket) : Access (BitVec 32) :=
  if pkt.hasUdp then do
    let srcIp ← pkt.ip.srcIp
    let dstIp ← pkt.ip.dstIp
    let srcPort ← pkt.udp.srcPort
    let dstPort ← pkt.udp.dstPort
    pure (d.hash srcIp dstIp srcPort dstPort)
  else if pkt.hasIp then do
    let srcIp ← pkt.ip.srcIp
    let dstIp ← pkt.ip.dstIp
    pure (d.hash srcIp dstIp 0 0)
  else pure 0

/-- `submit` reads the addresses, and the ports of what was taken for UDP. -/
lemma submitIndex_reads (d : RSSDistributor) (pkt : ParsedPacket) (m : ℕ → BitVec 8) {i : ℕ}
    (mem : i ∈ (d.submitIndex pkt).reads m) :
    ((pkt.hasUdp = true ∨ pkt.hasIp = true) ∧ pkt.ip.buf + 12 ≤ i ∧ i < pkt.ip.buf + 20) ∨
      (pkt.hasUdp = true ∧ pkt.udp.buf ≤ i ∧ i < pkt.udp.buf + 4) := by
  unfold submitIndex at mem
  cases hu : pkt.hasUdp with
  | true =>
    simp [hu, IPv4View.srcIp, IPv4View.dstIp, UDPView.srcPort, UDPView.dstPort, rd16, rd32] at mem
    simp
    omega
  | false =>
    cases hi : pkt.hasIp with
    | true =>
      simp [hu, hi, IPv4View.srcIp, IPv4View.dstIp, rd32] at mem
      simp
      omega
    | false => simp [hu, hi] at mem

end RSSDistributor

end UxNet.Packet
