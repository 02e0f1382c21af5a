import UxNet.Lib.Access
import UxNet.Lib.Loop

/-!
# Packet parser

`packet_parser.h`. A view is a place in the frame (an offset from the start of the buffer) with a
length of type `size_t`; its accessors are computations that read bytes of the buffer, so that a
computation says which bytes it reads as well as what it returns. `parse` combines its tests with the
bitwise `&` and `|`, and so evaluates every one of them.

The second part gives the result and the reads of `parse` in terms of the bytes of the frame, and says
when the views that it returns lie inside the frame.
-/

namespace UxNet.Packet

/-- `rd16`. -/
def rd16 (p : ℕ) : Access (BitVec 16) := do
  let b0 ← Access.byte p
  let b1 ← Access.byte (p + 1)
  pure (b0 ++ b1)

/-- `rd32`. -/
def rd32 (p : ℕ) : Access (BitVec 32) := do
  let b0 ← Access.byte p
  let b1 ← Access.byte (p + 1)
  let b2 ← Access.byte (p + 2)
  let b3 ← Access.byte (p + 3)
  pure (b0 ++ b1 ++ b2 ++ b3)

/-- `class EthernetView`. -/
structure EthernetView where
  buf : ℕ
  len : BitVec 64
deriving DecidableEq, Repr

/-- `class IPv4View`. -/
structure IPv4View where
  buf : ℕ
  len : BitVec 64
deriving DecidableEq, Repr

/-- `class UDPView`. -/
structure UDPView where
  buf : ℕ
  len : BitVec 64
deriving DecidableEq, Repr

namespace EthernetView

/-- `EthernetView::valid`. -/
def valid (v : EthernetView) : Bool := 14 ≤ v.len

/-- `EthernetView::dst_mac`. -/
def dstMac (v : EthernetView) : Access (List (BitVec 8)) := Access.bytes v.buf 6

/-- `EthernetView::src_mac`. -/
def srcMac (v : EthernetView) : Access (List (BitVec 8)) := Access.bytes (v.buf + 6) 6

/-- `EthernetView::ethertype`. -/
def ethertype (v : EthernetView) : Access (BitVec 16) := rd16 (v.buf + 12)

/-- `EthernetView::payload`. -/
def payload (v : EthernetView) : ℕ := v.buf + 14

/-- `EthernetView::payload_len`. -/
def payloadLen (_ : EthernetView) (totalLen : BitVec 64) : BitVec 64 := totalLen - 14

end EthernetView

/-- One round of the carry loop of `checksum_valid`. -/
def foldRound (sum : BitVec 32) : ForInStep (BitVec 32) :=
  if sum >>> 16 ≠ 0 then .yield ((sum &&& 0xFFFF#32) + (sum >>> 16)) else .done sum

/-- `while (sum >> 16) sum = (sum & 0xFFFF) + (sum >> 16)`. -/
def foldCarry (sum : BitVec 32) : BitVec 32 := Loop.loop foldRound 3 sum

namespace IPv4View

/-- `IPv4View::header_len`. -/
def headerLen (v : IPv4View) : Access (BitVec 64) := do
  let b ← Access.byte v.buf
  pure ((b &&& 0x0F#8).setWidth 64 * 4)

/-- `IPv4View::valid`. -/
def valid (v : IPv4View) : Access Bool := do
  let b ← Access.byte v.buf
  -- `&&`: the header length is read last, and only if the rest holds
  if b >>> 4 = 4 ∧ 20 ≤ v.len then
    let hl ← v.headerLen
    pure (decide (20 ≤ hl))
  else pure false

/-- `IPv4View::protocol`. -/
def protocol (v : IPv4View) : Access (BitVec 8) := Access.byte (v.buf + 9)

/-- `IPv4View::src_ip`. -/
def srcIp (v : IPv4View) : Access (BitVec 32) := rd32 (v.buf + 12)

/-- `IPv4View::dst_ip`. -/
def dstIp (v : IPv4View) : Access (BitVec 32) := rd32 (v.buf + 16)

/-- `IPv4View::total_len`. -/
def totalLen (v : IPv4View) : Access (BitVec 16) := rd16 (v.buf + 2)

/-- `IPv4View::payload`. -/
def payload (v : IPv4View) : Access ℕ := do
  let hl ← v.headerLen
  pure (v.buf + hl.toNat)

/-- `IPv4View::payload_len`. -/
def payloadLen (v : IPv4View) : Access (BitVec 64) := do
  let total ← v.totalLen
  let hl ← v.headerLen
  pure (total.setWidth 64 - hl)

/-- The first loop of `checksum_valid`, with `n` words to go at `p`. -/
def sumWords : ℕ → ℕ → BitVec 32 → Access (BitVec 32)
  | 0, _, sum => pure sum
  | n + 1, p, sum => do
    let w ← rd16 p
    sumWords n (p + 2) (sum + w.setWidth 32)

/-- `IPv4View::checksum_valid`. -/
def checksumValid (v : IPv4View) : Access Bool := do
  let hl ← v.headerLen
  let sum ← sumWords (hl.toNat / 2) v.buf 0
  pure (foldCarry sum == 0xFFFF)

end IPv4View

namespace UDPView

/-- `UDPView::valid`. -/
def valid (v : UDPView) : Bool := 8 ≤ v.len

/-- `UDPView::src_port`. -/
def srcPort (v : UDPView) : Access (BitVec 16) := rd16 v.buf

/-- `UDPView::dst_port`. -/
def dstPort (v : UDPView) : Access (BitVec 16) := rd16 (v.buf + 2)

/-- `UDPView::length`. -/
def length (v : UDPView) : Access (BitVec 16) := rd16 (v.buf + 4)

/-- `UDPView::payload`. -/
def payload (v : UDPView) : ℕ := v.buf + 8

/-- `UDPView::payload_len`. -/
def payloadLen (v : UDPView) : Access (BitVec 64) := do
  let length ← v.length
  pure (length.setWidth 64 - 8)

end UDPView

/-- `struct ParsedPacket`. -/
structure ParsedPacket where
  valid : Bool
  eth : EthernetView
  ip : IPv4View
  udp : UDPView
  hasIp : Bool
  hasUdp : Bool
deriving DecidableEq, Repr

/-- `PacketParser::parse`. -/
def parse (len : BitVec 64) : Access ParsedPacket := do
  let eth : EthernetView := { buf := 0, len := len }
  let ip : IPv4View := { buf := eth.payload, len := len - 14 }
  -- `&` and `|` on `bool`: the fields are read whether or not the frame has them
  let ethertype ← eth.ethertype
  let ipValid ← ip.valid
  let isIpv4 := eth.valid && ethertype == 0x0800 && ipValid
  let ipPayload ← ip.payload
  let ipPayloadLen ← ip.payloadLen
  let udp : UDPView := { buf := ipPayload, len := ipPayloadLen }
  let protocol ← ip.protocol
  let isUdp := isIpv4 && protocol == 17 && udp.valid
  let checksum ← ip.checksumValid
  let csumOk := !isIpv4 || checksum
  pure { valid := eth.valid && csumOk, eth := eth, ip := ip, udp := udp, hasIp := isIpv4,
         hasUdp := isUdp }

/-- The carry part of a sum. -/
lemma toNat_high (sum : BitVec 32) : (sum >>> 16).toNat = sum.toNat / 65536 := by
  rw [BitVec.toNat_ushiftRight, Nat.shiftRight_eq_div_pow]

/-- The word part of a sum. -/
lemma toNat_low (sum : BitVec 32) : (sum &&& 0xFFFF#32).toNat = sum.toNat % 65536 := by
  rw [BitVec.toNat_and]
  exact Nat.and_two_pow_sub_one_eq_mod sum.toNat 16

/-- A round of the carry loop adds the two digits of the sum in base 65536. -/
lemma toNat_carried (sum : BitVec 32) :
    ((sum &&& 0xFFFF#32) + sum >>> 16).toNat = sum.toNat % 65536 + sum.toNat / 65536 := by
  have lt := sum.isLt
  rw [BitVec.toNat_add, toNat_low, toNat_high, Nat.mod_eq_of_lt (by omega)]

/-- The carry loop needs no more rounds than it is given. -/
lemma foldCarry_runs (sum : BitVec 32) : Loop.Runs foldRound sum (foldCarry sum) := by
  apply Loop.loop_runs fun s => if s.toNat < 65536 then 0 else if s.toNat ≤ 131070 then 1 else 2
  · intro s t e
    unfold foldRound at e
    split at e
    · rename_i carry
      cases e
      have ne : (s >>> 16).toNat ≠ 0 := fun z => carry (BitVec.eq_of_toNat_eq z)
      have lt := s.isLt
      rw [toNat_high] at ne
      simp only [toNat_carried]
      -- one round brings the sum below two words, the next below one
      have le : s.toNat % 65536 + s.toNat / 65536 ≤ 131070 := by omega
      rw [if_pos le, if_neg (by omega : ¬ s.toNat < 65536)]
      split_ifs
      · omega
      · omega
      · omega
      · omega
    · cases e
  · split
    · omega
    · split
      · omega
      · omega

/-! ## The bytes of a frame -/

section Frame

variable (m : ℕ → BitVec 8)

/-- Four times the low nibble of the first IPv4 header byte. -/
def ihlAt : ℕ := 4 * (m 14 &&& 0x0F#8).toNat

/-- The total length field of the IPv4 header. -/
def totalLenAt : ℕ := (m 16 ++ m 17).toNat

/-- The length field of the UDP header. -/
def udpLenAt : ℕ := (m (14 + ihlAt m + 4) ++ m (14 + ihlAt m + 5)).toNat

/-- An Ethernet frame of type IPv4, of at least 34 bytes, with version 4 and a header length of at least
20 bytes. -/
def LooksIPv4 (len : ℕ) : Prop :=
  34 ≤ len ∧ m 12 ++ m 13 = 0x0800#16 ∧ m 14 >>> 4 = 4 ∧ 20 ≤ ihlAt m

/-- Such a frame of protocol UDP whose total length, less the header length, is negative or at
least 8. -/
def LooksUdp (len : ℕ) : Prop :=
  LooksIPv4 m len ∧ m 23 = 17 ∧ (totalLenAt m < ihlAt m ∨ ihlAt m + 8 ≤ totalLenAt m)

instance (len : ℕ) : Decidable (LooksIPv4 m len) := by
  unfold LooksIPv4
  infer_instance

instance (len : ℕ) : Decidable (LooksUdp m len) := by
  unfold LooksUdp
  infer_instance

end Frame

variable {m : ℕ → BitVec 8} {len : BitVec 64}

/-- A 16-bit number is made of two bytes, the first one high. -/
lemma run_rd16 (p : ℕ) : (rd16 p).run m = m p ++ m (p + 1) := rfl

/-- A 16-bit number is read byte by byte. -/
lemma reads_rd16 (p : ℕ) : (rd16 p).reads m = [p, p + 1] := rfl

/-- Half a byte is at most 15. -/
lemma nibble_le (b : BitVec 8) : (b &&& 0x0F#8).toNat ≤ 15 := by
  rw [BitVec.toNat_and]
  exact Nat.and_le_right

/-- A header is at most 60 bytes long. -/
lemma ihlAt_le : ihlAt m ≤ 60 := by
  have nib := nibble_le (m 14)
  unfold ihlAt
  omega

/-- A total length has 16 bits. -/
lemma totalLenAt_lt : totalLenAt m < 65536 := (m 16 ++ m 17).isLt

/-- `header_len` is four times the low half of the first byte. -/
lemma headerLen_nibble (v : IPv4View) (m : ℕ → BitVec 8) :
    (v.headerLen.run m).toNat = 4 * (m v.buf &&& 0x0F#8).toNat := by
  have nib := nibble_le (m v.buf)
  have four : (4 : BitVec 64).toNat = 4 := rfl
  simp only [IPv4View.headerLen, Access.run_bind, Access.run_byte, Access.run_pure]
  rw [BitVec.toNat_mul, BitVec.toNat_setWidth, four, Nat.mod_mul_mod, Nat.mod_eq_of_lt (by omega),
    Nat.mul_comm]

/-- `header_len` behind the Ethernet header. -/
lemma toNat_headerLen {v : IPv4View} (at' : v.buf = 14) : (v.headerLen.run m).toNat = ihlAt m := by
  rw [headerLen_nibble, at', ihlAt]

/-- `total_len` behind the Ethernet header. -/
lemma toNat_totalLen {v : IPv4View} (at' : v.buf = 14) : (v.totalLen.run m).toNat = totalLenAt m := by
  simp [IPv4View.totalLen, run_rd16, at', totalLenAt]

/-- `payload_len` of the IPv4 view wraps around below zero. -/
lemma toNat_payloadLen {v : IPv4View} (at' : v.buf = 14) :
    (v.payloadLen.run m).toNat
      = if ihlAt m ≤ totalLenAt m then totalLenAt m - ihlAt m
        else 2 ^ 64 - (ihlAt m - totalLenAt m) := by
  have hl := ihlAt_le (m := m)
  have tot := totalLenAt_lt (m := m)
  have total := toNat_totalLen (m := m) at'
  have e : v.payloadLen.run m = (v.totalLen.run m).setWidth 64 - v.headerLen.run m := by
    simp [IPv4View.payloadLen]
  rw [e, BitVec.toNat_sub, toNat_headerLen at', BitVec.toNat_setWidth, total]
  split
  · omega
  · omega

/-- `valid` tests the version, the bytes at hand and the length of the header. -/
lemma run_valid (v : IPv4View) (at' : v.buf = 14) :
    v.valid.run m = decide (m 14 >>> 4 = 4 ∧ 20 ≤ v.len.toNat ∧ 20 ≤ ihlAt m) := by
  have hl := toNat_headerLen (m := m) at'
  have le : (20#64 ≤ v.headerLen.run m) ↔ 20 ≤ ihlAt m := by
    rw [BitVec.le_def, hl]
    rfl
  rw [IPv4View.valid, Access.run_bind, Access.run_byte, Access.run_ite, at']
  split
  · rename_i h
    have h2 : 20 ≤ v.len.toNat := h.2
    simp [le, h.1, h2]
  · rename_i h
    rw [Access.run_pure, eq_comm, decide_eq_false_iff_not]
    exact fun all => h ⟨all.1, all.2.1⟩

/-- What `parse` returns, by the bytes of the frame. -/
lemma parse_flags (m : ℕ → BitVec 8) (len : BitVec 64) :
    ((parse len).run m).ip.buf = 14 ∧ ((parse len).run m).udp.buf = 14 + ihlAt m ∧
    ((parse len).run m).hasIp = decide (LooksIPv4 m len.toNat) ∧
    ((parse len).run m).hasUdp = decide (LooksUdp m len.toNat) := by
  let ip : IPv4View := { buf := 14, len := len - 14 }
  have hl : (ip.headerLen.run m).toNat = ihlAt m := toNat_headerLen rfl
  have pl := toNat_payloadLen (m := m) (v := ip) rfl
  have bound := ihlAt_le (m := m)
  have tot := totalLenAt_lt (m := m)
  have ipv4 : ((parse len).run m).hasIp = decide (LooksIPv4 m len.toNat) := by
    have e : ((parse len).run m).hasIp
        = (decide (14#64 ≤ len) && (m 12 ++ m 13 == 0x0800#16) && ip.valid.run m) := by
      simp [parse, EthernetView.valid, EthernetView.payload, EthernetView.ethertype, run_rd16, ip]
    rw [e, run_valid ip rfl, Bool.eq_iff_iff, decide_eq_true_iff]
    simp only [Bool.and_eq_true, decide_eq_true_eq, beq_iff_eq, BitVec.le_def, ip]
    constructor
    · rintro ⟨⟨ge, ty⟩, ver, len', hl'⟩
      refine ⟨?_, ty, ver, hl'⟩
      bv_omega
    · rintro ⟨ge, ty, ver, hl'⟩
      refine ⟨⟨?_, ty⟩, ver, ?_, hl'⟩
      · bv_omega
      · bv_omega
  refine ⟨by simp [parse, EthernetView.payload], ?_, ipv4, ?_⟩
  · have e : ((parse len).run m).udp.buf = 14 + (ip.headerLen.run m).toNat := by
      simp [parse, EthernetView.payload, IPv4View.payload, ip]
    rw [e, hl]
  · have e : ((parse len).run m).hasUdp
        = (((parse len).run m).hasIp && (m 23 == 17) && decide (8#64 ≤ ip.payloadLen.run m)) := by
      simp [parse, EthernetView.payload, IPv4View.protocol, UDPView.valid, ip]
    have ge : (8#64 ≤ ip.payloadLen.run m) ↔
        totalLenAt m < ihlAt m ∨ ihlAt m + 8 ≤ totalLenAt m := by
      rw [BitVec.le_def, pl]
      split
      · show 8 ≤ _ ↔ _
        omega
      · show 8 ≤ _ ↔ _
        omega
    rw [e, ipv4, Bool.eq_iff_iff, decide_eq_true_iff]
    simp only [Bool.and_eq_true, decide_eq_true_eq, beq_iff_eq, LooksUdp, ge, and_assoc]

/-- The words are read in order, each byte once. -/
lemma reads_sumWords (n p : ℕ) (sum : BitVec 32) :
    (IPv4View.sumWords n p sum).reads m = List.range' p (2 * n) := by
  induction n generalizing p sum with
  | zero => rfl
  | succ n ih =>
    rw [IPv4View.sumWords, Access.reads_bind, reads_rd16, ih, Nat.mul_succ, List.range'_succ,
      List.range'_succ]
    rfl

/-- The checksum goes over the whole header, whose length is read from its first byte. -/
lemma reads_checksumValid (v : IPv4View) (m : ℕ → BitVec 8) :
    v.checksumValid.reads m = v.buf :: List.range' v.buf (v.headerLen.run m).toNat := by
  have head : v.headerLen.reads m = [v.buf] := rfl
  have even : 2 * ((v.headerLen.run m).toNat / 2) = (v.headerLen.run m).toNat := by
    rw [headerLen_nibble]
    omega
  simp only [IPv4View.checksumValid, Access.reads_bind, head, reads_sumWords, even, Access.reads_pure,
    List.append_nil]
  rfl

/-- What `parse` reads: every accessor is evaluated, and the checksum goes over the whole header. -/
lemma parse_reads (m : ℕ → BitVec 8) (len : BitVec 64) (i : ℕ) :
    i ∈ (parse len).reads m ↔
      i = 12 ∨ i = 13 ∨ i = 14 ∨ i = 16 ∨ i = 17 ∨ i = 23 ∨ (14 ≤ i ∧ i < 14 + ihlAt m) := by
  let ip : IPv4View := { buf := 14, len := len - 14 }
  have hl : (ip.headerLen.run m).toNat = ihlAt m := toNat_headerLen rfl
  have head : ip.headerLen.reads m = [14] := rfl
  have valid : ∀ i, i ∈ ip.valid.reads m ↔ i = 14 := by
    intro i
    simp only [IPv4View.valid, Access.reads_bind, Access.reads_byte, Access.reads_ite, head,
      Access.reads_pure]
    split
    · simp [ip]
    · simp [ip]
  have sum : ip.checksumValid.reads m = 14 :: List.range' 14 (ihlAt m) := by
    rw [reads_checksumValid, hl]
  have all : (parse len).reads m = [12, 13] ++ (ip.valid.reads m ++ (ip.headerLen.reads m
      ++ (ip.totalLen.reads m ++ ip.headerLen.reads m ++ ([23] ++ ip.checksumValid.reads m)))) := by
    simp only [parse, EthernetView.payload, EthernetView.ethertype, IPv4View.payload,
      IPv4View.payloadLen, IPv4View.protocol, Access.reads_bind, Access.reads_pure,
      Access.reads_byte, reads_rd16, List.append_nil]
    rfl
  have total : ip.totalLen.reads m = [16, 17] := rfl
  rw [all, sum, head, total]
  simp only [List.mem_append, List.mem_cons, List.not_mem_nil, valid, List.mem_range'_1, or_false]
  omega

/-- `length` of UDP behind the IPv4 header. -/
lemma toNat_udpLength {v : UDPView} (at' : v.buf = 14 + ihlAt m) :
    (v.length.run m).toNat = udpLenAt m := by
  rw [UDPView.length, run_rd16, at']
  rfl

/-- `payload_len` of UDP, if the length is that of a header at least. -/
lemma toNat_udpPayloadLen {v : UDPView} (at' : v.buf = 14 + ihlAt m) (ge : 8 ≤ udpLenAt m) :
    (v.payloadLen.run m).toNat = udpLenAt m - 8 := by
  have len : (v.length.run m).toNat = udpLenAt m := toNat_udpLength at'
  have lt := (v.length.run m).isLt
  have e : v.payloadLen.run m = (v.length.run m).setWidth 64 - 8 := by simp [UDPView.payloadLen]
  rw [e, BitVec.toNat_sub, BitVec.toNat_setWidth, len]
  show (2 ^ 64 - 8 + udpLenAt m % 2 ^ 64) % 2 ^ 64 = udpLenAt m - 8
  omega

/-- The views of a packet lie inside a frame of `len` bytes, and none of the two `payload_len`
underflows. -/
structure ParsedPacket.Inside (p : ParsedPacket) (m : ℕ → BitVec 8) (len : ℕ) : Prop where
  ip : p.hasIp = true →
    14 + (p.ip.headerLen.run m).toNat ≤ 14 + (p.ip.totalLen.run m).toNat ∧
    14 + (p.ip.totalLen.run m).toNat ≤ len
  udp : p.hasUdp = true →
    (p.ip.headerLen.run m).toNat + 8 ≤ (p.ip.totalLen.run m).toNat ∧
    8 ≤ (p.udp.length.run m).toNat ∧
    (p.ip.headerLen.run m).toNat + (p.udp.length.run m).toNat ≤ (p.ip.totalLen.run m).toNat ∧
    (p.ip.payloadLen.run m).toNat
      = (p.ip.totalLen.run m).toNat - (p.ip.headerLen.run m).toNat ∧
    (p.udp.payloadLen.run m).toNat = (p.udp.length.run m).toNat - 8 ∧
    p.udp.payload + (p.udp.payloadLen.run m).toNat ≤ len

/-- The length fields of what is taken for IPv4 fit together: the total length lies between the header
length and the length of the frame and, where the rest has room for a UDP header, the UDP length lies
between 8 and what is left. -/
def Consistent (m : ℕ → BitVec 8) (len : ℕ) : Prop :=
  LooksIPv4 m len → ihlAt m ≤ totalLenAt m ∧ 14 + totalLenAt m ≤ len ∧
    (m 23 = 17 → ihlAt m + 8 ≤ totalLenAt m →
      8 ≤ udpLenAt m ∧ ihlAt m + udpLenAt m ≤ totalLenAt m)

/-- For every frame: the views that `parse` returns lie inside it exactly if its length fields fit
together. -/
theorem views_inside_frame_iff (m : ℕ → BitVec 8) (len : BitVec 64) :
    ((parse len).run m).Inside m len.toNat ↔ Consistent m len.toNat := by
  obtain ⟨ipBuf, udpBuf, hasIp, hasUdp⟩ := parse_flags m len
  have hl := toNat_headerLen (m := m) ipBuf
  have total := toNat_totalLen (m := m) ipBuf
  have udpLen := toNat_udpLength (m := m) udpBuf
  have payload := toNat_payloadLen (m := m) ipBuf
  constructor
  · rintro ⟨ip, udp⟩ looks
    obtain ⟨le, fits⟩ := ip (by rw [hasIp]; exact decide_eq_true looks)
    refine ⟨by omega, by omega, ?_⟩
    intro proto room
    obtain ⟨_, ge, inside, _⟩ := udp (by
      rw [hasUdp]
      exact decide_eq_true ⟨looks, proto, .inr room⟩)
    exact ⟨by omega, by omega⟩
  · intro ok
    constructor
    · intro is
      obtain ⟨le, fits, _⟩ := ok (of_decide_eq_true (hasIp.symm.trans is))
      exact ⟨by omega, by omega⟩
    · intro is
      obtain ⟨looks, proto, room⟩ : LooksUdp m len.toNat :=
        of_decide_eq_true (hasUdp.symm.trans is)
      obtain ⟨le, fits, udp⟩ := ok looks
      have room' : ihlAt m + 8 ≤ totalLenAt m := by omega
      obtain ⟨ge, inside⟩ := udp proto room'
      have udpPayload := toNat_udpPayloadLen udpBuf ge
      rw [hl, total, udpLen]
      refine ⟨room', ge, inside, ?_, udpPayload, ?_⟩
      · rw [payload, if_pos le]
      · rw [udpPayload, UDPView.payload, udpBuf]
        omega

/-- An IPv4 header of 20 bytes with a right checksum, protocol UDP and total length 0, and nothing
behind it. -/
def zeroTotalFrame : ℕ → BitVec 8
  | 12 => 0x08
  | 14 => 0x45
  | 23 => 0x11
  | 24 => 0xBA
  | 25 => 0xEE
  | _ => 0

/-- The frame is valid and taken for UDP, its total length is below its header length, and the payload
length underflows. -/
theorem zero_total_frame_accepted :
    ((parse 34).run zeroTotalFrame).valid = true ∧
    ((parse 34).run zeroTotalFrame).hasIp = true ∧
    ((parse 34).run zeroTotalFrame).hasUdp = true ∧
    (((parse 34).run zeroTotalFrame).ip.totalLen.run zeroTotalFrame).toNat
      < (((parse 34).run zeroTotalFrame).ip.headerLen.run zeroTotalFrame).toNat ∧
    (((parse 34).run zeroTotalFrame).ip.payloadLen.run zeroTotalFrame).toNat = 2 ^ 64 - 20 := by
  decide +kernel

end UxNet.Packet
