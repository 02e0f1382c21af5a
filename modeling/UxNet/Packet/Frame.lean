import UxNet.Packet.Checksum
import UxNet.Packet.Processor

/-!
# The wire format

Ethernet frames that carry IPv4 packets, and UDP datagrams in those, as they are laid out on the wire:
all fields big-endian, a header of 20 to 60 bytes with its options, the header checksum, and padding
behind the packet. A header carries its own length, and a frame the fact that its total length fits in
16 bits, so that every value of these types is well formed. The parser reads back what was laid out.
-/

namespace UxNet.Packet

/-- Big-endian bytes of a 16-bit field. -/
def be16 (x : BitVec 16) : Bytes := [x.extractLsb' 8 8, x.extractLsb' 0 8]

/-- Big-endian bytes of a 32-bit field. -/
def be32 (x : BitVec 32) : Bytes :=
  [x.extractLsb' 24 8, x.extractLsb' 16 8, x.extractLsb' 8 8, x.extractLsb' 0 8]

/-- The fields of an IPv4 header, but for its lengths and its checksum. `frag` holds the flags and the
fragment offset. -/
structure IPv4Header where
  ihl : ℕ
  tos : BitVec 8
  ident : BitVec 16
  frag : BitVec 16
  ttl : BitVec 8
  protocol : BitVec 8
  src : BitVec 32
  dst : BitVec 32
  options : Bytes
  ihl_ge : 5 ≤ ihl
  ihl_le : ihl ≤ 15
  options_length : options.length = 4 * (ihl - 5)

namespace IPv4Header

/-- The header up to its checksum. -/
def before (h : IPv4Header) (total : BitVec 16) : Bytes :=
  [BitVec.ofNat 8 (64 + h.ihl), h.tos] ++ be16 total ++ be16 h.ident ++ be16 h.frag ++ [h.ttl, h.protocol]

/-- The header behind its checksum. -/
def after (h : IPv4Header) : Bytes := be32 h.src ++ be32 h.dst ++ h.options

/-- The complement of the one's-complement sum of the other words of the header. -/
def checksum (h : IPv4Header) (total : BitVec 16) : BitVec 16 :=
  ~~~OnesComplement.sum (words (h.before total) ++ words h.after)

/-- The header of a packet of `total` bytes. -/
def bytes (h : IPv4Header) (total : BitVec 16) : Bytes :=
  h.before total ++ be16 (h.checksum total) ++ h.after

/-- A header is `ihl` words long. -/
lemma length_bytes (h : IPv4Header) (total : BitVec 16) : (h.bytes total).length = 4 * h.ihl := by
  have := h.ihl_ge
  simp [bytes, before, after, be16, be32, h.options_length]
  omega

end IPv4Header

/-- An Ethernet frame with an IPv4 packet in it, and padding behind. -/
structure Frame where
  dstMac : Fin 6 → BitVec 8
  srcMac : Fin 6 → BitVec 8
  ip : IPv4Header
  body : Bytes
  padding : Bytes
  fits : 4 * ip.ihl + body.length < 2 ^ 16

/-- The six bytes of an address. -/
def macBytes (mac : Fin 6 → BitVec 8) : Bytes := [mac 0, mac 1, mac 2, mac 3, mac 4, mac 5]

namespace Frame

/-- The total length of the packet. -/
def totalLen (f : Frame) : BitVec 16 := BitVec.ofNat 16 (4 * f.ip.ihl + f.body.length)

/-- The frame on the wire. -/
def bytes (f : Frame) : Bytes :=
  macBytes f.dstMac ++ macBytes f.srcMac ++ [0x08, 0x00] ++ f.ip.bytes f.totalLen ++ f.body ++ f.padding

/-- The frame lies at the start of a memory. -/
def In (f : Frame) (m : ℕ → BitVec 8) : Prop := (List.range f.bytes.length).map m = f.bytes

/-- A memory with nothing but the frame. -/
def layout (f : Frame) (i : ℕ) : BitVec 8 := f.bytes.getD i 0

/-- The layout of a frame has the frame in it. -/
lemma layout_in (f : Frame) : f.In f.layout := by
  apply List.ext_getElem?
  intro i
  by_cases lt : i < f.bytes.length
  · simp [layout, lt]
  · rw [List.getElem?_eq_none (by simp; omega), List.getElem?_eq_none (by omega)]

variable {f : Frame} {m : ℕ → BitVec 8}

/-- A frame is its headers, its body and its padding. -/
lemma length_bytes (f : Frame) :
    f.bytes.length = 14 + 4 * f.ip.ihl + f.body.length + f.padding.length := by
  simp [bytes, macBytes, IPv4Header.length_bytes]
  omega

/-- The total length is that of header and body. -/
lemma toNat_totalLen (f : Frame) : f.totalLen.toNat = 4 * f.ip.ihl + f.body.length := by
  rw [totalLen, BitVec.toNat_ofNat]
  exact Nat.mod_eq_of_lt f.fits

/-- The bytes of the frame are those of the memory. -/
lemma In.getElem? (here : f.In m) {i : ℕ} (lt : i < f.bytes.length) : f.bytes[i]? = some (m i) := by
  have at' := congrArg (·[i]?) here
  simp only [List.getElem?_map, List.getElem?_range lt, Option.map_some] at at'
  exact at'.symm

/-- The bytes before the options are at fixed places. -/
lemma In.fixed (here : f.In m) {i : ℕ} (lt : i < 34) : m i = (macBytes f.dstMac ++ macBytes f.srcMac
    ++ [0x08, 0x00] ++ f.ip.before f.totalLen ++ be16 (f.ip.checksum f.totalLen) ++ be32 f.ip.src
    ++ be32 f.ip.dst).getD i 0 := by
  have ge := f.ip.ihl_ge
  have at' := here.getElem? (i := i) (by rw [length_bytes]; omega)
  have split : f.bytes = (macBytes f.dstMac ++ macBytes f.srcMac ++ [0x08, 0x00]
      ++ f.ip.before f.totalLen ++ be16 (f.ip.checksum f.totalLen) ++ be32 f.ip.src ++ be32 f.ip.dst)
      ++ (f.ip.options ++ f.body ++ f.padding) := by
    simp only [bytes, IPv4Header.bytes, IPv4Header.after, List.append_assoc]
  rw [split, List.getElem?_append_left (by exact lt)] at at'
  rw [List.getD_eq_getElem?_getD, at']
  rfl

/-- The header, byte by byte. -/
lemma In.header (here : f.In m) {i : ℕ} (lt : i < 4 * f.ip.ihl) :
    (f.ip.bytes f.totalLen)[i]? = some (m (14 + i)) := by
  have at' := here.getElem? (i := 14 + i) (by rw [length_bytes]; omega)
  have split : f.bytes = (macBytes f.dstMac ++ macBytes f.srcMac ++ [0x08, 0x00])
      ++ (f.ip.bytes f.totalLen ++ (f.body ++ f.padding)) := by
    simp only [bytes, List.append_assoc]
  have len : (macBytes f.dstMac ++ macBytes f.srcMac ++ [0x08, 0x00]).length = 14 := rfl
  rw [split, List.getElem?_append_right (by omega), len, Nat.add_sub_cancel_left,
    List.getElem?_append_left (by rw [IPv4Header.length_bytes]; exact lt)] at at'
  exact at'

/-- What is behind the header. -/
lemma In.body (here : f.In m) {i : ℕ} (lt : i < f.body.length) :
    f.body[i]? = some (m (14 + 4 * f.ip.ihl + i)) := by
  have at' := here.getElem? (i := 14 + 4 * f.ip.ihl + i) (by rw [length_bytes]; omega)
  have split : f.bytes = (macBytes f.dstMac ++ macBytes f.srcMac ++ [0x08, 0x00]
      ++ f.ip.bytes f.totalLen) ++ (f.body ++ f.padding) := by
    simp only [bytes, List.append_assoc]
  have len : (macBytes f.dstMac ++ macBytes f.srcMac ++ [0x08, 0x00]
      ++ f.ip.bytes f.totalLen).length = 14 + 4 * f.ip.ihl := by
    rw [List.length_append, IPv4Header.length_bytes]
    rfl
  rw [split, List.getElem?_append_right (by omega), len, Nat.add_sub_cancel_left,
    List.getElem?_append_left lt] at at'
  exact at'

/-! ## The fields read back -/

/-- Two bytes make up the number they came from. -/
lemma append_be16 (x : BitVec 16) : x.extractLsb' 8 8 ++ x.extractLsb' 0 8 = x := by
  rw [BitVec.extractLsb'_append_extractLsb'_eq_extractLsb' (by rfl)]
  exact BitVec.extractLsb'_eq_self

/-- Four bytes make up the number they came from. -/
lemma append_be32 (x : BitVec 32) :
    x.extractLsb' 24 8 ++ x.extractLsb' 16 8 ++ x.extractLsb' 8 8 ++ x.extractLsb' 0 8 = x := by
  rw [BitVec.extractLsb'_append_extractLsb'_eq_extractLsb' (by rfl),
    BitVec.extractLsb'_append_extractLsb'_eq_extractLsb' (by rfl),
    BitVec.extractLsb'_append_extractLsb'_eq_extractLsb' (by rfl)]
  exact BitVec.extractLsb'_eq_self

/-- The type of the frame is IPv4. -/
lemma In.ethertype (here : f.In m) : m 12 ++ m 13 = 0x0800#16 := by
  have high : m 12 = 0x08 := here.fixed (i := 12) (by decide)
  have low : m 13 = 0x00 := here.fixed (i := 13) (by decide)
  rw [high, low]
  rfl

/-- Version and header length. -/
lemma In.first (here : f.In m) : m 14 >>> 4 = 4 ∧ ihlAt m = 4 * f.ip.ihl := by
  have le := f.ip.ihl_le
  have byte : m 14 = BitVec.ofNat 8 (64 + f.ip.ihl) := here.fixed (i := 14) (by decide)
  have nibbles : ∀ n ≤ 15, BitVec.ofNat 8 (64 + n) >>> 4 = 4 ∧
      (BitVec.ofNat 8 (64 + n) &&& 0x0F#8).toNat = n := by
    decide
  rw [ihlAt, byte, (nibbles f.ip.ihl le).2]
  exact ⟨(nibbles f.ip.ihl le).1, rfl⟩

/-- The total length is read from the header. -/
lemma In.total (here : f.In m) : totalLenAt m = 4 * f.ip.ihl + f.body.length := by
  rw [totalLenAt, here.fixed (i := 16) (by decide), here.fixed (i := 17) (by decide), ← toNat_totalLen]
  exact congrArg BitVec.toNat (append_be16 f.totalLen)

/-- The protocol is read from the header. -/
lemma In.protocol (here : f.In m) : m 23 = f.ip.protocol := here.fixed (i := 23) (by decide)

/-- The source address is read from the header. -/
lemma In.src (here : f.In m) : m 26 ++ m 27 ++ m 28 ++ m 29 = f.ip.src := by
  rw [here.fixed (i := 26) (by decide), here.fixed (i := 27) (by decide),
    here.fixed (i := 28) (by decide), here.fixed (i := 29) (by decide)]
  exact append_be32 f.ip.src

/-- The destination address is read from the header. -/
lemma In.dst (here : f.In m) : m 30 ++ m 31 ++ m 32 ++ m 33 = f.ip.dst := by
  rw [here.fixed (i := 30) (by decide), here.fixed (i := 31) (by decide),
    here.fixed (i := 32) (by decide), here.fixed (i := 33) (by decide)]
  exact append_be32 f.ip.dst

end Frame

/-! ## The checksum verifies -/

namespace IPv4Header

/-- The words of a header are those summed, and the checksum. -/
lemma sum_words (h : IPv4Header) (total : BitVec 16) :
    ((words (h.bytes total)).map BitVec.toNat).sum
      = ((words (h.before total) ++ words h.after).map BitVec.toNat).sum + (h.checksum total).toNat := by
  have csum : words (be16 (h.checksum total)) = [h.checksum total] := by
    rw [be16, words, Frame.append_be16]
    rfl
  rw [bytes, List.append_assoc, words_append 5 rfl, words_append 1 rfl, csum]
  simp only [List.map_append, List.sum_append, List.map_cons, List.map_nil, List.sum_cons, List.sum_nil]
  omega

/-- The sum of all words, the checksum with them, is all ones. -/
lemma norm_sum_words (h : IPv4Header) (total : BitVec 16) :
    OnesComplement.norm 65535 ((words (h.bytes total)).map BitVec.toNat).sum = 65535 := by
  have le := h.ihl_le
  have ge := h.ihl_ge
  -- all ones and not zero, since the version makes the first word positive
  have some : 0 < ((words (h.before total) ++ words h.after).map BitVec.toNat).sum := by
    have first : 0 < (BitVec.ofNat 8 (64 + h.ihl) ++ h.tos).toNat := by
      rw [BitVec.toNat_append, Nat.shiftLeft_eq]
      have byte : (BitVec.ofNat 8 (64 + h.ihl)).toNat = 64 + h.ihl := by
        rw [BitVec.toNat_ofNat]
        omega
      have := Nat.left_le_or (n := (BitVec.ofNat 8 (64 + h.ihl)).toNat * 2 ^ 8) (m := h.tos.toNat)
      omega
    show 0 < (BitVec.ofNat 8 (64 + h.ihl) ++ h.tos).toNat + _
    omega
  rw [sum_words, checksum, BitVec.toNat_not, OnesComplement.toNat_sum (by decide)]
  exact OnesComplement.norm_complement (by decide) some

end IPv4Header

/-- The header checksum of a frame verifies. -/
lemma Frame.In.headerSum {f : Frame} {m : ℕ → BitVec 8} (here : f.In m) : headerSumAt m = 0xFFFF := by
  have le := f.ip.ihl_le
  have len : (f.ip.bytes f.totalLen).length = 2 * (2 * f.ip.ihl) := by
    rw [IPv4Header.length_bytes]
    omega
  have run := run_sumWords (m := m) (2 * f.ip.ihl) (p := 14) len (by
    intro i lt
    exact here.header (by rw [IPv4Header.length_bytes] at lt; exact lt)) 0
  have small := sum_words_le (words (f.ip.bytes f.totalLen))
  rw [length_words _ len] at small
  apply BitVec.eq_of_toNat_eq
  rw [headerSumAt, here.first.2, show 4 * f.ip.ihl / 2 = 2 * f.ip.ihl by omega, run, toNat_foldCarry,
    zero_add, BitVec.toNat_ofNat, Nat.mod_eq_of_lt (by omega)]
  exact f.ip.norm_sum_words f.totalLen

/-! ## Parsing -/

namespace Frame

variable {f : Frame} {m : ℕ → BitVec 8}

/-- `PacketParser::parse(buf, len)` on the frame at the start of a memory. -/
def parsed (f : Frame) (m : ℕ → BitVec 8) : ParsedPacket :=
  (parse (BitVec.ofNat 64 f.bytes.length)).run m

/-- What the parser finds in a frame. -/
lemma In.flags (here : f.In m) (short : f.bytes.length < 2 ^ 64) :
    (f.parsed m).ip.buf = 14 ∧ (f.parsed m).udp.buf = 14 + 4 * f.ip.ihl ∧
    (f.parsed m).valid = true ∧ (f.parsed m).hasIp = true ∧
    (f.parsed m).hasUdp = decide (f.ip.protocol = 17 ∧ 8 ≤ f.body.length) := by
  have ge := f.ip.ihl_ge
  have len := f.length_bytes
  obtain ⟨version, ihl⟩ := here.first
  have total := here.total
  have size : (BitVec.ofNat 64 f.bytes.length).toNat = f.bytes.length := by
    rw [BitVec.toNat_ofNat]
    exact Nat.mod_eq_of_lt short
  obtain ⟨ip, udp, hasIp, hasUdp⟩ := parse_flags m (BitVec.ofNat 64 f.bytes.length)
  rw [size] at hasIp hasUdp
  have looks : LooksIPv4 m f.bytes.length := ⟨by omega, here.ethertype, version, by omega⟩
  refine ⟨ip, by rw [← ihl]; exact udp, ?_, ?_, ?_⟩
  · rw [← Bool.not_eq_false, Frame.parsed, parse_valid_iff, size]
    rintro (tooShort | ⟨_, bad⟩)
    · omega
    · exact bad here.headerSum
  · rw [Frame.parsed, hasIp]
    exact decide_eq_true looks
  · rw [Frame.parsed, hasUdp, decide_eq_decide, LooksUdp, here.protocol, total, ihl]
    constructor
    · rintro ⟨_, proto, room⟩
      exact ⟨proto, by omega⟩
    · rintro ⟨proto, room⟩
      -- the total length fits in the frame, so that it bounds the datagram
      exact ⟨looks, proto, .inr (by omega)⟩

/-- The parsed packet has the source address. -/
lemma In.srcIp (here : f.In m) (short : f.bytes.length < 2 ^ 64) :
    (f.parsed m).ip.srcIp.run m = f.ip.src := by
  have at' : (f.parsed m).ip.srcIp.run m = (rd32 ((f.parsed m).ip.buf + 12)).run m := rfl
  rw [at', (here.flags short).1]
  exact here.src

/-- The parsed packet has the destination address. -/
lemma In.dstIp (here : f.In m) (short : f.bytes.length < 2 ^ 64) :
    (f.parsed m).ip.dstIp.run m = f.ip.dst := by
  have at' : (f.parsed m).ip.dstIp.run m = (rd32 ((f.parsed m).ip.buf + 16)).run m := rfl
  rw [at', (here.flags short).1]
  exact here.dst

/-- A 16-bit field of the body, as the UDP view reads it. -/
lemma In.field (here : f.In m) (short : f.bytes.length < 2 ^ 64) (i : ℕ) (x : BitVec 16)
    (h0 : f.body[i]? = some (x.extractLsb' 8 8)) (h1 : f.body[i + 1]? = some (x.extractLsb' 0 8)) :
    (rd16 ((f.parsed m).udp.buf + i)).run m = x := by
  obtain ⟨lt, _⟩ := List.getElem?_eq_some_iff.mp h1
  have a0 := here.body (i := i) (by omega)
  have a1 := here.body lt
  rw [h0] at a0
  rw [h1] at a1
  rw [run_rd16, (here.flags short).2.1, ← Option.some.inj a0, Nat.add_assoc _ i 1, ← Option.some.inj a1]
  exact append_be16 x

/-- The Ethernet view is the whole frame. -/
lemma parsed_eth (f : Frame) (m : ℕ → BitVec 8) :
    (f.parsed m).eth = { buf := 0, len := BitVec.ofNat 64 f.bytes.length } := by
  simp [parsed, parse]

end Frame

/-- A UDP datagram. -/
structure UdpDatagram where
  srcPort : BitVec 16
  dstPort : BitVec 16
  checksum : BitVec 16
  payload : Bytes

namespace UdpDatagram

/-- The length field. -/
def length (u : UdpDatagram) : BitVec 16 := BitVec.ofNat 16 (8 + u.payload.length)

/-- The datagram on the wire. -/
def bytes (u : UdpDatagram) : Bytes :=
  be16 u.srcPort ++ be16 u.dstPort ++ be16 u.length ++ be16 u.checksum ++ u.payload

/-- A datagram is its header and its payload. -/
lemma length_bytes (u : UdpDatagram) : u.bytes.length = 8 + u.payload.length := by
  simp [bytes, be16]
  omega

end UdpDatagram

/-- The accessors of a parsed packet give what was laid out in a frame with a UDP datagram. -/
structure Recovered (f : Frame) (u : UdpDatagram) (pkt : ParsedPacket) (m : ℕ → BitVec 8) : Prop where
  valid : pkt.valid = true
  hasIp : pkt.hasIp = true
  hasUdp : pkt.hasUdp = true
  dstMac : pkt.eth.dstMac.run m = macBytes f.dstMac
  srcMac : pkt.eth.srcMac.run m = macBytes f.srcMac
  ethertype : pkt.eth.ethertype.run m = 0x0800
  ethPayloadLen : (pkt.eth.payloadLen pkt.eth.len).toNat = f.bytes.length - 14
  headerLen : (pkt.ip.headerLen.run m).toNat = 4 * f.ip.ihl
  protocol : pkt.ip.protocol.run m = f.ip.protocol
  srcIp : pkt.ip.srcIp.run m = f.ip.src
  dstIp : pkt.ip.dstIp.run m = f.ip.dst
  totalLen : (pkt.ip.totalLen.run m).toNat = 4 * f.ip.ihl + 8 + u.payload.length
  ipPayloadLen : (pkt.ip.payloadLen.run m).toNat = 8 + u.payload.length
  srcPort : pkt.udp.srcPort.run m = u.srcPort
  dstPort : pkt.udp.dstPort.run m = u.dstPort
  length : (pkt.udp.length.run m).toNat = 8 + u.payload.length
  payloadLen : (pkt.udp.payloadLen.run m).toNat = u.payload.length
  payload : (Access.bytes pkt.udp.payload (pkt.udp.payloadLen.run m).toNat).run m = u.payload

namespace Frame

variable {f : Frame} {u : UdpDatagram} {m : ℕ → BitVec 8}

/-- The Ethernet header, byte by byte. -/
lemma In.ethernet (here : f.In m) :
    (List.range 14).map m = macBytes f.dstMac ++ macBytes f.srcMac ++ [0x08, 0x00] := by
  have len := f.length_bytes
  have start := congrArg (List.take 14) here
  rw [← List.map_take, List.take_range, Nat.min_eq_left (by omega)] at start
  exact start

/-- The lengths in the two headers. -/
lemma In.lengths (here : f.In m) (short : f.bytes.length < 2 ^ 64) (body : f.body = u.bytes) :
    ((f.parsed m).ip.totalLen.run m).toNat = 4 * f.ip.ihl + 8 + u.payload.length ∧
    ((f.parsed m).ip.payloadLen.run m).toNat = 8 + u.payload.length ∧
    ((f.parsed m).udp.length.run m).toNat = 8 + u.payload.length ∧
    ((f.parsed m).udp.payloadLen.run m).toNat = u.payload.length := by
  have fits := f.fits
  have bodyLen : f.body.length = 8 + u.payload.length := by rw [body, u.length_bytes]
  obtain ⟨ip, at', _⟩ := here.flags short
  have ihl := here.first.2
  have total := here.total
  have udpBuf : (f.parsed m).udp.buf = 14 + ihlAt m := by
    rw [ihl]
    exact at'
  have udpLen : (f.parsed m).udp.length.run m = u.length := by
    refine here.field short 4 u.length ?_ ?_
    · rw [body]
      rfl
    · rw [body]
      rfl
  have length : ((f.parsed m).udp.length.run m).toNat = 8 + u.payload.length := by
    rw [udpLen, UdpDatagram.length, BitVec.toNat_ofNat]
    exact Nat.mod_eq_of_lt (by omega)
  have lengthAt : udpLenAt m = 8 + u.payload.length := (toNat_udpLength udpBuf).symm.trans length
  refine ⟨?_, ?_, length, ?_⟩
  · rw [Packet.toNat_totalLen ip, total]
    omega
  · rw [toNat_payloadLen ip, ihl, total, if_pos (by omega)]
    omega
  · rw [toNat_udpPayloadLen udpBuf (by omega), lengthAt]
    omega

/-- The bytes behind the UDP header. -/
lemma In.payload (here : f.In m) (short : f.bytes.length < 2 ^ 64) (body : f.body = u.bytes) :
    (Access.bytes (f.parsed m).udp.payload u.payload.length).run m = u.payload := by
  have split : f.body = (be16 u.srcPort ++ be16 u.dstPort ++ be16 u.length ++ be16 u.checksum)
      ++ u.payload := body
  have len : (be16 u.srcPort ++ be16 u.dstPort ++ be16 u.length ++ be16 u.checksum).length = 8 := rfl
  have room : f.body.length = 8 + u.payload.length := by rw [body, u.length_bytes]
  rw [Access.run_bytes, UDPView.payload, (here.flags short).2.1]
  apply List.ext_getElem?
  intro i
  by_cases lt : i < u.payload.length
  · have byte := here.body (i := 8 + i) (by omega)
    rw [split, List.getElem?_append_right (by omega), len, Nat.add_sub_cancel_left] at byte
    rw [List.getElem?_map, List.getElem?_range lt, Option.map_some, Nat.add_assoc _ 8 i, ← byte]
  · rw [List.getElem?_eq_none (by simp; omega), List.getElem?_eq_none (by omega)]

end Frame

/-- Parsing inverts the wire format: of every frame with a UDP datagram, whatever its addresses, options,
other header fields, ports, payload and padding, everything is read back. -/
theorem parse_inverts_wire (f : Frame) (u : UdpDatagram) (udp : f.ip.protocol = 17)
    (body : f.body = u.bytes) (short : f.bytes.length < 2 ^ 64) (m : ℕ → BitVec 8) (here : f.In m) :
    Recovered f u (f.parsed m) m := by
  have bodyLen : f.body.length = 8 + u.payload.length := by rw [body, u.length_bytes]
  obtain ⟨ip, _, valid, hasIp, hasUdp⟩ := here.flags short
  obtain ⟨totalLen, ipPayloadLen, length, payloadLen⟩ := here.lengths short body
  refine
    { valid := valid
      hasIp := hasIp
      hasUdp := ?_
      dstMac := ?_
      srcMac := ?_
      ethertype := ?_
      ethPayloadLen := ?_
      headerLen := ?_
      protocol := ?_
      srcIp := here.srcIp short
      dstIp := here.dstIp short
      totalLen := totalLen
      ipPayloadLen := ipPayloadLen
      srcPort := ?_
      dstPort := ?_
      length := length
      payloadLen := payloadLen
      payload := ?_ }
  · rw [hasUdp]
    exact decide_eq_true ⟨udp, by omega⟩
  · rw [Frame.parsed_eth, EthernetView.dstMac, Access.run_bytes]
    exact congrArg (List.take 6) here.ethernet
  · rw [Frame.parsed_eth, EthernetView.srcMac, Access.run_bytes]
    exact congrArg (fun l => (l.drop 6).take 6) here.ethernet
  · rw [Frame.parsed_eth]
    exact here.ethertype
  · have len := f.length_bytes
    rw [Frame.parsed_eth, EthernetView.payloadLen, BitVec.toNat_sub, BitVec.toNat_ofNat]
    show (2 ^ 64 - 14 + f.bytes.length % 2 ^ 64) % 2 ^ 64 = _
    omega
  · rw [toNat_headerLen ip]
    exact here.first.2
  · rw [IPv4View.protocol, ip, Access.run_byte]
    exact here.protocol
  · refine here.field short 0 u.srcPort ?_ ?_
    · rw [body]
      rfl
    · rw [body]
      rfl
  · refine here.field short 2 u.dstPort ?_ ?_
    · rw [body]
      rfl
    · rw [body]
      rfl
  · rw [payloadLen]
    exact here.payload short body

/-- A datagram from port 4660 to port 7. -/
def pingDatagram : UdpDatagram where
  srcPort := 4660
  dstPort := 7
  checksum := 0
  payload := [1, 2, 3]

/-- A frame with the datagram, one word of options and padding. -/
def pingFrame : Frame where
  dstMac := fun i => BitVec.ofNat 8 i
  srcMac := fun i => BitVec.ofNat 8 (16 + i)
  ip :=
    { ihl := 6
      tos := 0
      ident := 0x1234
      frag := 0x4000
      ttl := 64
      protocol := 17
      src := 0x0A000001
      dst := 0xC0A80002
      options := [0x94, 0x04, 0, 0]
      ihl_ge := by decide
      ihl_le := by decide
      options_length := rfl }
  body := pingDatagram.bytes
  padding := [0, 0, 0, 0, 0]
  fits := by decide

/-- A ping is recovered. -/
theorem ping_recovered :
    Recovered pingFrame pingDatagram (pingFrame.parsed pingFrame.layout) pingFrame.layout :=
  parse_inverts_wire pingFrame pingDatagram rfl rfl (by decide) pingFrame.layout pingFrame.layout_in

end UxNet.Packet
