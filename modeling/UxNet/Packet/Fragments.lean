import UxNet.Packet.Frame
import UxNet.Packet.Toeplitz

/-!
# Fragments

An IPv4 datagram with UDP in it, split into fragments: each fragment is a packet of its own, with its
place in the datagram in the fragment field of its header, and only the first has the UDP header.
Neither `PacketParser::parse` nor `RSSDistributor::submit` looks at the fragment field. So a later
fragment of eight bytes or more is taken for UDP with its first bytes for ports, and a shorter one is
hashed without ports.
-/

namespace UxNet.Packet

namespace IPv4Header

/-- The place of the packet in its datagram, in bytes. -/
def offset (h : IPv4Header) : ℕ := 8 * (h.frag &&& 0x1FFF).toNat

/-- The flag of all fragments but the last. -/
def moreFragments (h : IPv4Header) : Bool := h.frag.getLsbD 13

end IPv4Header

/-- An IPv4 datagram with UDP in it. -/
structure Datagram where
  head : IPv4Header
  udp : UdpDatagram
  protocol : head.protocol = 17
  fits : 4 * head.ihl + (8 + udp.payload.length) < 2 ^ 16

/-- The frame carries the bytes `bs` of a datagram, from byte `off` of what is behind its header. The
other fields of its header, its options among them, are its own. -/
structure Frame.Carries (f : Frame) (head : IPv4Header) (off : ℕ) (more : Bool) (bs : Bytes) : Prop where
  ident : f.ip.ident = head.ident
  protocol : f.ip.protocol = head.protocol
  src : f.ip.src = head.src
  dst : f.ip.dst = head.dst
  offset : f.ip.offset = off
  more : f.ip.moreFragments = more
  body : f.body = bs

/-- The frames `fs` carry the bytes `bs` of a datagram from byte `off` on: all but the last a positive
number of blocks of eight bytes, the last what is left. -/
inductive Split (head : IPv4Header) : ℕ → Bytes → List Frame → Prop
  | last {off : ℕ} {bs : Bytes} {f : Frame} (piece : f.Carries head off false bs) : Split head off bs [f]
  | more {off : ℕ} {bs rest : Bytes} {f : Frame} {fs : List Frame} (some : bs ≠ []) (blocks : 8 ∣ bs.length)
      (piece : f.Carries head off true bs) (tail : Split head (off + bs.length) rest fs) :
      Split head off (bs ++ rest) (f :: fs)

namespace Frame

variable {f : Frame} {m : ℕ → BitVec 8} {d : RSSDistributor}

/-- The queue that `submit` puts a frame in. -/
def queue (f : Frame) (m : ℕ → BitVec 8) (d : RSSDistributor) : BitVec 32 :=
  (d.submitIndex (f.parsed m)).run m

/-- What is taken for UDP is hashed with what is taken for its ports. -/
lemma In.queue_ports (here : f.In m) (short : f.bytes.length < 2 ^ 64)
    (udp : (f.parsed m).hasUdp = true) : f.queue m d
      = d.hash f.ip.src f.ip.dst ((f.parsed m).udp.srcPort.run m) ((f.parsed m).udp.dstPort.run m) := by
  rw [queue, RSSDistributor.submitIndex, if_pos udp]
  simp only [Access.run_bind, Access.run_pure, here.srcIp short, here.dstIp short]

/-- What is not is hashed without. -/
lemma In.queue_addresses (here : f.In m) (short : f.bytes.length < 2 ^ 64)
    (udp : (f.parsed m).hasUdp = false) : f.queue m d = d.hash f.ip.src f.ip.dst 0 0 := by
  rw [queue, RSSDistributor.submitIndex, if_neg (by rw [udp]; decide), if_pos (here.flags short).2.2.2.1]
  simp only [Access.run_bind, Access.run_pure, here.srcIp short, here.dstIp short]

end Frame

/-- Whether the ports change the queue does not depend on the addresses. -/
lemma RSSDistributor.hash_eq_without_ports (d : RSSDistributor) (src dst : BitVec 32)
    (srcPort dstPort : BitVec 16) :
    d.hash src dst srcPort dstPort = d.hash src dst 0 0 ↔ d.hash 0 0 srcPort dstPort = 0 := by
  -- by linearity the addresses and the ports have their own parts in the hash
  have parts := toeplitz_xor src dst 0#32 0#32 0#16 0#16 srcPort dstPort
  rw [BitVec.xor_zero, BitVec.xor_zero, BitVec.zero_xor, BitVec.zero_xor] at parts
  show _ = toeplitz src dst 0#16 0#16 &&& d.mask ↔ toeplitz 0#32 0#32 srcPort dstPort &&& d.mask = 0#32
  have hash : d.hash src dst srcPort dstPort
      = toeplitz src dst 0#16 0#16 &&& d.mask ^^^ toeplitz 0#32 0#32 srcPort dstPort &&& d.mask := by
    rw [hash, parts]
    exact Xor.linear_and d.mask _ _
  rw [hash]
  constructor
  · intro same
    rw [← Xor.xor_cancel (toeplitz src dst 0#16 0#16 &&& d.mask)
      (toeplitz 0#32 0#32 srcPort dstPort &&& d.mask), same, BitVec.xor_self]
  · intro none
    rw [none, BitVec.xor_zero]

namespace Datagram

variable {g : Datagram} {f : Frame} {bs rest : Bytes} {m : ℕ → BitVec 8} {d : RSSDistributor}

/-- The first of several fragments has the whole UDP header, and is hashed with its ports. -/
lemma first_queue (piece : f.Carries g.head 0 true bs) (split : g.udp.bytes = bs ++ rest)
    (long : 8 ≤ bs.length) (here : f.In m) (short : f.bytes.length < 2 ^ 64) :
    f.queue m d = d.hash g.head.src g.head.dst g.udp.srcPort g.udp.dstPort := by
  have udp : (f.parsed m).hasUdp = true := by
    rw [(here.flags short).2.2.2.2, piece.protocol, piece.body]
    exact decide_eq_true ⟨g.protocol, long⟩
  have byte : ∀ i < 8, f.body[i]? = g.udp.bytes[i]? := by
    intro i lt
    rw [piece.body, split, List.getElem?_append_left (by omega)]
  have srcPort := here.field short 0 g.udp.srcPort (byte 0 (by decide)) (byte 1 (by decide))
  have dstPort := here.field short 2 g.udp.dstPort (byte 2 (by decide)) (byte 3 (by decide))
  rw [here.queue_ports short udp, piece.src, piece.dst]
  exact congrArg₂ _ srcPort dstPort

/-- A later fragment is taken for UDP by its length. -/
lemma later_hasUdp {off : ℕ} {more : Bool} (piece : f.Carries g.head off more bs) (here : f.In m)
    (short : f.bytes.length < 2 ^ 64) : (f.parsed m).hasUdp = false ↔ bs.length < 8 := by
  rw [(here.flags short).2.2.2.2, piece.protocol, piece.body, decide_eq_false_iff_not]
  constructor
  · intro none
    exact not_le.mp fun long => none ⟨g.protocol, long⟩
  · rintro few ⟨_, long⟩
    omega

/-- Two fragments go to one queue, and the second is not taken for UDP. -/
lemma two_together_iff {l : Frame} {m' : ℕ → BitVec 8} (piece : f.Carries g.head 0 true bs)
    (split : g.udp.bytes = bs ++ rest) (long : 8 ≤ bs.length)
    (piece' : l.Carries g.head (0 + bs.length) false rest) (here : f.In m)
    (short : f.bytes.length < 2 ^ 64) (here' : l.In m') (short' : l.bytes.length < 2 ^ 64) :
    f.queue m d = l.queue m' d ∧ (l.parsed m').hasUdp = false ↔
      l.body.length < 8 ∧ d.hash 0 0 g.udp.srcPort g.udp.dstPort = 0 := by
  have first := first_queue (d := d) piece split long here short
  have later := later_hasUdp piece' here' short'
  have second : (l.parsed m').hasUdp = false → l.queue m' d = d.hash g.head.src g.head.dst 0 0 := by
    intro none
    rw [here'.queue_addresses short' none, piece'.src, piece'.dst]
  rw [piece'.body, ← later]
  constructor
  · rintro ⟨same, none⟩
    rw [first, second none, d.hash_eq_without_ports] at same
    exact ⟨none, same⟩
  · rintro ⟨none, same⟩
    rw [first, second none]
    exact ⟨(d.hash_eq_without_ports _ _ _ _).mpr same, none⟩

/-- All fragments of a datagram go to one queue and no later one is taken for UDP, just when the
datagram is in one piece, or in two with less than eight bytes in the second and ports that do not
change the queue. -/
theorem fragments_together_iff (g : Datagram) (fs : List Frame) (split : Split g.head 0 g.udp.bytes fs)
    (mem : Frame → ℕ → BitVec 8) (here : ∀ f ∈ fs, f.In (mem f))
    (short : ∀ f ∈ fs, f.bytes.length < 2 ^ 64) (d : RSSDistributor) :
    ((∀ f ∈ fs, ∀ f' ∈ fs, f.queue (mem f) d = f'.queue (mem f') d) ∧
      ∀ f ∈ fs, f.ip.offset ≠ 0 → (f.parsed (mem f)).hasUdp = false) ↔
    (∃ f, fs = [f]) ∨
      ∃ f l, fs = [f, l] ∧ l.body.length < 8 ∧ d.hash 0 0 g.udp.srcPort g.udp.dstPort = 0 := by
  generalize whole : g.udp.bytes = bytes at split
  generalize start : 0 = off at split
  cases split with
  | last piece =>
    rename_i f
    constructor
    · intro _
      exact .inl ⟨f, rfl⟩
    · intro _
      simp [piece.offset, ← start]
  | @more _ bs rest f fs some blocks piece tail =>
    subst start
    have long : 8 ≤ bs.length := Nat.le_of_dvd (List.length_pos_iff.mpr some) blocks
    cases tail with
    | @last _ _ l piece' =>
      have two := two_together_iff (d := d) piece whole long piece' (here f (by simp)) (short f (by simp))
        (here l (by simp)) (short l (by simp))
      have away : l.ip.offset ≠ 0 := by
        rw [piece'.offset]
        omega
      constructor
      · rintro ⟨together, unported⟩
        exact .inr ⟨f, l, rfl, two.mp ⟨together f (by simp) l (by simp), unported l (by simp) away⟩⟩
      · rintro (⟨f', one⟩ | ⟨f', l', pair, few⟩)
        · cases one
        · obtain ⟨rfl, rfl⟩ : f = f' ∧ l = l' := by simpa using pair
          obtain ⟨same, none⟩ := two.mpr few
          simp [same, none, piece.offset]
    | @more _ bs' rest' l fs some' blocks' piece' tail' =>
      -- a fragment in the middle has eight bytes or more
      have long' : 8 ≤ bs'.length := Nat.le_of_dvd (List.length_pos_iff.mpr some') blocks'
      have later := later_hasUdp piece' (here l (by simp)) (short l (by simp))
      constructor
      · rintro ⟨_, unported⟩
        have few := later.mp (unported l (by simp) (by rw [piece'.offset]; omega))
        omega
      · rintro (⟨f', one⟩ | ⟨f', l', two, _⟩)
        · cases one
        · cases tail' with
          | last _ => simp at two
          | more _ _ _ _ => simp at two

/-! ## Two fragments -/

/-- A fragment with the addresses and options of the datagram. -/
def piece (g : Datagram) (frag : BitVec 16) (body : Bytes) (le : body.length ≤ g.udp.bytes.length) :
    Frame where
  dstMac := fun _ => 2
  srcMac := fun _ => 6
  ip := { g.head with frag := frag }
  body := body
  padding := []
  fits := by
    have fits := g.fits
    rw [g.udp.length_bytes] at le
    show 4 * g.head.ihl + body.length < 2 ^ 16
    omega

/-- The first `n` blocks of a datagram. -/
def front (g : Datagram) (n : ℕ) : Frame :=
  g.piece 0x2000 (g.udp.bytes.take (8 * n)) (List.length_take_le' _ _)

/-- What is behind the first `n` blocks. -/
def back (g : Datagram) (n : ℕ) : Frame :=
  g.piece (BitVec.ofNat 16 n) (g.udp.bytes.drop (8 * n)) (by rw [List.length_drop]; omega)

/-- A datagram cut in two is split. -/
lemma split_two (g : Datagram) {n : ℕ} (pos : 0 < n) (lt : 8 * n < g.udp.bytes.length) :
    Split g.head 0 g.udp.bytes [g.front n, g.back n] := by
  have fits := g.fits
  have small : n < 2 ^ 13 := by
    rw [g.udp.length_bytes] at lt
    omega
  have len : (g.udp.bytes.take (8 * n)).length = 8 * n := by
    rw [List.length_take]
    omega
  have offset : (BitVec.ofNat 16 n &&& 0x1FFF).toNat = n := by
    rw [BitVec.toNat_and, BitVec.toNat_ofNat, Nat.mod_eq_of_lt (by omega)]
    exact (Nat.and_two_pow_sub_one_eq_mod n 13).trans (Nat.mod_eq_of_lt small)
  have last : (BitVec.ofNat 16 n).getLsbD 13 = false := by
    rw [BitVec.getLsbD_ofNat, Nat.testBit_lt_two_pow small, Bool.and_false]
  have front : (g.front n).Carries g.head 0 true (g.udp.bytes.take (8 * n)) := by
    refine ⟨rfl, rfl, rfl, rfl, ?_, ?_, rfl⟩
    · show 8 * (0x2000#16 &&& 0x1FFF#16).toNat = 0
      decide
    · show (0x2000#16).getLsbD 13 = true
      decide
  have back : (g.back n).Carries g.head (0 + (g.udp.bytes.take (8 * n)).length) false
      (g.udp.bytes.drop (8 * n)) := by
    refine ⟨rfl, rfl, rfl, rfl, ?_, last, rfl⟩
    rw [len, zero_add]
    exact congrArg _ offset
  have some : g.udp.bytes.take (8 * n) ≠ [] := by
    rw [← List.length_pos_iff, len]
    omega
  have whole := Split.more some (by rw [len]; exact Nat.dvd_mul_right 8 n) front (.last back)
  rw [List.take_append_drop] at whole
  exact whole

/-- A datagram to port 7. -/
def toPortSeven (srcPort : BitVec 16) (payload : Bytes) (fits : 24 + (8 + payload.length) < 2 ^ 16) :
    Datagram where
  head := pingFrame.ip
  udp := { srcPort := srcPort, dstPort := 7, checksum := 0, payload := payload }
  protocol := rfl
  fits := fits

/-- A datagram from port 4604 with ten bytes, two of them in its second fragment. -/
def shortTail : Datagram := toPortSeven 4604 [1, 2, 3, 4, 5, 6, 7, 8, 9, 10] (by decide)

/-- The two fragments of a datagram with a short tail get to one queue. -/
theorem short_tail_together :
    (∀ f ∈ [shortTail.front 2, shortTail.back 2], ∀ f' ∈ [shortTail.front 2, shortTail.back 2],
      f.queue f.layout ⟨8⟩ = f'.queue f'.layout ⟨8⟩) ∧
    ∀ f ∈ [shortTail.front 2, shortTail.back 2],
      f.ip.offset ≠ 0 → (f.parsed f.layout).hasUdp = false := by
  have short : ∀ f ∈ [shortTail.front 2, shortTail.back 2], f.bytes.length < 2 ^ 64 := by
    decide +kernel
  exact (fragments_together_iff shortTail [shortTail.front 2, shortTail.back 2]
    (shortTail.split_two (by decide) (by decide)) Frame.layout (fun f _ => f.layout_in) short ⟨8⟩).mpr
    (.inr ⟨_, _, rfl, by decide, by decide +kernel⟩)

/-- A datagram from port 4660 with twenty-four bytes, sixteen of them in its second fragment. -/
def longTail : Datagram :=
  toPortSeven 4660 [1, 2, 3, 4, 5, 6, 7, 8, 0, 1, 0, 53, 9, 9, 9, 9, 9, 9, 9, 9, 9, 9, 9, 9] (by decide)

/-- The second fragment goes to another queue than the first, and is handled for port 53, which is in its
payload. -/
theorem second_fragment_taken_for_udp :
    Split longTail.head 0 longTail.udp.bytes [longTail.front 2, longTail.back 2] ∧
    (longTail.front 2).In (longTail.front 2).layout ∧ (longTail.back 2).In (longTail.back 2).layout ∧
    (longTail.back 2).ip.offset = 16 ∧
    ((longTail.back 2).parsed (longTail.back 2).layout).hasUdp = true ∧
    (longTail.back 2).queue (longTail.back 2).layout ⟨8⟩
      ≠ (longTail.front 2).queue (longTail.front 2).layout ⟨8⟩ ∧
    (HandlerTable.handlerFor { udp := some, default := none }
      ((longTail.back 2).parsed (longTail.back 2).layout)).run (longTail.back 2).layout = some 53 :=
  ⟨longTail.split_two (by decide) (by decide), Frame.layout_in _, Frame.layout_in _, by decide +kernel,
    by decide +kernel, by decide +kernel, by decide +kernel⟩

end Datagram

end UxNet.Packet
