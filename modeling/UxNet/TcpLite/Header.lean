import UxNet.Lib.Access
import UxNet.Pool.Basic

/-!
# TCP-Lite wire header

The 16-byte packed header of `tcp_lite.h`, in the little-endian byte order of the host, with the
table-driven CRC of `tcp_lite.cpp`. A header is turned into bytes by `toBytes` (the `memcpy` of the
packed struct) and read back by `ofBytes` (the `reinterpret_cast` of the buffer). `encode` is what
`pump_tx` and `tick` put on the wire: a header with its checksum filled in, followed by the payload.
-/

namespace UxNet.TcpLite

/-- One bit of the table initialiser in `crc_table`. -/
def crcBit (c : BitVec 32) : BitVec 32 :=
  if c &&& 1 = 1 then 0xEDB88320 ^^^ (c >>> 1) else c >>> 1

/-- Entry `i` of `crc_table`. -/
def crcTable (i : ℕ) : BitVec 32 := crcBit^[8] (BitVec.ofNat 32 i)

/-- One byte of `crc32_seg`. -/
def crcByte (crc : BitVec 32) (b : BitVec 8) : BitVec 32 :=
  crcTable ((crc ^^^ b.setWidth 32) &&& 0xFF).toNat ^^^ (crc >>> 8)

/-- `crc32_seg`. -/
def crc32Seg (h p : Bytes) : BitVec 32 :=
  p.foldl crcByte (h.foldl crcByte 0xFFFFFFFF) ^^^ 0xFFFFFFFF

/-- `TCP_ACK`. -/
def tcpAck : BitVec 16 := 0x02

/-- `TCP_LITE_WINDOW`. -/
abbrev window : ℕ := 256

/-- `TCP_LITE_MAX_PAYLOAD`. -/
abbrev maxPayload : ℕ := 1024

/-- `sizeof(TcpLiteHeader)`. -/
abbrev headerSize : ℕ := 16

/-- `TCP_LITE_MTU`. -/
abbrev mtu : ℕ := headerSize + maxPayload

/-- Little-endian bytes of a 16-bit field. -/
def le16 (x : BitVec 16) : Bytes := [x.extractLsb' 0 8, x.extractLsb' 8 8]

/-- Little-endian bytes of a 32-bit field. -/
def le32 (x : BitVec 32) : Bytes :=
  [x.extractLsb' 0 8, x.extractLsb' 8 8, x.extractLsb' 16 8, x.extractLsb' 24 8]

/-- A 16-bit field from its bytes in memory order. -/
def of16 (b0 b1 : BitVec 8) : BitVec 16 := b1 ++ b0

/-- A 32-bit field from its bytes in memory order. -/
def of32 (b0 b1 b2 b3 : BitVec 8) : BitVec 32 := b3 ++ b2 ++ b1 ++ b0

/-- A 16-bit field survives the trip through memory. -/
lemma of16_le16 (x : BitVec 16) : of16 (x.extractLsb' 0 8) (x.extractLsb' 8 8) = x := by
  rw [of16, BitVec.extractLsb'_append_extractLsb'_eq_extractLsb' (by rfl)]
  exact BitVec.extractLsb'_eq_self

/-- A 32-bit field survives the trip through memory. -/
lemma of32_le32 (x : BitVec 32) :
    of32 (x.extractLsb' 0 8) (x.extractLsb' 8 8) (x.extractLsb' 16 8) (x.extractLsb' 24 8) = x := by
  rw [of32, BitVec.extractLsb'_append_extractLsb'_eq_extractLsb' (by rfl),
    BitVec.extractLsb'_append_extractLsb'_eq_extractLsb' (by rfl),
    BitVec.extractLsb'_append_extractLsb'_eq_extractLsb' (by rfl)]
  exact BitVec.extractLsb'_eq_self

/-- `struct TcpLiteHeader`. -/
structure TcpLiteHeader where
  seqNum : BitVec 32
  ackNum : BitVec 32
  flags : BitVec 16
  payloadLen : BitVec 16
  checksum : BitVec 32
deriving DecidableEq, Repr

namespace TcpLiteHeader

/-- The bytes of the packed struct. -/
def toBytes (h : TcpLiteHeader) : Bytes :=
  le32 h.seqNum ++ le32 h.ackNum ++ le16 h.flags ++ le16 h.payloadLen ++ le32 h.checksum

/-- The packed struct at the start of a byte string. -/
def ofBytes (bs : Bytes) : TcpLiteHeader where
  seqNum := of32 (bs.getD 0 0) (bs.getD 1 0) (bs.getD 2 0) (bs.getD 3 0)
  ackNum := of32 (bs.getD 4 0) (bs.getD 5 0) (bs.getD 6 0) (bs.getD 7 0)
  flags := of16 (bs.getD 8 0) (bs.getD 9 0)
  payloadLen := of16 (bs.getD 10 0) (bs.getD 11 0)
  checksum := of32 (bs.getD 12 0) (bs.getD 13 0) (bs.getD 14 0) (bs.getD 15 0)

/-- `TcpLiteHeader::compute_checksum`. -/
def computeChecksum (h : TcpLiteHeader) (payload : Bytes) : TcpLiteHeader :=
  { h with checksum := crc32Seg { h with checksum := 0 }.toBytes payload }

/-- `TcpLiteHeader::verify_checksum`. -/
def verifyChecksum (h : TcpLiteHeader) (payload : Bytes) : Bool :=
  crc32Seg { h with checksum := 0 }.toBytes payload == h.checksum

/-- `TcpLiteHeader::make_data`; the checksum is left to the caller. -/
def makeData (seq ack : BitVec 32) (len : BitVec 16) : TcpLiteHeader where
  seqNum := seq
  ackNum := ack
  flags := tcpAck
  payloadLen := len
  checksum := 0

/-- `TcpLiteHeader::make_ack`. -/
def makeAck (seq ack : BitVec 32) : TcpLiteHeader :=
  computeChecksum { seqNum := seq, ackNum := ack, flags := tcpAck, payloadLen := 0, checksum := 0 } []

/-- A header with its checksum filled in, followed by the payload. -/
def encode (h : TcpLiteHeader) (payload : Bytes) : Bytes :=
  (h.computeChecksum payload).toBytes ++ payload

/-- A header has 16 bytes. -/
@[simp] lemma length_toBytes (h : TcpLiteHeader) : h.toBytes.length = headerSize := by
  simp [toBytes, le32, le16]

/-- A packet is its header and its payload. -/
@[simp] lemma length_encode (h : TcpLiteHeader) (payload : Bytes) :
    (h.encode payload).length = headerSize + payload.length := by
  simp [encode]

/-- A pure ACK is a data packet without payload. -/
lemma makeAck_toBytes (seq ack : BitVec 32) :
    (makeAck seq ack).toBytes = (makeData seq ack 0).encode [] :=
  (List.append_nil _).symm

/-- A header is read back from its own bytes, whatever follows them. -/
lemma ofBytes_toBytes (h : TcpLiteHeader) (rest : Bytes) : ofBytes (h.toBytes ++ rest) = h := by
  simp only [toBytes, le32, le16, ofBytes, List.cons_append, List.nil_append, List.getD_cons_zero,
    List.getD_cons_succ]
  rw [of32_le32, of32_le32, of32_le32, of16_le16, of16_le16]

/-- The checksum that `compute_checksum` fills in is the one `verify_checksum` accepts. -/
lemma verifyChecksum_computeChecksum (h : TcpLiteHeader) (payload : Bytes) :
    (h.computeChecksum payload).verifyChecksum payload = true := by
  simp [verifyChecksum, computeChecksum]

end TcpLiteHeader

end UxNet.TcpLite
