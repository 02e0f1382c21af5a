import UxNet.Lib.Crc
import UxNet.TcpLite.Header

/-!
# CRC-32

The checksum of `tcp_lite.cpp` takes in a byte by one lookup in a table of 256 entries, first the bytes of
the header and then those of the payload. `crc32` is what it is meant to compute: the reflected CRC-32,
one bit of the message at a time. A table entry makes the eight shifts of the byte that falls out of the
register, and the rest of the register only moves down (`crcByte_eq_feed`).
-/

namespace UxNet.TcpLite

/-- The polynomial of the checksum. -/
def crcPoly : BitVec 32 := 0xEDB88320

/-- A round of the table is a shift by the polynomial. -/
lemma crcBit_eq_shift : crcBit = Crc.shift crcPoly := by
  funext c
  have low : c &&& 1 = 1 ↔ c.getLsbD 0 = true := by
    have bit : c &&& 1#32 = (BitVec.ofBool (c.getLsbD 0)).setWidth 32 :=
      BitVec.and_one_eq_setWidth_ofBool_getLsbD
    show c &&& 1#32 = 1#32 ↔ _
    rw [bit]
    cases c.getLsbD 0 with
    | false => decide
    | true => decide
  simp only [crcBit, Crc.shift, low]
  rfl

/-- The table lookup makes the eight shifts of one byte. -/
lemma crcByte_eq_feed : crcByte = Crc.feed crcPoly := by
  funext crc b
  have index : BitVec.ofNat 32 ((crc ^^^ b.setWidth 32) &&& 0xFF).toNat
      = ((crc ^^^ b.setWidth 32).setWidth 8).setWidth 32 := by
    apply BitVec.eq_of_toNat_eq
    rw [BitVec.ofNat_toNat, BitVec.toNat_setWidth, BitVec.toNat_setWidth, BitVec.toNat_setWidth,
      BitVec.toNat_and]
    exact congrArg (· % 2 ^ 32) (Nat.and_two_pow_sub_one_eq_mod _ 8)
  have high : (crc ^^^ b.setWidth 32) >>> 8 = crc >>> 8 := by
    apply BitVec.eq_of_getLsbD_eq
    intro i hi
    simp
  rw [crcByte, crcTable, Crc.feed, Crc.iterate_shift_split, index, high, crcBit_eq_shift]

/-- The polynomial has its top bit. -/
lemma crcPoly_top : crcPoly.msb = true := by decide

/-- The reflected CRC-32 of a byte string, one bit at a time. -/
def crc32 (bs : Bytes) : BitVec 32 :=
  (Crc.bits bs).foldl (Crc.bit crcPoly) 0xFFFFFFFF ^^^ 0xFFFFFFFF

/-- The checksum in two parts is that of the whole. -/
lemma crc32Seg_eq_crc32 (h p : Bytes) : crc32Seg h p = crc32 (h ++ p) := by
  rw [crc32Seg, crc32, crcByte_eq_feed, ← List.foldl_append, Crc.foldl_bits (by decide)]

/-- For all byte strings: `crc32_seg` is the bit-serial CRC-32 of what its two segments make together, and
so the same wherever that is cut in two. -/
theorem crc32Seg_serial (h p : Bytes) :
    crc32Seg h p = crc32 (h ++ p) ∧
    ∀ n, crc32Seg ((h ++ p).take n) ((h ++ p).drop n) = crc32Seg h p := by
  refine ⟨crc32Seg_eq_crc32 h p, ?_⟩
  intro n
  rw [crc32Seg_eq_crc32, crc32Seg_eq_crc32, List.take_append_drop]

/-- The check value of CRC-32: the digits from 1 to 9. -/
example : crc32 [0x31, 0x32, 0x33, 0x34, 0x35, 0x36, 0x37, 0x38, 0x39] = 0xCBF43926 := by
  decide +kernel

end UxNet.TcpLite
