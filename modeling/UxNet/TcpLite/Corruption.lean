import UxNet.TcpLite.Crc32
import UxNet.TcpLite.Session

/-!
# Corrupted packets

The checksum of `tcp_lite.cpp` is computed over the packet with the checksum field blanked (`blanked`). A
burst of up to four bytes in the packet is one in the blanked packet unless it lies in the checksum field
itself, and there the field no longer says what was computed.
-/

namespace UxNet.TcpLite

/-- A burst of up to four bytes in the covered bytes changes the checksum. -/
lemma crc32Seg_burst {lo : ℕ} {l l' : Bytes} (h : Crc.Burst lo 4 l l') :
    crc32Seg l' [] ≠ crc32Seg l [] := by
  rw [crc32Seg, crc32Seg, Ne, BitVec.xor_left_inj, crcByte_eq_feed]
  exact h.feed_ne crcPoly_top (by decide) _

/-! ## The bytes under the checksum -/

/-- A packet with its checksum field blanked. -/
def blanked (bs : Bytes) : Bytes := bs.take 12 ++ [0, 0, 0, 0] ++ bs.drop headerSize

/-- The checksum field of a blanked packet is zero, and the rest is what it was. -/
lemma getElem?_blanked {bs : Bytes} (long : headerSize ≤ bs.length) (i : ℕ) :
    (blanked bs)[i]? = if 12 ≤ i ∧ i < 16 then some 0 else bs[i]? := by
  have first : (bs.take 12).length = 12 := by
    rw [List.length_take]
    exact Nat.min_eq_left (Nat.le_trans (by decide) long)
  have head : (bs.take 12 ++ [0, 0, 0, 0]).length = 16 := by
    rw [List.length_append, first]
    rfl
  rw [blanked]
  by_cases low : i < 16
  · rw [List.getElem?_append_left (by omega)]
    by_cases field : 12 ≤ i
    · rw [if_pos ⟨field, low⟩, List.getElem?_append_right (by omega), first]
      obtain rfl | rfl | rfl | rfl : i = 12 ∨ i = 13 ∨ i = 14 ∨ i = 15 := by omega
      · rfl
      · rfl
      · rfl
      · rfl
    · rw [if_neg (by omega), List.getElem?_append_left (by omega), List.getElem?_take,
        if_pos (by omega)]
  · rw [if_neg (by omega), List.getElem?_append_right (by omega), head, List.getElem?_drop]
    congr 1
    show 16 + (i - 16) = i
    omega

/-- Four bytes make up the number they came from. -/
lemma le32_of32 (b0 b1 b2 b3 : BitVec 8) : le32 (of32 b0 b1 b2 b3) = [b0, b1, b2, b3] := by
  simp (disch := omega) only [le32, of32, BitVec.extractLsb'_append_eq_of_le,
    BitVec.extractLsb'_append_eq_of_add_le]
  simp

/-- Two bytes make up the number they came from. -/
lemma le16_of16 (b0 b1 : BitVec 8) : le16 (of16 b0 b1) = [b0, b1] := by
  simp (disch := omega) only [le16, of16, BitVec.extractLsb'_append_eq_of_le,
    BitVec.extractLsb'_append_eq_of_add_le]
  simp

/-- What `verify_checksum` goes over. -/
lemma crc32Seg_ofBytes {bs : Bytes} (long : headerSize ≤ bs.length) :
    crc32Seg { TcpLiteHeader.ofBytes bs with checksum := 0 }.toBytes (bs.drop headerSize)
      = crc32Seg (blanked bs) [] := by
  have first : bs.take 12 = (List.range 12).map fun i => bs.getD i 0 := by
    apply List.ext_getElem
    · rw [List.length_take, List.length_map, List.length_range]
      exact Nat.min_eq_left (Nat.le_trans (by decide) long)
    · intro i h1 h2
      rw [List.length_take] at h1
      simp [Nat.lt_of_lt_of_le h1 (Nat.min_le_right _ _)]
  have header : { TcpLiteHeader.ofBytes bs with checksum := 0 }.toBytes
      = bs.take 12 ++ [0, 0, 0, 0] := by
    rw [first]
    simp only [TcpLiteHeader.toBytes, TcpLiteHeader.ofBytes, le32_of32, le16_of16]
    rfl
  rw [crc32Seg, crc32Seg, blanked, header]
  simp only [List.foldl_append, List.foldl_nil]

/-! ## Corruption -/

/-- The packet `bs'` is `bs` with at least one byte changed: within four consecutive bytes of the payload,
within four consecutive bytes of the fields before `payload_len`, or in the checksum field. -/
inductive Corrupted (bs bs' : Bytes) : Prop where
  | payload (i : ℕ) :
    headerSize ≤ i →
    Crc.Burst i 4 bs bs' →
    Corrupted bs bs'
  | header (i : ℕ) :
    i + 4 ≤ 10 →
    Crc.Burst i 4 bs bs' →
    Corrupted bs bs'
  | checksum :
    Crc.Burst 12 4 bs bs' →
    Corrupted bs bs'

variable {bs bs' : Bytes}

/-- Corruption keeps the length. -/
lemma Corrupted.length (bad : Corrupted bs bs') : bs'.length = bs.length := by
  cases bad with
  | payload i _ burst => exact burst.length
  | header i _ burst => exact burst.length
  | checksum burst => exact burst.length

/-- The two bytes of `payload_len` are in none of the three places. -/
lemma Corrupted.payloadLen (bad : Corrupted bs bs') :
    (TcpLiteHeader.ofBytes bs').payloadLen = (TcpLiteHeader.ofBytes bs).payloadLen := by
  have same : ∀ i, 10 ≤ i → i < 12 → bs'.getD i 0 = bs.getD i 0 := by
    intro i ge lt
    rw [List.getD_eq_getElem?_getD, List.getD_eq_getElem?_getD]
    congr 1
    cases bad with
    | payload j out burst =>
      have out' : 16 ≤ j := out
      exact burst.agree i (.inl (by omega))
    | header j inside burst => exact burst.agree i (.inr (by omega))
    | checksum burst => exact burst.agree i (.inl (by omega))
  simp only [TcpLiteHeader.ofBytes]
  rw [same 10 (by omega) (by omega), same 11 (by omega) (by omega)]

/-- A burst outside the checksum field is one in the blanked packet. -/
lemma burst_blanked {i : ℕ} (burst : Crc.Burst i 4 bs bs') (long : headerSize ≤ bs.length)
    (apart : i + 4 ≤ 12 ∨ 16 ≤ i) : Crc.Burst i 4 (blanked bs) (blanked bs') := by
  have long' : headerSize ≤ bs'.length := burst.length ▸ long
  refine ⟨?_, ?_, ?_⟩
  · simp only [blanked, List.length_append, List.length_take, List.length_drop, burst.length]
  · intro same
    apply burst.ne
    apply List.ext_getElem?
    intro j
    by_cases field : 12 ≤ j ∧ j < 16
    · exact burst.agree j (by omega)
    · have at' := congrArg (·[j]?) same
      simp only [getElem?_blanked long, getElem?_blanked long', if_neg field] at at'
      exact at'
  · intro j out
    rw [getElem?_blanked long, getElem?_blanked long', burst.agree j out]

/-- The four bytes of the checksum field determine it and are determined by it. -/
lemma checksum_eq_iff (long : headerSize ≤ bs.length) (long' : headerSize ≤ bs'.length) :
    (TcpLiteHeader.ofBytes bs').checksum = (TcpLiteHeader.ofBytes bs).checksum ↔
      ∀ i, 12 ≤ i → i < 16 → bs'[i]? = bs[i]? := by
  have get : ∀ {l : Bytes}, headerSize ≤ l.length → ∀ i < 16, l[i]? = some (l.getD i 0) := by
    intro l long i lt
    have inside : i < l.length := Nat.lt_of_lt_of_le lt long
    simp [inside]
  constructor
  · intro e i ge lt
    have bytes := congrArg le32 e
    simp only [TcpLiteHeader.ofBytes, le32_of32] at bytes
    injection bytes with b12 bytes
    injection bytes with b13 bytes
    injection bytes with b14 bytes
    injection bytes with b15 bytes
    rw [get long' i lt, get long i lt]
    obtain rfl | rfl | rfl | rfl : i = 12 ∨ i = 13 ∨ i = 14 ∨ i = 15 := by omega
    · rw [b12]
    · rw [b13]
    · rw [b14]
    · rw [b15]
  · intro same
    have bytes : ∀ i, 12 ≤ i → i < 16 → bs'.getD i 0 = bs.getD i 0 := by
      intro i ge lt
      have at' := same i ge lt
      rw [get long' i lt, get long i lt] at at'
      exact Option.some.inj at'
    simp only [TcpLiteHeader.ofBytes]
    rw [bytes 12 (by omega) (by omega), bytes 13 (by omega) (by omega), bytes 14 (by omega) (by omega),
      bytes 15 (by omega) (by omega)]

/-- A corrupted packet no longer carries the checksum of what it covers. -/
lemma Corrupted.rejected (bad : Corrupted bs bs') (long : headerSize ≤ bs.length)
    (good : (TcpLiteHeader.ofBytes bs).verifyChecksum (bs.drop headerSize) = true) :
    (TcpLiteHeader.ofBytes bs').verifyChecksum (bs'.drop headerSize) = false := by
  have long' : headerSize ≤ bs'.length := bad.length ▸ long
  unfold TcpLiteHeader.verifyChecksum at good ⊢
  rw [crc32Seg_ofBytes long, beq_iff_eq] at good
  rw [crc32Seg_ofBytes long', beq_eq_false_iff_ne]
  -- beside the field: it is as it was, what is covered is not
  have outside : ∀ i, Crc.Burst i 4 bs bs' → (i + 4 ≤ 12 ∨ 16 ≤ i) →
      crc32Seg (blanked bs') [] ≠ (TcpLiteHeader.ofBytes bs').checksum := by
    intro i burst apart
    have field := (checksum_eq_iff long long').mpr fun j _ _ => burst.agree j (by omega)
    rw [field, ← good]
    exact crc32Seg_burst (burst_blanked burst long apart)
  cases bad with
  | payload i out burst => exact outside i burst (.inr out)
  | header i inside burst => exact outside i burst (.inl (by omega))
  | checksum burst =>
    -- what is covered is as it was, the field is not
    have same : blanked bs' = blanked bs := by
      apply List.ext_getElem?
      intro j
      rw [getElem?_blanked long, getElem?_blanked long']
      split
      · rfl
      · exact burst.agree j (by omega)
    rw [same, good]
    intro e
    apply burst.ne
    apply List.ext_getElem?
    intro j
    by_cases field : 12 ≤ j ∧ j < 16
    · exact (checksum_eq_iff long long').mp e.symm j field.1 field.2
    · exact burst.agree j (by omega)

/-- The packet in a buffer and the verdict on it. -/
lemma readChecked_run {m : ℕ → BitVec 8} (mem : (List.range bs.length).map m = bs)
    (len : bs.length = headerSize + (TcpLiteHeader.ofBytes bs).payloadLen.toNat) :
    readChecked.run m = (TcpLiteHeader.ofBytes bs,
      (TcpLiteHeader.ofBytes bs).verifyChecksum (bs.drop headerSize)) := by
  have header : readHeader.run m = TcpLiteHeader.ofBytes bs := by
    have first : (List.range headerSize).map m = bs.take headerSize := by
      rw [← mem, ← List.map_take, List.take_range, Nat.min_eq_left (by omega)]
    have get : ∀ i < 16, (bs.take headerSize).getD i 0 = bs.getD i 0 := by
      intro i lt
      rw [List.getD_eq_getElem?_getD, List.getD_eq_getElem?_getD, List.getElem?_take, if_pos lt]
    simp only [readHeader, Access.run_bind, Access.run_bytes, Access.run_pure, Nat.zero_add, first]
    simp only [TcpLiteHeader.ofBytes]
    simp (disch := omega) only [get]
  have payload : (readPayload (TcpLiteHeader.ofBytes bs).payloadLen.toNat).run m
      = bs.drop headerSize := by
    have cut := congrArg (List.drop headerSize) mem
    rw [len, List.range_add, List.map_append, List.drop_left' (by simp), List.map_map] at cut
    rw [readPayload, Access.run_bytes]
    exact cut
  simp only [readChecked, Access.run_bind, Access.run_pure, header, payload]

/-- A packet corrupted in up to four bytes is always found out, and all that happens is that its buffer
goes back to the pool. -/
theorem corruption_caught (h : TcpLiteHeader) (payload bs : Bytes)
    (len : h.payloadLen.toNat = payload.length) (bad : Corrupted (h.encode payload) bs)
    (s : TcpLiteSession) (buf : ℕ) (here : s.pool.read buf bs.length = bs) :
    (TcpLiteHeader.ofBytes bs).verifyChecksum
        ((bs.drop headerSize).take (TcpLiteHeader.ofBytes bs).payloadLen.toNat) = false ∧
    s.onPacketReceived buf = { s with pool := (s.handOver buf).pool.release .corrupt buf } := by
  have sent : TcpLiteHeader.ofBytes (h.encode payload) = h.computeChecksum payload :=
    TcpLiteHeader.ofBytes_toBytes _ _
  have long : headerSize ≤ (h.encode payload).length := by
    rw [TcpLiteHeader.length_encode]
    omega
  have rejected := bad.rejected long (by
    rw [sent, TcpLiteHeader.encode, List.drop_left' (TcpLiteHeader.length_toBytes _)]
    exact TcpLiteHeader.verifyChecksum_computeChecksum h payload)
  have plen : (TcpLiteHeader.ofBytes bs).payloadLen.toNat = payload.length := by
    rw [bad.payloadLen, sent]
    exact len
  have total : bs.length = headerSize + (TcpLiteHeader.ofBytes bs).payloadLen.toNat := by
    rw [bad.length, TcpLiteHeader.length_encode, plen]
  refine ⟨?_, ?_⟩
  · rw [List.take_of_length_le (by rw [List.length_drop]; omega)]
    exact rejected
  · have verdict := readChecked_run (m := (s.handOver buf).pool.view buf) here total
    rw [TcpLiteSession.onPacketReceived]
    simp only [verdict, rejected]
    rfl

/-- A packet of one byte whose byte was flipped on the way. -/
def flipped : Bytes := ((TcpLiteHeader.makeData 0 0 1).encode [0x2A]).set 16 0x2B

/-- A flipped bit is a corruption. -/
lemma flipped_corrupted : Corrupted ((TcpLiteHeader.makeData 0 0 1).encode [0x2A]) flipped := by
  refine .payload 16 (by decide) ⟨List.length_set, ?_, ?_⟩
  · intro e
    have last := congrArg (·[16]?) e
    have len : 16 < ((TcpLiteHeader.makeData 0 0 1).encode [0x2A]).length := by simp
    simp only [flipped, List.getElem?_set_self len] at last
    rw [TcpLiteHeader.encode, List.getElem?_append_right (by simp)] at last
    simp at last
  · intro i out
    exact List.getElem?_set_ne (by omega)

/-- A fresh session with the flipped packet in its pool. -/
def flippedSession : TcpLiteSession :=
  .new ((BufferPool.new 2048 4 fun _ => 0).store 3 flipped) .unit 0 .silent

/-- The flipped packet is dropped. -/
theorem flipped_packet_dropped :
    (TcpLiteHeader.ofBytes flipped).verifyChecksum
        ((flipped.drop headerSize).take (TcpLiteHeader.ofBytes flipped).payloadLen.toNat) = false ∧
    flippedSession.onPacketReceived 3
      = { flippedSession with pool := (flippedSession.handOver 3).pool.release .corrupt 3 } :=
  corruption_caught (TcpLiteHeader.makeData 0 0 1) [0x2A] flipped rfl flipped_corrupted flippedSession 3
    (BufferPool.read_store 3 flipped)

end UxNet.TcpLite
