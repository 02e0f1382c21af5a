import UxNet.Lib.Xor
import UxNet.Packet.Rss

/-!
# The Toeplitz hash

`RSSDistributor::toeplitz` against the definition of the Toeplitz hash: the exclusive or, over the bits
set in the 96-bit input, of the 32 bits of the key from the same position on. The loop slides a window
along the key; `Scanned` is its invariant, one bit of input at a time. The hash is linear in the input
and the key has full rank, so that every queue gets its exact share of all inputs.
-/

namespace UxNet.Packet

/-! ## The definition of the hash -/

/-- The key as one string of bits, most significant first. -/
def keyString : BitVec 320 := kRssKey.foldl (fun acc b => acc <<< 8 ||| b.setWidth 320) 0

/-- The 32 bits of the key from bit `i` on. -/
def keySlice (i : ℕ) : BitVec 32 := keyString.extractLsb' (288 - i) 32

/-- The input of the hash as one string of bits. -/
def tuple (srcIp dstIp : BitVec 32) (srcPort dstPort : BitVec 16) : BitVec 96 :=
  srcIp ++ dstIp ++ srcPort ++ dstPort

/-- The Toeplitz hash of a string: the exclusive or of the key slices at its set bits. -/
def toeplitzSum (x : BitVec 96) : BitVec 32 := Xor.select 96 x.getMsbD keySlice

/-! ## The reads of the key -/

/-- What a round of the inner loop of `toeplitz` leaves behind. -/
def toeplitzBit (input : BitVec 8) (t : ToeplitzScan) (bit : ℕ) : ToeplitzScan :=
  (toeplitzBitRead input t bit).run keyMem

/-- What the inner loop of `toeplitz` leaves behind. -/
def toeplitzByte (t : ToeplitzScan) (input : BitVec 8) : ToeplitzScan :=
  (toeplitzByteRead t input).run keyMem

/-- The inner loop runs round by round. -/
lemma toeplitzByte_eq (t : ToeplitzScan) (input : BitVec 8) :
    toeplitzByte t input = [7, 6, 5, 4, 3, 2, 1, 0].foldl (toeplitzBit input) t :=
  Access.run_foldlM _ _ _

/-- So does the outer loop. -/
lemma toeplitz_eq_foldl (srcIp dstIp : BitVec 32) (srcPort dstPort : BitVec 16) :
    toeplitz srcIp dstIp srcPort dstPort
      = ([(srcIp >>> 24).setWidth 8, (srcIp >>> 16).setWidth 8, (srcIp >>> 8).setWidth 8,
          srcIp.setWidth 8, (dstIp >>> 24).setWidth 8, (dstIp >>> 16).setWidth 8,
          (dstIp >>> 8).setWidth 8, dstIp.setWidth 8, (srcPort >>> 8).setWidth 8, srcPort.setWidth 8,
          (dstPort >>> 8).setWidth 8, dstPort.setWidth 8].foldl toeplitzByte
        { result := 0, window := keyMem 0 ++ keyMem 1 ++ keyMem 2 ++ keyMem 3, nextBit := 32 }).result := by
  simp only [toeplitz, toeplitzRead, Access.run_bind, Access.run_byte, Access.run_pure, Access.run_foldlM]
  rfl

/-- The position in the key moves on with every bit of input. -/
lemma nextBit_bits (input : BitVec 8) (bits : List ℕ) (t : ToeplitzScan) :
    (bits.foldl (toeplitzBit input) t).nextBit = t.nextBit + bits.length := by
  induction bits generalizing t with
  | nil => rfl
  | cons bit bits ih =>
    rw [List.foldl_cons, ih, List.length_cons]
    show t.nextBit + 1 + bits.length = _
    omega

/-- It moves on by eight with every byte. -/
lemma nextBit_bytes (input : List (BitVec 8)) (t : ToeplitzScan) :
    (input.foldl toeplitzByte t).nextBit = t.nextBit + 8 * input.length := by
  induction input generalizing t with
  | nil => rfl
  | cons b input ih =>
    have byte : (toeplitzByte t b).nextBit = t.nextBit + 8 := by
      rw [toeplitzByte_eq]
      exact nextBit_bits b _ t
    rw [List.foldl_cons, ih, byte, List.length_cons]
    omega

/-- Every read of the key is inside it. -/
lemma toeplitzRead_inside (srcIp dstIp : BitVec 32) (srcPort dstPort : BitVec 16) :
    ∀ i ∈ (toeplitzRead srcIp dstIp srcPort dstPort).reads keyMem, i < kRssKey.length := by
  intro i mem
  show i < 40
  simp only [toeplitzRead, Access.reads_bind, Access.reads_byte, Access.reads_pure,
    List.append_nil, List.mem_append, List.mem_singleton] at mem
  rcases mem with rfl | rfl | rfl | rfl | mem
  · omega
  · omega
  · omega
  · omega
  -- a read of the loops: byte `done.length` of the input, bit `bits.length` of that byte
  obtain ⟨done, b, todo, split, mem⟩ := Access.mem_reads_foldlM mem
  obtain ⟨bits, bit, left, split', mem⟩ := Access.mem_reads_foldlM mem
  have short := congrArg List.length split
  have short' := congrArg List.length split'
  rw [List.length_append, List.length_cons] at short short'
  simp only [List.length_cons, List.length_nil] at short short'
  have eq : i = (bits.foldl (toeplitzBit b) (done.foldl toeplitzByte
      { result := 0, window := keyMem 0 ++ keyMem 1 ++ keyMem 2 ++ keyMem 3,
        nextBit := 32 })).nextBit / 8 := List.mem_singleton.mp mem
  rw [eq, nextBit_bits, nextBit_bytes]
  show (32 + 8 * done.length + bits.length) / 8 < 40
  omega

/-! ## The loop invariant -/

/-- Bit `n` of the key, by the byte it lies in. -/
lemma keyBit_eq : ∀ n < 320, (kRssKey.getD (n / 8) 0 >>> (7 - n % 8)) &&& 1
    = (BitVec.ofBool (keyString.getMsbD n)).setWidth 8 := by
  decide +kernel

/-- The window moves on by one bit. -/
lemma keySlice_succ {i : ℕ} (lt : i < 288) :
    keySlice i <<< 1 ||| (BitVec.ofBool (keyString.getMsbD (32 + i))).setWidth 32
      = keySlice (i + 1) := by
  apply BitVec.eq_of_getLsbD_eq
  intro j hj
  have pos : 320 - 1 - (32 + i) = 288 - (i + 1) := by omega
  simp only [keySlice, BitVec.getLsbD_or, BitVec.getLsbD_shiftLeft, BitVec.getLsbD_extractLsb',
    BitVec.getLsbD_setWidth, BitVec.getLsbD_ofBool, BitVec.getMsbD_eq_getLsbD, pos]
  cases j with
  | zero => simp; omega
  | succ j =>
    have e : 288 - i + j = 288 - (i + 1) + (j + 1) := by omega
    simp [hj, e]
    omega

/-- The scan after `i` bits of the string `x`. -/
structure Scanned (x : BitVec 96) (i : ℕ) (t : ToeplitzScan) : Prop where
  result : t.result = Xor.select i x.getMsbD keySlice
  window : t.window = keySlice i
  nextBit : t.nextBit = 32 + i

/-- One round of the inner loop. -/
lemma Scanned.bit {x : BitVec 96} {i : ℕ} {t : ToeplitzScan} (at' : Scanned x i t) (lt : i < 96)
    {input : BitVec 8} {bit : ℕ} (here : (input >>> bit) &&& 1 = 1 ↔ x.getMsbD i = true) :
    Scanned x (i + 1) (toeplitzBit input t bit) where
  result := by
    rw [Xor.select_succ, ← at'.result, ← at'.window]
    simp only [toeplitzBit, toeplitzBitRead, Access.run_bind, Access.run_byte, Access.run_pure, here]
    split
    · rfl
    · exact (BitVec.xor_zero).symm
  window := by
    simp only [toeplitzBit, toeplitzBitRead, Access.run_bind, Access.run_byte, Access.run_pure, keyMem]
    rw [at'.window, at'.nextBit, keyBit_eq _ (by omega), ← keySlice_succ (by omega)]
    simp
  nextBit := by
    show t.nextBit + 1 = _
    rw [at'.nextBit]
    rfl

/-- Bit `j` of a byte of the string, as the loop looks at it. -/
lemma byte_bit (x : BitVec 96) {n j : ℕ} (hn : n < 12) (hj : j < 8) :
    (x.extractLsb' (88 - 8 * n) 8 >>> (7 - j)) &&& 1 = 1 ↔ x.getMsbD (8 * n + j) = true := by
  have bit : (x.extractLsb' (88 - 8 * n) 8 >>> (7 - j)) &&& 1#8
      = (BitVec.ofBool (x.getMsbD (8 * n + j))).setWidth 8 := by
    rw [BitVec.and_one_eq_setWidth_ofBool_getLsbD]
    congr 2
    have pos : 96 - 1 - (8 * n + j) = 88 - 8 * n + (7 - j) := by omega
    rw [BitVec.getLsbD_ushiftRight, BitVec.getLsbD_extractLsb', BitVec.getMsbD_eq_getLsbD, pos]
    congr 1
    rw [decide_eq_decide]
    omega
  show _ &&& 1#8 = 1#8 ↔ _
  rw [bit]
  cases x.getMsbD (8 * n + j) with
  | false => decide
  | true => decide

/-- The inner loop, over byte `n` of the string. -/
lemma Scanned.byte {x : BitVec 96} {n : ℕ} {t : ToeplitzScan} (at' : Scanned x (8 * n) t)
    (hn : n < 12) : Scanned x (8 * (n + 1)) (toeplitzByte t (x.extractLsb' (88 - 8 * n) 8)) := by
  rw [toeplitzByte_eq]
  exact ((((((((at'.bit (by omega) (byte_bit x hn (j := 0) (by omega))).bit (by omega)
    (byte_bit x hn (j := 1) (by omega))).bit (by omega)
    (byte_bit x hn (j := 2) (by omega))).bit (by omega)
    (byte_bit x hn (j := 3) (by omega))).bit (by omega)
    (byte_bit x hn (j := 4) (by omega))).bit (by omega)
    (byte_bit x hn (j := 5) (by omega))).bit (by omega)
    (byte_bit x hn (j := 6) (by omega))).bit (by omega)
    (byte_bit x hn (j := 7) (by omega)))

/-- The outer loop, from byte `n` of the string on. -/
lemma Scanned.bytes {x : BitVec 96} (k : ℕ) {n : ℕ} {t : ToeplitzScan} (at' : Scanned x (8 * n) t)
    (hn : n + k ≤ 12) :
    Scanned x (8 * (n + k))
      (((List.range' n k).map fun i => x.extractLsb' (88 - 8 * i) 8).foldl toeplitzByte t) := by
  induction k generalizing n t with
  | zero => exact at'
  | succ k ih =>
    rw [List.range'_succ, List.map_cons, List.foldl_cons, ← Nat.add_assoc, Nat.add_right_comm]
    exact ih (at'.byte (by omega)) (by omega)

/-- The bytes that `toeplitz` lays out are those of the string. -/
lemma input_eq (srcIp dstIp : BitVec 32) (srcPort dstPort : BitVec 16) :
    [(srcIp >>> 24).setWidth 8, (srcIp >>> 16).setWidth 8, (srcIp >>> 8).setWidth 8,
     srcIp.setWidth 8, (dstIp >>> 24).setWidth 8, (dstIp >>> 16).setWidth 8,
     (dstIp >>> 8).setWidth 8, dstIp.setWidth 8, (srcPort >>> 8).setWidth 8, srcPort.setWidth 8,
     (dstPort >>> 8).setWidth 8, dstPort.setWidth 8]
      = (List.range' 0 12).map fun i =>
          (tuple srcIp dstIp srcPort dstPort).extractLsb' (88 - 8 * i) 8 := by
  simp only [BitVec.setWidth_ushiftRight_eq_extractLsb]
  simp (disch := omega) only [List.range', List.map_cons, List.map_nil, tuple,
    BitVec.extractLsb'_append_eq_of_le, BitVec.extractLsb'_append_eq_of_add_le,
    BitVec.setWidth_eq_extractLsb']

/-- `toeplitz` computes the Toeplitz hash of the string. -/
lemma toeplitz_eq_sum (srcIp dstIp : BitVec 32) (srcPort dstPort : BitVec 16) :
    toeplitz srcIp dstIp srcPort dstPort = toeplitzSum (tuple srcIp dstIp srcPort dstPort) := by
  have start : Scanned (tuple srcIp dstIp srcPort dstPort) (8 * 0)
      { result := 0, window := keyMem 0 ++ keyMem 1 ++ keyMem 2 ++ keyMem 3, nextBit := 32 } :=
    ⟨rfl, by decide +kernel, rfl⟩
  rw [toeplitz_eq_foldl, input_eq]
  exact (start.bytes 12 (by omega)).result

/-- The string of two tuples combined. -/
lemma tuple_xor (srcIp dstIp srcIp' dstIp' : BitVec 32) (srcPort dstPort srcPort' dstPort' : BitVec 16) :
    tuple (srcIp ^^^ srcIp') (dstIp ^^^ dstIp') (srcPort ^^^ srcPort') (dstPort ^^^ dstPort')
      = tuple srcIp dstIp srcPort dstPort ^^^ tuple srcIp' dstIp' srcPort' dstPort' := by
  rw [tuple, tuple, tuple, ← BitVec.xor_append, ← BitVec.xor_append, ← BitVec.xor_append]

/-- The Toeplitz hash is linear. -/
lemma toeplitzSum_linear : Xor.Linear toeplitzSum := by
  intro x y
  rw [toeplitzSum, toeplitzSum, toeplitzSum, ← Xor.select_xor]
  congr 1
  funext i
  exact BitVec.getMsbD_xor

/-- The hash is linear. -/
lemma toeplitz_xor (srcIp dstIp srcIp' dstIp' : BitVec 32)
    (srcPort dstPort srcPort' dstPort' : BitVec 16) :
    toeplitz (srcIp ^^^ srcIp') (dstIp ^^^ dstIp') (srcPort ^^^ srcPort') (dstPort ^^^ dstPort')
      = toeplitz srcIp dstIp srcPort dstPort ^^^ toeplitz srcIp' dstIp' srcPort' dstPort' := by
  rw [toeplitz_eq_sum, toeplitz_eq_sum, toeplitz_eq_sum, tuple_xor, toeplitzSum_linear]

/-- `toeplitz` is the Toeplitz hash of the key, reads the key inside its bounds only, and is linear. -/
theorem toeplitz_correct (srcIp dstIp : BitVec 32) (srcPort dstPort : BitVec 16) :
    toeplitz srcIp dstIp srcPort dstPort
      = Xor.sum (((List.range 96).filter (srcIp ++ dstIp ++ srcPort ++ dstPort).getMsbD).map keySlice) ∧
    (∀ i ∈ (toeplitzRead srcIp dstIp srcPort dstPort).reads keyMem, i < kRssKey.length) ∧
    ∀ (srcIp' dstIp' : BitVec 32) (srcPort' dstPort' : BitVec 16),
      toeplitz (srcIp ^^^ srcIp') (dstIp ^^^ dstIp') (srcPort ^^^ srcPort') (dstPort ^^^ dstPort')
        = toeplitz srcIp dstIp srcPort dstPort ^^^ toeplitz srcIp' dstIp' srcPort' dstPort' :=
  ⟨toeplitz_eq_sum srcIp dstIp srcPort dstPort, toeplitzRead_inside srcIp dstIp srcPort dstPort,
    fun srcIp' dstIp' srcPort' dstPort' =>
      toeplitz_xor srcIp dstIp srcIp' dstIp' srcPort dstPort srcPort' dstPort'⟩

/-! ## Balance -/

/-- Destination addresses that hash to the unit vectors when the rest of the tuple is zero. -/
def unitAddresses : List (BitVec 32) :=
  [0x976ba3bd, 0xad203080, 0xc1fbbbfd, 0x11039f1d, 0x797f8d6d, 0x4d418455, 0xc0352374, 0xf7713207,
   0x9d2d785d, 0x3f68fecd, 0xf9219e38, 0x7c90cf1c, 0x3e48678e, 0x1f2433c7, 0x7e6c5b00, 0xa85d8e3d,
   0x25d085fd, 0x6316001d, 0xd71ee150, 0xfce4d315, 0x98e788d4, 0xdb1867d7, 0x8b19d2b5, 0xa3190804,
   0xc6e727bf, 0x85e67281, 0x330d7ba3, 0x6878ff32, 0x343c7f99, 0xfc8bde92, 0xe92e4cf4, 0xe3fc85c7]

/-- These addresses hash to the unit vectors. -/
lemma toeplitz_units : ∀ j < 32, toeplitz 0 (unitAddresses.getD j 0) 0 0 = BitVec.twoPow 32 j := by
  decide +kernel

/-- The key has full rank. -/
lemma toeplitzSum_surjective : Function.Surjective toeplitzSum := by
  apply toeplitzSum_linear.surjective
  intro j hj
  refine ⟨tuple 0 (unitAddresses.getD j 0) 0 0, ?_⟩
  rw [← toeplitz_eq_sum]
  exact toeplitz_units j hj

/-- Tuples and strings of 96 bits are the same thing. -/
def tupleEquiv : BitVec 32 × BitVec 32 × BitVec 16 × BitVec 16 ≃ BitVec 96 where
  toFun t := tuple t.1 t.2.1 t.2.2.1 t.2.2.2
  invFun x := (x.extractLsb' 64 32, x.extractLsb' 32 32, x.extractLsb' 16 16, x.extractLsb' 0 16)
  left_inv t := by
    simp (disch := omega) only [tuple, BitVec.extractLsb'_append_eq_of_le,
      BitVec.extractLsb'_append_eq_of_add_le]
    simp
  right_inv x := by
    simp only [tuple]
    rw [BitVec.extractLsb'_append_extractLsb'_eq_extractLsb' (by rfl),
      BitVec.extractLsb'_append_extractLsb'_eq_extractLsb' (by rfl),
      BitVec.extractLsb'_append_extractLsb'_eq_extractLsb' (by rfl)]
    exact BitVec.extractLsb'_eq_self

/-- With `2 ^ k` queues the index of a queue is the last `k` bits of the hash. -/
lemma RSSDistributor.hash_eq_iff {d : RSSDistributor} {k : ℕ} (le : k ≤ 32) (pow : d.queueCount = 2 ^ k)
    {q : BitVec 32} (lt : q.toNat < d.queueCount) (srcIp dstIp : BitVec 32)
    (srcPort dstPort : BitVec 16) :
    d.hash srcIp dstIp srcPort dstPort = q ↔
      (toeplitz srcIp dstIp srcPort dstPort).setWidth k = q.setWidth k := by
  have mask : d.mask.toNat = 2 ^ k - 1 := by
    have := Nat.pow_le_pow_right (n := 2) (by omega) le
    have pos := Nat.two_pow_pos k
    rw [RSSDistributor.mask, pow, BitVec.toNat_ofNat, Nat.mod_eq_of_lt (by omega)]
  rw [← BitVec.toNat_inj, ← BitVec.toNat_inj, RSSDistributor.hash, BitVec.toNat_and, mask,
    Nat.and_two_pow_sub_one_eq_mod, BitVec.toNat_setWidth, BitVec.toNat_setWidth,
    Nat.mod_eq_of_lt (pow ▸ lt : q.toNat < 2 ^ k)]

/-- Every queue gets the same share of the tuples. -/
theorem fan_out_balanced (d : RSSDistributor) (k : ℕ) (le : k ≤ 32) (pow : d.queueCount = 2 ^ k)
    (q : BitVec 32) (lt : q.toNat < d.queueCount) :
    Nat.card {t : BitVec 32 × BitVec 32 × BitVec 16 × BitVec 16 //
      d.hash t.1 t.2.1 t.2.2.1 t.2.2.2 = q} = 2 ^ 96 / d.queueCount := by
  -- the last `k` bits of the hash, as a map on strings, are linear and take every value
  have linear : Xor.Linear (BitVec.setWidth k ∘ toeplitzSum) :=
    Xor.linear_setWidth.comp toeplitzSum_linear
  have onto : Function.Surjective (BitVec.setWidth k ∘ toeplitzSum) := by
    apply Function.Surjective.comp _ toeplitzSum_surjective
    intro y
    refine ⟨y.setWidth 32, ?_⟩
    rw [BitVec.setWidth_setWidth_of_le y le, BitVec.setWidth_eq]
  have same : ∀ t : BitVec 32 × BitVec 32 × BitVec 16 × BitVec 16,
      d.hash t.1 t.2.1 t.2.2.1 t.2.2.2 = q ↔
        (BitVec.setWidth k ∘ toeplitzSum) (tupleEquiv t) = q.setWidth k := by
    intro t
    rw [RSSDistributor.hash_eq_iff le pow lt, toeplitz_eq_sum]
    rfl
  rw [Nat.card_congr (tupleEquiv.subtypeEquiv
    (q := fun x => (BitVec.setWidth k ∘ toeplitzSum) x = q.setWidth k) same), pow]
  exact (Nat.div_eq_of_eq_mul_right (Nat.two_pow_pos k)
    (linear.card_fiber onto (q.setWidth k)).symm).symm

/-- With 8 queues, queue 5 gets an eighth of the tuples. -/
theorem fan_out_balanced_eight :
    Nat.card {t : BitVec 32 × BitVec 32 × BitVec 16 × BitVec 16 //
      RSSDistributor.hash ⟨8⟩ t.1 t.2.1 t.2.2.1 t.2.2.2 = 5} = 2 ^ 96 / 8 :=
  fan_out_balanced ⟨8⟩ 3 (by decide) rfl 5 (by decide)

end UxNet.Packet
