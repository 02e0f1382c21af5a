import UxNet.Lib.Serial
import UxNet.TcpLite.Queue

/-!
# Receive window

`RecvBitmap` of `tcp_lite.cpp`: a 256-bit set indexed relative to the next expected sequence number.
The bit set is a `BitVec 256`, shifted right as the base moves.
-/

namespace UxNet.TcpLite

/-- `RecvBitmap`. -/
structure RecvBitmap where
  received : BitVec 256
  baseSeq : BitVec 32
deriving DecidableEq, Repr

/-- The loop of `cumulative_ack`: the first clear bit at or after `n`, with `fuel` bits to go. -/
def firstClear (r : BitVec 256) : ℕ → ℕ → ℕ
  | 0, n => n
  | fuel + 1, n => if r.getLsbD n then firstClear r fuel (n + 1) else n

/-- The number of packets received in one piece from the base on. -/
def contig (r : BitVec 256) : ℕ := firstClear r window 0

namespace RecvBitmap

/-- A bitmap as constructed. -/
def new : RecvBitmap where
  received := 0
  baseSeq := 0

/-- `RecvBitmap::mark_received`. -/
def markReceived (seq : BitVec 32) (b : RecvBitmap) : Bool × RecvBitmap :=
  let off := (seq - b.baseSeq).toInt
  if off < 0 then (false, b)
  else if off ≥ window then (false, b)
  else if b.received.getLsbD off.toNat then (false, b)
  else (true, { b with received := b.received ||| BitVec.twoPow 256 off.toNat })

/-- `RecvBitmap::cumulative_ack`. -/
def cumulativeAck (b : RecvBitmap) : BitVec 32 := b.baseSeq + BitVec.ofNat 32 (contig b.received)

/-- `RecvBitmap::advance`. -/
def advance (newBase : BitVec 32) (b : RecvBitmap) : RecvBitmap :=
  let shift := newBase - b.baseSeq
  if shift = 0 then b
  else if shift.toNat ≥ window then { received := 0, baseSeq := newBase }
  else { received := b.received >>> shift.toNat, baseSeq := newBase }

/-- `RecvBitmap::has`. -/
def has (seq : BitVec 32) (b : RecvBitmap) : Bool :=
  let off := (seq - b.baseSeq).toInt
  if off < 0 || off ≥ window then false else b.received.getLsbD off.toNat

end RecvBitmap

/-- The loop of `cumulative_ack` stops at the first clear bit. -/
lemma firstClear_spec (r : BitVec 256) (fuel n : ℕ) :
    n ≤ firstClear r fuel n ∧ firstClear r fuel n ≤ n + fuel ∧
    (∀ k, n ≤ k → k < firstClear r fuel n → r.getLsbD k = true) ∧
    (firstClear r fuel n < n + fuel → r.getLsbD (firstClear r fuel n) = false) := by
  induction fuel generalizing n with
  | zero =>
    refine ⟨le_refl _, le_refl _, ?_, ?_⟩
    · intro k lo hi
      simp only [firstClear] at hi
      omega
    · intro h
      simp only [firstClear] at h
      omega
  | succ fuel ih =>
    rw [firstClear]
    split
    · rename_i bit
      obtain ⟨lo, hi, set, clear⟩ := ih (n + 1)
      refine ⟨by omega, by omega, ?_, ?_⟩
      · intro k hk lt
        rcases Nat.eq_or_lt_of_le hk with rfl | lt'
        · exact bit
        · exact set k lt' lt
      · intro h
        exact clear (by omega)
    · rename_i bit
      refine ⟨le_refl _, by omega, ?_, ?_⟩
      · intro k lo hi
        omega
      · intro _
        simpa using bit

/-- No more than the window is contiguous. -/
lemma contig_le (r : BitVec 256) : contig r ≤ window := by
  have h := (firstClear_spec r window 0).2.1
  simpa [contig] using h

/-- Below the first clear bit all bits are set. -/
lemma getLsbD_of_lt_contig {r : BitVec 256} {k : ℕ} (h : k < contig r) : r.getLsbD k = true :=
  (firstClear_spec r window 0).2.2.1 k (Nat.zero_le k) h

/-- The first clear bit is clear. -/
lemma getLsbD_contig (r : BitVec 256) : r.getLsbD (contig r) = false := by
  rcases Nat.lt_or_ge (contig r) window with lt | ge
  · exact (firstClear_spec r window 0).2.2.2 (by simpa [contig] using lt)
  · exact BitVec.getLsbD_of_ge _ _ ge

/-- The contiguous part is the one initial run of set bits. -/
lemma contig_eq {r : BitVec 256} {n : ℕ} (set : ∀ k < n, r.getLsbD k = true)
    (clear : r.getLsbD n = false) : contig r = n := by
  rcases Nat.lt_trichotomy (contig r) n with lt | eq | gt
  · have := set _ lt
    rw [getLsbD_contig] at this
    cases this
  · exact eq
  · have := getLsbD_of_lt_contig gt
    rw [clear] at this
    cases this

/-- Something is contiguous exactly if the base is received. -/
lemma contig_pos_iff (r : BitVec 256) : 0 < contig r ↔ r.getLsbD 0 = true := by
  constructor
  · exact getLsbD_of_lt_contig
  · intro bit
    by_contra h
    have z : contig r = 0 := by omega
    have := getLsbD_contig r
    rw [z, bit] at this
    cases this

/-- Setting bits can only lengthen the contiguous part. -/
lemma contig_mono {r r' : BitVec 256} (sub : ∀ k, r.getLsbD k = true → r'.getLsbD k = true) :
    contig r ≤ contig r' := by
  by_contra lt
  have h := sub _ (getLsbD_of_lt_contig (Nat.lt_of_not_le lt))
  rw [getLsbD_contig] at h
  cases h

/-- Shifting out a received packet takes one off the contiguous part. -/
lemma contig_shift {r : BitVec 256} (bit : r.getLsbD 0 = true) :
    contig (r >>> 1) + 1 = contig r := by
  have pos := (contig_pos_iff r).mpr bit
  have e : contig (r >>> 1) = contig r - 1 := by
    apply contig_eq
    · intro k hk
      rw [BitVec.getLsbD_ushiftRight]
      exact getLsbD_of_lt_contig (by omega)
    · rw [BitVec.getLsbD_ushiftRight, show 1 + (contig r - 1) = contig r by omega]
      exact getLsbD_contig r
  omega

/-- An offset inside the window is the same number signed and unsigned. -/
lemma toNat_toInt_of_lt {off : BitVec 32} (lt : off.toNat < 256) : off.toInt.toNat = off.toNat := by
  rw [BitVec.toInt_eq_toNat_of_lt (by omega)]
  rfl

namespace RecvBitmap

/-- What `mark_received` does, in terms of the unsigned distance from the base. -/
lemma markReceived_eq (b : RecvBitmap) (seq : BitVec 32) :
    b.markReceived seq =
      if (seq - b.baseSeq).toNat < 256 ∧ b.received.getLsbD (seq - b.baseSeq).toNat = false then
        (true, { b with received := b.received ||| BitVec.twoPow 256 (seq - b.baseSeq).toNat })
      else (false, b) := by
  have win := Serial.toInt_window_iff (W := 256) (seq - b.baseSeq) (by decide)
  unfold markReceived
  generalize seq - b.baseSeq = off at win
  dsimp only
  by_cases lt : off.toNat < 256
  · obtain ⟨lo, hi⟩ := win.mpr lt
    rw [if_neg (by omega), if_neg (by show ¬ off.toInt ≥ 256; omega), toNat_toInt_of_lt lt]
    cases off_bit : b.received.getLsbD off.toNat with
    | true => simp
    | false => simp [lt]
  · have out : ¬ (off.toNat < 256 ∧ b.received.getLsbD off.toNat = false) := fun h => lt h.1
    rw [if_neg out]
    by_cases neg : off.toInt < 0
    · rw [if_pos neg]
    · rw [if_neg neg, if_pos]
      by_contra hi
      exact lt (win.mp ⟨Int.not_lt.mp neg, Int.not_le.mp hi⟩)

/-- What `has` looks at, in terms of the unsigned distance from the base. -/
lemma has_eq (b : RecvBitmap) (seq : BitVec 32) :
    b.has seq = b.received.getLsbD (seq - b.baseSeq).toNat := by
  have win := Serial.toInt_window_iff (W := 256) (seq - b.baseSeq) (by decide)
  unfold has
  generalize seq - b.baseSeq = off at win
  dsimp only
  by_cases lt : off.toNat < 256
  · obtain ⟨lo, hi⟩ := win.mpr lt
    have inside : (decide (off.toInt < 0) || decide (off.toInt ≥ (window : ℤ))) = false := by
      simp only [Bool.or_eq_false_iff, decide_eq_false_iff_not]
      exact ⟨Int.not_lt.mpr lo, Int.not_le.mpr hi⟩
    rw [inside, toNat_toInt_of_lt lt]
    rfl
  · rw [BitVec.getLsbD_of_ge _ _ (Nat.le_of_not_lt lt)]
    split
    · rfl
    · rename_i inside
      simp only [Bool.or_eq_true, decide_eq_true_eq, not_or] at inside
      exact absurd (win.mp ⟨Int.not_lt.mp inside.1, Int.not_le.mp inside.2⟩) lt

/-- Moving the base shifts the bitmap, by any distance. -/
lemma advance_eq (b : RecvBitmap) (newBase : BitVec 32) :
    b.advance newBase
      = { received := b.received >>> (newBase - b.baseSeq).toNat, baseSeq := newBase } := by
  unfold advance
  dsimp only
  split
  · rename_i same
    have base : newBase = b.baseSeq := sub_eq_zero.mp same
    rw [same, base]
    simp
  · split
    · rename_i far
      rw [BitVec.ushiftRight_eq_zero far]
      rfl
    · rfl

/-- Moving the base by one shifts the bitmap by one. -/
lemma advance_one (b : RecvBitmap) :
    b.advance (b.baseSeq + 1) = { received := b.received >>> 1, baseSeq := b.baseSeq + 1 } := by
  have shift : b.baseSeq + 1 - b.baseSeq = 1#32 := by
    rw [BitVec.add_comm]
    exact BitVec.add_sub_cancel _ _
  rw [advance_eq, shift]
  rfl

end RecvBitmap

end UxNet.TcpLite
