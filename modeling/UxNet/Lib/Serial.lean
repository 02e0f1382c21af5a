import Mathlib.Data.BitVec
import Mathlib.Tactic

/-!
# Serial numbers

Arithmetic of counters that are kept modulo `2 ^ w`. A serial number is the image `BitVec.ofNat w i`
of an unbounded index `i`; programs compare two of them through the wrapping difference, read either
unsigned (`toNat`) or signed (`toInt`). The lemmas say what such a comparison means for the indices,
as long as the two are not too far apart.
-/

namespace UxNet.Serial

variable {w : ℕ}

/-- Wrapping difference of two serial numbers whose indices are ordered. -/
lemma ofNat_sub_ofNat {i j : ℕ} (le : j ≤ i) :
    BitVec.ofNat w i - BitVec.ofNat w j = BitVec.ofNat w (i - j) := by
  have split : BitVec.ofNat w i = BitVec.ofNat w (i - j) + BitVec.ofNat w j := by
    rw [← BitVec.ofNat_add]
    congr 1
    omega
  rw [split]
  exact BitVec.add_sub_cancel _ _

/-- Unsigned distance of two serial numbers whose indices are ordered. -/
lemma dist_of_le {i j : ℕ} (le : j ≤ i) :
    (BitVec.ofNat w i - BitVec.ofNat w j).toNat = (i - j) % 2 ^ w := by
  rw [ofNat_sub_ofNat le, BitVec.toNat_ofNat]

/-- Unsigned distance when the first index is the smaller one, less than a full turn behind. -/
lemma dist_of_lt {i j : ℕ} (lt : i < j) (near : j - i < 2 ^ w) :
    (BitVec.ofNat w i - BitVec.ofNat w j).toNat = 2 ^ w - (j - i) := by
  have neg : BitVec.ofNat w i - BitVec.ofNat w j = -(BitVec.ofNat w j - BitVec.ofNat w i) := by
    rw [BitVec.neg_sub]
    exact BitVec.sub_eq_add_neg _ _ |>.trans (BitVec.add_comm _ _)
  rw [neg, BitVec.toNat_neg, dist_of_le (le_of_lt lt), Nat.mod_eq_of_lt near]
  exact Nat.mod_eq_of_lt (by omega)

/-- Two serial numbers coincide exactly when a full turn divides the distance of their indices. -/
lemma ofNat_inj_of_near {i j : ℕ} (le : j ≤ i) (near : i - j < 2 ^ w)
    (e : BitVec.ofNat w i = BitVec.ofNat w j) : i = j := by
  have h := dist_of_le (w := w) le
  rw [e, BitVec.sub_self, Nat.mod_eq_of_lt near] at h
  simp at h
  omega

/-- The signed difference is positive exactly for the later index, within half a turn. -/
lemma toInt_pos_iff {i j : ℕ} (fwd : 2 * (i - j) < 2 ^ w) (bwd : 2 * (j - i) < 2 ^ w) :
    0 < (BitVec.ofNat w i - BitVec.ofNat w j).toInt ↔ j < i := by
  rcases Nat.lt_or_ge i j with lt | le
  · have d := dist_of_lt (w := w) lt (by omega)
    have neg : (BitVec.ofNat w i - BitVec.ofNat w j).toInt < 0 := by
      rw [BitVec.toInt_neg_iff, d]
      omega
    constructor
    · intro h; omega
    · intro h; omega
  · have d := dist_of_le (w := w) le
    rw [Nat.mod_eq_of_lt (by omega)] at d
    rw [BitVec.toInt_eq_toNat_of_lt (by omega), d]
    omega

/-- The signed difference is non-negative and below `W` exactly when the unsigned one is. -/
lemma toInt_window_iff {W : ℕ} (x : BitVec w) (small : 2 * W ≤ 2 ^ w) :
    (0 ≤ x.toInt ∧ x.toInt < W) ↔ x.toNat < W := by
  rw [BitVec.toInt_eq_toNat_cond]
  split
  · omega
  · have := x.isLt
    constructor
    · rintro ⟨h, _⟩; omega
    · intro h; omega

/-- Being in the window of `W` numbers from `b` on, for an index less than a turn ahead and at
most a turn less a window behind. -/
lemma window_iff {W b j : ℕ} (ahead : j < b + 2 ^ w) (behind : b + W ≤ j + 2 ^ w) :
    (BitVec.ofNat w j - BitVec.ofNat w b).toNat < W ↔ b ≤ j ∧ j < b + W := by
  rcases Nat.lt_or_ge j b with lt | le
  · have pos : 0 < 2 ^ w := by positivity
    rcases Nat.lt_or_ge (b - j) (2 ^ w) with near | far
    · rw [dist_of_lt lt near]
      omega
    · omega
  · rw [dist_of_le le, Nat.mod_eq_of_lt (by omega)]
    omega

/-- Splitting the distance of two serial numbers at a third one between them. -/
lemma toNat_sub_add {x y z : BitVec w} (le : (y - z).toNat ≤ (x - z).toNat) :
    (x - y).toNat + (y - z).toNat = (x - z).toNat := by
  have e : x - z = (x - y) + (y - z) := (sub_add_sub_cancel x y z).symm
  rw [e, BitVec.toNat_add] at le ⊢
  have h1 := (x - y).isLt
  have h2 := (y - z).isLt
  rcases Nat.lt_or_ge ((x - y).toNat + (y - z).toNat) (2 ^ w) with lt | ge
  · rw [Nat.mod_eq_of_lt lt]
  · rw [Nat.mod_eq_sub_mod ge, Nat.mod_eq_of_lt (by omega)] at le
    omega

/-- Splitting the distance of two serial numbers at a third one ahead of the first. -/
lemma toNat_sub_of_lt {x y z : BitVec w} (lt : (x - z).toNat < (y - z).toNat) :
    (x - y).toNat + (y - z).toNat = (x - z).toNat + 2 ^ w := by
  have e : x - z = (x - y) + (y - z) := (sub_add_sub_cancel x y z).symm
  rw [e, BitVec.toNat_add] at lt ⊢
  have h1 := (x - y).isLt
  have h2 := (y - z).isLt
  rcases Nat.lt_or_ge ((x - y).toNat + (y - z).toNat) (2 ^ w) with lt' | ge
  · rw [Nat.mod_eq_of_lt lt'] at lt
    omega
  · rw [Nat.mod_eq_sub_mod ge, Nat.mod_eq_of_lt (by omega)]
    omega

/-- A positive signed difference is a distance of less than half a turn. -/
lemma toNat_of_toInt_pos {x : BitVec w} (pos : 0 < x.toInt) : 0 < x.toNat ∧ 2 * x.toNat < 2 ^ w := by
  rw [BitVec.toInt_eq_toNat_cond] at pos
  have := x.isLt
  split at pos
  · omega
  · omega

/-- The signed difference is that of the signed positions seen from a third number, within half a turn. -/
lemma toInt_sub_eq {x y z : BitVec w} (lo : -(2 ^ w : ℤ) ≤ 2 * ((x - z).toInt - (y - z).toInt))
    (hi : 2 * ((x - z).toInt - (y - z).toInt) < 2 ^ w) :
    (x - y).toInt = (x - z).toInt - (y - z).toInt := by
  have split : x - y = (x - z) - (y - z) := (sub_sub_sub_cancel_right x y z).symm
  rw [split, BitVec.toInt_sub]
  apply Int.bmod_eq_of_le_mul_two
  · push_cast
    omega
  · push_cast
    omega

end UxNet.Serial
