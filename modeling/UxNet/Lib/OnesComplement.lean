import Mathlib.Data.Nat.ModEq
import Mathlib.Tactic

/-!
# One's-complement sums

Addition of words of `w` bits with the carry added back in at the low end. The sum of a list of words is
the ordinary sum, brought down to `w` bits: congruent to it modulo `2 ^ w - 1`, and zero only if all
words are zero (`norm`). Hence the complement of the sum, added to it, gives all ones, in whatever order
and with whatever intermediate carries the sum is made.
-/

namespace UxNet.OnesComplement

/-- A number brought down to `0, …, M`: congruent modulo `M`, and zero only for zero. -/
def norm (M n : ℕ) : ℕ := if n = 0 then 0 else (n - 1) % M + 1

variable {M a b n r : ℕ}

/-- Zero is its own representative. -/
lemma norm_zero : norm M 0 = 0 := rfl

/-- A representative is at most the modulus. -/
lemma norm_le (pos : 0 < M) : norm M n ≤ M := by
  have lt := Nat.mod_lt (n - 1) pos
  unfold norm
  split
  · omega
  · omega

/-- The representative of a positive number is positive. -/
lemma norm_pos (h : 0 < n) : 0 < norm M n := by
  rw [norm, if_neg (by omega)]
  omega

/-- A number is congruent to its representative. -/
lemma norm_modEq : norm M n ≡ n [MOD M] := by
  unfold norm
  split
  · rename_i zero
    rw [zero]
  · have step := (Nat.mod_modEq (n - 1) M).add_right 1
    rwa [Nat.sub_add_cancel (by omega)] at step

/-- The number is determined by this. -/
lemma eq_norm (le : r ≤ M) (same : r ≡ n [MOD M]) (zero : r = 0 ↔ n = 0) : r = norm M n := by
  by_cases h : n = 0
  · rw [h, norm_zero]
    exact zero.mpr h
  · have pos : r ≠ 0 := fun e => h (zero.mp e)
    have shifted : r - 1 ≡ n - 1 [MOD M] := by
      apply Nat.ModEq.add_right_cancel' 1
      rwa [Nat.sub_add_cancel (by omega), Nat.sub_add_cancel (by omega)]
    have small : (r - 1) % M = r - 1 := Nat.mod_eq_of_lt (by omega)
    rw [norm, if_neg h, ← shifted, small]
    omega

/-- Congruent numbers have one representative, if they are zero together. -/
lemma norm_congr (pos : 0 < M) (same : a ≡ b [MOD M]) (zero : a = 0 ↔ b = 0) :
    norm M a = norm M b := by
  apply eq_norm (norm_le pos) (norm_modEq.trans same)
  rw [← zero]
  constructor
  · intro e
    by_contra h
    have := norm_pos (M := M) (Nat.pos_of_ne_zero h)
    omega
  · intro e
    rw [e, norm_zero]

/-- A number up to the modulus is its own representative. -/
lemma norm_of_le (le : n ≤ M) : norm M n = n := (eq_norm le rfl Iff.rfl).symm

/-- All ones are the value of the positive multiples of `M`. -/
lemma norm_eq_max_iff (pos : 0 < M) : norm M n = M ↔ 0 < n ∧ M ∣ n := by
  have same := norm_modEq (M := M) (n := n)
  constructor
  · intro e
    rw [e] at same
    refine ⟨?_, (Nat.modEq_zero_iff_dvd.mp (same.symm.trans ?_))⟩
    · by_contra zero
      rw [show n = 0 by omega, norm_zero] at e
      omega
    · exact Nat.modEq_zero_iff_dvd.mpr dvd_rfl
  · rintro ⟨h, dvd⟩
    symm
    apply eq_norm le_rfl
    · exact (Nat.modEq_zero_iff_dvd.mpr dvd_rfl).trans (Nat.modEq_zero_iff_dvd.mpr dvd).symm
    · omega

/-- A part of a sum may be brought down first. -/
lemma norm_add (pos : 0 < M) : norm M (norm M a + b) = norm M (a + b) := by
  apply norm_congr pos (norm_modEq.add_right b)
  by_cases h : a = 0
  · rw [h, norm_zero]
  · have := norm_pos (M := M) (Nat.pos_of_ne_zero h)
    omega

/-- The digits of a number to the base `M + 1` may be added up. -/
lemma norm_digits (pos : 0 < M) : norm M (n % (M + 1) + n / (M + 1)) = norm M n := by
  have split := Nat.mod_add_div n (M + 1)
  apply norm_congr pos
  · have same : n % (M + 1) + (M + 1) * (n / (M + 1)) ≡ n % (M + 1) + 1 * (n / (M + 1)) [MOD M] := by
      apply Nat.ModEq.add_left
      apply Nat.ModEq.mul_right
      exact (Nat.modEq_iff_dvd' (by omega)).mpr ⟨1, by omega⟩ |>.symm
    rw [split, Nat.one_mul] at same
    exact same.symm
  · constructor
    · intro e
      obtain ⟨low, high⟩ := Nat.add_eq_zero_iff.mp e
      rw [low, high] at split
      exact split.symm
    · intro e
      rw [e]
      simp

/-- A positive sum and the complement of its value make all ones. -/
lemma norm_complement (pos : 0 < M) (h : 0 < a) : norm M (a + (M - norm M a)) = M := by
  have le := norm_le (n := a) pos
  have value := norm_pos (M := M) h
  rw [← norm_add pos, Nat.add_sub_cancel' le]
  exact norm_of_le le_rfl

/-- A number makes a multiple of `M` together with a positive sum exactly if it is congruent to the
complement of the value of the sum. -/
lemma dvd_add_iff_complement (pos : 0 < M) : M ∣ b + a ↔ b ≡ M - norm M a [MOD M] := by
  have le := norm_le (n := a) pos
  have whole : (M - norm M a) + norm M a ≡ 0 [MOD M] := by
    rw [Nat.sub_add_cancel le]
    exact Nat.modEq_zero_iff_dvd.mpr dvd_rfl
  have value : b + norm M a ≡ b + a [MOD M] := norm_modEq.add_left b
  constructor
  · intro dvd
    apply Nat.ModEq.add_right_cancel' (norm M a)
    exact (value.trans (Nat.modEq_zero_iff_dvd.mpr dvd)).trans whole.symm
  · intro same
    apply Nat.modEq_zero_iff_dvd.mp
    exact value.symm.trans ((same.add_right _).trans whole)

/-! ## Words -/

variable {w : ℕ}

/-- Addition with end-around carry. -/
def add (x y : BitVec w) : BitVec w :=
  BitVec.ofNat w (if x.toNat + y.toNat < 2 ^ w then x.toNat + y.toNat
    else x.toNat + y.toNat - (2 ^ w - 1))

/-- The one's-complement sum of a list of words. -/
def sum (ws : List (BitVec w)) : BitVec w := ws.foldl add 0

/-- The end-around carry computes the representative of the sum. -/
lemma toNat_add (wide : 0 < w) (x y : BitVec w) :
    (add x y).toNat = norm (2 ^ w - 1) (x.toNat + y.toNat) := by
  have big : 2 ≤ 2 ^ w := Nat.le_self_pow (by omega) 2
  have hx := x.isLt
  have hy := y.isLt
  rw [add, BitVec.toNat_ofNat]
  split
  · rw [Nat.mod_eq_of_lt ‹_›, norm_of_le (by omega)]
  · rw [Nat.mod_eq_of_lt (by omega)]
    apply eq_norm (by omega)
    · exact (Nat.modEq_iff_dvd' (by omega)).mpr ⟨1, by omega⟩
    · omega

/-- The sum of the words is their ordinary sum, brought down. -/
lemma toNat_sum (wide : 0 < w) (ws : List (BitVec w)) :
    (sum ws).toNat = norm (2 ^ w - 1) (ws.map BitVec.toNat).sum := by
  have big : 2 ≤ 2 ^ w := Nat.le_self_pow (by omega) 2
  have run : ∀ x : BitVec w, (ws.foldl add x).toNat
      = norm (2 ^ w - 1) (x.toNat + (ws.map BitVec.toNat).sum) := by
    induction ws with
    | nil =>
      intro x
      have hx := x.isLt
      exact (norm_of_le (by simp; omega)).symm
    | cons y ws ih =>
      intro x
      rw [List.foldl_cons, ih, toNat_add wide, norm_add (by omega), List.map_cons, List.sum_cons,
        Nat.add_assoc]
  rw [sum, run]
  simp

end UxNet.OnesComplement
