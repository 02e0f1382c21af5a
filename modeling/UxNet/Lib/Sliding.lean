import UxNet.Lib.Serial

/-!
# A window that slides over the integers

A set of accepted numbers that only grows, and a base that only moves up: a number is accepted if it lies
less than `W` ahead of the base and has not been accepted before. The numbers come as serial numbers of
`w` bits; each stands for the integer nearest to the base that has it (`unwrap`), before or behind.
-/

namespace UxNet.Sliding

variable {w W : ℕ}

/-- The integer for which a serial number stands at base `b`. -/
def unwrap (b : ℤ) (seq : BitVec w) : ℤ := b + (seq - BitVec.ofInt w b).toInt

/-- The numbers accepted so far, and the base of the window. -/
structure History where
  base : ℤ
  accepted : Set ℤ

namespace History

/-- Less than `W` ahead of the base. -/
def InWindow (W : ℕ) (R : History) (n : ℤ) : Prop := R.base ≤ n ∧ n < R.base + W

/-- In the window and not accepted before. -/
def Accepts (W : ℕ) (R : History) (n : ℤ) : Prop := R.InWindow W n ∧ n ∉ R.accepted

/-- A number arrives. -/
def mark (W : ℕ) (n : ℤ) (R : History) : History :=
  { R with accepted := {k | k ∈ R.accepted ∨ k = n ∧ R.Accepts W n} }

/-- The base moves; what was accepted stays so. -/
def advance (base : ℤ) (R : History) : History := { R with base := base }

end History

/-- The unwrapped number has that number. -/
lemma ofInt_unwrap (b : ℤ) (seq : BitVec w) : BitVec.ofInt w (unwrap b seq) = seq := by
  rw [unwrap, BitVec.ofInt_add, BitVec.ofInt_toInt, BitVec.add_comm]
  exact BitVec.sub_add_cancel _ _

/-- The window, by the unsigned distance from the base. -/
lemma inWindow_iff {R : History} (small : 2 * W ≤ 2 ^ w) (seq : BitVec w) :
    R.InWindow W (unwrap R.base seq) ↔ (seq - BitVec.ofInt w R.base).toNat < W := by
  rw [← Serial.toInt_window_iff _ small, History.InWindow, unwrap]
  constructor
  · rintro ⟨lo, hi⟩
    exact ⟨by omega, by omega⟩
  · rintro ⟨lo, hi⟩
    exact ⟨by omega, by omega⟩

/-- A number less than half a turn ahead stands for what is that far ahead. -/
lemma unwrap_of_lt {b : ℤ} {seq : BitVec w} (ahead : 2 * (seq - BitVec.ofInt w b).toNat < 2 ^ w) :
    unwrap b seq = b + (seq - BitVec.ofInt w b).toNat := by
  rw [unwrap, BitVec.toInt_eq_toNat_of_lt ahead]

end UxNet.Sliding
