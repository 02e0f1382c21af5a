import Mathlib.Data.BitVec
import Mathlib.SetTheory.Cardinal.Finite
import Mathlib.Tactic

/-!
# Maps linear in exclusive or

Bit vectors of one width under exclusive or, and the maps between them that keep it (`Linear`). A
linear map that reaches the unit vectors reaches everything (`Linear.surjective`), and a surjective one
is balanced: every value is taken equally often (`Linear.card_fiber`). `select` is the exclusive or of
the members of a family picked by a predicate, which is linear in the predicate.
-/

namespace UxNet.Xor

variable {u v w : ℕ}

/-- A map between bit vectors that takes exclusive or to exclusive or. -/
def Linear (f : BitVec v → BitVec w) : Prop := ∀ x y, f (x ^^^ y) = f x ^^^ f y

/-- Combining twice with the same string cancels. -/
lemma xor_cancel (x y : BitVec w) : x ^^^ (x ^^^ y) = y := by
  rw [← BitVec.xor_assoc, BitVec.xor_self, BitVec.zero_xor]

/-- A vector taken or left, by a bit. -/
lemma ite_xor (a b : Bool) (x : BitVec w) :
    (if (a ^^ b) = true then x else 0) = (if a = true then x else 0) ^^^ if b = true then x else 0 := by
  cases a <;> cases b <;> simp

namespace Linear

variable {f : BitVec v → BitVec w}

/-- A linear map takes zero to zero. -/
lemma map_zero (h : Linear f) : f 0 = 0 := by
  have twice := h 0 0
  rw [BitVec.xor_self, BitVec.xor_self] at twice
  exact twice

/-- Linear maps compose. -/
lemma comp {g : BitVec u → BitVec v} (h : Linear f) (h' : Linear g) : Linear (f ∘ g) := by
  intro x y
  rw [Function.comp, h', h]
  rfl

/-- A linear map can be iterated. -/
lemma iterate {f : BitVec w → BitVec w} (h : Linear f) (n : ℕ) : Linear f^[n] := by
  induction n with
  | zero => exact fun _ _ => rfl
  | succ n ih =>
    rw [Function.iterate_succ]
    exact ih.comp h

/-- A linear map that reaches every unit vector is surjective. -/
lemma surjective (h : Linear f) (units : ∀ j < w, ∃ x, f x = BitVec.twoPow w j) :
    Function.Surjective f := by
  -- the bits of the target are put right from the lowest on
  suffices low : ∀ n ≤ w, ∀ y : BitVec w, (∀ i, n ≤ i → y.getLsbD i = false) → ∃ x, f x = y by
    intro y
    exact low w le_rfl y fun i ge => BitVec.getLsbD_of_ge y i ge
  intro n le
  induction n with
  | zero =>
    intro y zero
    refine ⟨0, ?_⟩
    rw [h.map_zero]
    apply BitVec.eq_of_getLsbD_eq
    intro i _
    rw [zero i (Nat.zero_le i)]
    exact BitVec.getLsbD_zero
  | succ n ih =>
    intro y clear
    cases bit : y.getLsbD n with
    | false =>
      apply ih (by omega) y
      intro i ge
      rcases Nat.eq_or_lt_of_le ge with rfl | lt
      · exact bit
      · exact clear i lt
    | true =>
      obtain ⟨u, hu⟩ := units n (by omega)
      obtain ⟨x, hx⟩ := ih (by omega) (y ^^^ BitVec.twoPow w n) (by
        intro i ge
        rw [BitVec.getLsbD_xor, BitVec.getLsbD_twoPow]
        rcases Nat.eq_or_lt_of_le ge with rfl | lt
        · simp [bit]
          omega
        · simp [clear i lt]
          omega)
      refine ⟨u ^^^ x, ?_⟩
      rw [h, hu, hx, BitVec.xor_comm y, xor_cancel]

/-- Moving by a preimage of `y` carries the fibre over `y'` onto the one over `y ^^^ y'`; so the domain
splits into as many copies of one fibre as there are values. -/
noncomputable def fiberEquiv (h : Linear f) (onto : Function.Surjective f) (y : BitVec w) :
    BitVec v ≃ BitVec w × {x // f x = y} where
  toFun x := (f x ^^^ y, ⟨(onto (f x ^^^ y)).choose ^^^ x, by
    rw [h, (onto (f x ^^^ y)).choose_spec, BitVec.xor_comm (f x), BitVec.xor_assoc, BitVec.xor_self,
      BitVec.xor_zero]⟩)
  invFun p := (onto p.1).choose ^^^ p.2.1
  left_inv x := xor_cancel _ x
  right_inv p := by
    obtain ⟨z, x, hx⟩ := p
    have back : f ((onto z).choose ^^^ x) ^^^ y = z := by
      rw [h, (onto z).choose_spec, hx, BitVec.xor_assoc, BitVec.xor_self, BitVec.xor_zero]
    apply Prod.ext
    · exact back
    · apply Subtype.ext
      show (onto (f ((onto z).choose ^^^ x) ^^^ y)).choose ^^^ ((onto z).choose ^^^ x) = x
      rw [back, xor_cancel]

/-- A surjective linear map takes every value equally often. -/
lemma card_fiber (h : Linear f) (onto : Function.Surjective f) (y : BitVec w) :
    2 ^ w * Nat.card {x // f x = y} = 2 ^ v := by
  have size : ∀ n, Nat.card (BitVec n) = 2 ^ n := by
    intro n
    rw [Nat.card_congr BitVec.equivFin.toEquiv, Nat.card_fin]
  rw [← size w, ← Nat.card_prod, ← Nat.card_congr (h.fiberEquiv onto y), size]

end Linear

/-- Masking is linear. -/
lemma linear_and (mask : BitVec w) : Linear fun x : BitVec w => x &&& mask := by
  intro x y
  ext i
  simp [Bool.and_xor_distrib_right]

/-- Truncation is linear. -/
lemma linear_setWidth : Linear (BitVec.setWidth w : BitVec v → BitVec w) := by
  intro x y
  exact BitVec.setWidth_xor

/-! ## Selected members of a family -/

/-- The exclusive or of a list. -/
def sum (l : List (BitVec w)) : BitVec w := l.foldr (· ^^^ ·) 0

/-- The sum of two lists. -/
lemma sum_append (l l' : List (BitVec w)) : sum (l ++ l') = sum l ^^^ sum l' := by
  induction l with
  | nil => exact (BitVec.zero_xor).symm
  | cons x l ih =>
    show x ^^^ sum (l ++ l') = x ^^^ sum l ^^^ sum l'
    rw [ih, BitVec.xor_assoc]

/-- The exclusive or of the members `k i`, for the `i < n` that `p` holds of. -/
def select (n : ℕ) (p : ℕ → Bool) (k : ℕ → BitVec w) : BitVec w :=
  sum (((List.range n).filter p).map k)

/-- One more position adds its string if it is selected. -/
lemma select_succ (n : ℕ) (p : ℕ → Bool) (k : ℕ → BitVec w) :
    select (n + 1) p k = select n p k ^^^ if p n then k n else 0 := by
  rw [select, List.range_succ, List.filter_append, List.map_append, sum_append]
  cases e : p n with
  | false => simp [e, select, sum]
  | true => simp [e, select, sum]

/-- The selected sum is linear in what is selected. -/
lemma select_xor (n : ℕ) (p q : ℕ → Bool) (k : ℕ → BitVec w) :
    select n (fun i => p i ^^ q i) k = select n p k ^^^ select n q k := by
  induction n with
  | zero => exact (BitVec.xor_self).symm
  | succ n ih =>
    rw [select_succ, select_succ, select_succ, ih, ite_xor]
    ac_rfl

end UxNet.Xor
