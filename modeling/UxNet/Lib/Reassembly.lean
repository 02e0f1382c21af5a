import UxNet.Lib.Serial

/-!
# Reassembly of numbered pieces

Pieces of a stream arrive in any order, under numbers of `w` bits that wrap around. The receiver keeps for
each index of the stream the first piece that arrived for it; the base is the first index with none. A
number is taken for the next index at or after the base that has it, and the piece is taken only if that
index is less than `W` ahead of the base.

`foldl_arrive` says what a list of pieces that all lie in one window leaves behind: the base may move past
some of them in between, but a piece behind the base is one that is there already.
-/

namespace UxNet.Reassembly

variable {α : Type*} {w W : ℕ}

/-- The first index for which nothing has arrived. -/
noncomputable def base (first : ℕ → Option α) : ℕ := sInf {i | first i = none}

/-- The index for which a number stands at base `b`. -/
def index (b : ℕ) (seq : BitVec w) : ℕ := b + (seq - BitVec.ofNat w b).toNat

/-- One more piece: the first one to arrive for an index in the window stays. -/
noncomputable def arrive (W : ℕ) (first : ℕ → Option α) (p : BitVec w × α) : ℕ → Option α := fun i =>
  (first i).or (if index (base first) p.1 = i ∧ i < base first + W then some p.2 else none)

/-- What is there after the pieces of a list have arrived. -/
noncomputable def arrivals (W : ℕ) (l : List (BitVec w × α)) : ℕ → Option α :=
  l.foldl (arrive W) fun _ => none

/-- The base is the first index with nothing. -/
lemma base_eq {first : ℕ → Option α} {n : ℕ} (some : ∀ i < n, first i ≠ none) (none : first n = none) :
    base first = n := by
  apply le_antisymm (Nat.sInf_le none)
  by_contra lt
  exact some _ (Nat.lt_of_not_le lt) (Nat.sInf_mem (s := {i | first i = .none}) ⟨n, none⟩)

/-- The index of a number has that number. -/
lemma ofNat_index (b : ℕ) (seq : BitVec w) : BitVec.ofNat w (index b seq) = seq := by
  rw [index, BitVec.ofNat_add, BitVec.ofNat_toNat, BitVec.setWidth_eq, BitVec.add_comm]
  exact BitVec.sub_add_cancel _ _

/-- Indices are counted from the base on. -/
lemma le_index (b : ℕ) (seq : BitVec w) : b ≤ index b seq := Nat.le_add_right _ _

/-- The piece of an index near the base is taken if it is not behind the base. -/
lemma arrive_ofNat {first : ℕ → Option α} {j : ℕ} (pos : 0 < W) (wide : W ≤ 2 ^ w)
    (ahead : j < base first + W)
    (behind : base first + W ≤ j + 2 ^ w) (x : α) :
    arrive W first (BitVec.ofNat w j, x)
      = fun i => (first i).or (if j = i ∧ base first ≤ j then some x else none) := by
  funext i
  simp only [arrive]
  congr 1
  apply if_congr _ rfl rfl
  rcases Nat.lt_or_ge j (base first) with lt | ge
  · have far : index (base first) (BitVec.ofNat w j) = j + 2 ^ w := by
      rw [index, Serial.dist_of_lt lt (by omega)]
      omega
    omega
  · have same : index (base first) (BitVec.ofNat w j) = j := by
      rw [index, Serial.dist_of_le ge, Nat.mod_eq_of_lt (by omega)]
      omega
    omega

/-- Everything below `b` is there and nothing from `b + W` on. -/
structure Within (W b : ℕ) (first : ℕ → Option α) : Prop where
  below : ∀ i < b, first i ≠ none
  above : ∀ i, b + W ≤ i → first i = none

namespace Within

variable {b : ℕ} {first : ℕ → Option α}

/-- Nothing has come for the base, and something for every index below it. -/
lemma base_mem (h : Within W b first) : first (base first) = none ∧ ∀ i < base first, first i ≠ none :=
  ⟨Nat.sInf_mem (s := {i | first i = none}) ⟨b + W, h.above _ le_rfl⟩,
    fun _ lt => Nat.notMem_of_lt_sInf lt⟩

/-- The base does not move back. -/
lemma le_base (h : Within W b first) : b ≤ base first := by
  by_contra lt
  exact h.below _ (Nat.lt_of_not_le lt) h.base_mem.1

/-- The base moves by one window at most. -/
lemma base_le (h : Within W b first) : base first ≤ b + W := Nat.sInf_le (h.above _ le_rfl)

/-- A piece of the window goes to its index, unless there is one already. -/
lemma arrive_eq (h : Within W b first) (wide : 2 * W ≤ 2 ^ w) {p : BitVec w × α}
    (near : index b p.1 < b + W) :
    arrive W first p = fun i => (first i).or (if index b p.1 = i then some p.2 else none) := by
  have lo := h.le_base
  have hi := h.base_le
  have seq := ofNat_index b p.1
  have le := le_index b p.1
  funext i
  simp only [arrive]
  rcases Nat.lt_or_ge (index b p.1) (base first) with behind | ahead
  · -- the base has passed the index: its next number is out of the window, and a piece is there
    have far : index (base first) p.1 = index b p.1 + 2 ^ w := by
      have dist := Serial.dist_of_lt (w := w) behind (by omega)
      rw [seq] at dist
      rw [index, dist]
      omega
    rw [if_neg (by omega)]
    split
    · rename_i e
      cases there : first i with
      | none => exact absurd (e ▸ there) (h.base_mem.2 _ behind)
      | some x => rfl
    · rfl
  · have same : index (base first) p.1 = index b p.1 := by
      have dist := Serial.dist_of_le (w := w) ahead
      rw [seq, Nat.mod_eq_of_lt (by omega)] at dist
      rw [index, dist]
      omega
    have eligible : (index (base first) p.1 = i ∧ i < base first + W) ↔ index b p.1 = i := by
      rw [same]
      exact ⟨And.left, fun e => ⟨e, by omega⟩⟩
    rw [if_congr eligible rfl rfl]

/-- A piece that arrives at base `b` does not move the window, even if it is not taken. -/
lemma arrive_base (h : Within W b first) (none : first b = none) (p : BitVec w × α) :
    Within W b (arrive W first p) := by
  have eq := base_eq h.below none
  constructor
  · intro i lt
    have there := h.below i lt
    simp [Reassembly.arrive, there]
  · intro i ge
    have out : ¬ (index (base first) p.1 = i ∧ i < base first + W) := by omega
    simp [Reassembly.arrive, h.above i ge, out]

/-- An arrival inside the window stays inside it. -/
lemma arrive (h : Within W b first) (wide : 2 * W ≤ 2 ^ w) {p : BitVec w × α}
    (near : index b p.1 < b + W) : Within W b (arrive W first p) := by
  rw [h.arrive_eq wide near]
  constructor
  · intro i lt
    have there := h.below i lt
    simp [there]
  · intro i ge
    rw [h.above i ge, if_neg (by omega)]
    rfl

end Within

/-- Pieces of one window leave behind what depends on their numbers only, whatever their order. -/
lemma foldl_arrive {b : ℕ} {first : ℕ → Option α} {φ : BitVec w → α} (wide : 2 * W ≤ 2 ^ w)
    {l : List (BitVec w × α)} (h : Within W b first) (near : ∀ p ∈ l, index b p.1 < b + W)
    (piece : ∀ p ∈ l, p.2 = φ p.1) (i : ℕ) :
    l.foldl (arrive W) first i = (first i).or
      (if i ∈ l.map fun p => index b p.1 then some (φ (BitVec.ofNat w i)) else none) := by
  induction l generalizing first with
  | nil => simp
  | cons p l ih =>
    obtain ⟨near₀, near⟩ := List.forall_mem_cons.mp near
    obtain ⟨piece₀, piece⟩ := List.forall_mem_cons.mp piece
    rw [List.foldl_cons, ih (h.arrive wide near₀) near piece, h.arrive_eq wide near₀, Option.or_assoc,
      List.map_cons]
    congr 1
    by_cases here : index b p.1 = i
    · have mem : i ∈ index b p.1 :: l.map fun p => index b p.1 := here ▸ List.mem_cons_self
      rw [if_pos here, if_pos mem, piece₀, ← here, ofNat_index]
      rfl
    · have mem : i ∈ index b p.1 :: (l.map fun p => index b p.1) ↔ i ∈ l.map fun p => index b p.1 := by
        rw [List.mem_cons, or_iff_right (Ne.symm here)]
      rw [if_neg here, Option.none_or, if_congr mem rfl rfl]

/-- Two lists of pieces of one window with the same numbers leave the same behind. -/
lemma foldl_arrive_congr {b : ℕ} {first : ℕ → Option α} {φ : BitVec w → α} (wide : 2 * W ≤ 2 ^ w)
    {l l' : List (BitVec w × α)} (h : Within W b first) (near : ∀ p ∈ l, index b p.1 < b + W)
    (piece : ∀ p ∈ l ++ l', p.2 = φ p.1) (same : ∀ seq, seq ∈ l.map Prod.fst ↔ seq ∈ l'.map Prod.fst) :
    l.foldl (arrive W) first = l'.foldl (arrive W) first := by
  have numbers : ∀ i (l : List (BitVec w × α)), i ∈ (l.map fun p => index b p.1) ↔
      ∃ seq ∈ l.map Prod.fst, index b seq = i := by
    intro i l
    simp
  have near' : ∀ p ∈ l', index b p.1 < b + W := by
    intro p mem
    obtain ⟨q, mem', e⟩ := List.mem_map.mp ((same p.1).mpr (List.mem_map_of_mem mem))
    rw [← e]
    exact near q mem'
  funext i
  rw [foldl_arrive wide h near fun p mem => piece p (List.mem_append_left _ mem),
    foldl_arrive wide h near' fun p mem => piece p (List.mem_append_right _ mem)]
  congr 1
  apply if_congr _ rfl rfl
  rw [numbers, numbers]
  exact exists_congr fun seq => and_congr_left fun _ => same seq

end UxNet.Reassembly
