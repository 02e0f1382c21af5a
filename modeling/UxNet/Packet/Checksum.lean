import Mathlib.Data.BitVec
import UxNet.Lib.OnesComplement
import UxNet.Packet.Parser
import UxNet.Pool.Basic

/-!
# The header checksum

`IPv4View::checksum_valid` adds up the 16-bit words of a header in 32 bits, folds the carries back in
until none is left, and compares with `0xFFFF`. The sum of at most 30 words does not overflow, and the
folded sum is the one's-complement sum of the words: congruent to the ordinary sum modulo 65535, and
zero only if all words are zero. So the test is for a sum that is a positive multiple of 65535.
-/

namespace UxNet.Packet

/-- The 16-bit words of a byte string. -/
def words : Bytes → List (BitVec 16)
  | a :: b :: bs => (a ++ b) :: words bs
  | _ => []

/-- The carry loop of `checksum_valid` brings a sum down to 16 bits. -/
lemma toNat_foldCarry (sum : BitVec 32) :
    (foldCarry sum).toNat = OnesComplement.norm 65535 sum.toNat := by
  have same := (foldCarry_runs sum).inv
    (I := fun s => OnesComplement.norm 65535 s.toNat = OnesComplement.norm 65535 sum.toNat)
    (fun s r h e => by
      unfold foldRound at e
      split at e
      · cases e
      · cases e
        exact h)
    (fun s t h e => by
      -- adding up the digits keeps the sum modulo 65535, and keeps it from being zero
      unfold foldRound at e
      split at e
      · cases e
        rw [← h, toNat_carried]
        exact OnesComplement.norm_digits (by decide)
      · cases e) rfl
  -- the loop is left when nothing is above the low 16 bits
  obtain ⟨t, last⟩ := (foldCarry_runs sum).last
  have small : (foldCarry sum).toNat ≤ 65535 := by
    unfold foldRound at last
    split at last
    · cases last
    · rename_i carry
      obtain rfl : t = foldCarry sum := ForInStep.done.inj last
      have none : (foldCarry sum >>> 16).toNat = 0 := by
        rw [not_not.mp carry]
        rfl
      rw [toNat_high] at none
      omega
  rw [← same, OnesComplement.norm_of_le small]

/-- The first loop of `checksum_valid` adds up the words of what it goes over. -/
lemma run_sumWords {m : ℕ → BitVec 8} (n : ℕ) {l : Bytes} {p : ℕ} (len : l.length = 2 * n)
    (here : ∀ i < l.length, l[i]? = some (m (p + i))) (sum : BitVec 32) :
    (IPv4View.sumWords n p sum).run m
      = sum + BitVec.ofNat 32 ((words l).map BitVec.toNat).sum := by
  induction n generalizing l p sum with
  | zero =>
    obtain rfl : l = [] := List.length_eq_zero_iff.mp len
    exact (BitVec.add_zero sum).symm
  | succ n ih =>
    match l, len with
    | a :: b :: l, len =>
      -- one round reads two bytes of `l`, and the loop goes on behind them
      have ha : a = m p := Option.some.inj (here 0 (by simp))
      have hb : b = m (p + 1) := Option.some.inj (here 1 (by simp))
      have rest := ih (l := l) (p := p + 2) (by simp at len; omega) (by
        intro i lt
        have at' := here (i + 2) (by simp; omega)
        rw [show p + 2 + i = p + (i + 2) by omega]
        exact at') (sum + (a ++ b).setWidth 32)
      rw [IPv4View.sumWords, Access.run_bind, run_rd16, ← ha, ← hb, rest, words, List.map_cons,
        List.sum_cons, BitVec.ofNat_add, BitVec.ofNat_toNat, BitVec.add_assoc]

/-- Words are read pair by pair. -/
lemma words_append {l : Bytes} (n : ℕ) (len : l.length = 2 * n) (l' : Bytes) :
    words (l ++ l') = words l ++ words l' := by
  induction n generalizing l with
  | zero =>
    obtain rfl : l = [] := List.length_eq_zero_iff.mp len
    rfl
  | succ n ih =>
    match l, len with
    | a :: b :: l, len =>
      have len' : l.length = 2 * n := by simp at len; omega
      show _ :: words (l ++ l') = _ :: (words l ++ words l')
      rw [ih len']

/-- Two bytes make a word. -/
lemma length_words {l : Bytes} (n : ℕ) (len : l.length = 2 * n) : (words l).length = n := by
  induction n generalizing l with
  | zero =>
    obtain rfl : l = [] := List.length_eq_zero_iff.mp len
    rfl
  | succ n ih =>
    match l, len with
    | a :: b :: l, len =>
      have len' : l.length = 2 * n := by simp at len; omega
      rw [words, List.length_cons, ih len']

/-- The `k`-th word is made of the `k`-th pair. -/
lemma getElem?_words (k : ℕ) {l : Bytes} {a b : BitVec 8} (ha : l[2 * k]? = some a)
    (hb : l[2 * k + 1]? = some b) : (words l)[k]? = some (a ++ b) := by
  induction k generalizing l with
  | zero =>
    match l, ha, hb with
    | a' :: b' :: l, ha, hb =>
      obtain rfl : a' = a := Option.some.inj ha
      obtain rfl : b' = b := Option.some.inj hb
      rfl
  | succ k ih =>
    match l, ha, hb with
    | a' :: b' :: l, ha, hb => exact ih ha hb

/-- A sum of few words does not overflow. -/
lemma sum_words_le (ws : List (BitVec 16)) : (ws.map BitVec.toNat).sum ≤ 65535 * ws.length := by
  induction ws with
  | nil => simp
  | cons x ws ih =>
    have := x.isLt
    rw [List.map_cons, List.sum_cons, List.length_cons]
    omega

namespace IPv4View

variable (v : IPv4View) (m : ℕ → BitVec 8)

/-- The bytes that `header_len` counts. -/
def header : Bytes := (List.range (v.headerLen.run m).toNat).map fun i => m (v.buf + i)

/-- The sum of the words of the header. -/
def wordSum : ℕ := ((words (v.header m)).map BitVec.toNat).sum

/-- The words of the header other than the checksum. -/
def otherWords : List (BitVec 16) := (words (v.header m)).eraseIdx 5

/-- The checksum field. -/
def checksumField : BitVec 16 := m (v.buf + 10) ++ m (v.buf + 11)

variable {v m}

/-- The header is as long as its length field says. -/
lemma length_header : (v.header m).length = 4 * (m v.buf &&& 0x0F#8).toNat := by
  rw [header, List.length_map, List.length_range, headerLen_nibble]

/-- The bytes of the header are those of the frame. -/
lemma getElem?_header {i : ℕ} (lt : i < (v.header m).length) :
    (v.header m)[i]? = some (m (v.buf + i)) := by
  rw [header, List.length_map, List.length_range] at lt
  rw [header, List.getElem?_map, List.getElem?_range lt]
  rfl

/-- No partial sum of the first loop overflows. -/
lemma toNat_sumWords {n : ℕ} (le : n ≤ (v.headerLen.run m).toNat / 2) :
    ((sumWords n v.buf 0).run m).toNat = ((words ((v.header m).take (2 * n))).map BitVec.toNat).sum := by
  have nib := nibble_le (m v.buf)
  have whole := length_header (v := v) (m := m)
  rw [headerLen_nibble] at le
  have len : ((v.header m).take (2 * n)).length = 2 * n := by
    rw [List.length_take]
    omega
  have run := run_sumWords (m := m) n (p := v.buf) len (by
    intro i lt
    rw [len] at lt
    rw [List.getElem?_take, if_pos lt]
    exact getElem?_header (by omega)) 0
  have small := sum_words_le (words ((v.header m).take (2 * n)))
  rw [length_words n len] at small
  rw [run, zero_add, BitVec.toNat_ofNat, Nat.mod_eq_of_lt (by omega)]

/-- What is compared is the one's-complement sum of all words of the header. -/
lemma run_checksumValid :
    v.checksumValid.run m = true ↔ OnesComplement.norm 65535 (v.wordSum m) = 65535 := by
  have all : (v.header m).take (2 * ((v.headerLen.run m).toNat / 2)) = v.header m := by
    apply List.take_of_length_le
    rw [length_header, headerLen_nibble]
    omega
  have sum := toNat_sumWords (v := v) (m := m) le_rfl
  rw [all] at sum
  have run : v.checksumValid.run m
      = (foldCarry ((sumWords ((v.headerLen.run m).toNat / 2) v.buf 0).run m) == 0xFFFF) := by
    simp only [checksumValid, Access.run_bind, Access.run_pure]
  rw [run, beq_iff_eq, ← BitVec.toNat_inj, toNat_foldCarry, sum]
  rfl

/-- The checksum is one of the words, and the sum is that of the others with it. -/
lemma wordSum_eq (ihl : 5 ≤ (m v.buf &&& 0x0F#8).toNat) :
    v.wordSum m = (v.checksumField m).toNat + ((v.otherWords m).map BitVec.toNat).sum := by
  have len := length_header (v := v) (m := m)
  have word : (words (v.header m))[5]? = some (v.checksumField m) :=
    getElem?_words 5 (getElem?_header (by omega)) (getElem?_header (by omega))
  obtain ⟨lt, at'⟩ := List.getElem?_eq_some_iff.mp word
  have perm := (List.getElem_cons_eraseIdx_perm lt).map BitVec.toNat
  rw [wordSum, otherWords, ← perm.sum_eq, List.map_cons, List.sum_cons, at']

/-- For every header: the loops of `checksum_valid` read the header only, overflow nowhere and terminate,
and the header is accepted exactly if the sum of its words is a positive multiple of 65535. If it has a
checksum field, and a word other than the checksum is not zero, that is if the checksum is congruent to
the complement of the one's-complement sum of the other words. -/
theorem checksum_valid_iff (v : IPv4View) (m : ℕ → BitVec 8) :
    (∀ i ∈ v.checksumValid.reads m,
      i = v.buf ∨ v.buf ≤ i ∧ i < v.buf + (v.headerLen.run m).toNat) ∧
    (∀ n ≤ (v.headerLen.run m).toNat / 2, ((sumWords n v.buf 0).run m).toNat
      = ((words ((v.header m).take (2 * n))).map BitVec.toNat).sum) ∧
    (∀ sum : BitVec 32, Loop.Runs foldRound sum (foldCarry sum) ∧
      ((sum &&& 0xFFFF#32) + sum >>> 16).toNat = (sum &&& 0xFFFF#32).toNat + (sum >>> 16).toNat) ∧
    (v.checksumValid.run m = true ↔ 0 < v.wordSum m ∧ 65535 ∣ v.wordSum m) ∧
    (5 ≤ (m v.buf &&& 0x0F#8).toNat → (∃ w ∈ v.otherWords m, w ≠ 0) →
      (v.checksumValid.run m = true ↔
        (v.checksumField m).toNat ≡ (~~~OnesComplement.sum (v.otherWords m)).toNat [MOD 65535])) := by
  have exact' := (run_checksumValid (v := v) (m := m)).trans (OnesComplement.norm_eq_max_iff (by decide))
  refine ⟨?_, fun n le => toNat_sumWords le, ?_, exact', ?_⟩
  · intro i mem
    rw [reads_checksumValid] at mem
    rcases List.mem_cons.mp mem with here | mem
    · exact .inl here
    · exact .inr (List.mem_range'_1.mp mem)
  · intro sum
    refine ⟨foldCarry_runs sum, ?_⟩
    rw [toNat_carried, toNat_low, toNat_high]
  · rintro ihl ⟨w, mem, ne⟩
    rw [exact', wordSum_eq ihl]
    have word : w.toNat ≠ 0 := fun zero => ne (BitVec.eq_of_toNat_eq zero)
    have le : w.toNat ≤ ((v.otherWords m).map BitVec.toNat).sum :=
      List.le_sum_of_mem (List.mem_map_of_mem mem)
    rw [and_iff_right (by omega), OnesComplement.dvd_add_iff_complement (by decide), BitVec.toNat_not,
      OnesComplement.toNat_sum (by decide)]
    exact Iff.rfl

/-- A header with a zero total length, whose checksum is right. -/
theorem checksum_valid_zero_total :
    5 ≤ (zeroTotalFrame 14 &&& 0x0F#8).toNat ∧
    (∃ w ∈ otherWords ⟨14, 20⟩ zeroTotalFrame, w ≠ 0) ∧
    ((checksumValid ⟨14, 20⟩).run zeroTotalFrame = true ↔
      (checksumField ⟨14, 20⟩ zeroTotalFrame).toNat
        ≡ (~~~OnesComplement.sum (otherWords ⟨14, 20⟩ zeroTotalFrame)).toNat [MOD 65535]) := by
  have first : 5 ≤ (zeroTotalFrame 14 &&& 0x0F#8).toNat := by decide
  have other : ∃ w ∈ otherWords ⟨14, 20⟩ zeroTotalFrame, w ≠ 0 := ⟨0x4500, by decide +kernel, by decide⟩
  exact ⟨first, other, (checksum_valid_iff ⟨14, 20⟩ zeroTotalFrame).2.2.2.2 first other⟩

end IPv4View

end UxNet.Packet
