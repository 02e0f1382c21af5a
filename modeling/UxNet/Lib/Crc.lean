import UxNet.Lib.Xor

/-!
# Reflected cyclic redundancy checks

The register of a cyclic redundancy check of width `w`, low bit first, over an arbitrary polynomial.
A shift is linear in exclusive or, and injective as soon as the top coefficient of the polynomial is
set. Bytes that fit in the register can all be taken in at once before the shifts (`foldl_feed`), and
so two messages that differ in a burst of at most `w` bits leave different registers, whatever stands
before and behind the burst (`Burst.feed_ne`). Taken in one bit at a time the message leaves the same
register (`foldl_bits`).
-/

namespace UxNet.Crc

variable {w : ℕ} {p : BitVec w}

/-- One shift of the register: the polynomial comes in when the bit that falls out is set. -/
def shift (p c : BitVec w) : BitVec w := if c.getLsbD 0 then p ^^^ (c >>> 1) else c >>> 1

/-- One byte: it is added to the low end and eight shifts are made. -/
def feed (p c : BitVec w) (b : BitVec 8) : BitVec w := (shift p)^[8] (c ^^^ b.setWidth w)

/-- A shift is linear in the register: the polynomial comes in with the low bit. -/
lemma shift_eq (p c : BitVec w) :
    shift p c = (if c.getLsbD 0 = true then p else 0) ^^^ (c >>> 1) := by
  unfold shift
  split
  · rfl
  · exact (BitVec.zero_xor).symm

/-- A shift is linear. -/
lemma shift_linear (p : BitVec w) : Xor.Linear (shift p) := by
  intro x y
  rw [shift_eq, shift_eq, shift_eq, BitVec.getLsbD_xor, BitVec.ushiftRight_xor_distrib, Xor.ite_xor]
  ac_rfl

/-- The top bit of a shifted register tells whether the polynomial came in. -/
lemma msb_shift (top : p.msb = true) (c : BitVec w) : (shift p c).msb = c.getLsbD 0 := by
  unfold shift
  split
  · rename_i low
    rw [BitVec.msb_xor, top, BitVec.msb_ushiftRight]
    simp [low]
  · rename_i low
    rw [BitVec.msb_ushiftRight]
    simp [low]

/-- A shift loses nothing if the polynomial has its top bit. -/
lemma shift_injective (top : p.msb = true) : Function.Injective (shift p) := by
  intro x y e
  have low : x.getLsbD 0 = y.getLsbD 0 := by rw [← msb_shift top, e, msb_shift top]
  have high : x >>> 1 = y >>> 1 := by
    unfold shift at e
    rw [low] at e
    cases bit : y.getLsbD 0 with
    | false => simpa [bit] using e
    | true => simpa [bit] using e
  apply BitVec.eq_of_getLsbD_eq
  intro i hi
  cases i with
  | zero => exact low
  | succ i =>
    have at' := congrArg (fun z => z.getLsbD i) high
    simp only [BitVec.getLsbD_ushiftRight, Nat.add_comm 1 i] at at'
    exact at'

/-- A register whose low bits are clear only moves down. -/
lemma iterate_shift_of_clear {c : BitVec w} {n : ℕ} (clear : ∀ i < n, c.getLsbD i = false) :
    (shift p)^[n] c = c >>> n := by
  induction n with
  | zero => exact (BitVec.ushiftRight_zero c).symm
  | succ n ih =>
    have out : (c >>> n).getLsbD 0 = false := by
      rw [BitVec.getLsbD_ushiftRight, Nat.add_zero]
      exact clear n (by omega)
    rw [Function.iterate_succ_apply', ih fun i lt => clear i (by omega), shift, out,
      BitVec.shiftRight_add]
    rfl

/-- Several shifts are those of the bits that fall out, with the rest moved down. -/
lemma iterate_shift_split (n : ℕ) (c : BitVec w) :
    (shift p)^[n] c = (shift p)^[n] ((c.setWidth n).setWidth w) ^^^ (c >>> n) := by
  have parts : c = (c.setWidth n).setWidth w ^^^ ((c >>> n) <<< n) := by
    apply BitVec.eq_of_getLsbD_eq
    intro i hi
    simp only [BitVec.getLsbD_xor, BitVec.getLsbD_setWidth, BitVec.getLsbD_shiftLeft,
      BitVec.getLsbD_ushiftRight]
    by_cases low : i < n
    · simp [hi, low]
    · simp [hi, low, Nat.add_sub_cancel' (Nat.le_of_not_lt low)]
  have clear : ∀ i < n, ((c >>> n) <<< n).getLsbD i = false := by
    intro i lt
    simp [lt]
  have back : ((c >>> n) <<< n) >>> n = c >>> n := by
    apply BitVec.eq_of_getLsbD_eq
    intro i hi
    simp only [BitVec.getLsbD_ushiftRight, BitVec.getLsbD_shiftLeft]
    by_cases inside : n + i < w
    · simp [inside]
    · simp [inside, BitVec.getLsbD_of_ge c (n + i) (by omega)]
  calc (shift p)^[n] c
      = (shift p)^[n] ((c.setWidth n).setWidth w ^^^ ((c >>> n) <<< n)) := by rw [← parts]
    _ = (shift p)^[n] ((c.setWidth n).setWidth w) ^^^ (shift p)^[n] ((c >>> n) <<< n) :=
      (shift_linear p).iterate n _ _
    _ = _ := by rw [iterate_shift_of_clear clear, back]

/-! ## Several bytes at once -/

/-- Bytes side by side in a register, the first one lowest. -/
def pack (w : ℕ) : List (BitVec 8) → BitVec w
  | [] => 0
  | b :: bs => b.setWidth w ^^^ (pack w bs <<< 8)

/-- A packed list has no bits beyond its own. -/
lemma pack_clear (bs : List (BitVec 8)) {i : ℕ} (ge : 8 * bs.length ≤ i) :
    (pack w bs).getLsbD i = false := by
  induction bs generalizing i with
  | nil => exact BitVec.getLsbD_zero
  | cons b bs ih =>
    rw [List.length_cons] at ge
    have rest := ih (i := i - 8) (by omega)
    simp [pack, rest, BitVec.getLsbD_of_ge b i (by omega)]

/-- Packed bytes that leave room for one more come back down after a byte's shifts. -/
lemma iterate_shift_pack {bs : List (BitVec 8)} (fits : 8 * (bs.length + 1) ≤ w) :
    (shift p)^[8] (pack w bs <<< 8) = pack w bs := by
  rw [iterate_shift_of_clear (by intro i lt; simp [lt])]
  apply BitVec.eq_of_getLsbD_eq
  intro i hi
  simp only [BitVec.getLsbD_ushiftRight, BitVec.getLsbD_shiftLeft]
  by_cases inside : 8 + i < w
  · simp [inside]
  · simp [inside, pack_clear bs (i := i) (by omega)]

/-- Bytes that fit in the register may be added before all the shifts. -/
lemma foldl_feed {bs : List (BitVec 8)} (fits : 8 * bs.length ≤ w) (c : BitVec w) :
    bs.foldl (feed p) c = (shift p)^[8 * bs.length] (c ^^^ pack w bs) := by
  induction bs generalizing c with
  | nil =>
    show c = c ^^^ 0
    exact (BitVec.xor_zero).symm
  | cons b bs ih =>
    rw [List.length_cons] at fits
    have before : feed p c b ^^^ pack w bs = (shift p)^[8] (c ^^^ pack w (b :: bs)) := by
      rw [pack, ← BitVec.xor_assoc, (shift_linear p).iterate 8, iterate_shift_pack fits]
      rfl
    rw [List.foldl_cons, ih (by omega), before, List.length_cons, Nat.mul_succ,
      Function.iterate_add_apply]

/-- Lists of one length that fit the register are packed differently. -/
lemma pack_injective {bs bs' : List (BitVec 8)} (len : bs.length = bs'.length)
    (fits : 8 * bs.length ≤ w) (e : pack w bs = pack w bs') : bs = bs' := by
  induction bs generalizing bs' with
  | nil => exact (List.length_eq_zero_iff.mp len.symm).symm
  | cons b bs ih =>
    cases bs' with
    | nil => cases len
    | cons b' bs' =>
      rw [List.length_cons] at fits
      have len' : bs.length = bs'.length := Nat.succ.inj len
      have bits : ∀ i, (pack w (b :: bs)).getLsbD i = (pack w (b' :: bs')).getLsbD i := by
        intro i
        rw [e]
      simp only [pack, BitVec.getLsbD_xor, BitVec.getLsbD_setWidth, BitVec.getLsbD_shiftLeft] at bits
      have first : b = b' := by
        apply BitVec.eq_of_getLsbD_eq
        intro i hi
        have at' := bits i
        simpa [hi, show i < w by omega] using at'
      have others : pack w bs = pack w bs' := by
        apply BitVec.eq_of_getLsbD_eq
        intro i hi
        by_cases inside : 8 + i < w
        · have at' := bits (8 + i)
          simpa [inside, first] using at'
        · rw [pack_clear bs (by omega), pack_clear bs' (by omega)]
      rw [first, ih len' (by omega) others]

/-! ## Bursts -/

/-- Two strings of one length that differ, but only at the `n` positions from `lo` on. -/
structure Burst {α : Type*} (lo n : ℕ) (l l' : List α) : Prop where
  length : l'.length = l.length
  ne : l' ≠ l
  agree : ∀ i, i < lo ∨ lo + n ≤ i → l'[i]? = l[i]?

/-- What stands before and behind a burst is the same. -/
lemma Burst.split {α : Type*} {lo n : ℕ} {l l' : List α} (h : Burst lo n l l') :
    ∃ pre mid mid' post, l = pre ++ mid ++ post ∧ l' = pre ++ mid' ++ post ∧
      mid.length = mid'.length ∧ mid.length ≤ n ∧ mid ≠ mid' := by
  have before : l'.take lo = l.take lo := by
    apply List.ext_getElem?
    intro i
    rw [List.getElem?_take, List.getElem?_take]
    split
    · exact h.agree i (.inl ‹_›)
    · rfl
  have behind : l'.drop (lo + n) = l.drop (lo + n) := by
    apply List.ext_getElem?
    intro i
    rw [List.getElem?_drop, List.getElem?_drop]
    exact h.agree _ (.inr (by omega))
  have cut : ∀ m : List α, m = m.take lo ++ (m.drop lo).take n ++ m.drop (lo + n) := by
    intro m
    rw [List.append_assoc, ← List.drop_drop, List.take_append_drop, List.take_append_drop]
  refine ⟨l.take lo, (l.drop lo).take n, (l'.drop lo).take n, l.drop (lo + n), cut l, ?_, ?_, ?_, ?_⟩
  · rw [← before, ← behind]
    exact cut l'
  · simp [h.length]
  · simp
  · intro same
    apply h.ne
    rw [cut l', before, ← same, behind, ← cut l]

/-- Once two registers differ they stay different while the same bytes come in. -/
lemma foldl_feed_injective (top : p.msb = true) (bs : List (BitVec 8)) :
    Function.Injective fun c => bs.foldl (feed p) c := by
  induction bs with
  | nil => exact fun _ _ e => e
  | cons b bs ih =>
    intro c c' e
    have byte := (shift_injective top).iterate 8 (ih e)
    have same := congrArg (· ^^^ b.setWidth w) byte
    simpa [BitVec.xor_assoc] using same

/-- A burst of no more bits than the register has changes the register. -/
lemma Burst.feed_ne {lo n : ℕ} {l l' : List (BitVec 8)} (h : Burst lo n l l') (top : p.msb = true)
    (fits : 8 * n ≤ w) (c : BitVec w) : l'.foldl (feed p) c ≠ l.foldl (feed p) c := by
  obtain ⟨pre, mid, mid', post, rfl, rfl, len, le, ne⟩ := h.split
  rw [List.foldl_append, List.foldl_append, List.foldl_append, List.foldl_append]
  intro e
  have middle := foldl_feed_injective top post e
  rw [foldl_feed (by omega : 8 * mid'.length ≤ w), foldl_feed (by omega : 8 * mid.length ≤ w),
    len] at middle
  have packed := (shift_injective top).iterate _ middle
  have same := congrArg (pre.foldl (feed p) c ^^^ ·) packed
  simp only [Xor.xor_cancel] at same
  exact ne (pack_injective len (by omega) same.symm)

/-! ## One bit at a time -/

/-- One bit of the message: it is added to the bit that falls out. -/
def bit (p c : BitVec w) (b : Bool) : BitVec w :=
  if (c.getLsbD 0 ^^ b) then p ^^^ (c >>> 1) else c >>> 1

/-- The bits of a byte string, each byte low bit first. -/
def bits (bs : List (BitVec 8)) : List Bool := bs.flatMap fun b => (List.range 8).map b.getLsbD

/-- What is added to the register comes down with it, its low bit as a bit of the message. -/
lemma shift_xor (p c x : BitVec w) : shift p (c ^^^ x) = bit p c (x.getLsbD 0) ^^^ (x >>> 1) := by
  rw [shift, bit, BitVec.getLsbD_xor, BitVec.ushiftRight_xor_distrib]
  split
  · exact (BitVec.xor_assoc _ _ _).symm
  · rfl

/-- Shifting the register is feeding it the low bits of its argument. -/
lemma iterate_shift_xor (n : ℕ) (c x : BitVec w) :
    (shift p)^[n] (c ^^^ x) = ((List.range n).map x.getLsbD).foldl (bit p) c ^^^ (x >>> n) := by
  induction n with
  | zero => exact congrArg (c ^^^ ·) (BitVec.ushiftRight_zero x).symm
  | succ n ih =>
    have low : (x >>> n).getLsbD 0 = x.getLsbD n := by rw [BitVec.getLsbD_ushiftRight, Nat.add_zero]
    rw [Function.iterate_succ_apply', ih, shift_xor, low, List.range_succ, List.map_append,
      List.foldl_append, BitVec.shiftRight_add]
    rfl

/-- A byte is its eight bits. -/
lemma feed_eq_foldl_bit (wide : 8 ≤ w) (c : BitVec w) (b : BitVec 8) :
    feed p c b = ((List.range 8).map b.getLsbD).foldl (bit p) c := by
  have low : (List.range 8).map (b.setWidth w).getLsbD = (List.range 8).map b.getLsbD := by
    apply List.map_congr_left
    intro i mem
    rw [BitVec.getLsbD_setWidth]
    simp [show i < w by have := List.mem_range.mp mem; omega]
  have none : b.setWidth w >>> 8 = 0#w := by
    apply BitVec.eq_of_getLsbD_eq
    intro i hi
    simp
  rw [feed, iterate_shift_xor, low, none, BitVec.xor_zero]

/-- A list is fed bit by bit. -/
lemma foldl_bits (wide : 8 ≤ w) (bs : List (BitVec 8)) (c : BitVec w) :
    bs.foldl (feed p) c = (bits bs).foldl (bit p) c := by
  induction bs generalizing c with
  | nil => rfl
  | cons b bs ih =>
    rw [List.foldl_cons, ih, feed_eq_foldl_bit wide, bits, bits, List.flatMap_cons, List.foldl_append]

end UxNet.Crc
