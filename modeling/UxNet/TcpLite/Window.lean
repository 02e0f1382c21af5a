import UxNet.Lib.Sliding
import UxNet.TcpLite.Bitmap

/-!
# The receive window as a set

`RecvBitmap` keeps 256 bits and a base of 32 bits. `Traced` pairs it with what it stands for: the set of
all sequence numbers ever accepted, unwrapped to integers, and an unbounded base. The bits are those of
the window of that set (`Represents`), through every turn of the sequence numbers.
-/

namespace UxNet.TcpLite

open Sliding

/-- Setting a bit sets no other. -/
lemma getLsbD_or_twoPow {w off : ℕ} (lt : off < w) (r : BitVec w) (k : ℕ) :
    (r ||| BitVec.twoPow w off).getLsbD k = true ↔ r.getLsbD k = true ∨ k = off := by
  rw [BitVec.getLsbD_or, Bool.or_eq_true, BitVec.getLsbD_twoPow, Bool.and_eq_true, decide_eq_true_eq,
    decide_eq_true_eq, and_iff_right lt, eq_comm (a := k)]

/-- The bitmap after some calls of `mark_received` and `advance`, and the set of what was accepted. The base
moves forward by less than half a turn each time. -/
inductive Traced : RecvBitmap → History → Prop where
  | new :
    Traced .new { base := 0, accepted := ∅ }
  | mark {b R} (seq : BitVec 32) :
    Traced b R →
    Traced (b.markReceived seq).2 (R.mark window (unwrap R.base seq))
  | advance {b R} (newBase : BitVec 32) :
    Traced b R →
    (newBase - b.baseSeq).toNat < 2 ^ 31 →
    Traced (b.advance newBase) (R.advance (unwrap R.base newBase))

/-- The bits are those of the window of the set, and nothing ahead of the window has been accepted. -/
structure Represents (b : RecvBitmap) (R : History) : Prop where
  base : b.baseSeq = BitVec.ofInt 32 R.base
  bits : ∀ k < 256, b.received.getLsbD k = true ↔ R.base + k ∈ R.accepted
  top : ∀ n ∈ R.accepted, n < R.base + 256

namespace Represents

variable {b : RecvBitmap} {R : History}

/-- A new bitmap has received nothing. -/
lemma new : Represents .new { base := 0, accepted := ∅ } where
  base := rfl
  bits := by
    intro k _
    simp [RecvBitmap.new]
  top := by
    intro n mem
    exact absurd mem (Set.notMem_empty n)

/-- The number for which a sequence number of the window stands. -/
lemma unwrap_eq (h : Represents b R) {seq : BitVec 32} (lt : (seq - b.baseSeq).toNat < 2 ^ 31) :
    unwrap R.base seq = R.base + (seq - b.baseSeq).toNat := by
  rw [h.base] at lt ⊢
  exact unwrap_of_lt (by omega)

/-- A number is in the window exactly if its offset is below 256. -/
lemma inWindow (h : Represents b R) (seq : BitVec 32) :
    R.InWindow window (unwrap R.base seq) ↔ (seq - b.baseSeq).toNat < 256 := by
  rw [h.base]
  exact inWindow_iff (by decide) seq

/-- `mark_received` accepts what the set accepts. -/
lemma accepts_iff (h : Represents b R) (seq : BitVec 32) :
    (seq - b.baseSeq).toNat < 256 ∧ b.received.getLsbD (seq - b.baseSeq).toNat = false
      ↔ R.Accepts window (unwrap R.base seq) := by
  rw [History.Accepts, h.inWindow]
  apply and_congr_right
  intro lt
  rw [h.unwrap_eq (by omega), ← h.bits _ lt, Bool.not_eq_true]

/-- `mark_received` adds the number to the set. -/
lemma mark (h : Represents b R) (seq : BitVec 32) :
    Represents (b.markReceived seq).2 (R.mark window (unwrap R.base seq)) := by
  rw [RecvBitmap.markReceived_eq]
  by_cases fresh : R.Accepts window (unwrap R.base seq)
  · have here := (h.accepts_iff seq).mpr fresh
    have number : unwrap R.base seq = R.base + (seq - b.baseSeq).toNat := h.unwrap_eq (by omega)
    rw [if_pos here]
    refine ⟨h.base, ?_, ?_⟩
    · intro k lt
      have one : k = (seq - b.baseSeq).toNat ↔ R.base + k = unwrap R.base seq := by
        rw [number]
        omega
      show (b.received ||| BitVec.twoPow 256 (seq - b.baseSeq).toNat).getLsbD k = true
        ↔ R.base + k ∈ R.accepted ∨ R.base + k = unwrap R.base seq ∧ R.Accepts window (unwrap R.base seq)
      rw [getLsbD_or_twoPow here.1, h.bits k lt, one, and_iff_left fresh]
    · rintro n (mem | ⟨rfl, _⟩)
      · exact h.top n mem
      · exact fresh.1.2
  · have same : R.mark window (unwrap R.base seq) = R := by
      simp [History.mark, fresh]
    rw [if_neg fun here => fresh ((h.accepts_iff seq).mp here), same]
    exact h

/-- A base that moves forward takes the bits with it. -/
lemma advance (h : Represents b R) {newBase : BitVec 32} (ahead : (newBase - b.baseSeq).toNat < 2 ^ 31) :
    Represents (b.advance newBase) (R.advance (unwrap R.base newBase)) := by
  have number := h.unwrap_eq ahead
  rw [RecvBitmap.advance_eq]
  refine ⟨(ofInt_unwrap R.base newBase).symm, ?_, ?_⟩
  · intro k lt
    show (b.received >>> (newBase - b.baseSeq).toNat).getLsbD k = true
      ↔ unwrap R.base newBase + k ∈ R.accepted
    have place : unwrap R.base newBase + k = R.base + ((newBase - b.baseSeq).toNat + k : ℕ) := by
      rw [number]
      push_cast
      ring
    rw [BitVec.getLsbD_ushiftRight, place]
    by_cases inside : (newBase - b.baseSeq).toNat + k < 256
    · exact h.bits _ inside
    · -- what comes into the window was ahead of it
      rw [BitVec.getLsbD_of_ge _ _ (Nat.le_of_not_lt inside)]
      constructor
      · intro bit
        cases bit
      · intro mem
        have := h.top _ mem
        omega
  · intro n mem
    have := h.top n mem
    show n < unwrap R.base newBase + 256
    omega

/-- `has` tells whether a number of the window was accepted. -/
lemma has_iff (h : Represents b R) (seq : BitVec 32) :
    b.has seq = true ↔ R.InWindow window (unwrap R.base seq) ∧ unwrap R.base seq ∈ R.accepted := by
  rw [RecvBitmap.has_eq, h.inWindow]
  by_cases lt : (seq - b.baseSeq).toNat < 256
  · rw [and_iff_right lt, h.bits _ lt, h.unwrap_eq (by omega)]
  · rw [BitVec.getLsbD_of_ge _ _ (Nat.le_of_not_lt lt)]
    exact ⟨fun no => absurd no (by simp), fun inside => absurd inside.1 lt⟩

/-- A sequence number of the new window that stands for something in the old one stands for the same in
both, one that does not for something ahead of the old one. -/
lemma unwrap_advance (h : Represents b R) {newBase seq : BitVec 32}
    (ahead : (newBase - b.baseSeq).toNat < 2 ^ 31)
    (new : (R.advance (unwrap R.base newBase)).InWindow window (unwrap (unwrap R.base newBase) seq)) :
    unwrap (unwrap R.base newBase) seq = unwrap R.base seq ∧ R.InWindow window (unwrap R.base seq) ∨
      R.base + 256 ≤ unwrap (unwrap R.base newBase) seq ∧ ¬ R.InWindow window (unwrap R.base seq) := by
  have next := h.advance ahead
  have base : (b.advance newBase).baseSeq = newBase := by rw [RecvBitmap.advance_eq]
  have near : (seq - newBase).toNat < 256 := by
    have := (next.inWindow seq).mp new
    rwa [base] at this
  have number : unwrap (unwrap R.base newBase) seq
      = unwrap R.base newBase + (seq - (b.advance newBase).baseSeq).toNat :=
    next.unwrap_eq (by rw [base]; omega)
  rw [base] at number
  rw [h.unwrap_eq ahead] at number
  rw [h.inWindow, h.unwrap_eq ahead, number]
  -- the distance from the old base is the sum of the two distances
  have sum : (seq - b.baseSeq).toNat = (newBase - b.baseSeq).toNat + (seq - newBase).toNat := by
    have split : seq - b.baseSeq = (newBase - b.baseSeq) + (seq - newBase) := by
      rw [add_comm]
      exact (sub_add_sub_cancel seq newBase b.baseSeq).symm
    rw [split, BitVec.toNat_add, Nat.mod_eq_of_lt (by omega)]
  by_cases old : (seq - b.baseSeq).toNat < 256
  · left
    refine ⟨?_, old⟩
    rw [h.unwrap_eq (by omega), sum]
    push_cast
    ring
  · right
    exact ⟨by omega, old⟩

/-- After `advance`, `has` tells the same of the new window. -/
lemma has_advance_iff (h : Represents b R) {newBase seq : BitVec 32}
    (ahead : (newBase - b.baseSeq).toNat < 2 ^ 31)
    (new : (R.advance (unwrap R.base newBase)).InWindow window (unwrap (unwrap R.base newBase) seq)) :
    (b.advance newBase).has seq = true ↔ unwrap (unwrap R.base newBase) seq ∈ R.accepted :=
  ((h.advance ahead).has_iff seq).trans (and_iff_right new)

/-- A number that is in both windows is told the same. -/
lemma advance_both (h : Represents b R) {newBase seq : BitVec 32}
    (ahead : (newBase - b.baseSeq).toNat < 2 ^ 31)
    (new : (R.advance (unwrap R.base newBase)).InWindow window (unwrap (unwrap R.base newBase) seq))
    (old : R.InWindow window (unwrap R.base seq)) : (b.advance newBase).has seq = b.has seq := by
  rcases h.unwrap_advance ahead new with ⟨same, _⟩ | ⟨_, out⟩
  · rw [Bool.eq_iff_iff, h.has_advance_iff ahead new, h.has_iff, and_iff_right old, same]
  · exact absurd old out

/-- A number that is new to the window was not received. -/
lemma advance_new (h : Represents b R) {newBase seq : BitVec 32}
    (ahead : (newBase - b.baseSeq).toNat < 2 ^ 31)
    (new : (R.advance (unwrap R.base newBase)).InWindow window (unwrap (unwrap R.base newBase) seq))
    (out : ¬ R.InWindow window (unwrap R.base seq)) : (b.advance newBase).has seq = false := by
  rcases h.unwrap_advance ahead new with ⟨_, old⟩ | ⟨far, _⟩
  · exact absurd old out
  · rw [← Bool.not_eq_true, h.has_advance_iff ahead new]
    intro mem
    exact absurd (h.top _ mem) (Int.not_lt.mpr far)

/-- `cumulative_ack` is the first number at or after the base that was not accepted. -/
lemma cumulativeAck_least (h : Represents b R) :
    ∃ n, IsLeast {n | R.base ≤ n ∧ n ∉ R.accepted} n ∧ n ≤ R.base + window ∧
      b.cumulativeAck = BitVec.ofInt 32 n := by
  have le := contig_le b.received
  refine ⟨R.base + contig b.received, ⟨⟨by omega, ?_⟩, ?_⟩, by omega, ?_⟩
  · intro mem
    have lt : contig b.received < 256 := by
      have := h.top _ mem
      omega
    have bit := (h.bits _ lt).mpr mem
    rw [getLsbD_contig] at bit
    cases bit
  · rintro n ⟨ge, out⟩
    by_contra lt
    obtain ⟨k, rfl⟩ : ∃ k : ℕ, n = R.base + k := ⟨(n - R.base).toNat, by omega⟩
    have small : k < contig b.received := by omega
    have window : contig b.received ≤ 256 := le
    exact out ((h.bits k (by omega)).mp (getLsbD_of_lt_contig small))
  · rw [RecvBitmap.cumulativeAck, h.base, BitVec.ofInt_add, BitVec.ofInt_natCast]

end Represents

/-- A bitmap represents its history. -/
lemma Traced.represents {b : RecvBitmap} {R : History} (run : Traced b R) : Represents b R := by
  induction run with
  | new => exact .new
  | mark seq _ ih => exact ih.mark seq
  | advance newBase _ ahead ih => exact ih.advance ahead

/-- For every sequence of calls of `mark_received`, with any sequence numbers, and of `advance`, forward by
less than half a turn: the bitmap answers as the set of accepted numbers does. -/
theorem bitmap_is_set {b : RecvBitmap} {R : History} (run : Traced b R) :
    (∀ seq, (b.markReceived seq).1 = true ↔ R.Accepts window (unwrap R.base seq)) ∧
    (∀ seq, b.has seq = true ↔
      R.InWindow window (unwrap R.base seq) ∧ unwrap R.base seq ∈ R.accepted) ∧
    (∀ newBase seq, (newBase - b.baseSeq).toNat < 2 ^ 31 →
      (R.advance (unwrap R.base newBase)).InWindow window (unwrap (unwrap R.base newBase) seq) →
      (R.InWindow window (unwrap R.base seq) → (b.advance newBase).has seq = b.has seq) ∧
      (¬ R.InWindow window (unwrap R.base seq) → (b.advance newBase).has seq = false)) ∧
    ∃ n, IsLeast {n | R.base ≤ n ∧ n ∉ R.accepted} n ∧ n ≤ R.base + window ∧
      b.cumulativeAck = BitVec.ofInt 32 n := by
  have h := run.represents
  refine ⟨?_, h.has_iff, ?_, ?_⟩
  · intro seq
    rw [← h.accepts_iff, RecvBitmap.markReceived_eq]
    split
    · rename_i fresh
      exact ⟨fun _ => fresh, fun _ => rfl⟩
    · rename_i stale
      exact ⟨fun no => absurd no (by simp), fun fresh => absurd fresh stale⟩
  · intro newBase seq ahead new
    exact ⟨h.advance_both ahead new, h.advance_new ahead new⟩
  · exact h.cumulativeAck_least

/-- Number 1 arrives before number 0. -/
theorem bitmap_is_set_one :
    Traced (RecvBitmap.new.markReceived 1).2
      (History.mark window (unwrap 0 1#32) { base := 0, accepted := ∅ }) ∧
    ((RecvBitmap.new.markReceived 1).2.has 1 = true ↔
      (History.mark window (unwrap 0 1#32) { base := 0, accepted := ∅ }).InWindow window (unwrap 0 1#32) ∧
      unwrap 0 1#32 ∈ (History.mark window (unwrap 0 1#32) { base := 0, accepted := ∅ }).accepted) := by
  have run := Traced.new.mark 1
  exact ⟨run, (bitmap_is_set run).2.1 1⟩

end UxNet.TcpLite
