import UxNet.Pool.Basic

/-!
# Contents of buffers

What an operation on the pool leaves alone. `Untouched p p' i` says that the bytes of buffer `i` and its
length are the same in `p` and `p'`. An operation touches only buffers that are free or with the caller
before it, or free after it.
-/

namespace UxNet

/-- The bytes of buffer `i` and its length are the same in two states of a pool. -/
structure Untouched (p p' : BufferPool) (i : ℕ) : Prop where
  size : p'.bufferSize = p.bufferSize
  view : ∀ k < p.bufferSize, p'.view i k = p.view i k
  len : p'.len i = p.len i

namespace Untouched

variable {p p' p'' : BufferPool} {i j : ℕ}

/-- Doing nothing touches nothing. -/
lemma refl (p : BufferPool) (i : ℕ) : Untouched p p i := ⟨rfl, fun _ _ => rfl, rfl⟩

/-- Two operations that leave a buffer alone leave it alone one after the other. -/
lemma trans (h : Untouched p p' i) (h' : Untouched p' p'' i) : Untouched p p'' i := by
  refine ⟨h'.size.trans h.size, ?_, h'.len.trans h.len⟩
  intro k lt
  rw [h'.view k (by rw [h.size]; exact lt), h.view k lt]

/-- Reading a part of an untouched buffer. -/
lemma read (h : Untouched p p' i) {n : ℕ} (fits : n ≤ p.bufferSize) : p'.read i n = p.read i n :=
  BufferPool.read_congr fun k lt => h.view k (lt_of_lt_of_le lt fits)

/-- The datagram in an untouched buffer. -/
lemma content (h : Untouched p p' i) (fits : (p.len i).toNat ≤ p.bufferSize) :
    p'.content i = p.content i := by
  unfold BufferPool.content
  rw [h.len, h.read fits]

/-- Releasing another buffer leaves this one alone. -/
lemma release (site : Site) (ne : i ≠ j) : Untouched p (p.release site j) i :=
  ⟨rfl, fun _ _ => rfl, Function.update_of_ne ne _ _⟩

/-- So does writing another one, within its bounds. -/
lemma store {bs : Bytes} (ne : i ≠ j) (fits : bs.length ≤ p.bufferSize) :
    Untouched p (p.store j bs) i :=
  ⟨rfl, fun _ lt => BufferPool.view_store_of_ne ne.symm fits lt, Function.update_of_ne ne _ _⟩

/-- `acquire` writes no buffer. -/
lemma acquire (e : p.acquire.2 = p') : Untouched p p' i := by
  rcases h : p.acquire with ⟨_ | j, q⟩
  · rw [h] at e
    obtain ⟨_, rfl⟩ := BufferPool.acquire_none h
    subst e
    exact ⟨rfl, fun _ _ => rfl, rfl⟩
  · rw [h] at e
    obtain ⟨_, _, rfl⟩ := BufferPool.acquire_some h
    subst e
    exact ⟨rfl, fun _ _ => rfl, rfl⟩

/-- The rest of the program leaves alone what is neither free nor its own. -/
lemma callerOp (op : CallerOp) (free : i ∉ p.free) (caller : i ∉ p.caller) :
    Untouched p (p.callerOp op) i ∧ i ∉ (p.callerOp op).free ∧ i ∉ (p.callerOp op).caller := by
  cases op with
  | acquire =>
    rw [BufferPool.callerOp]
    rcases h : p.acquire with ⟨_ | j, q⟩
    · obtain ⟨_, rfl⟩ := BufferPool.acquire_none h
      exact ⟨⟨rfl, fun _ _ => rfl, rfl⟩, free, caller⟩
    · obtain ⟨rest, hf, rfl⟩ := BufferPool.acquire_some h
      rw [hf, List.mem_cons, not_or] at free
      refine ⟨⟨rfl, fun _ _ => rfl, rfl⟩, free.2, ?_⟩
      rw [List.mem_cons, not_or]
      exact ⟨free.1, caller⟩
  | fill j bs =>
    rw [BufferPool.callerOp]
    split
    · rename_i own
      refine ⟨store ?_ own.2, free, caller⟩
      rintro rfl
      exact caller own.1
    · exact ⟨refl p i, free, caller⟩
  | release j =>
    rw [BufferPool.callerOp]
    split
    · rename_i own
      have ne : i ≠ j := by
        rintro rfl
        exact caller own
      refine ⟨⟨rfl, fun _ _ => rfl, Function.update_of_ne ne _ _⟩, ?_, ?_⟩
      · exact List.not_mem_cons_of_ne_of_not_mem ne free
      · exact fun mem => caller (List.mem_of_mem_erase mem)
    · exact ⟨refl p i, free, caller⟩

/-- A buffer that is neither free nor the caller's is out of its reach, and stays so. -/
lemma callerOps (ops : List CallerOp) (free : i ∉ p.free) (caller : i ∉ p.caller) :
    Untouched p (p.callerOps ops) i ∧ i ∉ (p.callerOps ops).free ∧
      i ∉ (p.callerOps ops).caller := by
  unfold BufferPool.callerOps
  induction ops generalizing p with
  | nil => exact ⟨refl p i, free, caller⟩
  | cons op ops ih =>
    obtain ⟨same, free', caller'⟩ := callerOp op free caller
    obtain ⟨rest, free'', caller''⟩ := ih free' caller'
    exact ⟨same.trans rest, free'', caller''⟩

end Untouched

end UxNet
