import Mathlib.Tactic

/-!
# Buffer pool

Sequential model of `BufferPool` (`buffer_pool.cpp`): one flat backing region, cut into
`bufferCount` buffers of `bufferSize` bytes, and a stack of free indices. A buffer is named by its
index; `buf->data` is the address `index * bufferSize`, so a write past the end of a buffer lands in
the next one, as in the source. Reads and writes are total: what lies beyond the region is some byte.

Three fields are history only and read by no operation of the source: `caller`, the buffers that the
rest of the program has acquired and not given back, `handed`, the buffers it has passed on to
`on_packet_received`, and `history`, every `acquire` and `release`, the latter with the place in the
source that made it. `CallerOp` is what the rest of the program may do with the pool: acquire a
buffer, fill one it holds, give one back.
-/

namespace UxNet

/-- A byte string. -/
abbrev Bytes := List (BitVec 8)

/-- The places from which a buffer is given back to the pool. -/
inductive Site where
  | corrupt
  | received
  | acked
  | overwritten
  | destroyed
  | caller
deriving DecidableEq, Repr

/-- A buffer leaves the free list or comes back to it. -/
inductive PoolEvent where
  | acquired (i : ℕ)
  | released (site : Site) (i : ℕ)
deriving DecidableEq, Repr

/-- `class BufferPool`. -/
structure BufferPool where
  bufferSize : ℕ
  bufferCount : ℕ
  mem : ℕ → BitVec 8
  len : ℕ → BitVec 32
  free : List ℕ
  totalAcquires : BitVec 64
  totalReleases : BitVec 64
  totalExhausted : BitVec 64
  caller : List ℕ
  handed : List ℕ
  history : List PoolEvent

/-- What the rest of the program may do with the pool between two steps of a session. -/
inductive CallerOp where
  | acquire
  | fill (i : ℕ) (bs : Bytes)
  | release (i : ℕ)

namespace BufferPool

/-- `BufferPool::BufferPool`: every index is pushed, the last one ends on top. -/
def new (bufferSize bufferCount : ℕ) (mem : ℕ → BitVec 8) : BufferPool where
  bufferSize := bufferSize
  bufferCount := bufferCount
  mem := mem
  len := fun _ => 0
  free := (List.range bufferCount).reverse
  totalAcquires := 0
  totalReleases := 0
  totalExhausted := 0
  caller := []
  handed := []
  history := []

/-- `BufferPool::acquire`. -/
def acquire (p : BufferPool) : Option ℕ × BufferPool :=
  match p.free with
  | [] => (none, { p with totalExhausted := p.totalExhausted + 1 })
  | i :: rest =>
    (some i, { p with
      free := rest
      totalAcquires := p.totalAcquires + 1
      history := p.history ++ [.acquired i] })

/-- `BufferPool::release`, called from the place `site`. -/
def release (site : Site) (i : ℕ) (p : BufferPool) : BufferPool :=
  { p with
    len := Function.update p.len i 0
    free := i :: p.free
    totalReleases := p.totalReleases + 1
    history := p.history ++ [.released site i] }

/-- The memory seen from `buf->data` on. -/
def view (p : BufferPool) (i : ℕ) : ℕ → BitVec 8 := fun k => p.mem (i * p.bufferSize + k)

/-- The first `n` bytes of a buffer. -/
def read (p : BufferPool) (i n : ℕ) : Bytes := (List.range n).map (p.view i)

/-- `memcpy(buf->data, bs, n); buf->len = n`. -/
def store (i : ℕ) (bs : Bytes) (p : BufferPool) : BufferPool :=
  { p with
    mem := fun a =>
      if i * p.bufferSize ≤ a then bs.getD (a - i * p.bufferSize) (p.mem a) else p.mem a
    len := Function.update p.len i (BitVec.ofNat 32 bs.length) }

/-- The datagram in a buffer: its first `buf->len` bytes. -/
def content (p : BufferPool) (i : ℕ) : Bytes := p.read i (p.len i).toNat

/-- One operation of the rest of the program; it touches only buffers it holds. -/
def callerOp (p : BufferPool) : CallerOp → BufferPool
  | .acquire =>
    match p.acquire with
    | (none, q) => q
    | (some i, q) => { q with caller := i :: q.caller }
  | .fill i bs => if i ∈ p.caller ∧ bs.length ≤ p.bufferSize then p.store i bs else p
  | .release i =>
    if i ∈ p.caller then { p.release .caller i with caller := p.caller.erase i } else p

/-- Several operations of the rest of the program. -/
def callerOps (p : BufferPool) (ops : List CallerOp) : BufferPool := ops.foldl callerOp p

variable {p : BufferPool}

/-- A successful `acquire` takes the top of the free list. -/
lemma acquire_some {i : ℕ} {p' : BufferPool} (e : p.acquire = (some i, p')) :
    ∃ rest, p.free = i :: rest ∧
      p' = { p with
        free := rest
        totalAcquires := p.totalAcquires + 1
        history := p.history ++ [.acquired i] } := by
  unfold acquire at e
  split at e
  · cases e
  · rename_i rest hf
    cases e
    exact ⟨rest, hf, rfl⟩

/-- `acquire` fails exactly on an empty free list. -/
lemma acquire_none {p' : BufferPool} (e : p.acquire = (none, p')) :
    p.free = [] ∧ p' = { p with totalExhausted := p.totalExhausted + 1 } := by
  unfold acquire at e
  split at e
  · rename_i hf
    cases e
    exact ⟨hf, rfl⟩
  · cases e

/-- `acquire` does not change the size of the buffers. -/
lemma acquire_size : p.acquire.2.bufferSize = p.bufferSize := by
  unfold acquire
  split
  · rfl
  · rfl

/-- Nor does what the caller does. -/
lemma callerOps_size (ops : List CallerOp) : (p.callerOps ops).bufferSize = p.bufferSize := by
  have one : ∀ (p : BufferPool) op, (p.callerOp op).bufferSize = p.bufferSize := by
    intro p op
    cases op with
    | acquire =>
      have size := acquire_size (p := p)
      rw [callerOp]
      rcases e : p.acquire with ⟨_ | i, q⟩
      · rw [e] at size
        exact size
      · rw [e] at size
        exact size
    | fill i bs =>
      rw [callerOp]
      split
      · rfl
      · rfl
    | release i =>
      rw [callerOp]
      split
      · rfl
      · rfl
  unfold callerOps
  induction ops generalizing p with
  | nil => rfl
  | cons op ops ih => exact (ih (p := p.callerOp op)).trans (one p op)

/-- A buffer reads back what was stored in it. -/
lemma read_store (i : ℕ) (bs : Bytes) : (p.store i bs).read i bs.length = bs := by
  apply List.ext_getElem
  · simp [read]
  · intro k h1 h2
    simp [read, view, store, h2]

/-- The datagram in a buffer is the one stored in it. -/
lemma content_store {i : ℕ} {bs : Bytes} (short : bs.length < 2 ^ 32) :
    (p.store i bs).content i = bs := by
  have e : ((p.store i bs).len i).toNat = bs.length := by
    simp only [store, Function.update_self, BitVec.toNat_ofNat]
    exact Nat.mod_eq_of_lt short
  rw [content, e, read_store]

/-- Two buffers do not overlap. -/
lemma addr_disjoint {size i j a b : ℕ} (ne : i ≠ j) (ha : a < size) (hb : b < size) :
    i * size + a ≠ j * size + b := by
  intro e
  rcases Nat.lt_or_gt_of_ne ne with lt | gt
  · have := Nat.mul_le_mul_right size (Nat.succ_le_of_lt lt)
    rw [Nat.succ_mul] at this
    omega
  · have := Nat.mul_le_mul_right size (Nat.succ_le_of_lt gt)
    rw [Nat.succ_mul] at this
    omega

/-- Storing in one buffer leaves the bytes of another one alone, if the data fits. -/
lemma view_store_of_ne {i j k : ℕ} {bs : Bytes} (ne : i ≠ j) (fits : bs.length ≤ p.bufferSize)
    (hk : k < p.bufferSize) : (p.store i bs).view j k = p.view j k := by
  simp only [view, store]
  split
  · rename_i le
    have out : bs.length ≤ j * p.bufferSize + k - i * p.bufferSize := by
      by_contra lt
      have := addr_disjoint (a := j * p.bufferSize + k - i * p.bufferSize) (b := k) ne
        (by omega) hk
      omega
    rw [List.getD_eq_getElem?_getD, List.getElem?_eq_none out, Option.getD_none]
  · rfl

/-- Reading is determined by the bytes below the length. -/
lemma read_congr {q : BufferPool} {i n : ℕ} (h : ∀ k < n, q.view i k = p.view i k) :
    q.read i n = p.read i n := by
  apply List.map_congr_left
  intro k mem
  exact h k (List.mem_range.mp mem)

end BufferPool

end UxNet
