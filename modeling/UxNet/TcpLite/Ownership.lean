import UxNet.TcpLite.Machine

/-!
# Buffer ownership

Where the buffers of a session's pool are: on the free list, in an occupied slot of the unacked queue,
with the caller, or in an active call of `on_packet_received`. `Owned` says that every buffer is in
exactly one of these places, together with what the history of the pool has to do with it, and `Live`
that the occupied slots are those of the sequence numbers between `snd_una_` and `next_seq_`. Neither
asks anything of the packets received: an ACK number may be any 32-bit value.
-/

namespace UxNet.TcpLite

open TcpLiteSession

/-- Whether a slot holds a buffer, as a count. -/
def Slot.holds (s : Slot) (i : ℕ) : ℕ := if s.occupied = true ∧ s.buf = some i then 1 else 0

/-- The number of occupied slots that hold a buffer. -/
def UnackedQueue.holds (q : UnackedQueue) (i : ℕ) : ℕ := ∑ k, (q.slots k).holds i

/-- A release of a given buffer. -/
def PoolEvent.releases (i : ℕ) : PoolEvent → Bool
  | .released _ j => j == i
  | .acquired _ => false

/-- A release of a given buffer by `on_packet_received`. -/
def PoolEvent.returns (i : ℕ) : PoolEvent → Bool
  | .released .corrupt j => j == i
  | .released .received j => j == i
  | _ => false

/-- The number of times a buffer was acquired. -/
def acquires (h : List PoolEvent) (i : ℕ) : ℕ := h.count (.acquired i)

/-- The number of times a buffer was released. -/
def releases (h : List PoolEvent) (i : ℕ) : ℕ := h.countP (PoolEvent.releases i)

/-- The number of times `on_packet_received` gave a buffer back. -/
def returns (h : List PoolEvent) (i : ℕ) : ℕ := h.countP (PoolEvent.returns i)

/-- Every one of the `n` buffers is in exactly one place; `hs` are the buffers of the active calls of
`on_packet_received`. -/
structure Owned (size n : ℕ) (p : BufferPool) (q : UnackedQueue) (hs : List ℕ) : Prop where
  size_eq : p.bufferSize = size
  once : ∀ i, p.free.count i + q.holds i + p.caller.count i + hs.count i = if i < n then 1 else 0
  full : ∀ k, (q.slots k).occupied = true → ∃ i, (q.slots k).buf = some i
  ledger : ∀ i, p.free.count i + acquires p.history i
    = (if i < n then 1 else 0) + releases p.history i
  balanced : ∀ h, h <+: p.history → ∀ i, releases h i ≤ acquires h i ∧
    acquires h i ≤ releases h i + 1
  kept : ∀ i, PoolEvent.released .overwritten i ∉ p.history
  handed : ∀ i, p.handed.count i = returns p.history i + hs.count i

/-- Writing a slot exchanges what it holds. -/
lemma UnackedQueue.holds_set (q : UnackedQueue) (k : Fin window) (s : Slot) (i : ℕ) :
    (q.set k s).holds i + (q.slots k).holds i = q.holds i + s.holds i := by
  unfold UnackedQueue.holds
  rw [← Finset.add_sum_erase _ _ (Finset.mem_univ k),
    ← Finset.add_sum_erase _ _ (Finset.mem_univ k)]
  have same : ∑ x ∈ Finset.univ.erase k, ((q.set k s).slots x).holds i
      = ∑ x ∈ Finset.univ.erase k, (q.slots x).holds i := by
    apply Finset.sum_congr rfl
    intro x mem
    rw [q.set_slots_ne s (Finset.ne_of_mem_erase mem)]
  rw [same, q.set_slots_self]
  omega

/-- An occupied slot that holds a buffer counts for that buffer only. -/
lemma Slot.holds_some {s : Slot} {b : ℕ} (occ : s.occupied = true) (hb : s.buf = some b) (i : ℕ) :
    s.holds i = if i = b then 1 else 0 := by
  unfold Slot.holds
  simp [occ, hb, eq_comm]

/-- A free slot holds nothing. -/
lemma Slot.holds_free {s : Slot} (free : s.occupied = false) (i : ℕ) : s.holds i = 0 := by
  simp [Slot.holds, free]

/-- Nor does a cleared one. -/
lemma Slot.holds_clear (s : Slot) (i : ℕ) : s.clear.holds i = 0 := Slot.holds_free rfl i

/-- An occupied slot puts its buffer to use. -/
lemma UnackedQueue.holds_pos {q : UnackedQueue} {k : Fin window} {i : ℕ}
    (occ : (q.slots k).occupied = true)
    (hb : (q.slots k).buf = some i) : 0 < q.holds i := by
  have here : (q.slots k).holds i = 1 := by rw [Slot.holds_some occ hb, if_pos rfl]
  have le := Finset.single_le_sum (s := Finset.univ) (f := fun k => (q.slots k).holds i)
    (fun _ _ => Nat.zero_le _) (Finset.mem_univ k)
  rw [here] at le
  exact le

/-- Only `on_packet_received` returns buffers. -/
lemma returns_other {site : Site} (corrupt : site ≠ .corrupt) (received : site ≠ .received)
    (h : List PoolEvent) (i j : ℕ) : returns (h ++ [.released site i]) j = returns h j := by
  have none : PoolEvent.returns j (.released site i) = false := by
    cases site with
    | corrupt => exact absurd rfl corrupt
    | received => exact absurd rfl received
    | _ => rfl
  simp [returns, List.countP_append, none]

namespace Owned

variable {size n i : ℕ} {p p' : BufferPool} {q q' : UnackedQueue} {hs hs' caller' : List ℕ}

/-- A history that is in balance at its end and before its last event is in balance throughout. -/
lemma balanced_concat {h : List PoolEvent} {e : PoolEvent}
    (old : ∀ l, l <+: h → ∀ i, releases l i ≤ acquires l i ∧ acquires l i ≤ releases l i + 1)
    (new : ∀ i, releases (h ++ [e]) i ≤ acquires (h ++ [e]) i ∧
      acquires (h ++ [e]) i ≤ releases (h ++ [e]) i + 1) :
    ∀ l, l <+: h ++ [e] → ∀ i, releases l i ≤ acquires l i ∧ acquires l i ≤ releases l i + 1 := by
  intro l pre
  rcases List.prefix_concat_iff.mp pre with rfl | pre
  · exact new
  · exact old l pre

/-- A buffer that is in one place, and on the free list as often as the history says, has been acquired as
often as it has been released, or once more. -/
lemma balance {free slots others calls acquired released : ℕ}
    (once : free + slots + others + calls = if i < n then 1 else 0)
    (ledger : free + acquired = (if i < n then 1 else 0) + released) :
    released ≤ acquired ∧ acquired ≤ released + 1 := by
  split at once
  · rename_i lt
    rw [if_pos lt] at ledger
    omega
  · rename_i ge
    rw [if_neg ge] at ledger
    omega

/-- A buffer given back to the pool, wherever it was. -/
lemma of_release {site : Site} (h : Owned size n p q hs) (ne : site ≠ .overwritten)
    (moved : ∀ j, q'.holds j + caller'.count j + hs'.count j + (if j = i then 1 else 0)
      = q.holds j + p.caller.count j + hs.count j)
    (full : ∀ k, (q'.slots k).occupied = true → ∃ i, (q'.slots k).buf = some i)
    (handed : ∀ j, p.handed.count j = returns (p.history ++ [.released site i]) j + hs'.count j) :
    Owned size n { p.release site i with caller := caller' } q' hs' := by
  have once : ∀ j, (i :: p.free).count j + q'.holds j + caller'.count j + hs'.count j
      = if j < n then 1 else 0 := by
    intro j
    have h1 := h.once j
    have h2 := moved j
    rw [List.count_cons]
    simp only [beq_iff_eq, eq_comm (a := i)]
    omega
  have acq : ∀ j, acquires (p.history ++ [.released site i]) j = acquires p.history j := by
    intro j
    simp [acquires, List.count_append]
  have rel : ∀ j, releases (p.history ++ [.released site i]) j
      = releases p.history j + if j = i then 1 else 0 := by
    intro j
    simp [releases, List.countP_append, PoolEvent.releases, List.countP_cons, eq_comm (a := i)]
  have ledger : ∀ j, (i :: p.free).count j + acquires (p.history ++ [.released site i]) j
      = (if j < n then 1 else 0) + releases (p.history ++ [.released site i]) j := by
    intro j
    have h1 := h.ledger j
    rw [List.count_cons, acq, rel]
    simp only [beq_iff_eq, eq_comm (a := i)]
    omega
  refine ⟨h.size_eq, once, full, ledger, ?_, ?_, handed⟩
  · exact balanced_concat h.balanced fun j => balance (once j) (ledger j)
  · intro j mem
    rcases List.mem_append.mp mem with mem | mem
    · exact h.kept j mem
    · simp only [List.mem_singleton, PoolEvent.released.injEq] at mem
      exact ne mem.1.symm

/-- A slot cleared, with its buffer given back. -/
lemma clearSlot {site : Site} {k : Fin window} (h : Owned size n p q hs) (corrupt : site ≠ .corrupt)
    (received : site ≠ .received) (ne : site ≠ .overwritten) (occ : (q.slots k).occupied = true)
    (hb : (q.slots k).buf = some i) : Owned size n (p.release site i) (q.set k (q.slots k).clear) hs := by
  have eta : p.release site i = { p.release site i with caller := p.caller } := rfl
  rw [eta]
  apply h.of_release ne
  · intro j
    have hset := q.holds_set k (q.slots k).clear j
    rw [Slot.holds_clear, Slot.holds_some occ hb] at hset
    omega
  · intro k' occ'
    by_cases hk : k' = k
    · subst hk
      simp [Slot.clear] at occ'
    · rw [q.set_slots_ne _ hk] at occ' ⊢
      exact h.full k' occ'
  · intro j
    rw [returns_other corrupt received]
    exact h.handed j

/-- A buffer taken from the pool, wherever it goes. -/
lemma of_acquire (h : Owned size n p q hs) (e : p.acquire = (some i, p'))
    (moved : ∀ j, q'.holds j + caller'.count j
      = q.holds j + p.caller.count j + if j = i then 1 else 0)
    (full : ∀ k, (q'.slots k).occupied = true → ∃ i, (q'.slots k).buf = some i) :
    Owned size n { p' with caller := caller' } q' hs := by
  obtain ⟨rest, hf, rfl⟩ := BufferPool.acquire_some e
  have once : ∀ j, rest.count j + q'.holds j + caller'.count j + hs.count j
      = if j < n then 1 else 0 := by
    intro j
    have h1 := h.once j
    have h2 := moved j
    rw [hf, List.count_cons] at h1
    simp only [beq_iff_eq, eq_comm (a := i)] at h1
    omega
  have acq : ∀ j, acquires (p.history ++ [.acquired i]) j
      = acquires p.history j + if j = i then 1 else 0 := by
    intro j
    simp [acquires, List.count_append, List.count_singleton, eq_comm (a := i)]
  have rel : ∀ j, releases (p.history ++ [.acquired i]) j = releases p.history j := by
    intro j
    simp [releases, List.countP_append, PoolEvent.releases]
  have ledger : ∀ j, rest.count j + acquires (p.history ++ [.acquired i]) j
      = (if j < n then 1 else 0) + releases (p.history ++ [.acquired i]) j := by
    intro j
    have h1 := h.ledger j
    rw [hf, List.count_cons] at h1
    simp only [beq_iff_eq, eq_comm (a := i)] at h1
    rw [acq, rel]
    omega
  refine ⟨h.size_eq, once, full, ledger, ?_, ?_, ?_⟩
  · exact balanced_concat h.balanced fun j => balance (once j) (ledger j)
  · intro j mem
    rcases List.mem_append.mp mem with mem | mem
    · exact h.kept j mem
    · simp at mem
  · intro j
    have h1 := h.handed j
    simp only [returns, List.countP_append] at h1 ⊢
    simpa [PoolEvent.returns] using h1

/-- A failed `acquire` moves nothing. -/
lemma of_exhausted (h : Owned size n p q hs) (e : p.acquire = (none, p')) : Owned size n p' q hs := by
  obtain ⟨_, rfl⟩ := BufferPool.acquire_none e
  exact ⟨h.size_eq, h.once, h.full, h.ledger, h.balanced, h.kept, h.handed⟩

/-- Writing to a buffer moves nothing. -/
lemma store (h : Owned size n p q hs) (b : ℕ) (bs : Bytes) : Owned size n (p.store b bs) q hs :=
  ⟨h.size_eq, h.once, h.full, h.ledger, h.balanced, h.kept, h.handed⟩

/-- The rest of the program using the pool. -/
lemma callerOp (h : Owned size n p q hs) (op : CallerOp) : Owned size n (p.callerOp op) q hs := by
  cases op with
  | acquire =>
    rw [BufferPool.callerOp]
    rcases e : p.acquire with ⟨_ | i, p'⟩
    · exact h.of_exhausted e
    · apply h.of_acquire e _ h.full
      intro j
      obtain ⟨_, _, rfl⟩ := BufferPool.acquire_some e
      rw [List.count_cons]
      simp only [beq_iff_eq, eq_comm (a := i)]
      omega
  | fill i bs =>
    rw [BufferPool.callerOp]
    split
    · exact h.store i bs
    · exact h
  | release i =>
    rw [BufferPool.callerOp]
    split
    · rename_i mem
      apply h.of_release (by simp) _ h.full
      · intro j
        rw [returns_other (by simp) (by simp)]
        exact h.handed j
      · intro j
        rw [List.count_erase]
        have pos := List.count_pos_iff.mpr mem
        by_cases hj : j = i
        · subst hj
          simp
          omega
        · have ne : ¬ i = j := fun e => hj e.symm
          simp [hj, ne]
    · exact h

/-- What the caller does to its own buffers keeps the others where they are. -/
lemma callerOps (h : Owned size n p q hs) (ops : List CallerOp) :
    Owned size n (p.callerOps ops) q hs := by
  unfold BufferPool.callerOps
  induction ops generalizing p with
  | nil => exact h
  | cons op ops ih => exact ih (h.callerOp op)

/-- A packet put in a free slot of the queue. -/
lemma markSent (h : Owned size n p q hs) {seq : BitVec 32} {tsc : BitVec 64} {bs : Bytes}
    (e : p.acquire = (some i, p')) (free : (q.slots (slotIdx seq)).occupied = false)
    {qp : UnackedQueue × BufferPool} (hq : q.markSent seq i tsc (p'.store i bs) = qp) :
    Owned size n qp.2 qp.1 hs := by
  subst hq
  have caller : p'.caller = p.caller := by
    obtain ⟨_, _, rfl⟩ := BufferPool.acquire_some e
    rfl
  simp only [UnackedQueue.markSent, free, Bool.false_eq_true, if_false]
  apply Owned.store
  have eta : p' = { p' with caller := p.caller } := by rw [← caller]
  rw [eta]
  apply h.of_acquire e
  · intro j
    have hset := q.holds_set (slotIdx seq)
      { buf := some i, sentTsc := tsc, seq := seq, occupied := true } j
    rw [Slot.holds_free free, Slot.holds_some rfl rfl] at hset
    omega
  · intro k occ
    by_cases hk : k = slotIdx seq
    · subst hk
      exact ⟨i, by simp⟩
    · rw [q.set_slots_ne _ hk] at occ ⊢
      exact h.full k occ

/-- One round of `mark_acked`. -/
lemma ackSlot {a : UnackedQueue.AckScan} (h : Owned size n a.pool a.queue hs) (upTo : BitVec 32)
    (k : Fin window) :
    Owned size n (UnackedQueue.ackSlot upTo a k).pool (UnackedQueue.ackSlot upTo a k).queue hs := by
  unfold UnackedQueue.ackSlot
  dsimp only
  split
  · rename_i cond
    have occ : (a.queue.slots k).occupied = true := by
      simp only [Bool.and_eq_true] at cond
      exact cond.1
    obtain ⟨b, hb⟩ := h.full k occ
    have note : (a.note (a.queue.slots k)).pool = a.pool := by
      unfold UnackedQueue.AckScan.note
      split
      · rfl
      · rfl
    simp only [UnackedQueue.AckScan.drop, UnackedQueue.AckScan.note_queue, note, hb, releaseBuf]
    exact h.clearSlot (by simp) (by simp) (by simp) occ hb
  · exact h

/-- `mark_acked` gives the buffers it takes back to the pool. -/
lemma markAcked (h : Owned size n p q hs) (upTo : BitVec 32) :
    Owned size n (q.markAcked upTo p).2.2 (q.markAcked upTo p).2.1 hs := by
  unfold UnackedQueue.markAcked
  generalize List.finRange window = ks
  have scan : ∀ a : UnackedQueue.AckScan, Owned size n a.pool a.queue hs →
      Owned size n (ks.foldl (UnackedQueue.ackSlot upTo) a).pool
        (ks.foldl (UnackedQueue.ackSlot upTo) a).queue hs := by
    induction ks with
    | nil => exact fun a ha => ha
    | cons k ks ih => exact fun a ha => ih _ (ha.ackSlot upTo k)
  exact scan _ h

/-- `touch` moves nothing. -/
lemma touch (h : Owned size n p q hs) (seq : BitVec 32) (now : BitVec 64) :
    Owned size n p (q.touch seq now) hs := by
  have same : ∀ i, (q.touch seq now).holds i = q.holds i := by
    intro i
    unfold UnackedQueue.holds
    apply Finset.sum_congr rfl
    intro k _
    obtain ⟨tsc, e⟩ := q.touch_slots seq now k
    rw [e]
    rfl
  refine ⟨h.size_eq, ?_, ?_, h.ledger, h.balanced, h.kept, h.handed⟩
  · intro i
    rw [same]
    exact h.once i
  · intro k occ
    obtain ⟨tsc, e⟩ := q.touch_slots seq now k
    rw [e] at occ ⊢
    exact h.full k occ

/-- `on_packet_received` gives its buffer back. -/
lemma giveBack {site : Site} (h : Owned size n p q (i :: hs))
    (hsite : site = .corrupt ∨ site = .received) :
    Owned size n (p.release site i) q hs := by
  have eta : p.release site i = { p.release site i with caller := p.caller } := rfl
  rw [eta]
  apply h.of_release _ _ h.full
  · intro j
    have h1 := h.handed j
    rw [List.count_cons] at h1
    rw [h1]
    rcases hsite with rfl | rfl
    · simp [returns, List.countP_append, PoolEvent.returns, List.countP_cons]
      omega
    · simp [returns, List.countP_append, PoolEvent.returns, List.countP_cons]
      omega
  · rcases hsite with rfl | rfl
    · simp
    · simp
  · intro j
    rw [List.count_cons]
    simp only [beq_iff_eq, eq_comm (a := i)]
    omega

/-- The caller hands a buffer to `on_packet_received`. -/
lemma handOver (h : Owned size n p q hs) (mem : i ∈ p.caller) :
    Owned size n { p with caller := p.caller.erase i, handed := p.handed ++ [i] } q (i :: hs) := by
  have pos := List.count_pos_iff.mpr mem
  refine ⟨h.size_eq, ?_, h.full, h.ledger, h.balanced, h.kept, ?_⟩
  · intro j
    have h1 := h.once j
    dsimp only
    rw [List.count_erase, List.count_cons]
    by_cases hj : j = i
    · subst hj
      simp
      omega
    · have ne : ¬ i = j := fun e => hj e.symm
      simp [ne]
      omega
  · intro j
    have h1 := h.handed j
    dsimp only
    rw [List.count_append, List.count_singleton, List.count_cons, h1]
    omega

/-- One round of `release_all`. -/
lemma releaseSlot (h : Owned size n p q hs) (k : Fin window) :
    Owned size n (UnackedQueue.releaseSlot (q, p) k).2 (UnackedQueue.releaseSlot (q, p) k).1 hs := by
  unfold UnackedQueue.releaseSlot
  dsimp only
  cases occ : (q.slots k).occupied with
  | false =>
    -- clearing a slot that is not in use moves nothing
    refine ⟨h.size_eq, ?_, ?_, h.ledger, h.balanced, h.kept, h.handed⟩
    · intro j
      have hset := q.holds_set k (q.slots k).clear j
      rw [Slot.holds_clear, Slot.holds_free occ] at hset
      have h1 := h.once j
      simp only [Bool.false_eq_true, if_false]
      omega
    · intro k' occ'
      by_cases hk : k' = k
      · subst hk
        simp [Slot.clear] at occ'
      · rw [q.set_slots_ne _ hk] at occ' ⊢
        exact h.full k' occ'
  | true =>
    obtain ⟨b, hb⟩ := h.full k occ
    simp only [if_true, hb, releaseBuf]
    exact h.clearSlot (by simp) (by simp) (by simp) occ hb

/-- `release_all` gives all buffers back. -/
lemma releaseAll (h : Owned size n p q hs) : Owned size n (q.releaseAll p).2 (q.releaseAll p).1 hs := by
  unfold UnackedQueue.releaseAll
  generalize List.finRange window = ks
  induction ks generalizing p q with
  | nil => exact h
  | cons k ks ih => exact ih (h.releaseSlot k)

/-- All buffers of a new pool are free. -/
lemma new (size n : ℕ) (mem : ℕ → BitVec 8) : Owned size n (.new size n mem) .new [] := by
  have none : ∀ i, UnackedQueue.new.holds i = 0 := by
    intro i
    apply Finset.sum_eq_zero
    intro k _
    exact Slot.holds_free rfl i
  have one : ∀ i, (List.range n).reverse.count i = if i < n then 1 else 0 := by
    intro i
    rw [List.count_reverse, List.nodup_range.count]
    simp
  refine ⟨rfl, ?_, ?_, ?_, ?_, ?_, ?_⟩
  · intro i
    rw [none]
    simp [BufferPool.new, one]
  · intro k occ
    cases occ
  · intro i
    simp [BufferPool.new, one, acquires, releases]
  · intro h pre i
    rw [List.prefix_nil.mp pre]
    simp [acquires, releases]
  · intro i mem
    cases mem
  · intro i
    simp [BufferPool.new, returns]

end Owned

/-- Counting a list by its members gives its length. -/
lemma sum_count {n : ℕ} {l : List ℕ} (below : ∀ i ∈ l, i < n) :
    ∑ i ∈ Finset.range n, l.count i = l.length := by
  have sum := Multiset.sum_count_eq_card (m := (l : Multiset ℕ)) fun i mem =>
    Finset.mem_range.mpr (below i mem)
  simpa only [Multiset.coe_count, Multiset.coe_card] using sum

/-- The slots in use. -/
def UnackedQueue.inUse (q : UnackedQueue) : Finset (Fin window) :=
  Finset.univ.filter fun k => (q.slots k).occupied = true

/-- The buffers of a pool are all accounted for. -/
lemma Owned.total {size n : ℕ} {p : BufferPool} {q : UnackedQueue} {hs : List ℕ}
    (h : Owned size n p q hs) :
    p.free.length + q.inUse.card + p.caller.length + hs.length = n := by
  have below : ∀ i, 0 < p.free.count i + q.holds i + p.caller.count i + hs.count i → i < n := by
    intro i pos
    rw [h.once i] at pos
    by_contra out
    rw [if_neg out] at pos
    exact lt_irrefl 0 pos
  have queue : ∑ i ∈ Finset.range n, q.holds i = q.inUse.card := by
    unfold UnackedQueue.holds
    rw [Finset.sum_comm, UnackedQueue.inUse, Finset.card_filter]
    apply Finset.sum_congr rfl
    intro k _
    cases occ : (q.slots k).occupied with
    | false => exact Finset.sum_eq_zero fun i _ => Slot.holds_free occ i
    | true =>
      obtain ⟨b, hb⟩ := h.full k occ
      have lt : b < n := by
        apply below
        have pos : 0 < q.holds b := UnackedQueue.holds_pos occ hb
        omega
      simp only [Slot.holds_some occ hb]
      rw [Finset.sum_ite_eq', if_pos (Finset.mem_range.mpr lt)]
      rfl
  have all : ∑ i ∈ Finset.range n, (p.free.count i + q.holds i + p.caller.count i + hs.count i) = n := by
    rw [Finset.sum_congr rfl fun i mem => (h.once i).trans (if_pos (Finset.mem_range.mp mem))]
    simp
  rw [Finset.sum_add_distrib, Finset.sum_add_distrib, Finset.sum_add_distrib, queue] at all
  rw [sum_count, sum_count, sum_count] at all
  · exact all
  · intro i mem
    have pos := List.count_pos_iff.mpr mem
    exact below i (by omega)
  · intro i mem
    have pos := List.count_pos_iff.mpr mem
    exact below i (by omega)
  · intro i mem
    have pos := List.count_pos_iff.mpr mem
    exact below i (by omega)

/-! ## The slots in use -/

/-- The occupied slots are those of sequence numbers from `una` up to `next`, at most a window. -/
def Live (q : UnackedQueue) (una next : BitVec 32) : Prop :=
  ∀ k, (q.slots k).occupied = true →
    slotIdx (q.slots k).seq = k ∧ ((q.slots k).seq - una).toNat < (next - una).toNat ∧
      (next - una).toNat ≤ 256

namespace Live

variable {q : UnackedQueue} {una next : BitVec 32}

/-- A new queue has no slots in use. -/
lemma new (una next : BitVec 32) : Live .new una next := by
  intro k occ
  cases occ

/-- In an open window the slot of the next packet is free. -/
lemma free (h : Live q una next) (room : (next - una).toNat < 256) :
    (q.slots (slotIdx next)).occupied = false := by
  rw [← Bool.not_eq_true]
  intro occ
  obtain ⟨hk, lt, _⟩ := h _ occ
  have same := congrArg Fin.val hk
  rw [slotIdx_val, slotIdx_val] at same
  bv_omega

/-- `mark_sent` uses the slot of the next packet. -/
lemma markSent (h : Live q una next) (room : (next - una).toNat < 256) (buf : ℕ) (tsc : BitVec 64)
    (p : BufferPool) : Live (q.markSent next buf tsc p).1 una (next + 1) := by
  have grow : (next + 1 - una).toNat = (next - una).toNat + 1 := by bv_omega
  intro k occ
  unfold UnackedQueue.markSent at occ ⊢
  rw [grow]
  by_cases hk : k = slotIdx next
  · subst hk
    rw [q.set_slots_self]
    exact ⟨rfl, Nat.lt_succ_self _, room⟩
  · dsimp only at occ ⊢
    rw [q.set_slots_ne _ hk] at occ ⊢
    obtain ⟨own, lt, _⟩ := h k occ
    exact ⟨own, by omega, room⟩

/-- Whatever number ahead of `una` is taken for an ACK, the slots that stay are ahead of it. -/
lemma markAcked (h : Live q una next) {ack : BitVec 32} (ahead : 0 < (ack - una).toInt)
    (p : BufferPool) : Live (q.markAcked ack p).2.1 ack next := by
  intro k occ
  rw [UnackedQueue.markAcked_slots] at occ ⊢
  unfold UnackedQueue.ackedSlot at occ ⊢
  split at occ
  · cases occ
  · rename_i stays
    rw [if_neg stays]
    obtain ⟨own, lt, le⟩ := h k occ
    have half := Serial.toNat_of_toInt_pos ahead
    rw [occ, Bool.true_and, decide_eq_true_eq, BitVec.toInt_neg_iff] at stays
    -- the slot is at or behind `ack`, and less than a window of numbers is in use
    have reach : (ack - una).toNat ≤ ((q.slots k).seq - una).toNat := by
      by_contra gt
      have := Serial.toNat_sub_of_lt (Nat.lt_of_not_le gt)
      omega
    have slot := Serial.toNat_sub_add reach
    have top := Serial.toNat_sub_add (reach.trans lt.le)
    exact ⟨own, by omega, by omega⟩

/-- `touch` leaves the slots in use as they are. -/
lemma touch (h : Live q una next) (seq : BitVec 32) (now : BitVec 64) :
    Live (q.touch seq now) una next := by
  intro k occ
  obtain ⟨tsc, e⟩ := q.touch_slots seq now k
  rw [e] at occ ⊢
  exact h k occ

section Steps

variable {s s' : TcpLiteSession} {f : Frame} {new fs : List Frame}

/-- With no round of `pump_tx` suspended the slots are those up to `next_seq_`. -/
lemma resting (h : Live s.unacked s.sndUna (s.nextSeq + BitVec.ofNat 32 (pumps (.pumpTx :: fs)).length))
    (nil : pumps fs = []) : Live s.unacked s.sndUna s.nextSeq := by
  have l : Live s.unacked s.sndUna (s.nextSeq + BitVec.ofNat 32 (pumps fs).length) := h
  rw [nil] at l
  simpa using l

/-- The code between two callbacks keeps the slots in order, as long as no round of `pump_tx` starts inside
another one. -/
lemma exec (h : Live s.unacked s.sndUna (s.nextSeq + BitVec.ofNat 32 (pumps (f :: fs)).length))
    (c : Case s f s' new) (idle : Pumping s f → pumps fs = []) :
    Live s'.unacked s'.sndUna (s'.nextSeq + BitVec.ofNat 32 (pumps (new ++ fs)).length) := by
  cases c with
  | pumpStop _ =>
    obtain ⟨_, _, e, _⟩ := pumpReset_frame s
    rw [e]
    exact h
  | pumpFull _ none =>
    obtain ⟨_, _, e, _⟩ := pumpReset_frame { s with pool := _, tape := s.rest }
    rw [e]
    exact h
  | @pumpSend buf pool queue pool' op some marked =>
    have nil := idle (pumping_of_acquire op some)
    have sent := (h.resting nil).markSent (pumpOpen_window op).2 buf (s.tape 0).tsc
      (pool.store buf s.pumpPacket)
    rw [marked] at sent
    show Live queue s.sndUna (s.nextSeq + BitVec.ofNat 32 ((pumps fs).length + 1))
    rw [nil]
    exact sent
  | @pumpSent plen =>
    have l : Live s.unacked s.sndUna (s.nextSeq + BitVec.ofNat 32 ((pumps fs).length + 1)) := h
    show Live s.unacked s.sndUna (s.nextSeq + 1 + BitVec.ofNat 32 (pumps fs).length)
    rw [BitVec.ofNat_add] at l
    rw [BitVec.add_assoc, BitVec.add_comm 1]
    exact l
  | @ack buf hd _ taken =>
    obtain ⟨_, _, e⟩ := takeAck_frame s hd.ackNum
    have live' := h.markAcked (ackTaken_ahead taken) s.pool
    rw [e]
    generalize s.unacked.markAcked hd.ackNum s.pool = r at live' ⊢
    exact live'
  | store _ =>
    obtain ⟨_, _, e⟩ := storeData_frame s _ _
    rw [e]
    exact h
  | resent => exact h.touch _ _
  | _ => exact h

end Steps

end Live

/-! ## Runs -/

/-- The buffers of a session with active calls are where they should be. -/
structure Buffers (size n : ℕ) (c : Config) : Prop where
  owned : Owned size n c.session.pool c.session.unacked (held c.stack)
  live : Live c.session.unacked c.session.sndUna
    (c.session.nextSeq + BitVec.ofNat 32 (pumps c.stack).length)

namespace Buffers

variable {size n : ℕ} {s s' : TcpLiteSession} {f : Frame} {new fs : List Frame}

/-- The code between two callbacks keeps the buffers in order, as long as no round of `pump_tx` starts
inside another one. -/
lemma exec (c : Case s f s' new) (h : Buffers size n ⟨s, f :: fs⟩)
    (idle : Pumping s f → pumps fs = []) : Buffers size n ⟨s', new ++ fs⟩ := by
  refine ⟨?_, h.live.exec c idle⟩
  obtain ⟨owned, live⟩ := h
  cases c with
  | pumpStop _ =>
    obtain ⟨_, _, e, _⟩ := pumpReset_frame s
    rw [e]
    exact owned
  | pumpFull _ none =>
    obtain ⟨_, _, e, _⟩ := pumpReset_frame { s with pool := _, tape := s.rest }
    rw [e]
    exact (owned.callerOps _).of_exhausted none
  | pumpSend op some marked =>
    -- with no round suspended the slot of `next_seq_` is free, so that nothing is overwritten
    have live' := live.resting (idle (pumping_of_acquire op some))
    exact (owned.callerOps _).markSent some (live'.free (pumpOpen_window op).2) marked
  | corrupt _ => exact owned.giveBack (.inl rfl)
  | @ack buf hd _ taken =>
    obtain ⟨_, _, e⟩ := takeAck_frame s hd.ackNum
    have owned' : Owned size n _ _ (buf :: held fs) := owned.markAcked hd.ackNum
    rw [e]
    generalize s.unacked.markAcked hd.ackNum s.pool = r at owned' ⊢
    exact owned'
  | store _ =>
    obtain ⟨_, _, e⟩ := storeData_frame s _ _
    rw [e]
    exact owned
  | noData => exact owned.giveBack (.inr rfl)
  | received => exact owned.giveBack (.inr rfl)
  | resent => exact owned.touch _ _
  | _ => exact owned

/-- A call is made that holds no buffer. -/
lemma push {g : Frame} (h : Buffers size n ⟨s, fs⟩) (idle : g.pumping = none)
    (free : g.holding = none) : Buffers size n ⟨s, g :: fs⟩ := by
  obtain ⟨owned, live⟩ := h
  constructor
  · simpa [held, List.filterMap_cons, free] using owned
  · simpa [pumps, List.filterMap_cons, idle] using live

/-- Every step keeps the buffers in their places. -/
lemma step {c c' : Config} (h : Buffers size n c) (quiet : Quiet c.stack) (st : Config.Step c c') :
    Buffers size n c' := by
  cases st with
  | exec ex =>
    cases ex with
    | @step s f fs => exact h.exec (exec_case s f) quiet.guard
  | send data _ => exact h.push rfl rfl
  | tick _ => exact h.push rfl rfl
  | receive _ mem => exact ⟨h.owned.handOver mem, h.live⟩
  | program ops tape _ => exact ⟨h.owned.callerOps ops, h.live⟩

/-- The buffers stay in order along every run of a fresh session. -/
lemma steps {mem : ℕ → BitVec 8} {clock : TscClock} {rtoNs : BitVec 64} {tape : Tape} {c : Config}
    (run : Config.Steps (Config.fresh (.new size n mem) clock rtoNs tape) c) :
    Buffers size n c ∧ Quiet c.stack := by
  induction run with
  | refl => exact ⟨⟨.new size n mem, .new _ _⟩, trivial⟩
  | tail _ st ih => exact ⟨ih.1.step ih.2 st, ih.2.step st⟩

/-- After `release_all`, run twice, every buffer that the caller does not hold is free. -/
lemma destroy {c : Config} (h : Buffers size n c) (idle : c.stack = []) :
    (∀ i < n, c.session.destroy.2.free.count i + c.session.pool.caller.count i = 1) ∧
    ∀ l, l <+: c.session.destroy.2.history → ∀ i, releases l i ≤ acquires l i ∧
      acquires l i ≤ releases l i + 1 := by
  have caller : ∀ (q : UnackedQueue) (p : BufferPool), (q.releaseAll p).2.caller = p.caller := by
    intro q p
    unfold UnackedQueue.releaseAll
    generalize List.finRange window = ks
    induction ks generalizing q p with
    | nil => rfl
    | cons k ks ih =>
      rw [List.foldl_cons]
      refine (ih _ _).trans ?_
      dsimp only
      split
      · cases (q.slots k).buf with
        | none => rfl
        | some b => rfl
      · rfl
  have first := h.owned.releaseAll
  have kept := caller c.session.unacked c.session.pool
  unfold TcpLiteSession.destroy
  dsimp only
  generalize c.session.unacked.releaseAll c.session.pool = qp at first kept ⊢
  rw [idle] at first
  have second := first.releaseAll
  have none : ∀ i, (qp.1.releaseAll qp.2).1.holds i = 0 := by
    intro i
    apply Finset.sum_eq_zero
    intro k _
    rw [UnackedQueue.releaseAll_slots]
    exact Slot.holds_clear _ i
  refine ⟨?_, second.balanced⟩
  intro i lt
  have once := second.once i
  rw [if_pos lt, none, caller, kept] at once
  simpa [held] using once

end Buffers

/-- Along every run of a fresh session, under arbitrary packets and with a `transmit_` that does not
call back, every buffer of the pool is in exactly one place: on the free list, in one occupied slot, or
with the caller (the buffer of an active `on_packet_received` call included). Every hand-over to
`on_packet_received` is matched by one release once the call is over; a buffer is released only after it
was acquired; the overwriting branch of `mark_sent` is never taken; and the destructor leaves every
buffer that the caller does not hold on the free list, once. -/
theorem buffers_in_one_place (size n : ℕ) (mem : ℕ → BitVec 8) (clock : TscClock)
    (rtoNs : BitVec 64) (tape : Tape) (c : Config)
    (run : Config.Steps (Config.fresh (.new size n mem) clock rtoNs tape) c) :
    (∀ i < n, c.session.pool.free.count i + c.session.unacked.holds i
      + (c.session.pool.caller.count i + (held c.stack).count i) = 1) ∧
    (∀ i, c.session.pool.handed.count i
      = returns c.session.pool.history i + (held c.stack).count i) ∧
    (∀ l, l <+: c.session.pool.history → ∀ i, releases l i ≤ acquires l i ∧
      acquires l i ≤ releases l i + 1) ∧
    (∀ i, .released .overwritten i ∉ c.session.pool.history) ∧
    (c.stack = [] →
      (∀ i < n, c.session.destroy.2.free.count i + c.session.pool.caller.count i = 1) ∧
      ∀ l, l <+: c.session.destroy.2.history → ∀ i, releases l i ≤ acquires l i ∧
        acquires l i ≤ releases l i + 1) := by
  obtain ⟨bufs, _⟩ := Buffers.steps run
  refine ⟨?_, bufs.owned.handed, bufs.owned.balanced, bufs.owned.kept, bufs.destroy⟩
  intro i lt
  have once := bufs.owned.once i
  rw [if_pos lt] at once
  omega

/-- A packet is unacknowledged in buffer 1, and its ACK in buffer 0 is in a call of `on_packet_received`. -/
theorem buffer_in_one_place_during_call :
    Config.ackGiven.session.unacked.holds 1 = 1 ∧ held Config.ackGiven.stack = [0] ∧
    ∀ i < 2, Config.ackGiven.session.pool.free.count i + Config.ackGiven.session.unacked.holds i
      + (Config.ackGiven.session.pool.caller.count i + (held Config.ackGiven.stack).count i) = 1 := by
  have reached := Config.ackRun_reached (c := .ackGiven) (List.mem_of_getElem? (i := 8) rfl)
  exact ⟨by decide +kernel, by decide +kernel,
    (buffers_in_one_place 17 2 _ .unit 0 .silent Config.ackGiven reached).1⟩

end UxNet.TcpLite
