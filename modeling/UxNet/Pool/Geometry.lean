import UxNet.Pool.FreeStack

/-!
# Construction of a buffer pool

The constructor of `BufferPool` (`buffer_pool.cpp`) in the 64-bit arithmetic of the source, on top of
`HugePageAllocator::allocate` and `allocate_on_node`. The process is passed along: its live mappings, which
`mmap` adds to, and the registry of `HugePageAllocator`. What `mmap` answers is given; a region it grants
has exactly the length that was asked for. The descriptors are counted from the start of their region, 64
bytes each, and the free list is the one of `FreeStack.lean`, used by one thread.

The only sizes that the constructor refuses are zeros. `Sound` is what its callers rely on.
-/

namespace UxNet

/-! ## The pushes of the constructor -/

namespace FreeStack.State

/-- The indices that are still to be pushed after the first `n` of `count`. -/
def waiting (n count : ℕ) : List (BitVec 32) := (List.range' n (count - n)).map (BitVec.ofNat 32)

/-- The pushes of the constructor. -/
def pushFirst (n : ℕ) (s : State Unit) : State Unit :=
  (List.range n).foldl (fun s i => s.pushBy () (BitVec.ofNat 32 i)) s

/-- The last push comes last. -/
lemma pushFirst_succ (n : ℕ) (s : State Unit) :
    s.pushFirst (n + 1) = (s.pushFirst n).pushBy () (BitVec.ofNat 32 n) := by
  rw [pushFirst, List.range_succ, List.foldl_append]
  rfl

/-- What is left after some of the pushes. -/
lemma pushFirst_run {n count : ℕ} (le : n ≤ count) (next : BitVec 32 → BitVec 32) :
    Steps (init count next fun _ => ()) (pushFirst n (init count next fun _ => ())) ∧
    (pushFirst n (init count next fun _ => ())).pc () = .idle ∧
    (pushFirst n (init count next fun _ => ())).held () = waiting n count ∧
    (pushFirst n (init count next fun _ => ())).size = BitVec.ofNat 32 n := by
  induction n with
  | zero =>
    refine ⟨.refl, rfl, ?_, rfl⟩
    refine (List.filter_eq_self.mpr fun _ _ => rfl).trans ?_
    rw [List.range_eq_range']
    rfl
  | succ n ih =>
    obtain ⟨run, idle, held, size⟩ := ih (by omega)
    -- the index about to be pushed is the first of those that wait
    have cons : waiting n count = BitVec.ofNat 32 n :: waiting (n + 1) count := by
      rw [waiting, show count - n = (count - (n + 1)) + 1 by omega, List.range'_succ]
      rfl
    rw [cons] at held
    rw [pushFirst_succ]
    generalize pushFirst n (init count next fun _ => ()) = s at run idle held size
    refine ⟨run.trans (pushBy_steps (.inl idle) ?_), rfl, ?_, ?_⟩
    · rw [held]
      exact List.mem_cons_self
    · show (s.held ()).erase _ = _
      rw [held, List.erase_cons_head]
    · show s.size + 1 = _
      rw [size, BitVec.ofNat_add]
      rfl

end FreeStack.State

namespace Geometry

/-! ## Constructor -/

/-- `HugePageAllocator::HUGE_PAGE_SIZE`. -/
def hugePageSize : BitVec 64 := 2 * 1024 * 1024

/-- `round_up`. -/
def roundUp (bytes multiple : BitVec 64) : BitVec 64 :=
  if bytes = 0 then multiple else (bytes + multiple - 1) / multiple * multiple

/-- A mapped region. -/
structure Region where
  base : BitVec 64
  length : BitVec 64

/-- What `mmap` answers, asked for huge pages and then for regular ones, and the text of `errno`. -/
structure MmapAnswer where
  huge : Option (BitVec 64)
  regular : Option (BitVec 64)
  errno : String

/-- `struct AllocationInfo`. -/
structure AllocationInfo where
  bytes : BitVec 64
  isHuge : Bool

/-- The memory of a process: its live mappings in the order they were made, and `registry()`. -/
structure Process where
  live : List Region
  registry : BitVec 64 → Option AllocationInfo

namespace Process

/-- `mmap` of some length, with its answer given. -/
def mmap (s : Process) (length : BitVec 64) : Option (BitVec 64) → Option (BitVec 64) × Process
  | some base => (some base, { s with live := s.live ++ [{ base := base, length := length }] })
  | none => (none, s)

/-- `registry()[p] = AllocationInfo{len, is_huge}`. -/
def register (s : Process) (p len : BitVec 64) (isHuge : Bool) : Process :=
  { s with registry := Function.update s.registry p (some { bytes := len, isHuge := isHuge }) }

/-- `HugePageAllocator::allocate`. -/
def allocate (s : Process) (bytes : BitVec 64) (forceHuge : Bool) (answer : MmapAnswer) :
    Except String Region × Process :=
  let len := roundUp bytes hugePageSize
  match s.mmap len answer.huge with
  | (some p, s) => (.ok { base := p, length := len }, s.register p len true)
  | (none, s) =>
    if forceHuge then (.error ("HugePageAllocator: huge-page mmap failed: " ++ answer.errno), s)
    else
      match s.mmap len answer.regular with
      | (some p, s) => (.ok { base := p, length := len }, s.register p len false)
      | (none, s) => (.error ("HugePageAllocator: fallback mmap failed: " ++ answer.errno), s)

/-- `allocate_on_node`. -/
def allocateOnNode (s : Process) (bytes : BitVec 64) (answer : MmapAnswer) : Option Region × Process :=
  match s.mmap bytes answer.huge with
  | (some p, s) => (some { base := p, length := bytes }, s)
  | (none, s) =>
    match s.mmap bytes answer.regular with
    | (some p, s) => (some { base := p, length := bytes }, s)
    | (none, s) => (none, s)

/-- `alloc_region`. -/
def allocRegion (s : Process) (bytes : BitVec 64) (node : ℤ) (answer : MmapAnswer) :
    Except String Region × Process :=
  if node ≠ -1 then
    match s.allocateOnNode bytes answer with
    | (some r, s) => (.ok r, s)
    | (none, s) => (.error "BufferPool: allocate_on_node failed", s)
  else s.allocate bytes false answer

end Process

/-- `struct BufferDescriptor`, without its padding. -/
structure BufferDescriptor where
  data : BitVec 64
  len : BitVec 32
  capacity : BitVec 32
  poolIndex : BitVec 32

/-- `class BufferPool`, as far as its constructor sets it up. -/
structure Pool where
  bufferSize : BitVec 64
  bufferCount : BitVec 64
  backing : Region
  descriptors : Region
  descriptor : ℕ → BufferDescriptor
  freeStack : FreeStack.State Unit

/-- One round of the loop of the constructor. -/
def Pool.initDescriptor (p : Pool) (i : ℕ) : Pool :=
  { p with
    descriptor := Function.update p.descriptor i
      { data := p.backing.base + BitVec.ofNat 64 i * p.bufferSize
        len := 0
        capacity := p.bufferSize.setWidth 32
        poolIndex := BitVec.ofNat 32 i }
    freeStack := p.freeStack.pushBy () (BitVec.ofNat 32 i) }

/-- `BufferPool::BufferPool`. -/
def Process.construct (s : Process) (bufferSize bufferCount : BitVec 64) (numaNode : ℤ)
    (first second : MmapAnswer) : Except String Pool × Process :=
  if bufferSize = 0 ∨ bufferCount = 0 then
    (.error "BufferPool: buffer_size and buffer_count must be non-zero", s)
  else
    match s.allocRegion (bufferSize * bufferCount) numaNode first with
    | (.error e, s) => (.error e, s)
    | (.ok backing, s) =>
      match s.allocRegion (bufferCount * 64) numaNode second with
      | (.error e, s) => (.error e, s)
      | (.ok descriptors, s) =>
        (.ok ((List.range bufferCount.toNat).foldl Pool.initDescriptor
          { bufferSize := bufferSize
            bufferCount := bufferCount
            backing := backing
            descriptors := descriptors
            descriptor := fun _ => { data := 0, len := 0, capacity := 0, poolIndex := 0 }
            freeStack := .init bufferCount.toNat (fun _ => 0) fun _ => () }), s)

/-- What the constructor returns or throws. The process has no part in it (`Process.construct_result`). -/
def Pool.construct (bufferSize bufferCount : BitVec 64) (numaNode : ℤ) (first second : MmapAnswer) :
    Except String Pool :=
  (Process.construct { live := [], registry := fun _ => none } bufferSize bufferCount numaNode first
    second).1

/-- `BufferPool::free_count`. -/
def Pool.freeCount (p : Pool) : BitVec 64 := p.freeStack.size.setWidth 64

/-- What a pool promises of its memory and its free list. -/
structure Pool.Sound (p : Pool) : Prop where
  descriptors : ∀ i < p.bufferCount.toNat, 64 * i + 64 ≤ p.descriptors.length.toNat
  inside : ∀ i < p.bufferCount.toNat, p.backing.base.toNat ≤ (p.descriptor i).data.toNat ∧
    (p.descriptor i).data.toNat + p.bufferSize.toNat ≤ p.backing.base.toNat + p.backing.length.toNat
  disjoint : ∀ i < p.bufferCount.toNat, ∀ j < p.bufferCount.toNat, i < j →
    (p.descriptor i).data.toNat + p.bufferSize.toNat ≤ (p.descriptor j).data.toNat ∨
    (p.descriptor j).data.toNat + p.bufferSize.toNat ≤ (p.descriptor i).data.toNat
  capacity : ∀ i < p.bufferCount.toNat, (p.descriptor i).capacity.toNat = p.bufferSize.toNat
  distinct : ∀ i < p.bufferCount.toNat, ∀ j < p.bufferCount.toNat, i < j →
    (p.descriptor i).poolIndex ≠ (p.descriptor j).poolIndex
  valid : ∀ i < p.bufferCount.toNat, (p.descriptor i).poolIndex ≠ FreeStack.kEmpty
  free : ∃ l, Linked p.freeStack.next FreeStack.kEmpty (FreeStack.indexOf p.freeStack.top) l ∧
    l.Nodup ∧ ∀ index, index ∈ l ↔ ∃ i < p.bufferCount.toNat, (p.descriptor i).poolIndex = index
  count : p.freeCount = p.bufferCount

/-! ## When a pool is sound -/

/-- Rounding up does not wrap below the last huge page. -/
lemma le_roundUp {bytes : BitVec 64} (room : bytes.toNat + 2 ^ 21 ≤ 2 ^ 64) :
    bytes.toNat ≤ (roundUp bytes hugePageSize).toNat := by
  unfold roundUp
  split
  · rename_i zero
    rw [zero]
    exact Nat.zero_le _
  · have page : hugePageSize.toNat = 2 ^ 21 := by decide
    have up : (bytes + hugePageSize - 1).toNat = bytes.toNat + (2 ^ 21 - 1) := by
      have e : bytes + hugePageSize - 1 = bytes + BitVec.ofNat 64 (2 ^ 21 - 1) := by
        rw [add_sub_assoc]
        rfl
      rw [e, BitVec.toNat_add, BitVec.toNat_ofNat, Nat.mod_eq_of_lt (by omega : 2 ^ 21 - 1 < 2 ^ 64),
        Nat.mod_eq_of_lt (by omega)]
    have lt := bytes.isLt
    rw [BitVec.toNat_mul, BitVec.toNat_udiv, up, page, Nat.mod_eq_of_lt]
    · omega
    · omega

/-- A region is at least as long as was asked for. -/
lemma Process.allocRegion_length {s : Process} {bytes : BitVec 64} {node : ℤ} {answer : MmapAnswer}
    {r : Region} (room : bytes.toNat + 2 ^ 21 ≤ 2 ^ 64)
    (ok : (s.allocRegion bytes node answer).1 = .ok r) : bytes.toNat ≤ r.length.toNat := by
  have rounded := le_roundUp room
  unfold allocRegion at ok
  split at ok
  · unfold allocateOnNode at ok
    cases huge : answer.huge with
    | some base =>
      simp only [huge, mmap, Except.ok.injEq] at ok
      rw [← ok]
    | none =>
      cases regular : answer.regular with
      | some base =>
        simp only [huge, regular, mmap, Except.ok.injEq] at ok
        rw [← ok]
      | none => simp [huge, regular, mmap] at ok
  · unfold allocate at ok
    cases huge : answer.huge with
    | some base =>
      simp only [huge, mmap, Except.ok.injEq] at ok
      rw [← ok]
      exact rounded
    | none =>
      cases regular : answer.regular with
      | some base =>
        simp only [huge, regular, mmap, Bool.false_eq_true, if_false, Except.ok.injEq] at ok
        rw [← ok]
        exact rounded
      | none => simp [huge, regular, mmap] at ok

namespace Pool

/-- The loop of the constructor writes each descriptor once and pushes its index. -/
lemma foldl_initDescriptor (p : Pool) (n : ℕ) :
    (List.range n).foldl initDescriptor p =
      { p with
        descriptor := fun i => if i < n then
          { data := p.backing.base + BitVec.ofNat 64 i * p.bufferSize, len := 0
            capacity := p.bufferSize.setWidth 32, poolIndex := BitVec.ofNat 32 i }
          else p.descriptor i
        freeStack := p.freeStack.pushFirst n } := by
  induction n with
  | zero =>
    simp
    rfl
  | succ n ih =>
    rw [List.range_succ, List.foldl_append, ih, FreeStack.State.pushFirst_succ]
    simp only [List.foldl_cons, List.foldl_nil, initDescriptor, mk.injEq, true_and, and_true]
    funext i
    rcases Nat.lt_trichotomy i n with lt | rfl | gt
    · rw [Function.update_of_ne (by omega), if_pos lt, if_pos (by omega)]
    · rw [Function.update_self, if_pos (Nat.lt_succ_self i)]
    · rw [Function.update_of_ne (by omega), if_neg (by omega), if_neg (by omega)]

/-- The state in which the constructor returns. -/
lemma construct_ok {size count : BitVec 64} {node : ℤ} {first second : MmapAnswer} {p : Pool}
    (ok : construct size count node first second = .ok p) :
    size ≠ 0 ∧ count ≠ 0 ∧ p.bufferSize = size ∧ p.bufferCount = count ∧
    (∃ s : Process, (s.allocRegion (size * count) node first).1 = .ok p.backing) ∧
    (∃ s : Process, (s.allocRegion (count * 64) node second).1 = .ok p.descriptors) ∧
    (∀ i < count.toNat, p.descriptor i =
      { data := p.backing.base + BitVec.ofNat 64 i * size, len := 0
        capacity := size.setWidth 32, poolIndex := BitVec.ofNat 32 i }) ∧
    p.freeStack = .pushFirst count.toNat (.init count.toNat (fun _ => 0) fun _ => ()) := by
  unfold construct Process.construct at ok
  split at ok
  · cases ok
  · rename_i zero
    rw [not_or] at zero
    rcases hb : Process.allocRegion ⟨[], fun _ => none⟩ (size * count) node first with ⟨e | backing, s₁⟩
    · simp only [hb, reduceCtorEq] at ok
    · rcases hd : s₁.allocRegion (count * 64) node second with ⟨e | descriptors, s₂⟩
      · simp only [hb, hd, reduceCtorEq] at ok
      · simp only [hb, hd, Except.ok.injEq] at ok
        rw [foldl_initDescriptor] at ok
        subst ok
        refine ⟨zero.1, zero.2, rfl, rfl, ⟨_, congrArg Prod.fst hb⟩, ⟨_, congrArg Prod.fst hd⟩, ?_, rfl⟩
        intro i lt
        exact if_pos lt

/-- A pool whose sizes and addresses have not wrapped. -/
structure Laid (p : Pool) : Prop where
  few : p.bufferCount.toNat < 2 ^ 32
  table : p.bufferCount.toNat * 64 ≤ p.descriptors.length.toNat
  room : p.bufferSize.toNat * p.bufferCount.toNat ≤ p.backing.length.toNat
  data : ∀ i < p.bufferCount.toNat,
    (p.descriptor i).data.toNat = p.backing.base.toNat + i * p.bufferSize.toNat
  capacity : ∀ i < p.bufferCount.toNat, (p.descriptor i).capacity.toNat = p.bufferSize.toNat
  index : ∀ i < p.bufferCount.toNat, (p.descriptor i).poolIndex.toNat = i

section Construct

variable {size count : BitVec 64} {node : ℤ} {first second : MmapAnswer} {p : Pool}

/-- The end of a buffer, counted from the start of the backing region. -/
lemma buffer_end_le {i n : ℕ} (size : ℕ) (lt : i < n) : i * size + size ≤ size * n :=
  calc i * size + size = size * (i + 1) := by ring
    _ ≤ size * n := Nat.mul_le_mul_left _ lt

/-- With a size and a count below `2 ^ 32` nothing wraps. -/
lemma construct_laid (ok : construct size count node first second = .ok p)
    (mapped : p.backing.base.toNat + p.backing.length.toNat ≤ 2 ^ 64) (hs : size.toNat < 2 ^ 32)
    (hc : count.toNat < 2 ^ 32) : p.Laid := by
  obtain ⟨size0, _, rfl, rfl, ⟨_, backing⟩, ⟨_, descriptors⟩, desc, _⟩ := construct_ok ok
  have le : p.bufferSize.toNat * p.bufferCount.toNat ≤ (2 ^ 32 - 1) * (2 ^ 32 - 1) :=
    Nat.mul_le_mul (by omega) (by omega)
  have bytes : (p.bufferSize * p.bufferCount).toNat = p.bufferSize.toNat * p.bufferCount.toNat := by
    rw [BitVec.toNat_mul, Nat.mod_eq_of_lt (by omega)]
  have tableBytes : (p.bufferCount * 64).toNat = p.bufferCount.toNat * 64 := by
    rw [BitVec.toNat_mul]
    exact Nat.mod_eq_of_lt (by show p.bufferCount.toNat * 64 < 2 ^ 64; omega)
  have room := Process.allocRegion_length (by omega) backing
  have table := Process.allocRegion_length (by omega) descriptors
  rw [bytes] at room
  rw [tableBytes] at table
  have pos : 0 < p.bufferSize.toNat := Nat.pos_of_ne_zero fun z => size0 (BitVec.eq_of_toNat_eq z)
  refine ⟨hc, table, room, ?_, ?_, ?_⟩
  · intro i lt
    have fits := buffer_end_le p.bufferSize.toNat lt
    rw [desc i lt, BitVec.toNat_add, BitVec.toNat_mul, BitVec.toNat_ofNat,
      Nat.mod_eq_of_lt (by omega : i < 2 ^ 64),
      Nat.mod_eq_of_lt (by omega : i * p.bufferSize.toNat < 2 ^ 64), Nat.mod_eq_of_lt (by omega)]
  · intro i lt
    rw [desc i lt]
    exact (BitVec.toNat_setWidth _ _).trans (Nat.mod_eq_of_lt hs)
  · intro i lt
    rw [desc i lt]
    exact (BitVec.toNat_ofNat _ _).trans (Nat.mod_eq_of_lt (by omega))

/-- The free list of a new pool has every index once, and is counted right. -/
lemma construct_free (ok : construct size count node first second = .ok p) (hc : count.toNat < 2 ^ 32) :
    (∃ l, Linked p.freeStack.next FreeStack.kEmpty (FreeStack.indexOf p.freeStack.top) l ∧ l.Nodup ∧
      ∀ k, k ∈ l ↔ k.toNat < p.bufferCount.toNat) ∧ p.freeCount = p.bufferCount := by
  obtain ⟨_, _, _, rfl, _, _, _, stack⟩ := construct_ok ok
  obtain ⟨run, _, held, pushed⟩ := FreeStack.State.pushFirst_run (le_refl p.bufferCount.toNat) fun _ => 0
  rw [← stack] at run held pushed
  obtain ⟨l, inv⟩ := FreeStack.Inv.steps hc run
  -- every index is on the list, since none is left to be pushed
  have none : p.freeStack.held () = [] := by
    rw [held, FreeStack.State.waiting, Nat.sub_self]
    rfl
  refine ⟨⟨l, inv.linked, inv.nodup, ?_⟩, ?_⟩
  · intro k
    rw [inv.total k]
    refine ⟨.inl, ?_⟩
    rintro (mem | ⟨_, mem⟩)
    · exact mem
    · rw [none] at mem
      cases mem
  · rw [freeCount, pushed]
    apply BitVec.eq_of_toNat_eq
    rw [BitVec.toNat_setWidth, BitVec.toNat_ofNat, Nat.mod_eq_of_lt hc,
      Nat.mod_eq_of_lt p.bufferCount.isLt]

end Construct

namespace Laid

variable {p : Pool} {i j : ℕ}

/-- Every buffer is inside the backing region. -/
lemma inside (h : p.Laid) (lt : i < p.bufferCount.toNat) :
    p.backing.base.toNat ≤ (p.descriptor i).data.toNat ∧
      (p.descriptor i).data.toNat + p.bufferSize.toNat
        ≤ p.backing.base.toNat + p.backing.length.toNat := by
  have fits := buffer_end_le p.bufferSize.toNat lt
  have room := h.room
  rw [h.data i lt]
  omega

/-- Buffers lie one after another. -/
lemma disjoint (h : p.Laid) (hi : i < p.bufferCount.toNat) (hj : j < p.bufferCount.toNat) (lt : i < j) :
    (p.descriptor i).data.toNat + p.bufferSize.toNat ≤ (p.descriptor j).data.toNat := by
  rw [h.data i hi, h.data j hj, Nat.add_assoc, Nat.mul_comm j]
  exact Nat.add_le_add_left (buffer_end_le _ lt) _

/-- No two descriptors have one index. -/
lemma distinct (h : p.Laid) (hi : i < p.bufferCount.toNat) (hj : j < p.bufferCount.toNat) (lt : i < j) :
    (p.descriptor i).poolIndex ≠ (p.descriptor j).poolIndex := by
  intro e
  have same := congrArg BitVec.toNat e
  rw [h.index i hi, h.index j hj] at same
  exact absurd same (Nat.ne_of_lt lt)

/-- No descriptor has the end mark for an index. -/
lemma valid (h : p.Laid) (lt : i < p.bufferCount.toNat) :
    (p.descriptor i).poolIndex ≠ FreeStack.kEmpty := by
  intro e
  have top := h.index i lt
  have few := h.few
  rw [e, show FreeStack.kEmpty.toNat = 2 ^ 32 - 1 from rfl] at top
  omega

/-- The numbers below the count are the indices of the descriptors. -/
lemma index_iff (h : p.Laid) (k : BitVec 32) :
    k.toNat < p.bufferCount.toNat ↔ ∃ i < p.bufferCount.toNat, (p.descriptor i).poolIndex = k := by
  constructor
  · exact fun lt => ⟨k.toNat, lt, BitVec.eq_of_toNat_eq (h.index _ lt)⟩
  · rintro ⟨i, lt, rfl⟩
    rw [h.index i lt]
    exact lt

end Laid

/-- For every size and count with which the constructor returns: the pool is sound exactly if both are
less than `2 ^ 32`. -/
theorem sound_iff (size count : BitVec 64) (node : ℤ) (first second : MmapAnswer) (p : Pool)
    (ok : construct size count node first second = .ok p)
    (mapped : p.backing.base.toNat + p.backing.length.toNat ≤ 2 ^ 64) :
    p.Sound ↔ size.toNat < 2 ^ 32 ∧ count.toNat < 2 ^ 32 := by
  constructor
  · intro sound
    obtain ⟨_, count0, hsize, hcount, _, _, desc, _⟩ := construct_ok ok
    have some : 0 < count.toNat := Nat.pos_of_ne_zero fun z => count0 (BitVec.eq_of_toNat_eq z)
    have capacity := sound.capacity 0 (by rw [hcount]; exact some)
    rw [desc 0 some, hsize, BitVec.toNat_setWidth] at capacity
    refine ⟨?_, ?_⟩
    · rw [← capacity]
      exact Nat.mod_lt _ (by omega)
    · -- the index before `2 ^ 32` is the end mark
      by_contra ge
      have last : 2 ^ 32 - 1 < count.toNat := by omega
      have valid := sound.valid (2 ^ 32 - 1) (by rw [hcount]; exact last)
      rw [desc _ last] at valid
      exact valid rfl
  · rintro ⟨hs, hc⟩
    have laid := construct_laid ok mapped hs hc
    obtain ⟨⟨l, linked, nodup, all⟩, counted⟩ := construct_free ok hc
    refine ⟨?_, fun i => laid.inside, fun i hi j hj lt => .inl (laid.disjoint hi hj lt), laid.capacity,
      fun i hi j hj => laid.distinct hi hj, fun i => laid.valid, ⟨l, linked, nodup, ?_⟩, counted⟩
    · intro i lt
      have table := laid.table
      omega
    · exact fun k => (all k).trans (laid.index_iff k)

end Pool

/-- `mmap` grants the request for huge pages, at some address. -/
def granted (base : BitVec 64) : MmapAnswer where
  huge := some base
  regular := none
  errno := ""

/-- Two buffers of 2048 bytes make a sound pool. -/
theorem sound_two_buffers :
    ∃ p, Pool.construct 2048 2 (-1) (granted 0x200000) (granted 0x400000) = .ok p ∧ p.Sound := by
  refine ⟨_, rfl, ?_⟩
  exact (Pool.sound_iff 2048 2 (-1) (granted 0x200000) (granted 0x400000) _ rfl (by decide)).mpr
    (by decide)

/-- Two buffers of `2 ^ 63` bytes: the product wraps to 0 and the constructor returns with a backing
region of 2 MB, a second buffer that starts `2 ^ 63` bytes behind the start of that region, and a capacity
of 0. -/
theorem wrapped_pool_constructed :
    ∃ p, Pool.construct 0x8000000000000000 2 (-1) (granted 0x200000) (granted 0x400000) = .ok p ∧
      p.backing.length.toNat = 2 ^ 21 ∧
      (p.descriptor 1).data.toNat = p.backing.base.toNat + 2 ^ 63 ∧
      (p.descriptor 1).capacity = 0 ∧ ¬ p.Sound := by
  refine ⟨_, rfl, by decide, by decide, by decide, ?_⟩
  intro sound
  have capacity := sound.capacity 1 (by decide)
  exact absurd capacity (by decide)

end Geometry

end UxNet
