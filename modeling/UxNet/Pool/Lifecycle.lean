import UxNet.Lib.Paging
import UxNet.Pool.Construction

/-!
# Pools that come and go

A process that constructs and destroys buffer pools, with the pages that the kernel has mapped for it. The
constructor is the one of `Construction.lean`, started with no mappings on record, so that those it has made
are on record when it returns; `free_region`, `HugePageAllocator::deallocate` and the destructor are added.

A pool on no particular node unmaps what the registry says, which is a multiple of the size of a huge page.
A pool on a node unmaps the length that it has asked for and does not look at the result: if it was given
huge pages and its length is not made of such pages, the kernel refuses and the pages stay (`Block.Stuck`).
-/

namespace UxNet.Lifecycle

open UxNet.Geometry UxNet.Paging

/-- The pages of a process, and `registry()`. -/
structure Machine where
  pages : Space
  registry : BitVec 64 → Option AllocationInfo

/-- A region that `alloc_region` has got, whether of huge pages, and whether on a node. -/
structure Block where
  region : Region
  huge : Bool
  bound : Bool

/-- The mapping of a region. -/
def Block.area (b : Block) : Area where
  base := b.region.base.toNat
  length := b.region.length.toNat
  huge := b.huge

/-- The destructor does not get rid of the region. -/
def Block.Stuck (b : Block) : Prop :=
  b.bound = true ∧ b.huge = true ∧ ¬ hugeSize ∣ up pageSize b.region.length.toNat

instance (b : Block) : Decidable b.Stuck := inferInstanceAs (Decidable (_ ∧ _ ∧ _))

/-- What the region's allocation does to the registry. -/
def Block.register (b : Block) (registry : BitVec 64 → Option AllocationInfo) :
    BitVec 64 → Option AllocationInfo :=
  if b.bound then registry
  else Function.update registry b.region.base (some { bytes := b.region.length, isHuge := b.huge })

/-- The regions that a constructor has got. -/
def made (live : List Region) (node : ℤ) (first second : MmapAnswer) : List Block :=
  (live.zip [first.huge.isSome, second.huge.isSome]).map fun x =>
    { region := x.1, huge := x.2, bound := node ≠ -1 }

namespace Machine

/-- `BufferPool::BufferPool`, with the pages mapped. -/
def construct (m : Machine) (bufferSize bufferCount : BitVec 64) (numaNode : ℤ)
    (first second : MmapAnswer) : Except String Pool × Machine :=
  match Process.construct { live := [], registry := m.registry } bufferSize bufferCount numaNode first
    second with
  | (result, s) =>
    (result,
      { pages := (made s.live numaNode first second).foldl (fun σ b => σ.map b.area) m.pages
        registry := s.registry })

/-- `munmap`, if it is not refused. -/
def munmap (m : Machine) (ptr len : BitVec 64) : Option Machine :=
  (m.pages.unmap ptr.toNat len.toNat).map fun pages => { m with pages := pages }

/-- `HugePageAllocator::deallocate`. -/
def deallocate (m : Machine) (ptr : BitVec 64) : Except String Unit × Machine :=
  if ptr = 0 then (.ok (), m)
  else
    match m.registry ptr with
    | none => (.error "HugePageAllocator: deallocate of untracked pointer", m)
    | some info =>
      let erased := { m with registry := Function.update m.registry ptr none }
      match erased.munmap ptr info.bytes with
      | some m' => (.ok (), m')
      | none => (.error "HugePageAllocator: munmap failed: Invalid argument", erased)

/-- `free_region`. -/
def freeRegion (m : Machine) (ptr bytes : BitVec 64) (node : ℤ) : Except String Unit × Machine :=
  if ptr = 0 then (.ok (), m)
  else if node ≠ -1 then (.ok (), (m.munmap ptr bytes).getD m)
  else m.deallocate ptr

/-- `BufferPool::~BufferPool`. -/
def destroy (m : Machine) (p : Pool) (numaNode : ℤ) : Except String Unit × Machine :=
  match m.freeRegion p.backing.base (p.bufferSize * p.bufferCount) numaNode with
  | (.error e, m) => (.error e, m)
  | (.ok (), m) => m.freeRegion p.descriptors.base (p.bufferCount * 64) numaNode

/-- The regions that a call of the constructor gets. -/
def blocks (m : Machine) (bufferSize bufferCount : BitVec 64) (numaNode : ℤ)
    (first second : MmapAnswer) : List Block :=
  made (Process.construct { live := [], registry := m.registry } bufferSize bufferCount numaNode first
    second).2.live numaNode first second

/-- A region is mapped, and registered unless it is on a node. -/
def add (m : Machine) (b : Block) : Machine where
  pages := m.pages.map b.area
  registry := b.register m.registry

/-- What is in the registry is mapped, and huge pages are whole. -/
structure Sane (m : Machine) : Prop where
  whole : m.pages.Whole
  registered : ∀ ptr, m.registry ptr ≠ none → m.pages (ptr.toNat / pageSize) ≠ none

end Machine

/-! ## What the constructor gets -/

/-- The kernel grants regions one after another. -/
def Grants (σ : Space) : List Block → Prop
  | [] => True
  | b :: bs => σ.Fresh b.area ∧ b.region.base ≠ 0 ∧ Grants (σ.map b.area) bs

/-- A length that was rounded up to huge pages. -/
lemma hugeSize_dvd_roundUp (bytes : BitVec 64) : hugeSize ∣ (roundUp bytes hugePageSize).toNat := by
  have page : hugePageSize.toNat = hugeSize := by decide
  unfold roundUp
  split
  · rw [page]
  · have low : (bytes + hugePageSize - 1).toNat / hugeSize * hugeSize < 2 ^ 64 :=
      (Nat.div_mul_le_self _ _).trans_lt (BitVec.isLt _)
    rw [BitVec.toNat_mul, BitVec.toNat_udiv, page, Nat.mod_eq_of_lt low]
    exact Dvd.intro_left _ rfl

/-- The region that `alloc_region` gets, and what it does to the registry. -/
lemma allocRegion_granted (s : Process) (bytes : BitVec 64) (node : ℤ) {answer : MmapAnswer}
    (granted : answer.Granted) : ∃ r : Region,
      (node ≠ -1 → r.length = bytes) ∧ (node = -1 → hugeSize ∣ r.length.toNat) ∧
      s.allocRegion bytes node answer = (.ok r,
        { live := s.live ++ [r]
          registry := Block.register ⟨r, answer.huge.isSome, decide (node ≠ -1)⟩ s.registry }) := by
  by_cases bound : node = -1
  · refine ⟨⟨(answer.huge.or answer.regular).getD 0, roundUp bytes hugePageSize⟩, fun ne => absurd bound ne,
      fun _ => hugeSize_dvd_roundUp bytes, ?_⟩
    cases huge : answer.huge with
    | some p =>
      simp [Process.allocRegion, Process.allocate, Process.mmap, Process.register, Block.register, bound,
        huge]
    | none =>
      obtain ⟨p, regular⟩ : ∃ p, answer.regular = some p := by
        simpa [MmapAnswer.Granted, huge, Option.isSome_iff_exists] using granted
      simp [Process.allocRegion, Process.allocate, Process.mmap, Process.register, Block.register, bound,
        huge, regular]
  · refine ⟨⟨(answer.huge.or answer.regular).getD 0, bytes⟩, fun _ => rfl, fun e => absurd e bound, ?_⟩
    cases huge : answer.huge with
    | some p =>
      simp [Process.allocRegion, Process.allocateOnNode, Process.mmap, Block.register, bound, huge]
    | none =>
      obtain ⟨p, regular⟩ : ∃ p, answer.regular = some p := by
        simpa [MmapAnswer.Granted, huge, Option.isSome_iff_exists] using granted
      simp [Process.allocRegion, Process.allocateOnNode, Process.mmap, Block.register, bound, huge, regular]

/-- What a call of the constructor has got when it returns or throws, and what it has done with it. -/
lemma construct_spec (m : Machine) (size count : BitVec 64) (node : ℤ) (first second : MmapAnswer) :
    (m.construct size count node first second).2
      = (m.blocks size count node first second).foldl Machine.add m ∧
    (∀ b ∈ m.blocks size count node first second, b.bound = false → hugeSize ∣ b.region.length.toNat) ∧
    ∀ p, (m.construct size count node first second).1 = .ok p →
      m.blocks size count node first second
        = [⟨p.backing, first.huge.isSome, decide (node ≠ -1)⟩,
          ⟨p.descriptors, second.huge.isSome, decide (node ≠ -1)⟩] ∧
      (node ≠ -1 → p.backing.length = p.bufferSize * p.bufferCount ∧
        p.descriptors.length = p.bufferCount * 64) := by
  have rounded : ∀ {r : Region} {huge : Bool}, (node = -1 → hugeSize ∣ r.length.toNat) →
      Block.bound ⟨r, huge, decide (node ≠ -1)⟩ = false → hugeSize ∣ r.length.toNat := by
    intro r huge whole free
    exact whole (by simpa using free)
  unfold Machine.blocks Machine.construct Process.construct
  by_cases zero : size = 0 ∨ count = 0
  · rw [if_pos zero]
    exact ⟨rfl, nofun, nofun⟩
  · rw [if_neg zero]
    by_cases granted : first.Granted
    · obtain ⟨backing, asked, whole, run⟩ :=
        allocRegion_granted ⟨[], m.registry⟩ (size * count) node granted
      rw [run]
      by_cases granted' : second.Granted
      · obtain ⟨descriptors, asked', whole', run'⟩ := allocRegion_granted
          ⟨[] ++ [backing], Block.register ⟨backing, first.huge.isSome, decide (node ≠ -1)⟩ m.registry⟩
          (count * 64) node granted'
        simp only [run', Pool.foldl_initDescriptor]
        refine ⟨rfl, ?_, ?_⟩
        · intro b mem
          rcases List.mem_cons.mp mem with rfl | mem
          · exact rounded whole
          · rw [List.mem_singleton.mp mem]
            exact rounded whole'
        · rintro p e
          cases e
          exact ⟨rfl, fun bound => ⟨asked bound, asked' bound⟩⟩
      · obtain ⟨e, refuse⟩ := Process.allocRegion_refused (count * 64) node granted'
        simp only [refuse]
        refine ⟨rfl, ?_, nofun⟩
        intro b mem
        rw [List.mem_singleton.mp mem]
        exact rounded whole
    · obtain ⟨e, refuse⟩ := Process.allocRegion_refused (size * count) node granted
      rw [refuse]
      exact ⟨rfl, nofun, nofun⟩

/-! ## What the process holds -/

/-- What a process holds besides what it held at the start. -/
structure Kept (start m : Machine) (blocks : List Block) : Prop where
  ledger : Ledger start.pages m.pages (blocks.map Block.area)
  proper : ∀ b ∈ blocks, b.region.base ≠ 0 ∧ (b.bound = false → hugeSize ∣ b.region.length.toNat)
  entry : ∀ b ∈ blocks, b.bound = false →
    m.registry b.region.base = some { bytes := b.region.length, isHuge := b.huge }
  others : ∀ ptr, m.registry ptr ≠ start.registry ptr → ∃ b ∈ blocks, b.bound = false ∧ b.region.base = ptr

namespace Kept

variable {start m : Machine} {b : Block} {blocks blocks' : List Block}

/-- At the start nothing is held. -/
lemma nil (sane : start.Sane) : Kept start start [] where
  ledger := .nil sane.whole
  proper := nofun
  entry := nofun
  others := fun _ ne => absurd rfl ne

/-- The order of the blocks does not matter. -/
lemma perm (h : Kept start m blocks) (same : blocks.Perm blocks') : Kept start m blocks' where
  ledger := h.ledger.perm (same.map _)
  proper := fun b mem => h.proper b (same.mem_iff.mpr mem)
  entry := fun b mem => h.entry b (same.mem_iff.mpr mem)
  others := by
    intro ptr ne
    obtain ⟨b, mem, rest⟩ := h.others ptr ne
    exact ⟨b, same.mem_iff.mp mem, rest⟩

/-- The first page of a region is mapped, and was not at the start. -/
lemma first (h : Kept start m blocks) (mem : b ∈ blocks) :
    m.pages (b.region.base.toNat / pageSize) = some b.huge ∧
      start.pages (b.region.base.toNat / pageSize) = none := by
  have there := List.mem_map_of_mem (f := Block.area) mem
  obtain ⟨pos, aligned⟩ := h.ledger.proper b.area there
  exact h.ledger.mapped b.area there _ (Area.has_first pos aligned)

/-- A fresh block is held. -/
lemma add (h : Kept start m blocks) (fresh : m.pages.Fresh b.area) (nonnull : b.region.base ≠ 0)
    (rounded : b.bound = false → hugeSize ∣ b.region.length.toNat) :
    Kept start (m.add b) (b :: blocks) := by
  have free : m.pages (b.region.base.toNat / pageSize) = none :=
    fresh.free _ (Area.has_first fresh.length fresh.aligned)
  have elsewhere : ∀ b' ∈ blocks, b'.region.base ≠ b.region.base := by
    intro b' mem e
    have mapped := (h.first mem).1
    rw [e, free] at mapped
    cases mapped
  constructor
  · exact h.ledger.map fresh
  · intro b' mem
    rcases List.mem_cons.mp mem with rfl | mem
    · exact ⟨nonnull, rounded⟩
    · exact h.proper b' mem
  · intro b' mem unbound
    show b.register m.registry b'.region.base = _
    unfold Block.register
    rcases List.mem_cons.mp mem with rfl | mem
    · simp [unbound]
    · split
      · exact h.entry b' mem unbound
      · rw [Function.update_of_ne (elsewhere b' mem)]
        exact h.entry b' mem unbound
  · intro ptr ne
    have ne : b.register m.registry ptr ≠ start.registry ptr := ne
    unfold Block.register at ne
    split at ne
    · obtain ⟨b', mem, rest⟩ := h.others ptr ne
      exact ⟨b', List.mem_cons_of_mem _ mem, rest⟩
    · rename_i unbound
      by_cases here : ptr = b.region.base
      · exact ⟨b, List.mem_cons_self, by simpa using unbound, here.symm⟩
      · rw [Function.update_of_ne here] at ne
        obtain ⟨b', mem, rest⟩ := h.others ptr ne
        exact ⟨b', List.mem_cons_of_mem _ mem, rest⟩

/-- The regions that a constructor gets. -/
lemma foldl_add {new : List Block} (h : Kept start m blocks) (granted : Grants m.pages new)
    (rounded : ∀ b ∈ new, b.bound = false → hugeSize ∣ b.region.length.toNat) :
    Kept start (new.foldl Machine.add m) (new ++ blocks) := by
  induction new generalizing m blocks with
  | nil => exact h
  | cons b new ih =>
    obtain ⟨fresh, nonnull, granted⟩ := granted
    have added := h.add fresh nonnull (rounded b List.mem_cons_self)
    refine (ih added granted fun b' mem => rounded b' (List.mem_cons_of_mem _ mem)).perm ?_
    exact List.perm_middle

/-- What is left of a region after `free_region`. -/
def leftover (b : Block) : List Block := if b.Stuck then [b] else []

/-- A region on no particular node is given back. -/
lemma deallocate (h : Kept start m (b :: blocks)) (sane : start.Sane) (unbound : b.bound = false) :
    ∃ m', m.deallocate b.region.base = (.ok (), m') ∧ Kept start m' blocks := by
  obtain ⟨nonnull, rounded⟩ := h.proper b List.mem_cons_self
  have entry := h.entry b List.mem_cons_self unbound
  have pos : 0 < b.region.length.toNat := (h.ledger.proper b.area List.mem_cons_self).1
  have dvd := rounded unbound
  -- a length of whole huge pages takes just that, in pages of either kind
  have all : up pageSize b.region.length.toNat = b.area.size := by
    have page : pageSize ∣ b.region.length.toNat := (Dvd.intro_left 512 rfl : pageSize ∣ hugeSize).trans dvd
    have grain : grain b.huge ∣ b.region.length.toNat := by
      cases b.huge with
      | false => exact page
      | true => exact dvd
    exact (up_eq_self (by decide) page).trans (up_eq_self (grain_pos _) grain).symm
  obtain ⟨pages, ran, ledger⟩ := h.ledger.unmap pos all
  have ran : m.pages.unmap b.region.base.toNat b.region.length.toNat = some pages := ran
  have elsewhere : ∀ b' ∈ blocks, b'.region.base ≠ b.region.base := by
    intro b' mem e
    obtain ⟨apart, _⟩ := List.pairwise_cons.mp h.ledger.apart
    have there := List.mem_map_of_mem (f := Block.area) mem
    obtain ⟨pos, aligned⟩ := h.ledger.proper b.area List.mem_cons_self
    obtain ⟨pos', aligned'⟩ := h.ledger.proper b'.area (List.mem_cons_of_mem _ there)
    have has' := Area.has_first pos' aligned'
    rw [show b'.area.base = b.area.base from congrArg BitVec.toNat e] at has'
    exact apart b'.area there _ (Area.has_first pos aligned) has'
  refine ⟨⟨pages, Function.update m.registry b.region.base none⟩, ?_, ?_⟩
  · simp only [Machine.deallocate, if_neg nonnull, entry, Machine.munmap, ran, Option.map_some]
  · constructor
    · exact ledger
    · exact fun b' mem => h.proper b' (List.mem_cons_of_mem _ mem)
    · intro b' mem unbound'
      show Function.update m.registry b.region.base none b'.region.base = _
      rw [Function.update_of_ne (elsewhere b' mem)]
      exact h.entry b' (List.mem_cons_of_mem _ mem) unbound'
    · intro ptr ne
      have ne : Function.update m.registry b.region.base none ptr ≠ start.registry ptr := ne
      by_cases here : ptr = b.region.base
      · subst here
        rw [Function.update_self] at ne
        exact absurd (h.first List.mem_cons_self).2 (sane.registered _ ne.symm)
      · rw [Function.update_of_ne here] at ne
        obtain ⟨b', mem, unbound', e⟩ := h.others ptr ne
        rcases List.mem_cons.mp mem with rfl | mem
        · exact absurd e.symm here
        · exact ⟨b', mem, unbound', e⟩

/-- `munmap` of a region on a node. -/
lemma munmap (h : Kept start m (b :: blocks)) (bound : b.bound = true) :
    Kept start ((m.munmap b.region.base b.region.length).getD m) (leftover b ++ blocks) := by
  have pos : 0 < b.region.length.toNat := (h.ledger.proper b.area List.mem_cons_self).1
  unfold leftover
  split
  · rename_i stuck
    obtain ⟨_, huge, part⟩ := stuck
    have less : up pageSize b.region.length.toNat < b.area.size := by
      apply lt_of_le_of_ne (up_pageSize_le _ _)
      intro e
      apply part
      have dvd := b.area.grain_dvd_size
      rw [show b.area.huge = true from huge] at dvd
      rw [e]
      exact dvd
    have refused := h.ledger.unmap_refused List.mem_cons_self huge less part
    have refused : m.pages.unmap b.region.base.toNat b.region.length.toNat = none := refused
    rw [Machine.munmap, refused]
    exact h
  · rename_i free
    have all : up pageSize b.region.length.toNat = b.area.size := by
      show _ = up (grain b.huge) _
      cases huge : b.huge with
      | false => rfl
      | true =>
        apply up_hugeSize_eq
        by_contra part
        exact free ⟨bound, huge, part⟩
    obtain ⟨pages, ran, ledger⟩ := h.ledger.unmap pos all
    have ran : m.pages.unmap b.region.base.toNat b.region.length.toNat = some pages := ran
    rw [Machine.munmap, ran]
    constructor
    · exact ledger
    · exact fun b' mem => h.proper b' (List.mem_cons_of_mem _ mem)
    · exact fun b' mem => h.entry b' (List.mem_cons_of_mem _ mem)
    · intro ptr ne
      obtain ⟨b', mem, unbound, e⟩ := h.others ptr ne
      rcases List.mem_cons.mp mem with rfl | mem
      · rw [bound] at unbound
        cases unbound
      · exact ⟨b', mem, unbound, e⟩

/-- `free_region` never throws. -/
lemma freeRegion (h : Kept start m (b :: blocks)) (sane : start.Sane) {node : ℤ} {bytes : BitVec 64}
    (kind : b.bound = decide (node ≠ -1)) (asked : node ≠ -1 → b.region.length = bytes) :
    ∃ m', m.freeRegion b.region.base bytes node = (.ok (), m') ∧ Kept start m' (leftover b ++ blocks) := by
  have nonnull := (h.proper b List.mem_cons_self).1
  unfold Machine.freeRegion
  rw [if_neg nonnull]
  by_cases bound : node = -1
  · have unbound : b.bound = false := by simpa [bound] using kind
    have gone : leftover b = [] := if_neg fun stuck => Bool.false_ne_true (unbound.symm.trans stuck.1)
    rw [if_neg (not_not.mpr bound), gone]
    exact h.deallocate sane unbound
  · rw [if_pos bound, ← asked bound]
    exact ⟨_, rfl, h.munmap (by simpa [bound] using kind)⟩

end Kept

/-! ## Runs -/

/-- A pool that is in use, and the kind of pages of its two regions. -/
structure Live where
  pool : Pool
  node : ℤ
  hugeBacking : Bool
  hugeDescriptors : Bool

/-- The regions of a pool. -/
def Live.blocks (p : Live) : List Block :=
  [⟨p.pool.backing, p.hugeBacking, decide (p.node ≠ -1)⟩,
    ⟨p.pool.descriptors, p.hugeDescriptors, decide (p.node ≠ -1)⟩]

/-- A process with its pools, and the regions that no pool has any more. -/
structure State where
  machine : Machine
  pools : List Live
  leaked : List Block

namespace State

/-- A process without pools. -/
def init (start : Machine) : State where
  machine := start
  pools := []
  leaked := []

/-- A pool is constructed, or not, or destroyed. -/
inductive Step : State → State → Prop where
  | construct {s p m} (size count : BitVec 64) (node : ℤ) (first second : MmapAnswer) :
    Grants s.machine.pages (s.machine.blocks size count node first second) →
    s.machine.construct size count node first second = (.ok p, m) →
    Step s { s with
      machine := m
      pools := ⟨p, node, first.huge.isSome, second.huge.isSome⟩ :: s.pools }
  | threw {s e m} (size count : BitVec 64) (node : ℤ) (first second : MmapAnswer) :
    Grants s.machine.pages (s.machine.blocks size count node first second) →
    s.machine.construct size count node first second = (.error e, m) →
    Step s { s with
      machine := m
      leaked := s.machine.blocks size count node first second ++ s.leaked }
  | destroy {s p before after result m} :
    s.pools = before ++ p :: after →
    s.machine.destroy p.pool p.node = (result, m) →
    Step s
      { machine := m
        pools := before ++ after
        leaked := p.blocks.flatMap Kept.leftover ++ s.leaked }

/-- Any number of steps. -/
abbrev Steps : State → State → Prop := Relation.ReflTransGen Step

/-- Every region of the process. -/
def blocks (s : State) : List Block := s.leaked ++ s.pools.flatMap Live.blocks

end State

/-- What holds between any two steps. -/
structure Inv (start : Machine) (s : State) : Prop where
  kept : Kept start s.machine s.blocks
  asked : ∀ p ∈ s.pools, p.node ≠ -1 → p.pool.backing.length = p.pool.bufferSize * p.pool.bufferCount ∧
    p.pool.descriptors.length = p.pool.bufferCount * 64

namespace Inv

variable {start : Machine} {s s' : State}

/-- The destructor of a pool that is in use. -/
lemma destroy (h : Inv start s) (sane : start.Sane) {p : Live} {before after : List Live}
    (there : s.pools = before ++ p :: after) :
    ∃ m, s.machine.destroy p.pool p.node = (.ok (), m) ∧
      Kept start m (p.blocks.flatMap Kept.leftover ++ s.leaked ++ (before ++ after).flatMap Live.blocks) := by
  have asked := h.asked p (by rw [there]; simp)
  have kept : Kept start s.machine
      (p.blocks ++ (s.leaked ++ (before ++ after).flatMap Live.blocks)) := by
    refine h.kept.perm ?_
    rw [State.blocks, there, List.flatMap_append, List.flatMap_cons, List.flatMap_append]
    have swap := List.perm_append_comm_assoc (before.flatMap Live.blocks) p.blocks (after.flatMap Live.blocks)
    exact (swap.append_left s.leaked).trans (List.perm_append_comm_assoc _ _ _)
  obtain ⟨m₁, run₁, kept₁⟩ := kept.freeRegion sane rfl fun bound => (asked bound).1
  have kept₁ := kept₁.perm List.perm_middle
  obtain ⟨m₂, run₂, kept₂⟩ := kept₁.freeRegion sane rfl fun bound => (asked bound).2
  refine ⟨m₂, ?_, kept₂.perm ?_⟩
  · simp only [Machine.destroy, run₁, run₂]
  · simp only [Live.blocks, List.flatMap_cons, List.flatMap_nil, List.append_nil, List.append_assoc]
    exact List.perm_append_comm_assoc _ _ _

/-- Every step keeps the books. -/
lemma step (h : Inv start s) (sane : start.Sane) (st : State.Step s s') : Inv start s' := by
  cases st with
  | @construct p m size count node first second granted ran =>
    obtain ⟨memory, rounded, ok⟩ := construct_spec s.machine size count node first second
    rw [ran] at memory ok
    obtain ⟨blocks, asked⟩ := ok p rfl
    refine ⟨?_, ?_⟩
    · have kept := h.kept.foldl_add granted rounded
      rw [← memory, blocks] at kept
      refine kept.perm ?_
      show (_ ++ (s.leaked ++ _)).Perm (s.leaked ++ (_ ++ _))
      exact List.perm_append_comm_assoc _ _ _
    · intro p' mem
      rcases List.mem_cons.mp mem with rfl | mem
      · exact asked
      · exact h.asked p' mem
  | @threw e m size count node first second granted ran =>
    obtain ⟨memory, rounded, _⟩ := construct_spec s.machine size count node first second
    rw [ran] at memory
    refine ⟨?_, h.asked⟩
    have kept := h.kept.foldl_add granted rounded
    rw [← memory, State.blocks, ← List.append_assoc] at kept
    exact kept
  | @destroy p before after result m there ran =>
    obtain ⟨m', ran', kept⟩ := h.destroy sane there
    obtain ⟨_, rfl⟩ := Prod.mk.inj (ran.symm.trans ran')
    refine ⟨kept, ?_⟩
    intro p' mem
    apply h.asked
    rw [there]
    rcases List.mem_append.mp mem with mem | mem
    · exact List.mem_append_left _ mem
    · exact List.mem_append_right _ (List.mem_cons_of_mem _ mem)

/-- So does every run. -/
lemma steps (sane : start.Sane) (run : State.Steps (.init start) s) : Inv start s := by
  induction run with
  | refl => exact ⟨.nil sane, nofun⟩
  | tail _ st ih => exact ih.step sane st

end Inv

/-- Pools come and go in any order, on a node or not, with huge pages or not, and some constructors throw. The
destructor of a pool never throws. A page is mapped otherwise than at the start exactly if it is one of a
pool in use, where it is always mapped, or one that is leaked: of a constructor that threw after its first
region, or of a pool on a node whose length, in pages of 4 KB, does not make up whole huge pages that it was
given. Without such regions and with no pool left the process is as it was at the start. -/
theorem pools_return_memory (start : Machine) (sane : start.Sane) (s : State)
    (run : State.Steps (.init start) s) :
    (∀ p ∈ s.pools, (s.machine.destroy p.pool p.node).1 = .ok ()) ∧
    (∀ p ∈ s.pools, ∀ b ∈ p.blocks, ∀ pg, b.area.Has pg → s.machine.pages pg = some b.huge) ∧
    (∀ pg, s.machine.pages pg ≠ start.pages pg ↔ ∃ b ∈ s.blocks, b.area.Has pg) ∧
    (s.blocks.Pairwise fun b b' => ∀ pg, b.area.Has pg → ¬ b'.area.Has pg) ∧
    (s.pools = [] → s.leaked = [] → s.machine = start) := by
  have h := Inv.steps sane run
  have there : ∀ b ∈ s.blocks, b.area ∈ s.blocks.map Block.area := fun b mem => List.mem_map_of_mem mem
  refine ⟨?_, ?_, ?_, ?_, ?_⟩
  · intro p mem
    obtain ⟨before, after, split⟩ := List.append_of_mem mem
    obtain ⟨m, ran, _⟩ := h.destroy sane split
    rw [ran]
  · intro p mem b mem' pg has
    have all : b ∈ s.blocks := List.mem_append_right _ (List.mem_flatMap_of_mem mem mem')
    exact (h.kept.ledger.mapped b.area (there b all) pg has).1
  · intro pg
    constructor
    · intro ne
      by_contra none
      apply ne
      apply h.kept.ledger.rest
      intro a mem has
      obtain ⟨b, mem', rfl⟩ := List.mem_map.mp mem
      exact none ⟨b, mem', has⟩
    · rintro ⟨b, mem, has⟩ e
      obtain ⟨now, before⟩ := h.kept.ledger.mapped b.area (there b mem) pg has
      rw [e, before] at now
      cases now
  · exact List.pairwise_map.mp h.kept.ledger.apart
  · intro pools leaked
    have kept := h.kept
    rw [State.blocks, pools, leaked] at kept
    have pages := kept.ledger.eq_start
    have registry : s.machine.registry = start.registry := by
      funext ptr
      by_contra ne
      obtain ⟨b, mem, _⟩ := kept.others ptr ne
      cases mem
    cases machine : s.machine with
    | mk pages' registry' =>
      rw [machine] at pages registry
      cases start
      exact congrArg₂ Machine.mk pages registry

/-- A process with nothing in it. -/
def Machine.empty : Machine where
  pages := fun _ => none
  registry := fun _ => none

/-- A pool of two buffers on node 0 is given huge pages. After it is destroyed they are still mapped. -/
theorem pools_return_memory_but_stuck : ∃ s, State.Steps (.init .empty) s ∧ s.pools = [] ∧
    s.machine.pages 512 ≠ none := by
  have sane : Machine.empty.Sane := ⟨fun _ _ _ => nofun, fun _ ne => absurd rfl ne⟩
  have second : (Machine.empty.pages.map ⟨0x200000, 4096, true⟩).Fresh ⟨0x400000, 128, true⟩ := by
    refine ⟨by decide, by decide, ?_⟩
    intro pg has
    have low : 0x400000 ≤ pg * 4096 := has.1
    apply Space.map_of_not
    intro has'
    have high : pg * 4096 < 0x400000 := has'.2
    omega
  have run : State.Steps (.init .empty) _ :=
    .head (.construct 2048 2 0 (granted 0x200000) (granted 0x400000)
      ⟨⟨by decide, by decide, fun _ _ => rfl⟩, by decide, second, by decide, trivial⟩ rfl) <|
    .head (@State.Step.destroy _ _ [] [] _ _ rfl rfl) .refl
  have pages := ((pools_return_memory .empty sane _ run).2.2.1 512).mpr
    ⟨_, List.mem_cons_self, by decide, by decide⟩
  exact ⟨_, run, rfl, pages⟩

end UxNet.Lifecycle
