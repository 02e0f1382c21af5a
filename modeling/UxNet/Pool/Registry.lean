import UxNet.Lib.Places
import UxNet.Pool.Construction

/-!
# The registry of allocations

`HugePageAllocator` (`huge_alloc.cpp`) called by any number of threads. Each system call and each access to
the registry under its mutex is one step of a thread, and steps of different threads interleave freely. A
mapping made by `allocate` has a number of its own, so that it can be told from a later one at the same
address.

`mmap` grants a region apart from every live mapping, or fails; it refuses a length of 0. `munmap` of a
live mapping, with its length, removes it. What any other `munmap` would do to the mappings is left open.
The rest of the process maps and unmaps memory too, but not that of the allocator.

Every live mapping is in one place (`Exact`): in the registry, with a thread that is about to register it,
or with a thread that has taken it out of the registry to unmap it.
-/

namespace UxNet.HugePageAllocator

open UxNet.Geometry

/-- Two regions that do not overlap. -/
def Apart (r r' : Region) : Prop :=
  r.base.toNat + r.length.toNat ≤ r'.base.toNat ∨ r'.base.toNat + r'.length.toNat ≤ r.base.toNat

/-- A mapping made by `allocate`; no two ever have the same `id`. -/
structure Mapping where
  id : ℕ
  region : Region
  huge : Bool

/-- A call of `munmap`, and the mapping that it is for. -/
structure Munmap where
  ptr : BitVec 64
  len : BitVec 64
  target : Option Mapping

/-- Where a thread is. -/
inductive Pc where
  | idle
  -- `allocate`
  | mapHuge (len : BitVec 64) (forceHuge : Bool)
  | mapRegular (len : BitVec 64)
  | register (p len : BitVec 64) (isHuge : Bool)
  | allocated (p : BitVec 64)
  -- `deallocate`
  | find (ptr : BitVec 64)
  | unmap (ptr len : BitVec 64)
  | deallocated
  -- `is_huge`
  | ask (ptr : BitVec 64)
  | answered (huge : Bool)
  | threw (what : String)

/-- No call is in progress. -/
def Pc.AtRest : Pc → Prop
  | .idle | .allocated _ | .deallocated | .answered _ | .threw _ => True
  | _ => False

/-- The region that a thread has to take care of. -/
def Pc.region : Pc → Option Region
  | .register p len _ => some { base := p, length := len }
  | .unmap ptr len => some { base := ptr, length := len }
  | _ => none

/-- What a thread is about to tell the registry. -/
def Pc.kind : Pc → Option (BitVec 64 × Bool)
  | .register p _ isHuge => some (p, isHuge)
  | _ => none

/-- The process: its mappings, those made by `allocate` apart from all others, `registry()`, the calls of
`munmap` that `deallocate` has made, and its threads. -/
structure State (Tid : Type) where
  live : List Mapping
  made : ℕ
  others : List Region
  registry : BitVec 64 → Option AllocationInfo
  munmaps : List Munmap
  pc : Tid → Pc

variable {Tid : Type} [DecidableEq Tid]

/-- `HugePageAllocator::is_huge`, under the mutex. -/
def isHuge (registry : BitVec 64 → Option AllocationInfo) (ptr : BitVec 64) : Bool :=
  match registry ptr with
  | some info => info.isHuge
  | none => false

namespace State

/-- Nothing has been allocated. -/
def init (Tid : Type) (others : List Region) : State Tid where
  live := []
  made := 0
  others := others
  registry := fun _ => none
  munmaps := []
  pc := fun _ => .idle

/-- A thread moves on. -/
def goto (s : State Tid) (t : Tid) (pc : Pc) : State Tid := { s with pc := Function.update s.pc t pc }

/-- A mapping of the allocator comes to be. -/
def map (s : State Tid) (p len : BitVec 64) (huge : Bool) : State Tid :=
  { s with
    live := { id := s.made, region := { base := p, length := len }, huge := huge } :: s.live
    made := s.made + 1 }

/-- `registry()[p] = AllocationInfo{len, is_huge}`. -/
def register (s : State Tid) (p len : BitVec 64) (isHuge : Bool) : State Tid :=
  { s with registry := Function.update s.registry p (some { bytes := len, isHuge := isHuge }) }

/-- `registry().erase(it)`. -/
def erase (s : State Tid) (ptr : BitVec 64) : State Tid :=
  { s with registry := Function.update s.registry ptr none }

/-- A mapping of the allocator is gone. -/
def unmap (s : State Tid) (ptr len : BitVec 64) (m : Mapping) : State Tid :=
  { s with
    live := s.live.filter fun m' => m'.id ≠ m.id
    munmaps := s.munmaps ++ [{ ptr := ptr, len := len, target := some m }] }

/-- `mmap` may answer `p`. -/
structure Grants (s : State Tid) (p len : BitVec 64) : Prop where
  proper : len ≠ 0
  live : ∀ m ∈ s.live, Apart { base := p, length := len } m.region
  others : ∀ r ∈ s.others, Apart { base := p, length := len } r

end State

/-- One step of a thread. -/
inductive Step (t : Tid) : State Tid → State Tid → Prop where
  | callAllocate {s} (bytes : BitVec 64) (forceHuge : Bool) :
    (s.pc t).AtRest →
    Step t s (s.goto t (.mapHuge (roundUp bytes hugePageSize) forceHuge))
  | mmapHuge {s len forceHuge p} :
    s.pc t = .mapHuge len forceHuge →
    s.Grants p len →
    Step t s ((s.map p len true).goto t (.register p len true))
  | mmapHugeFailed {s len} (errno : String) :
    s.pc t = .mapHuge len true →
    Step t s (s.goto t (.threw ("HugePageAllocator: huge-page mmap failed: " ++ errno)))
  | fallBack {s len} :
    s.pc t = .mapHuge len false →
    Step t s (s.goto t (.mapRegular len))
  | mmapRegular {s len p} :
    s.pc t = .mapRegular len →
    s.Grants p len →
    Step t s ((s.map p len false).goto t (.register p len false))
  | mmapRegularFailed {s len} (errno : String) :
    s.pc t = .mapRegular len →
    Step t s (s.goto t (.threw ("HugePageAllocator: fallback mmap failed: " ++ errno)))
  | register {s p len isHuge} :
    s.pc t = .register p len isHuge →
    Step t s ((s.register p len isHuge).goto t (.allocated p))
  | callDeallocate {s} (ptr : BitVec 64) :
    (s.pc t).AtRest →
    Step t s (s.goto t (if ptr = 0 then .deallocated else .find ptr))
  | findNone {s ptr} :
    s.pc t = .find ptr →
    s.registry ptr = none →
    Step t s (s.goto t (.threw "HugePageAllocator: deallocate of untracked pointer"))
  | findSome {s ptr info} :
    s.pc t = .find ptr →
    s.registry ptr = some info →
    Step t s ((s.erase ptr).goto t (.unmap ptr info.bytes))
  | munmap {s ptr len m} :
    s.pc t = .unmap ptr len →
    m ∈ s.live →
    m.region = { base := ptr, length := len } →
    Step t s ((s.unmap ptr len m).goto t .deallocated)
  -- not a mapping of the allocator: what becomes of the mappings is open, and it may fail
  | munmapStray {s ptr len} (live : List Mapping) (errno : Option String) :
    s.pc t = .unmap ptr len →
    (∀ m ∈ s.live, m.region ≠ { base := ptr, length := len }) →
    Step t s
      (State.goto
        { s with
          live := live
          munmaps := s.munmaps ++ [{ ptr := ptr, len := len, target := none }] } t
        (match errno with
        | none => .deallocated
        | some e => .threw ("HugePageAllocator: munmap failed: " ++ e)))
  | callIsHuge {s} (ptr : BitVec 64) :
    (s.pc t).AtRest →
    Step t s (s.goto t (.ask ptr))
  | isHuge {s ptr} :
    s.pc t = .ask ptr →
    Step t s (s.goto t (.answered (isHuge s.registry ptr)))

/-- A step of any thread, or of the rest of the process. -/
inductive AnyStep : State Tid → State Tid → Prop where
  | thread {s s'} (t : Tid) :
    Step t s s' →
    AnyStep s s'
  | others {s : State Tid} (others : List Region) :
    (∀ r ∈ others, ∀ m ∈ s.live, Apart m.region r) →
    AnyStep s { s with others := others }

/-- Any number of steps of any threads. -/
def Steps : State Tid → State Tid → Prop := Relation.ReflTransGen AnyStep

/-! ### Mappings -/

/-- Regions that lie apart begin apart. -/
lemma Apart.base_ne {r r' : Region} (apart : Apart r r') (proper : r.length ≠ 0)
    (proper' : r'.length ≠ 0) : r.base ≠ r'.base := by
  intro same
  have pos : r.length.toNat ≠ 0 := fun e => proper (BitVec.eq_of_toNat_eq e)
  have pos' : r'.length.toNat ≠ 0 := fun e => proper' (BitVec.eq_of_toNat_eq e)
  unfold Apart at apart
  rw [same] at apart
  omega

/-- What the kernel sees to. -/
structure Distinct (live : List Mapping) (made : ℕ) : Prop where
  proper : ∀ m ∈ live, m.region.length ≠ 0
  apart : ∀ m ∈ live, ∀ m' ∈ live, m = m' ∨ Apart m.region m'.region
  id : ∀ m ∈ live, ∀ m' ∈ live, m.id = m'.id → m = m'
  young : ∀ m ∈ live, m.id < made

namespace Distinct

variable {live : List Mapping} {made : ℕ}

/-- There is one mapping at an address. -/
lemma eq_of_base (h : Distinct live made) {m m' : Mapping} (mem : m ∈ live) (mem' : m' ∈ live)
    (same : m.region.base = m'.region.base) : m = m' := by
  rcases h.apart m mem m' mem' with e | apart
  · exact e
  · exact absurd same (apart.base_ne (h.proper m mem) (h.proper m' mem'))

/-- A new mapping is distinct from the others. -/
lemma cons (h : Distinct live made) {p len : BitVec 64} {huge : Bool} (proper : len ≠ 0)
    (apart : ∀ m ∈ live, Apart { base := p, length := len } m.region) :
    Distinct ({ id := made, region := { base := p, length := len }, huge := huge } :: live) (made + 1) where
  proper := by
    intro m mem
    rcases List.mem_cons.mp mem with rfl | mem
    · exact proper
    · exact h.proper m mem
  apart := by
    intro m mem m' mem'
    rcases List.mem_cons.mp mem with rfl | mem <;> rcases List.mem_cons.mp mem' with rfl | mem'
    · exact .inl rfl
    · exact .inr (apart m' mem')
    · exact .inr (apart m mem).symm
    · exact h.apart m mem m' mem'
  id := by
    intro m mem m' mem' same
    rcases List.mem_cons.mp mem with rfl | mem <;> rcases List.mem_cons.mp mem' with rfl | mem'
    · rfl
    · exact absurd same.symm (h.young m' mem').ne
    · exact absurd same (h.young m mem).ne
    · exact h.id m mem m' mem' same
  young := by
    intro m mem
    rcases List.mem_cons.mp mem with rfl | mem
    · exact Nat.lt_succ_self made
    · exact (h.young m mem).trans (Nat.lt_succ_self made)

/-- Fewer mappings are still distinct. -/
lemma sub (h : Distinct live made) {live' : List Mapping} (sub : ∀ m ∈ live', m ∈ live) :
    Distinct live' made where
  proper := fun m mem => h.proper m (sub m mem)
  apart := fun m mem m' mem' => h.apart m (sub m mem) m' (sub m' mem')
  id := fun m mem m' mem' => h.id m (sub m mem) m' (sub m' mem')
  young := fun m mem => h.young m (sub m mem)

end Distinct

/-! ### Places -/

namespace State

/-- The places where a region can be: an entry of the registry, and a thread. -/
def holds (s : State Tid) : BitVec 64 ⊕ Tid → List Region
  | .inl p => (s.registry p).toList.map fun info => { base := p, length := info.bytes }
  | .inr t => (s.pc t).region.toList

/-- What is said of the kind of a mapping, and where. -/
def kinds (s : State Tid) : BitVec 64 ⊕ Tid → Option (BitVec 64 × Bool)
  | .inl p => (s.registry p).map fun info => (p, info.isHuge)
  | .inr t => (s.pc t).kind

/-- A region of a live mapping. -/
def Live (s : State Tid) (r : Region) : Prop := ∃ m ∈ s.live, m.region = r

variable {s : State Tid} {t : Tid}

/-- A view of the places, when one thread moves. -/
lemma elim_pc {γ : Type} (f : BitVec 64 → γ) (g : Pc → γ) (pcs : Tid → Pc) (t : Tid) (pc : Pc) :
    Sum.elim f (fun t' => g (Function.update pcs t pc t'))
      = Function.update (Sum.elim f fun t' => g (pcs t')) (.inr t) (g pc) := by
  rw [Sum.update_elim_inr]
  congr 1
  funext t'
  exact Function.apply_update (fun _ => g) pcs t pc t'

/-- A view of the places, when one entry of the registry changes. -/
lemma elim_registry {γ : Type} (f : BitVec 64 → Option AllocationInfo → γ) (g : Tid → γ)
    (registry : BitVec 64 → Option AllocationInfo) (p : BitVec 64) (e : Option AllocationInfo) :
    Sum.elim (fun p' => f p' (Function.update registry p e p')) g
      = Function.update (Sum.elim (fun p' => f p' (registry p')) g) (.inl p) (f p e) := by
  rw [Sum.update_elim_inl]
  congr 1
  funext p'
  exact Function.apply_update f registry p e p'

omit [DecidableEq Tid] in
/-- The regions, by the entry or the thread that has each. -/
lemma holds_eq (s : State Tid) : s.holds = Sum.elim
    (fun p => (s.registry p).toList.map fun info => { base := p, length := info.bytes })
    fun t => (s.pc t).region.toList := by
  funext x
  cases x with
  | inl p => rfl
  | inr t => rfl

omit [DecidableEq Tid] in
/-- The kinds, by the entry or the thread that has each. -/
lemma kinds_eq (s : State Tid) : s.kinds = Sum.elim
    (fun p => (s.registry p).map fun info => (p, info.isHuge)) fun t => (s.pc t).kind := by
  funext x
  cases x with
  | inl p => rfl
  | inr t => rfl

/-- Moving on changes what the thread has. -/
lemma holds_goto (pc : Pc) :
    (s.goto t pc).holds = Function.update s.holds (.inr t) pc.region.toList := by
  rw [holds_eq, holds_eq s]
  exact elim_pc _ (fun pc => pc.region.toList) s.pc t pc

/-- Moving on changes what kind the thread has. -/
lemma kinds_goto (pc : Pc) : (s.goto t pc).kinds = Function.update s.kinds (.inr t) pc.kind := by
  rw [kinds_eq, kinds_eq s]
  exact elim_pc _ Pc.kind s.pc t pc

/-- An entry has its region. -/
lemma holds_register (p len : BitVec 64) (isHuge : Bool) :
    (s.register p len isHuge).holds = Function.update s.holds (.inl p) [{ base := p, length := len }] := by
  rw [holds_eq, holds_eq s]
  exact elim_registry (fun p e => e.toList.map fun info => ({ base := p, length := info.bytes } : Region))
    (fun t => (s.pc t).region.toList) s.registry p _

/-- An entry has its kind. -/
lemma kinds_register (p len : BitVec 64) (isHuge : Bool) :
    (s.register p len isHuge).kinds = Function.update s.kinds (.inl p) (some (p, isHuge)) := by
  rw [kinds_eq, kinds_eq s]
  exact elim_registry (fun p e => e.map fun info => (p, info.isHuge)) (fun t => (s.pc t).kind)
    s.registry p _

/-- Without the entry nobody has the region there. -/
lemma holds_erase (p : BitVec 64) : (s.erase p).holds = Function.update s.holds (.inl p) [] := by
  rw [holds_eq, holds_eq s]
  exact elim_registry (fun p e => e.toList.map fun info => ({ base := p, length := info.bytes } : Region))
    (fun t => (s.pc t).region.toList) s.registry p none

/-- Without the entry nobody has the kind there. -/
lemma kinds_erase (p : BitVec 64) : (s.erase p).kinds = Function.update s.kinds (.inl p) none := by
  rw [kinds_eq, kinds_eq s]
  exact elim_registry (fun p e => e.map fun info => (p, info.isHuge)) (fun t => (s.pc t).kind)
    s.registry p none

/-- A thread that tells no kind adds nothing to what is told. -/
lemma kinds_of_goto {pc : Pc} (silent : pc.kind = none) {x : BitVec 64 ⊕ Tid} {told : BitVec 64 × Bool}
    (kind : (s.goto t pc).kinds x = some told) : s.kinds x = some told := by
  rw [kinds_goto, silent] at kind
  by_cases here : x = .inr t
  · rw [here, Function.update_self] at kind
    cases kind
  · rwa [Function.update_of_ne here] at kind

omit [DecidableEq Tid] in
/-- The kind is told of a region that is there. -/
lemma holds_of_kinds {x : BitVec 64 ⊕ Tid} {p : BitVec 64} {huge : Bool}
    (kind : s.kinds x = some (p, huge)) : ∃ r ∈ s.holds x, r.base = p := by
  rcases x with p' | t
  · obtain ⟨info, entry, e⟩ := Option.map_eq_some_iff.mp kind
    cases e
    refine ⟨{ base := p, length := info.bytes }, ?_, rfl⟩
    simp [holds, entry]
  · have kind : (s.pc t).kind = some (p, huge) := kind
    cases pc : s.pc t with
    | register p' len isHuge =>
      rw [pc] at kind
      cases kind
      exact ⟨{ base := p, length := len }, by simp [holds, pc, Pc.region], rfl⟩
    | _ =>
      rw [pc] at kind
      cases kind

end State

/-- Between calls a thread has no region. -/
lemma Pc.AtRest.region {pc : Pc} (rest : pc.AtRest) : pc.region = none := by
  cases pc with
  | register => exact rest.elim
  | unmap => exact rest.elim
  | _ => rfl

/-- Every live mapping is in one place, and what is said there is true. Every `munmap` was for a mapping of
its own. -/
structure Exact (s : State Tid) : Prop where
  distinct : Distinct s.live s.made
  kept : Places.Kept s.holds s.Live
  kind : ∀ x p huge, s.kinds x = some (p, huge) → ∀ m ∈ s.live, m.region.base = p → m.huge = huge
  hit : ∀ u ∈ s.munmaps, ∃ m, u.target = some m ∧ m.region = { base := u.ptr, length := u.len } ∧
    m.id < s.made ∧ ∀ m' ∈ s.live, m'.id ≠ m.id
  once : (s.munmaps.map Munmap.target).Nodup

namespace Exact

variable {s : State Tid} {t : Tid}

omit [DecidableEq Tid] in
/-- At the start there is nothing to have. -/
lemma init (others : List Region) : Exact (State.init Tid others) where
  distinct := by
    constructor <;> simp [State.init]
  kept := by
    constructor <;> simp [State.init, State.holds, State.Live, Pc.region]
  kind := by simp [State.init]
  hit := by simp [State.init]
  once := by simp [State.init]

/-- A step that only moves a thread which has no region, before and after. -/
lemma goto (h : Exact s) (out : (s.pc t).region = none) {pc : Pc} (region : pc.region = none)
    (kind : pc.kind = none) : Exact (s.goto t pc) where
  distinct := h.distinct
  kept := by
    have same : (s.goto t pc).holds = s.holds := by
      rw [State.holds_goto, region, Function.update_eq_self_iff, State.holds, out]
    rw [same]
    exact h.kept
  kind := by
    intro x p huge told
    exact h.kind x p huge (s.kinds_of_goto kind told)
  hit := h.hit
  once := h.once

/-- `mmap` grants a region to a thread. -/
lemma map (h : Exact s) (out : (s.pc t).region = none) {p len : BitVec 64} (grants : s.Grants p len)
    (huge : Bool) : Exact ((s.map p len huge).goto t (.register p len huge)) := by
  -- there is nothing at this address
  have fresh : ∀ m ∈ s.live, m.region.base ≠ p := fun m mem =>
    ((grants.live m mem).base_ne grants.proper (h.distinct.proper m mem)).symm
  refine ⟨h.distinct.cons grants.proper grants.live, ?_, ?_, ?_, h.once⟩
  · have kept : Places.Kept ((s.map p len huge).goto t (.register p len huge)).holds
        fun r => s.Live r ∨ r = { base := p, length := len } := by
      apply h.kept.add (y := .inr t)
      · rintro ⟨m, mem, region⟩
        exact fresh m mem (by rw [region])
      · rw [State.holds_goto, Function.update_self, State.holds, out]
        rfl
      · intro z ne
        rw [State.holds_goto, Function.update_of_ne ne]
        rfl
    apply kept.congr
    intro r
    show s.Live r ∨ _ ↔ ∃ m ∈ _ :: s.live, m.region = r
    rw [List.exists_mem_cons_iff, or_comm, eq_comm (a := r)]
    rfl
  · intro x p' huge' told m mem base
    rw [State.kinds_goto] at told
    by_cases here : x = .inr t
    · rw [here, Function.update_self] at told
      cases told
      rcases List.mem_cons.mp mem with rfl | mem
      · rfl
      · exact absurd base (fresh m mem)
    · rw [Function.update_of_ne here] at told
      have told : s.kinds x = some (p', huge') := told
      rcases List.mem_cons.mp mem with rfl | mem
      · obtain ⟨r, there, at_p⟩ := State.holds_of_kinds told
        obtain ⟨m, mem, region⟩ := (h.kept.covers r).mpr ⟨x, there⟩
        refine absurd ?_ (fresh m mem)
        rw [region, at_p]
        exact base.symm
      · exact h.kind x p' huge' told m mem base
  · intro u mem
    obtain ⟨m, target, region, old, gone⟩ := h.hit u mem
    refine ⟨m, target, region, old.trans (Nat.lt_succ_self s.made), ?_⟩
    intro m' mem'
    rcases List.mem_cons.mp mem' with rfl | mem'
    · exact old.ne'
    · exact gone m' mem'

/-- A thread puts its region into the registry, where nothing is in its place. -/
lemma register (h : Exact s) {p len : BitVec 64} {isHuge : Bool} (pc : s.pc t = .register p len isHuge) :
    Exact ((s.register p len isHuge).goto t (.allocated p)) := by
  have mine : s.holds (.inr t) = [{ base := p, length := len }] := by
    rw [State.holds, pc]
    rfl
  -- what is at `p` in the registry is live, and so is what the thread has: they are the same
  have free : s.holds (.inl p) = [] := by
    rw [List.eq_nil_iff_forall_not_mem]
    intro r mem
    obtain ⟨m, live, region⟩ := (h.kept.covers r).mpr ⟨_, mem⟩
    obtain ⟨m', live', region'⟩ := (h.kept.covers { base := p, length := len }).mpr
      ⟨.inr t, by rw [mine]; exact List.mem_singleton_self _⟩
    have base : r.base = p := by
      obtain ⟨info, _, rfl⟩ := List.mem_map.mp mem
      rfl
    have same : m = m' := h.distinct.eq_of_base live live' (by rw [region, region', base])
    have here : r ∈ s.holds (.inr t) := by
      rw [mine, ← region', ← same, region]
      exact List.mem_singleton_self r
    exact absurd (h.kept.unique mem here) (by simp)
  refine ⟨h.distinct, ?_, ?_, h.hit, h.once⟩
  · apply h.kept.move (x := .inr t) (y := .inl p) (a := { base := p, length := len }) (by simp)
    · rw [State.holds_goto, Function.update_self, mine]
      rfl
    · rw [State.holds_goto, Function.update_of_ne (by simp), State.holds_register, Function.update_self, free]
    · intro z notThread notEntry
      rw [State.holds_goto, Function.update_of_ne notThread, State.holds_register,
        Function.update_of_ne notEntry]
  · intro x p' huge told
    have told := (s.register p len isHuge).kinds_of_goto rfl told
    rw [State.kinds_register] at told
    by_cases entry : x = .inl p
    · rw [entry, Function.update_self] at told
      apply h.kind (.inr t) p' huge
      rw [← told, State.kinds, pc]
      rfl
    · rw [Function.update_of_ne entry] at told
      exact h.kind x p' huge told

/-- A thread takes an entry out of the registry. -/
lemma erase (h : Exact s) {ptr : BitVec 64} {info : AllocationInfo} (pc : s.pc t = .find ptr)
    (entry : s.registry ptr = some info) : Exact ((s.erase ptr).goto t (.unmap ptr info.bytes)) := by
  refine ⟨h.distinct, ?_, ?_, h.hit, h.once⟩
  · apply h.kept.move (x := .inl ptr) (y := .inr t) (a := { base := ptr, length := info.bytes }) (by simp)
    · rw [State.holds_goto, Function.update_of_ne (by simp), State.holds_erase, Function.update_self,
        State.holds, entry]
      rfl
    · rw [State.holds_goto, Function.update_self, State.holds, pc]
      rfl
    · intro z notEntry notThread
      rw [State.holds_goto, Function.update_of_ne notThread, State.holds_erase,
        Function.update_of_ne notEntry]
  · intro x p' huge told
    have told := (s.erase ptr).kinds_of_goto rfl told
    rw [State.kinds_erase] at told
    by_cases here : x = .inl ptr
    · rw [here, Function.update_self] at told
      cases told
    · rw [Function.update_of_ne here] at told
      exact h.kind x p' huge told

omit [DecidableEq Tid] in
/-- What a thread is about to unmap is live. -/
lemma target (h : Exact s) {ptr len : BitVec 64} (pc : s.pc t = .unmap ptr len) :
    s.Live { base := ptr, length := len } := by
  apply (h.kept.covers _).mpr
  refine ⟨.inr t, ?_⟩
  rw [State.holds, pc]
  exact List.mem_singleton_self _

omit [DecidableEq Tid] in
/-- `munmap` takes away the mapping it hits, and no other. -/
lemma mem_unmap (h : Exact s) {ptr len : BitVec 64} {m : Mapping} (mem : m ∈ s.live) (m' : Mapping) :
    m' ∈ (s.unmap ptr len m).live ↔ m' ∈ s.live ∧ m' ≠ m := by
  rw [State.unmap, List.mem_filter, decide_eq_true_eq]
  apply and_congr_right
  intro mem'
  exact not_congr ⟨h.distinct.id m' mem' m mem, congrArg Mapping.id⟩

omit [DecidableEq Tid] in
/-- The regions that are live after a `munmap` are the others. -/
lemma live_unmap (h : Exact s) {ptr len : BitVec 64} {m : Mapping} (mem : m ∈ s.live)
    (region : m.region = { base := ptr, length := len }) (r : Region) :
    s.Live r ∧ r ≠ { base := ptr, length := len } ↔ (s.unmap ptr len m).Live r := by
  constructor
  · rintro ⟨⟨m', mem', rfl⟩, ne⟩
    refine ⟨m', (h.mem_unmap mem m').mpr ⟨mem', ?_⟩, rfl⟩
    rintro rfl
    exact ne region
  · rintro ⟨m', mem', rfl⟩
    obtain ⟨old, ne⟩ := (h.mem_unmap mem m').mp mem'
    refine ⟨⟨m', old, rfl⟩, ?_⟩
    intro same
    exact ne (h.distinct.eq_of_base old mem (by rw [same, region]))

/-- `munmap` takes away the region that the thread has. -/
lemma unmap (h : Exact s) {ptr len : BitVec 64} {m : Mapping} (pc : s.pc t = .unmap ptr len)
    (mem : m ∈ s.live) (region : m.region = { base := ptr, length := len }) :
    Exact ((s.unmap ptr len m).goto t .deallocated) := by
  have live_iff : ∀ m', m' ∈ (s.unmap ptr len m).live ↔ m' ∈ s.live ∧ m' ≠ m := h.mem_unmap mem
  refine ⟨h.distinct.sub fun m' mem' => ((live_iff m').mp mem').1, ?_, ?_, ?_, ?_⟩
  · have kept : Places.Kept ((s.unmap ptr len m).goto t .deallocated).holds
        fun r => s.Live r ∧ r ≠ { base := ptr, length := len } := by
      apply h.kept.remove (x := .inr t)
      · rw [State.holds_goto, Function.update_self, State.holds, pc]
        rfl
      · intro z ne
        rw [State.holds_goto, Function.update_of_ne ne]
        rfl
    exact kept.congr (h.live_unmap mem region)
  · intro x p' huge told m' mem'
    have told := (s.unmap ptr len m).kinds_of_goto rfl told
    exact h.kind x p' huge told m' ((live_iff m').mp mem').1
  · intro u mem'
    rcases List.mem_append.mp mem' with old | new
    · obtain ⟨m', target, region', young, gone⟩ := h.hit u old
      exact ⟨m', target, region', young, fun m'' mem'' => gone m'' ((live_iff m'').mp mem'').1⟩
    · rw [List.mem_singleton.mp new]
      refine ⟨m, rfl, region, h.distinct.young m mem, ?_⟩
      intro m' live same
      obtain ⟨old, ne⟩ := (live_iff m').mp live
      exact ne (h.distinct.id m' old m mem same)
  · -- the mapping was live until now
    show (List.map Munmap.target (s.munmaps ++ [_])).Nodup
    rw [List.map_append, List.nodup_append_comm, List.map_cons, List.map_nil, List.singleton_append,
      List.nodup_cons]
    refine ⟨?_, h.once⟩
    intro again
    obtain ⟨u, old, target⟩ := List.mem_map.mp again
    obtain ⟨m', target', _, _, gone⟩ := h.hit u old
    rw [target'] at target
    cases target
    exact gone m mem rfl

/-- Every step of a call keeps the registry exact. -/
lemma step {s' : State Tid} (h : Exact s) (st : Step t s s') : Exact s' := by
  cases st with
  | callAllocate bytes forceHuge rest => exact h.goto rest.region rfl rfl
  | mmapHuge pc grants => exact h.map (by rw [pc]; rfl) grants true
  | mmapHugeFailed errno pc => exact h.goto (by rw [pc]; rfl) rfl rfl
  | fallBack pc => exact h.goto (by rw [pc]; rfl) rfl rfl
  | mmapRegular pc grants => exact h.map (by rw [pc]; rfl) grants false
  | mmapRegularFailed errno pc => exact h.goto (by rw [pc]; rfl) rfl rfl
  | register pc => exact h.register pc
  | callDeallocate ptr rest =>
    split
    · exact h.goto rest.region rfl rfl
    · exact h.goto rest.region rfl rfl
  | findNone pc none => exact h.goto (by rw [pc]; rfl) rfl rfl
  | findSome pc entry => exact h.erase pc entry
  | munmap pc mem region => exact h.unmap pc mem region
  | munmapStray live errno pc stray =>
    obtain ⟨m, mem, region⟩ := h.target pc
    exact absurd region (stray m mem)
  | callIsHuge ptr rest => exact h.goto rest.region rfl rfl
  | isHuge pc => exact h.goto (by rw [pc]; rfl) rfl rfl

/-- So does every step. -/
lemma anyStep {s' : State Tid} (h : Exact s) (st : AnyStep s s') : Exact s' := by
  cases st with
  | thread t st => exact h.step st
  | others others apart => exact ⟨h.distinct, h.kept, h.kind, h.hit, h.once⟩

/-- So does every run. -/
lemma steps {s' : State Tid} (h : Exact s) (run : Steps s s') : Exact s' := by
  induction run with
  | refl => exact h
  | tail _ st ih => exact ih.anyStep st

omit [DecidableEq Tid] in
/-- An entry of the registry is that of the mapping at its address. -/
lemma entry (h : Exact s) {p : BitVec 64} {info : AllocationInfo} (entry : s.registry p = some info) :
    ∃ m ∈ s.live, m.region = { base := p, length := info.bytes } ∧ m.huge = info.isHuge ∧
      ∀ m' ∈ s.live, m'.region.base = p → m' = m := by
  have there : ({ base := p, length := info.bytes } : Region) ∈ s.holds (.inl p) := by
    simp [State.holds, entry]
  obtain ⟨m, mem, region⟩ := (h.kept.covers _).mpr ⟨_, there⟩
  have told : s.kinds (.inl p) = some (p, info.isHuge) := by simp [State.kinds, entry]
  refine ⟨m, mem, region, h.kind _ _ _ told m mem (by rw [region]), ?_⟩
  intro m' mem' base
  exact h.distinct.eq_of_base mem' mem (by rw [base, region])

omit [DecidableEq Tid] in
/-- With no call in progress every mapping is in the registry. -/
lemma registered (h : Exact s) (rest : ∀ t, (s.pc t).AtRest) {m : Mapping} (mem : m ∈ s.live) :
    s.registry m.region.base ≠ none := by
  obtain ⟨x, there⟩ := (h.kept.covers m.region).mp ⟨m, mem, rfl⟩
  rcases x with p | t
  · obtain ⟨info, entry, region⟩ := List.mem_map.mp there
    rw [← region, Option.mem_toList.mp entry]
    exact Option.some_ne_none info
  · rw [State.holds, (rest t).region] at there
    exact absurd there List.not_mem_nil

omit [DecidableEq Tid] in
/-- With no call in progress `is_huge` tells the huge mappings. -/
lemma isHuge_iff (h : Exact s) (rest : ∀ t, (s.pc t).AtRest) (p : BitVec 64) :
    isHuge s.registry p = true ↔ ∃ m ∈ s.live, m.region.base = p ∧ m.huge = true := by
  unfold isHuge
  cases found : s.registry p with
  | none =>
    constructor
    · intro huge
      cases huge
    · rintro ⟨m, mem, rfl, _⟩
      exact absurd found (h.registered rest mem)
  | some info =>
    obtain ⟨m, mem, region, kind, only⟩ := h.entry found
    constructor
    · intro huge
      exact ⟨m, mem, by rw [region], kind.trans huge⟩
    · rintro ⟨m', mem', base, huge⟩
      rw [only m' mem' base] at huge
      exact kind.symm.trans huge

end Exact

/-- A lookup that finds nothing throws and leaves everything as it is. -/
lemma Step.untracked {s s' : State Tid} {t : Tid} {ptr : BitVec 64} (st : Step t s s')
    (pc : s.pc t = .find ptr) (none : s.registry ptr = none) :
    s' = s.goto t (.threw "HugePageAllocator: deallocate of untracked pointer") := by
  cases st with
  | findNone => rfl
  | findSome pc' entry =>
    cases pc.symm.trans pc'
    rw [none] at entry
    cases entry
  | callAllocate _ _ rest => exact (pc ▸ rest : (Pc.find ptr).AtRest).elim
  | callDeallocate _ rest => exact (pc ▸ rest : (Pc.find ptr).AtRest).elim
  | callIsHuge _ rest => exact (pc ▸ rest : (Pc.find ptr).AtRest).elim
  | _ => simp_all

/-- For any number of threads that allocate and deallocate, in every interleaving of their steps: every
entry of the registry describes the mapping at its address, every `munmap` is for a live mapping with its
length and no mapping gets two, a lookup that finds nothing only throws, and with no call in progress the
registry has exactly the live mappings. -/
theorem registry_exact {others : List Region} {s : State Tid} (run : Steps (.init Tid others) s) :
    (∀ p info, s.registry p = some info →
      ∃ m ∈ s.live, m.region = { base := p, length := info.bytes } ∧ m.huge = info.isHuge ∧
        ∀ m' ∈ s.live, m'.region.base = p → m' = m) ∧
    (∀ t ptr len, s.pc t = .unmap ptr len → ∃ m ∈ s.live, m.region = { base := ptr, length := len }) ∧
    (∀ u ∈ s.munmaps, ∃ m, u.target = some m ∧ m.region = { base := u.ptr, length := u.len }) ∧
    (s.munmaps.map Munmap.target).Nodup ∧
    (∀ t ptr s', s.pc t = .find ptr → s.registry ptr = none → Step t s s' →
      s' = s.goto t (.threw "HugePageAllocator: deallocate of untracked pointer")) ∧
    ((∀ t, (s.pc t).AtRest) →
      ∀ p, s.registry p ≠ none ↔ ∃ m ∈ s.live, m.region.base = p) := by
  have h := (Exact.init others).steps run
  refine ⟨fun p info => h.entry, fun t ptr len => h.target, ?_, h.once, ?_, ?_⟩
  · intro u mem
    obtain ⟨m, target, region, _⟩ := h.hit u mem
    exact ⟨m, target, region⟩
  · intro t ptr s' pc none st
    exact st.untracked pc none
  · intro rest p
    constructor
    · intro some
      obtain ⟨info, entry⟩ := Option.ne_none_iff_exists'.mp some
      obtain ⟨m, mem, region, _⟩ := h.entry entry
      exact ⟨m, mem, by rw [region]⟩
    · rintro ⟨m, mem, rfl⟩
      exact h.registered rest mem

/-- Two threads deallocate one pointer. -/
theorem registry_exact_race :
    ∃ s : State Bool, Steps (.init Bool []) s ∧ (∀ t, (s.pc t).AtRest) ∧ s.pc false = .deallocated ∧
      s.pc true = .threw "HugePageAllocator: deallocate of untracked pointer" ∧ s.munmaps.length = 1 ∧
      (s.munmaps.map Munmap.target).Nodup ∧
      ∀ p, s.registry p ≠ none ↔ ∃ m ∈ s.live, m.region.base = p := by
  have allocate : Steps (.init Bool []) _ := ((Relation.ReflTransGen.single
    (.thread false (.callAllocate 1 false trivial))).tail
    (.thread false (.mmapHuge (p := 0x200000) rfl
      ⟨by decide, by simp [State.goto, State.init], by simp [State.goto, State.init]⟩))).tail
    (.thread false (.register rfl))
  -- both have called before one of them finds the entry
  have calls := (allocate.tail (.thread false (.callDeallocate 0x200000 trivial))).tail
    (.thread true (.callDeallocate 0x200000 trivial))
  have finds := (calls.tail (.thread false (.findSome rfl rfl))).tail (.thread true (.findNone rfl rfl))
  have run := finds.tail (.thread false (.munmap rfl (List.mem_singleton_self _) rfl))
  obtain ⟨s, run, rest, freed, threw, one⟩ : ∃ s : State Bool, Steps (.init Bool []) s ∧
      (∀ t, (s.pc t).AtRest) ∧ s.pc false = .deallocated ∧
      s.pc true = .threw "HugePageAllocator: deallocate of untracked pointer" ∧ s.munmaps.length = 1 := by
    refine ⟨_, run, ?_, rfl, rfl, rfl⟩
    intro t
    cases t with
    | false => trivial
    | true => trivial
  obtain ⟨_, _, _, once, _, keys⟩ := registry_exact run
  exact ⟨s, run, rest, freed, threw, one, once, keys rest⟩

end UxNet.HugePageAllocator
