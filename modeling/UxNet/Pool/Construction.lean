import UxNet.Pool.Geometry

/-!
# What a failed construction leaves behind

What the constructor of `BufferPool` does to the process, its live mappings and the registry of
`HugePageAllocator`. An exception leaves the process as it is when it is thrown, since the destructor of a
pool does not run when its constructor throws. A successful `mmap` does not return the null pointer.
-/

namespace UxNet.Geometry

/-- One of the two requests is granted. -/
def MmapAnswer.Granted (answer : MmapAnswer) : Prop :=
  answer.huge.isSome = true ∨ answer.regular.isSome = true

namespace Process

variable (s : Process) (bytes : BitVec 64) (node : ℤ) {answer : MmapAnswer}

/-- A request that is refused changes nothing. -/
lemma allocRegion_refused (refused : ¬ answer.Granted) :
    ∃ e, ∀ s : Process, s.allocRegion bytes node answer = (.error e, s) := by
  obtain ⟨huge, regular⟩ : answer.huge = none ∧ answer.regular = none := by
    simpa [MmapAnswer.Granted] using refused
  by_cases bound : node = -1
  · refine ⟨"HugePageAllocator: fallback mmap failed: " ++ answer.errno, ?_⟩
    simp [allocRegion, allocate, mmap, bound, huge, regular]
  · refine ⟨"BufferPool: allocate_on_node failed", ?_⟩
    simp [allocRegion, allocateOnNode, mmap, bound, huge, regular]

/-- A request that is granted adds a mapping. -/
lemma allocRegion_granted (granted : answer.Granted) :
    ∃ r, ∀ s : Process, ∃ s', s.allocRegion bytes node answer = (.ok r, s') ∧ s'.live = s.live ++ [r] := by
  by_cases bound : node = -1
  · cases huge : answer.huge with
    | some p =>
      refine ⟨{ base := p, length := roundUp bytes hugePageSize }, ?_⟩
      simp [allocRegion, allocate, mmap, register, bound, huge]
    | none =>
      obtain ⟨p, regular⟩ : ∃ p, answer.regular = some p := by
        simpa [MmapAnswer.Granted, huge, Option.isSome_iff_exists] using granted
      refine ⟨{ base := p, length := roundUp bytes hugePageSize }, ?_⟩
      simp [allocRegion, allocate, mmap, register, bound, huge, regular]
  · cases huge : answer.huge with
    | some p =>
      refine ⟨{ base := p, length := bytes }, ?_⟩
      simp [allocRegion, allocateOnNode, mmap, bound, huge]
    | none =>
      obtain ⟨p, regular⟩ : ∃ p, answer.regular = some p := by
        simpa [MmapAnswer.Granted, huge, Option.isSome_iff_exists] using granted
      refine ⟨{ base := p, length := bytes }, ?_⟩
      simp [allocRegion, allocateOnNode, mmap, bound, huge, regular]

variable (size count : BitVec 64) (first second : MmapAnswer)

/-- The constructor returns, or throws, the same in every process. -/
lemma construct_result :
    (s.construct size count node first second).1 = Pool.construct size count node first second := by
  unfold Pool.construct construct
  split
  · rfl
  · by_cases granted : first.Granted
    · obtain ⟨backing, grant⟩ := allocRegion_granted (size * count) node granted
      obtain ⟨s₁, run, _⟩ := grant s
      obtain ⟨s₁', run', _⟩ := grant { live := [], registry := fun _ => none }
      rw [run, run']
      by_cases granted' : second.Granted
      · obtain ⟨descriptors, grant'⟩ := allocRegion_granted (count * 64) node granted'
        obtain ⟨s₂, run₂, _⟩ := grant' s₁
        obtain ⟨s₂', run₂', _⟩ := grant' s₁'
        simp only [run₂, run₂']
      · obtain ⟨e, refuse⟩ := allocRegion_refused (count * 64) node granted'
        simp only [refuse]
    · obtain ⟨e, refuse⟩ := allocRegion_refused (size * count) node granted
      simp only [refuse]

/-- If the constructor throws, the live mappings and the registry are what they were, just when it is
not the second of its two regions that is refused. -/
theorem construct_leaves_nothing_iff :
    (∀ e s', s.construct size count node first second = (.error e, s') → s' = s) ↔
      ¬(size ≠ 0 ∧ count ≠ 0 ∧ first.Granted ∧ ¬ second.Granted) := by
  constructor
  · rintro unchanged ⟨size0, count0, granted, refused⟩
    obtain ⟨backing, grant⟩ := allocRegion_granted (size * count) node granted
    obtain ⟨s₁, run₁, live⟩ := grant s
    obtain ⟨e, refuse⟩ := allocRegion_refused (count * 64) node refused
    have thrown : s.construct size count node first second = (.error e, s₁) := by
      unfold construct
      rw [if_neg (not_or.mpr ⟨size0, count0⟩), run₁]
      simp only [refuse]
    rw [unchanged e s₁ thrown] at live
    have longer := congrArg List.length live
    simp at longer
  · intro other e s' thrown
    unfold construct at thrown
    split at thrown
    · exact (Prod.mk.inj thrown).2.symm
    · rename_i zero
      obtain ⟨size0, count0⟩ := not_or.mp zero
      by_cases granted : first.Granted
      · -- the second region is granted too, and the constructor returns
        have granted' : second.Granted := by
          by_contra refused
          exact other ⟨size0, count0, granted, refused⟩
        obtain ⟨backing, grant⟩ := allocRegion_granted (size * count) node granted
        obtain ⟨s₁, run₁, _⟩ := grant s
        obtain ⟨descriptors, grant'⟩ := allocRegion_granted (count * 64) node granted'
        obtain ⟨s₂, run₂, _⟩ := grant' s₁
        rw [run₁] at thrown
        simp only [run₂] at thrown
        cases thrown
      · obtain ⟨e', refuse⟩ := allocRegion_refused (size * count) node granted
        rw [refuse] at thrown
        exact (Prod.mk.inj thrown).2.symm

end Process

/-- `mmap` refuses both requests. -/
def refused : MmapAnswer where
  huge := none
  regular := none
  errno := "Cannot allocate memory"

/-- A pool of two buffers on no particular node, whose descriptors get no memory: the constructor throws
with the 2 MB of its buffers mapped and registered. -/
theorem backing_region_leaked :
    ∃ s', Process.construct { live := [], registry := fun _ => none } 2048 2 (-1) (granted 0x200000) refused
        = (.error "HugePageAllocator: fallback mmap failed: Cannot allocate memory", s') ∧
      s'.live = [{ base := 0x200000, length := 0x200000 }] ∧
      s'.registry 0x200000 = some { bytes := 0x200000, isHuge := true } :=
  ⟨_, rfl, rfl, rfl⟩

end UxNet.Geometry
