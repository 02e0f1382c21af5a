import Mathlib.Data.BitVec
import UxNet.Capture.Pipeline
import UxNet.Lib.Places

/-!
# Where the buffers are, and how many frames

`Owned`: every buffer is in one place, and the rings are sound. A step moves one buffer at most.
`Tally`: every frame taken is counted once. A frame under way counts for the thread that carries it.
-/

namespace UxNet.Capture

open Places State

/-- Where a buffer can be. -/
inductive Place (p : Setup) where
  | free
  | producer
  | queue (q : p.Queue)
  | worker (w : p.Queue)

/-- The buffer that the capture loop holds. -/
def Producer.held {p : Setup} : Producer p → List ℕ
  | .fill _ buf => [buf]
  | .push buf _ => [buf]
  | .recordDrop buf _ => [buf]
  | .release buf => [buf]
  | _ => []

/-- The buffer that a worker holds. -/
def Worker.held : Worker → List ℕ
  | .callback buf => [buf]
  | .release buf => [buf]
  | _ => []

variable {p : Setup} {s t : State p} {w : p.Queue}

/-- The buffers in a place. -/
def State.holding (s : State p) : Place p → List ℕ
  | .free => s.pool.free
  | .producer => s.producer.held
  | .queue q => (s.queues q).items
  | .worker w => (s.workers w).held

/-- Every buffer is in one place. -/
structure Owned (s : State p) : Prop where
  size : s.pool.bufferSize = p.bufferSize
  short : ∀ b, (s.pool.len b).toNat ≤ p.bufferSize
  rings : ∀ q, (s.queues q).Sound
  kept : Kept s.holding (· < p.bufferCount)

/-- A worker that moves on with the buffer it has holds what it held. -/
lemma held_update {pc : Worker} (f : p.Queue → Worker) (same : pc.held = (f w).held) (w' : p.Queue) :
    (Function.update f w pc w').held = (f w').held := by
  by_cases e : w' = w
  · rw [e, Function.update_self, same]
  · rw [Function.update_of_ne e]

/-- The rings stay sound when one is replaced by a sound one. -/
lemma sound_update {f : p.Queue → SPSCRing ℕ p.ringBits} (sound : ∀ q, (f q).Sound) {q : p.Queue}
    {ring : SPSCRing ℕ p.ringBits} (new : ring.Sound) (q' : p.Queue) :
    (Function.update f q ring q').Sound := by
  by_cases e : q' = q
  · rw [e, Function.update_self]
    exact new
  · rw [Function.update_of_ne e]
    exact sound q'

/-- A released buffer is empty. -/
lemma short_release {pool : BufferPool} {n : ℕ} (short : ∀ b, (pool.len b).toNat ≤ n) (buf : ℕ)
    (b : ℕ) : ((pool.release .caller buf).len b).toNat ≤ n := by
  show (Function.update pool.len buf 0 b).toNat ≤ n
  by_cases e : b = buf
  · rw [e, Function.update_self]
    exact Nat.zero_le n
  · rw [Function.update_of_ne e]
    exact short b

namespace Owned

/-- At the start every buffer is free. -/
lemma init (p : Setup) : Owned (State.init p) := by
  have free : ∀ {a x}, a ∈ (State.init p).holding x → x = .free := by
    intro a x mem
    cases x with
    | free => rfl
    | queue q =>
      rw [show (State.init p).holding (.queue q) = [] from SPSCRing.items_new _] at mem
      exact absurd mem List.not_mem_nil
    | _ => exact absurd mem List.not_mem_nil
  refine ⟨rfl, fun _ => Nat.zero_le _, fun q => ⟨[], 0, .new _⟩, ?_, ?_, ?_⟩
  · intro x
    cases x with
    | free => exact List.nodup_reverse.mpr List.nodup_range
    | queue q =>
      rw [show (State.init p).holding (.queue q) = [] from SPSCRing.items_new _]
      exact List.nodup_nil
    | _ => exact List.nodup_nil
  · intro a x y hx hy
    rw [free hx, free hy]
  · intro b
    constructor
    · intro lt
      exact ⟨.free, List.mem_reverse.mpr (List.mem_range.mpr lt)⟩
    · rintro ⟨x, mem⟩
      obtain rfl := free mem
      exact List.mem_range.mp (List.mem_reverse.mp mem)

/-- No buffer moves. -/
lemma of_same (h : Owned s) (size : t.pool.bufferSize = s.pool.bufferSize)
    (short : ∀ b, (t.pool.len b).toNat ≤ p.bufferSize) (free : t.pool.free = s.pool.free)
    (producer : t.producer.held = s.producer.held) (queues : t.queues = s.queues)
    (workers : ∀ w, (t.workers w).held = (s.workers w).held) : Owned t := by
  refine ⟨size.trans h.size, short, queues ▸ h.rings, ?_⟩
  have same : t.holding = s.holding := by
    funext x
    cases x with
    | free => exact free
    | producer => exact producer
    | queue q => exact congrArg (fun f => (f q).items) queues
    | worker w => exact workers w
  rw [same]
  exact h.kept

/-- The capture loop hands each buffer on to one place. -/
lemma produce (h : Owned s) (st : Produce s t) : Owned t := by
  cases st with
  | receive frame at' => exact h.of_same rfl h.short rfl (by rw [at']; rfl) rfl fun _ => rfl
  | stop at' => exact h.of_same rfl h.short rfl (by rw [at']; rfl) rfl fun _ => rfl
  | @acquire _ buf pool at' acq =>
    obtain ⟨rest, free, rfl⟩ := BufferPool.acquire_some acq
    refine ⟨h.size, h.short, h.rings, h.kept.move (x := .free) (y := .producer) (a := buf) ?_ ?_ ?_ ?_⟩
    · nofun
    · exact .of_eq free
    · show [buf].Perm (buf :: s.producer.held)
      rw [at']
      exact .refl _
    · intro z nf np
      cases z with
      | free => exact absurd rfl nf
      | producer => exact absurd rfl np
      | _ => rfl
  | exhausted at' acq =>
    obtain ⟨_, rfl⟩ := BufferPool.acquire_none acq
    exact h.of_same rfl h.short rfl (by rw [at']; rfl) rfl fun _ => rfl
  | @fill frame buf at' =>
    refine h.of_same rfl ?_ rfl (by rw [at']; rfl) rfl fun _ => rfl
    intro b
    show (Function.update s.pool.len buf _ b).toNat ≤ _
    by_cases e : b = buf
    · rw [e, Function.update_self, BitVec.toNat_ofNat]
      calc _ ≤ (frame.take p.capacity.toNat).length := Nat.mod_le _ _
        _ ≤ p.capacity.toNat := List.length_take_le _ _
        _ = p.bufferSize % 2 ^ 32 := BitVec.toNat_ofNat _ _
        _ ≤ p.bufferSize := Nat.mod_le _ _
    · rw [Function.update_of_ne e]
      exact h.short b
  | @push buf q ring at' ok =>
    obtain ⟨sound, items⟩ := (h.rings q).push_true ok
    refine ⟨h.size, h.short, sound_update h.rings sound,
      h.kept.move (x := .producer) (y := .queue q) (a := buf) ?_ ?_ ?_ ?_⟩
    · nofun
    · show s.producer.held.Perm [buf]
      rw [at']
      exact .refl _
    · show (Function.update s.queues q ring q).items.Perm _
      rw [Function.update_self, items]
      exact List.perm_append_singleton buf _
    · intro z np nq
      cases z with
      | producer => exact absurd rfl np
      | queue q' =>
        have ne : q' ≠ q := fun e => nq (e ▸ rfl)
        show (Function.update s.queues q ring q').items = _
        rw [Function.update_of_ne ne]
        rfl
      | _ => rfl
  | full at' failed =>
    obtain rfl := SPSCRing.push_false failed
    exact h.of_same rfl h.short rfl (by rw [at']; rfl) (Function.update_eq_self _ _) fun _ => rfl
  | recordDrop at' => exact h.of_same rfl h.short rfl (by rw [at']; rfl) rfl fun _ => rfl
  | @release buf at' =>
    refine ⟨h.size, short_release h.short buf, h.rings,
      h.kept.move (x := .producer) (y := .free) (a := buf) ?_ ?_ ?_ ?_⟩
    · nofun
    · show s.producer.held.Perm [buf]
      rw [at']
      exact .refl _
    · exact .refl _
    · intro z np nf
      cases z with
      | free => exact absurd rfl nf
      | producer => exact absurd rfl np
      | _ => rfl
  | ringRelease at' => exact h.of_same rfl h.short rfl (by rw [at']; rfl) rfl fun _ => rfl

/-- So does a worker. -/
lemma work (h : Owned s) (st : Work w s t) : Owned t := by
  cases st with
  | @pop buf ring at' some' =>
    obtain ⟨sound, items⟩ := (h.rings _).pop_some some'
    refine ⟨h.size, h.short, sound_update h.rings sound,
      h.kept.move (x := .queue (p.queueIndex w)) (y := .worker w) (a := buf) ?_ ?_ ?_ ?_⟩
    · nofun
    · show (s.queues _).items.Perm (buf :: (Function.update s.queues _ ring _).items)
      rw [Function.update_self, items]
    · show (Function.update s.workers w (.callback buf) w).held.Perm (buf :: (s.workers w).held)
      rw [Function.update_self, at']
      exact .refl _
    · intro z nq nw
      cases z with
      | queue q =>
        have ne : q ≠ p.queueIndex w := fun e => nq (e ▸ rfl)
        show (Function.update s.queues _ ring q).items = _
        rw [Function.update_of_ne ne]
        rfl
      | worker w' =>
        have ne : w' ≠ w := fun e => nw (e ▸ rfl)
        show (Function.update s.workers w _ w').held = _
        rw [Function.update_of_ne ne]
        rfl
      | _ => rfl
  | empty at' none' =>
    obtain rfl := SPSCRing.pop_none none'
    exact h.of_same rfl h.short rfl rfl (Function.update_eq_self _ _) (held_update s.workers (by rw [at']; rfl))
  | callback at' => exact h.of_same rfl h.short rfl rfl rfl (held_update s.workers (by rw [at']; rfl))
  | @release buf at' =>
    refine ⟨h.size, short_release h.short buf, h.rings,
      h.kept.move (x := .worker w) (y := .free) (a := buf) ?_ ?_ ?_ ?_⟩
    · nofun
    · show (s.workers w).held.Perm (buf :: (Function.update s.workers w .count w).held)
      rw [Function.update_self, at']
      exact .refl _
    · exact .refl _
    · intro z nw nf
      cases z with
      | free => exact absurd rfl nf
      | worker w' =>
        have ne : w' ≠ w := fun e => nw (e ▸ rfl)
        show (Function.update s.workers w _ w').held = _
        rw [Function.update_of_ne ne]
        rfl
      | _ => rfl
  | count at' => exact h.of_same rfl h.short rfl rfl rfl (held_update s.workers (by rw [at']; rfl))
  | again at' _ => exact h.of_same rfl h.short rfl rfl rfl (held_update s.workers (by rw [at']; rfl))
  | stop at' _ _ => exact h.of_same rfl h.short rfl rfl rfl (held_update s.workers (by rw [at']; rfl))

end Owned

/-! ## Frames -/

/-- The frame that the capture loop has taken and not counted. -/
def Producer.carries : Producer p → BitVec 64
  | .acquire _ => 1
  | .fill _ _ => 1
  | .push _ _ => 1
  | .recordDrop _ _ => 1
  | _ => 0

/-- The frame that a worker has popped and not counted. -/
def Worker.carries : Worker → BitVec 64
  | .callback _ => 1
  | .release _ => 1
  | .count => 1
  | _ => 0

/-- What a worker has counted. -/
def WorkerStats.counted (st : WorkerStats) : BitVec 64 := st.packetsProcessed + st.packetsDropped

/-- The frames counted, queued and carried. -/
def State.tally (s : State p) : BitVec 64 :=
  ∑ w, (s.stats w).counted + s.pool.totalExhausted + ∑ q, (s.queues q).size + s.producer.carries
    + ∑ w, (s.workers w).carries

/-- Every frame taken is counted once. -/
def Tally (s : State p) : Prop := BitVec.ofNat 64 s.taken.length = s.tally

/-- The drop is counted by one worker. -/
lemma recordDrop_counted (q : p.Queue) (stats : p.Queue → WorkerStats) :
    ∑ w, (recordDrop p q stats w).counted = ∑ w, (stats w).counted + 1 := by
  obtain ⟨i, found⟩ : ∃ i, (List.finRange (2 ^ p.queueBits.val)).find? (fun i => p.queueIndex i = q) = some i := by
    obtain ⟨j, is⟩ := Finite.surjective_of_injective p.distinct q
    apply Option.isSome_iff_exists.mp
    rw [List.find?_isSome]
    exact ⟨j, List.mem_finRange j, decide_eq_true is⟩
  unfold recordDrop
  rw [found]
  have sum := sum_update WorkerStats.counted stats i
    { stats i with packetsDropped := (stats i).packetsDropped + 1 }
  unfold WorkerStats.counted at *
  linear_combination sum

/-- A push that succeeds adds one to `size()`. -/
lemma size_push {r r' : SPSCRing ℕ p.ringBits} {item : ℕ} (sound : r.Sound)
    (ok : r.push item = (true, r')) : r'.size = r.size + 1 := by
  rw [← r.length_items, ← r'.length_items, (sound.push_true ok).2, List.length_append, BitVec.ofNat_add]
  rfl

/-- A pop that succeeds takes one from it. -/
lemma size_pop {r r' : SPSCRing ℕ p.ringBits} {item : ℕ} (sound : r.Sound)
    (some' : r.pop = (some item, r')) : r.size = r'.size + 1 := by
  rw [← r.length_items, ← r'.length_items, (sound.pop_some some').2, List.length_cons, BitVec.ofNat_add]
  rfl

namespace Tally

/-- At the start nothing is counted. -/
lemma init (p : Setup) : Tally (State.init p) := by
  simp [Tally, tally, State.init, WorkerStats.counted, Producer.carries, Worker.carries, SPSCRing.size,
    SPSCRing.new, BufferPool.new]

/-- The capture loop accounts for every frame it takes. -/
lemma produce (h : Tally s) (own : Owned s) (st : Produce s t) : Tally t := by
  unfold Tally tally at *
  cases st with
  | receive frame at' =>
    rw [at'] at h
    dsimp only [Producer.carries] at h ⊢
    have one : BitVec.ofNat 64 [frame].length = 1 := rfl
    rw [List.length_append, BitVec.ofNat_add, one]
    linear_combination h
  | stop at' =>
    rw [at'] at h
    exact h
  | acquire at' acq =>
    obtain ⟨_, _, rfl⟩ := BufferPool.acquire_some acq
    rw [at'] at h
    exact h
  | exhausted at' acq =>
    obtain ⟨_, rfl⟩ := BufferPool.acquire_none acq
    rw [at'] at h
    dsimp only [Producer.carries] at h ⊢
    linear_combination h
  | fill at' =>
    rw [at'] at h
    exact h
  | @push buf q ring at' ok =>
    have sum := sum_update SPSCRing.size s.queues q ring
    rw [size_push (own.rings q) ok] at sum
    rw [at'] at h
    dsimp only [Producer.carries, setQueue] at h ⊢
    linear_combination h - sum
  | full at' failed =>
    obtain rfl := SPSCRing.push_false failed
    rw [at'] at h
    dsimp only [setQueue]
    rw [Function.update_eq_self]
    exact h
  | recordDrop at' =>
    rw [at'] at h
    dsimp only [Producer.carries] at h ⊢
    rw [recordDrop_counted]
    linear_combination h
  | release at' =>
    rw [at'] at h
    exact h
  | ringRelease at' =>
    rw [at'] at h
    exact h

/-- A worker accounts for every buffer it takes. -/
lemma work (h : Tally s) (own : Owned s) (st : Work w s t) : Tally t := by
  have move := sum_update Worker.carries s.workers w
  unfold Tally tally at *
  cases st with
  | @pop buf ring at' some' =>
    have sum := sum_update SPSCRing.size s.queues (p.queueIndex w) ring
    rw [size_pop (own.rings _) some'] at sum
    rw [at'] at move
    have move : _ + (0 : BitVec 64) = _ + 1 := move (.callback buf)
    dsimp only [setQueue, setWorker]
    linear_combination h - sum - move
  | @empty ring at' none' =>
    obtain rfl := SPSCRing.pop_none none'
    have sum := sum_update WorkerStats.counted s.stats w
      { s.stats w with idleSpins := (s.stats w).idleSpins + 1 }
    rw [at'] at move
    have move : _ + (0 : BitVec 64) = _ + 0 := move .test
    dsimp only [WorkerStats.counted, setQueue, setWorker, spun] at h sum ⊢
    rw [Function.update_eq_self]
    linear_combination h - sum - move
  | @callback buf at' =>
    rw [at'] at move
    have move : _ + (1 : BitVec 64) = _ + 1 := move (.release buf)
    dsimp only [setWorker, call]
    linear_combination h - move
  | release at' =>
    rw [at'] at move
    have move : _ + (1 : BitVec 64) = _ + 1 := move .count
    dsimp only [setWorker, BufferPool.release]
    linear_combination h - move
  | count at' =>
    have sum := sum_update WorkerStats.counted s.stats w
      { s.stats w with packetsProcessed := (s.stats w).packetsProcessed + 1 }
    rw [at'] at move
    have move : _ + (1 : BitVec 64) = _ + 0 := move .test
    dsimp only [WorkerStats.counted, setWorker, processed] at h sum ⊢
    linear_combination h - sum - move
  | again at' _ =>
    rw [at'] at move
    have move : _ + (0 : BitVec 64) = _ + 0 := move .pop
    dsimp only [setWorker]
    linear_combination h - move
  | stop at' _ _ =>
    rw [at'] at move
    have move : _ + (0 : BitVec 64) = _ + 0 := move .stopped
    dsimp only [setWorker]
    linear_combination h - move

end Tally

end UxNet.Capture
