import UxNet.Capture.Order
import UxNet.Lib.Loop

/-!
# Shutdown

`WorkerPool::stop` sets `stop_` and joins the workers. A worker looks at `stop_` only in every thousandth
round, whether its queue is empty or not: the join returns (`left` is what the workers have still to do),
and what is then in the queues stays there.
-/

namespace UxNet.Capture

open State

variable {p : Setup} {s t : State p} {w : p.Queue}

/-! ## The rounds of a worker -/

/-- The round that a worker has counted in its statistics, and not in `iters`. -/
def Worker.ahead : Worker → BitVec 64
  | .test => 1
  | _ => 0

/-- The rounds of each worker are those in which it has processed a packet and those in which it was idle; it
has stopped in a thousandth round, after `stop_` was set. -/
structure Rounds (s : State p) : Prop where
  counted : ∀ w, (s.stats w).packetsProcessed + (s.stats w).idleSpins = s.iters w + (s.workers w).ahead
  stopped : ∀ w, s.workers w = .stopped → s.iters w % 1000 = 0
  last : s.stop = true → s.producer = .stopped

namespace Rounds

/-- No worker has run a round. -/
lemma init (p : Setup) : Rounds (State.init p) where
  counted := fun _ => rfl
  stopped := nofun
  last := nofun

/-- A drop is no round. -/
lemma recordDrop_rounds (q : p.Queue) (stats : p.Queue → WorkerStats) (w : p.Queue) :
    (recordDrop p q stats w).packetsProcessed = (stats w).packetsProcessed ∧
      (recordDrop p q stats w).idleSpins = (stats w).idleSpins := by
  unfold recordDrop
  cases (List.finRange (2 ^ p.queueBits.val)).find? fun i => p.queueIndex i = q with
  | none => exact ⟨rfl, rfl⟩
  | some i =>
    by_cases here : w = i
    · subst here
      simp
    · simp [here]

/-- The capture loop leaves the rounds of the workers alone. -/
lemma produce (h : Rounds s) (st : Produce s t) : Rounds t := by
  have last := h.last
  cases st with
  | stop at' => exact ⟨h.counted, h.stopped, fun _ => rfl⟩
  | @recordDrop buf q at' =>
    refine ⟨?_, h.stopped, ?_⟩
    · intro w
      obtain ⟨processed, idle⟩ := recordDrop_rounds q s.stats w
      show (recordDrop p q s.stats w).packetsProcessed + (recordDrop p q s.stats w).idleSpins = _
      rw [processed, idle]
      exact h.counted w
    · intro stop
      rw [last stop] at at'
      cases at'
  | receive _ at' | acquire at' _ | exhausted at' _ | fill at' | push at' _ | full at' _ | release at'
  | ringRelease at' =>
    refine ⟨h.counted, h.stopped, ?_⟩
    intro stop
    rw [last stop] at at'
    cases at'

/-- A step of one worker. -/
lemma of_worker (h : Rounds s)
    (others : ∀ w' ≠ w, t.stats w' = s.stats w' ∧ t.iters w' = s.iters w' ∧ t.workers w' = s.workers w')
    (counted : (t.stats w).packetsProcessed + (t.stats w).idleSpins = t.iters w + (t.workers w).ahead)
    (stopped : t.workers w = .stopped → t.iters w % 1000 = 0)
    (last : t.stop = s.stop ∧ t.producer = s.producer) : Rounds t where
  counted := by
    intro w'
    by_cases here : w' = w
    · rw [here]
      exact counted
    · obtain ⟨stats, iters, workers⟩ := others w' here
      rw [stats, iters, workers]
      exact h.counted w'
  stopped := by
    intro w'
    by_cases here : w' = w
    · rw [here]
      exact stopped
    · obtain ⟨_, iters, workers⟩ := others w' here
      rw [iters, workers]
      exact h.stopped w'
  last := by
    rw [last.1, last.2]
    exact h.last

/-- A worker counts its rounds. -/
lemma work (h : Rounds s) (st : Work w s t) : Rounds t := by
  have counted := h.counted w
  cases st with
  | pop at' _ | callback at' | release at' =>
    rw [at'] at counted
    refine h.of_worker (w := w) (fun w' ne => ?_) ?_ ?_ ⟨rfl, rfl⟩
    · exact ⟨rfl, rfl, Function.update_of_ne ne _ _⟩
    · simpa [setWorker, setQueue, State.call, Worker.ahead] using counted
    · simp [setWorker]
  | empty at' _ =>
    rw [at'] at counted
    refine h.of_worker (w := w) (fun w' ne => ?_) ?_ ?_ ⟨rfl, rfl⟩
    · exact ⟨Function.update_of_ne ne _ _, rfl, Function.update_of_ne ne _ _⟩
    · simp only [setWorker, spun, setQueue, Function.update_self, Worker.ahead] at counted ⊢
      linear_combination counted
    · simp [setWorker]
  | count at' =>
    rw [at'] at counted
    refine h.of_worker (w := w) (fun w' ne => ?_) ?_ ?_ ⟨rfl, rfl⟩
    · exact ⟨Function.update_of_ne ne _ _, rfl, Function.update_of_ne ne _ _⟩
    · simp only [setWorker, processed, Function.update_self, Worker.ahead] at counted ⊢
      linear_combination counted
    · simp [setWorker]
  | again at' _ =>
    rw [at'] at counted
    refine h.of_worker (w := w) (fun w' ne => ?_) ?_ ?_ ⟨rfl, rfl⟩
    · exact ⟨rfl, Function.update_of_ne ne _ _, Function.update_of_ne ne _ _⟩
    · simp only [setWorker, Function.update_self, Worker.ahead] at counted ⊢
      linear_combination counted
    · simp [setWorker]
  | stop at' turn _ =>
    rw [at'] at counted
    refine h.of_worker (w := w) (fun w' ne => ?_) ?_ ?_ ⟨rfl, rfl⟩
    · exact ⟨rfl, Function.update_of_ne ne _ _, Function.update_of_ne ne _ _⟩
    · simp only [setWorker, Function.update_self, Worker.ahead] at counted ⊢
      linear_combination counted
    · simpa [setWorker] using turn

/-- Every step keeps the count of the rounds. -/
lemma step (h : Rounds s) (st : Step s t) : Rounds t := by
  cases st with
  | produce st => exact h.produce st
  | work w st => exact h.work st

/-- So does every run. -/
lemma steps (h : Rounds s) (run : Steps s t) : Rounds t := by
  induction run with
  | refl => exact h
  | tail _ st ih => exact ih.step st

end Rounds

/-! ## What the workers have still to do -/

/-- The rounds until a worker next looks at `stop_`, after the one it is in. -/
def roundsLeft (iters : BitVec 64) : ℕ := 999 - iters.toNat % 1000

/-- The most steps that a worker can take until it looks at `stop_`. -/
def Worker.left (iters : BitVec 64) : Worker → ℕ
  | .pop => 5 * roundsLeft iters + 5
  | .callback _ => 5 * roundsLeft iters + 4
  | .release _ => 5 * roundsLeft iters + 3
  | .count => 5 * roundsLeft iters + 2
  | .test => 5 * roundsLeft iters + 1
  | .stopped => 0

/-- The most steps that all workers can take. -/
def State.left (s : State p) : ℕ := ∑ w, (s.workers w).left (s.iters w)

/-- A worker takes at most 5000 steps until it looks at `stop_`. -/
lemma Worker.left_le (iters : BitVec 64) (pc : Worker) : pc.left iters ≤ 5000 := by
  unfold Worker.left roundsLeft
  cases pc with
  | _ =>
    dsimp only
    omega

/-- All workers take at most 5000 steps each. -/
lemma State.left_le (s : State p) : s.left ≤ 5000 * 2 ^ p.queueBits.val := by
  unfold State.left
  have bound := Finset.sum_le_card_nsmul Finset.univ (fun w => (s.workers w).left (s.iters w)) 5000
    fun w _ => Worker.left_le _ _
  rw [Finset.card_univ, Fintype.card_fin, smul_eq_mul, Nat.mul_comm] at bound
  exact bound

/-- A round that is not a thousandth one. -/
lemma roundsLeft_succ {i : BitVec 64} (more : (i + 1) % 1000 ≠ 0) :
    roundsLeft i = roundsLeft (i + 1) + 1 := by
  have fits : i.toNat + 1 < 2 ^ 64 := by
    by_contra big
    have all : i.toNat + 1 = 2 ^ 64 := by
      have := i.isLt
      omega
    apply more
    have zero : i + 1 = 0 := by
      apply BitVec.eq_of_toNat_eq
      rw [BitVec.toNat_add]
      show (i.toNat + 1) % 2 ^ 64 = 0
      rw [all, Nat.mod_self]
    rw [zero]
    rfl
  have succ : (i + 1).toNat = i.toNat + 1 := by
    rw [BitVec.toNat_add]
    exact Nat.mod_eq_of_lt fits
  have part : (i.toNat + 1) % 1000 ≠ 0 := by
    intro zero
    apply more
    apply BitVec.eq_of_toNat_eq
    rw [BitVec.toNat_umod, succ]
    exact zero
  unfold roundsLeft
  rw [succ]
  omega

/-- One worker has less to do, and the others as much as before. -/
lemma State.left_lt_of_worker
    (others : ∀ w' ≠ w, t.iters w' = s.iters w' ∧ t.workers w' = s.workers w')
    (own : (t.workers w).left (t.iters w) < (s.workers w).left (s.iters w)) : t.left < s.left := by
  refine Finset.sum_lt_sum ?_ ⟨w, Finset.mem_univ w, own⟩
  intro w' _
  by_cases here : w' = w
  · rw [here]
    exact own.le
  · rw [(others w' here).1, (others w' here).2]

/-- Once `stop_` is set, each step of a worker leaves less to do. -/
lemma State.Work.left_lt (st : Work w s t) (stop : s.stop = true) : t.left < s.left := by
  cases st with
  | pop at' _ | empty at' _ | callback at' | release at' | count at' =>
    refine left_lt_of_worker (w := w) (fun w' ne => ⟨rfl, Function.update_of_ne ne _ _⟩) ?_
    rw [at']
    simp only [setWorker, setQueue, State.call, spun, processed, Function.update_self, Worker.left]
    omega
  | again at' more =>
    refine left_lt_of_worker (w := w) (fun w' ne => ?_) ?_
    · exact ⟨Function.update_of_ne ne _ _, Function.update_of_ne ne _ _⟩
    · have rounds := roundsLeft_succ fun turn => more ⟨turn, stop⟩
      rw [at']
      simp only [setWorker, Function.update_self, Worker.left]
      omega
  | stop at' _ _ =>
    refine left_lt_of_worker (w := w) (fun w' ne => ?_) ?_
    · exact ⟨Function.update_of_ne ne _ _, Function.update_of_ne ne _ _⟩
    · rw [at']
      simp only [setWorker, Function.update_self, Worker.left]
      omega

/-- The capture loop does nothing more. -/
lemma State.Step.of_stop (h : Rounds s) (stop : s.stop = true) (st : Step s t) :
    ∃ w, Work w s t := by
  cases st with
  | produce st =>
    have last := h.last stop
    cases st with
    | receive _ at' | stop at' | acquire at' _ | exhausted at' _ | fill at' | push at' _ | full at' _
    | recordDrop at' | release at' | ringRelease at' =>
      rw [last] at at'
      cases at'
  | work w st => exact ⟨w, st⟩

/-- `stop_` stays set. -/
lemma State.Step.stop_of_stop (st : Step s t) (stop : s.stop = true) : t.stop = true := by
  cases st with
  | produce st =>
    cases st with
    | stop _ => rfl
    | _ => exact stop
  | work w st =>
    cases st with
    | _ => exact stop

/-- A worker that has not stopped can go on. -/
lemma exists_work (s : State p) (more : s.workers w ≠ .stopped) : ∃ t, Work w s t := by
  cases at' : s.workers w with
  | pop =>
    cases popped : (s.queues (p.queueIndex w)).pop with
    | mk item ring =>
      cases item with
      | none => exact ⟨_, .empty at' popped⟩
      | some buf => exact ⟨_, .pop at' popped⟩
  | callback buf => exact ⟨_, .callback at'⟩
  | release buf => exact ⟨_, .release at'⟩
  | count => exact ⟨_, .count at'⟩
  | test =>
    by_cases turn : (s.iters w + 1) % 1000 = 0 ∧ s.stop = true
    · exact ⟨_, .stop at' turn.1 turn.2⟩
    · exact ⟨_, .again at' turn⟩
  | stopped => exact absurd at' more

/-- Where the buffers are when all threads have ended. -/
lemma Owned.at_end (own : Owned s) (producer : s.producer = .stopped)
    (workers : ∀ w, s.workers w = .stopped) {b : ℕ} (lt : b < p.bufferCount) :
    b ∈ s.pool.free ∨ ∃ q, b ∈ (s.queues q).items := by
  obtain ⟨x, there, _⟩ := own.kept.existsUnique lt
  cases x with
  | free => exact .inl there
  | producer =>
    have held : b ∈ s.producer.held := there
    rw [producer] at held
    cases held
  | queue q => exact .inr ⟨q, there⟩
  | worker w =>
    have held : b ∈ (s.workers w).held := there
    rw [workers w] at held
    cases held

/-- `workers.stop()` returns, and what it leaves. From any state in which `stop_` is set, all workers together
take at most 5000 steps for each of them, whatever the order; when none can go on, all have ended. Then each
has made a multiple of a thousand rounds, every frame taken was processed, dropped, not taken for want of a
buffer, or is still in a queue, and every buffer that is not free is in a queue. -/
theorem shutdown_ends (p : Setup) (s : State p) (run : Steps (State.init p) s) (stop : s.stop = true) :
    (∀ (r : ℕ → State p) (k : ℕ), r 0 = s → (∀ i < k, Step (r i) (r (i + 1))) →
      k ≤ 5000 * 2 ^ p.queueBits.val) ∧
    ∀ t, Steps s t → (∀ u, ¬ Step t u) →
      (∀ w, t.workers w = .stopped) ∧
      (∀ w, ((t.stats w).packetsProcessed + (t.stats w).idleSpins) % 1000 = 0) ∧
      BitVec.ofNat 64 t.taken.length
        = ∑ w, ((t.stats w).packetsProcessed + (t.stats w).packetsDropped) + t.pool.totalExhausted
          + ∑ q, (t.queues q).size ∧
      ∀ b < p.bufferCount, b ∈ t.pool.free ∨ ∃ q, b ∈ (t.queues q).items := by
  have rounds := (Rounds.init p).steps run
  constructor
  · rintro r k rfl steps
    refine (Loop.steps_le State.left (I := fun s => Rounds s ∧ s.stop = true) ?_ ?_ ⟨rounds, stop⟩
      steps).trans (State.left_le _)
    · exact fun h st => ⟨h.1.step st, st.stop_of_stop h.2⟩
    · intro s t h st
      obtain ⟨w, st⟩ := st.of_stop h.1 h.2
      exact st.left_lt h.2
  · intro t more stuck
    have rounds' := rounds.steps more
    have stop' : t.stop = true := by
      clear stuck rounds'
      induction more with
      | refl => exact stop
      | tail _ st ih => exact st.stop_of_stop ih
    have ended : ∀ w, t.workers w = .stopped := by
      intro w
      by_contra more
      obtain ⟨u, st⟩ := exists_work t more
      exact stuck u (.work w st)
    have inv := Inv.steps (run.trans more)
    have producer := rounds'.last stop'
    refine ⟨ended, ?_, ?_, fun b => inv.owned.at_end producer ended⟩
    · intro w
      have counted := rounds'.counted w
      rw [ended w] at counted
      rw [counted, show Worker.stopped.ahead = 0 from rfl, add_zero]
      exact rounds'.stopped w (ended w)
    · exact inv.balanced (.inr producer) fun w => .inr (ended w)

/-- Nothing goes on once all threads have ended. -/
lemma not_step (producer : s.producer = .stopped) (workers : ∀ w, s.workers w = .stopped) (u : State p) :
    ¬ Step s u := by
  intro st
  cases st with
  | produce st =>
    cases st with
    | receive _ at' | stop at' | acquire at' _ | exhausted at' _ | fill at' | push at' _ | full at' _
    | recordDrop at' | release at' | ringRelease at' =>
      rw [producer] at at'
      cases at'
  | work w st =>
    cases st with
    | pop at' _ | empty at' _ | callback at' | release at' | count at' | again at' _ | stop at' _ _ =>
      rw [workers w] at at'
      cases at'

/-- The only worker has found its queue empty this often. -/
def State.idled (n : ℕ) : State .small :=
  { State.init .small with
    iters := fun _ => BitVec.ofNat 64 n
    stats := fun _ => { packetsProcessed := 0, packetsDropped := 0, idleSpins := BitVec.ofNat 64 n } }

/-- There is nothing but the one queue. -/
lemma update_small {α : Type} (f : Setup.small.Queue → α) (w : Setup.small.Queue) (a : α) :
    Function.update f w a = fun _ => a := by
  funext w'
  rw [show w' = w from Subsingleton.elim (α := Fin 1) w' w, Function.update_self]

/-- Before `stop_` is set, the worker looks at its queue as often as one likes. -/
lemma idled_reached (n : ℕ) : Steps (State.init .small) (State.idled n) := by
  induction n with
  | zero => exact .refl
  | succ n ih =>
    have looked := ih.tail (.work 0 (.empty rfl rfl))
    have again := looked.tail (.work 0 (.again (by simp [setWorker]) fun both => nomatch both.2))
    have more : BitVec.ofNat 64 (n + 1) = BitVec.ofNat 64 n + 1 := BitVec.ofNat_add n 1
    convert again using 1
    simp only [State.idled, setWorker, spun, setQueue, update_small, more]
    rfl

/-- A frame is pushed after the worker's thousandth look at its queue, and the signal comes. -/
lemma frame_left : ∃ s : State .small, Steps (State.init .small) s ∧ s.stop = true ∧
    s.producer = .stopped ∧ s.workers 0 = .test ∧ s.iters 0 = 999 ∧ s.taken.length = 1 ∧
    (s.queues 0).items = [1] := by
  have looked := (idled_reached 999).tail (.work 0 (.empty rfl rfl))
  have taken := (looked.tail (.produce (.receive [7] rfl))).tail (.produce (.acquire rfl rfl))
  have pushed := (taken.tail (.produce (.fill rfl))).tail (.produce (.push rfl rfl))
  have stopping := (pushed.tail (.produce (.ringRelease rfl))).tail (.produce (.stop rfl))
  refine ⟨_, stopping, rfl, rfl, by simp [setWorker, State.fill, setQueue], rfl, rfl, ?_⟩
  simp only [setQueue, update_small]
  rfl

/-- The frame is still in the queue when all threads have ended. -/
theorem shutdown_ends_frame_left : ∃ s t : State .small, Steps (State.init .small) s ∧ s.stop = true ∧
    Steps s t ∧ (∀ u, ¬ Step t u) ∧ t.taken.length = 1 ∧ (t.queues 0).items = [1] ∧
    BitVec.ofNat 64 t.taken.length
      = ∑ w, ((t.stats w).packetsProcessed + (t.stats w).packetsDropped) + t.pool.totalExhausted
        + ∑ q, (t.queues q).size ∧
    ∀ b < 2, b ∈ t.pool.free ∨ ∃ q, b ∈ (t.queues q).items := by
  obtain ⟨s, run, stop, producer, worker, iters, taken, items⟩ := frame_left
  have turn : (s.iters 0 + 1) % 1000 = 0 := by
    rw [iters]
    decide
  obtain ⟨t, st, same, workers⟩ : ∃ t, Step s t ∧ (t.producer = s.producer ∧ t.taken = s.taken ∧
      t.queues = s.queues) ∧ ∀ w, t.workers w = .stopped := by
    refine ⟨_, .work 0 (.stop worker turn stop), ⟨rfl, rfl, rfl⟩, fun w => ?_⟩
    simp only [setWorker, update_small]
  have ended := not_step (same.1.trans producer) workers
  obtain ⟨_, _, counted, left⟩ := (shutdown_ends .small s run stop).2 t (.single st) ended
  exact ⟨s, t, run, stop, .single st, ended, same.2.1 ▸ taken, same.2.2 ▸ items, counted, left⟩

end UxNet.Capture
