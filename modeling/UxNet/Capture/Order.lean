import UxNet.Capture.Accounting
import UxNet.Pool.Contents

/-!
# What the callbacks see

What was pushed to a queue is what the callback has seen, then what the worker is about to pass to it,
then what is still in the ring (`Lane`). The buffers of the last two are not touched by anyone
(`Produce.intact`, `Work.intact`). The pushes are in the order of arrival, each to the queue of its flow
(`Logged`).
-/

namespace UxNet.Capture

open Packet Places State

variable {p : Setup} {s t : State p} {w w' : p.Queue} {now queued : List Entry}

/-- The buffer that a worker is about to pass to the callback. -/
def Worker.hand : Worker → List ℕ
  | .callback buf => [buf]
  | _ => []

/-- A buffer in hand is held for the callback. -/
lemma Worker.held_of_hand {pc : Worker} {b : ℕ} (mem : b ∈ pc.hand) : pc = .callback b ∧ b ∈ pc.held := by
  cases pc with
  | callback buf =>
    obtain rfl := List.mem_singleton.mp mem
    exact ⟨rfl, mem⟩
  | _ => exact absurd mem List.not_mem_nil

/-- The packets of one queue. -/
structure Lane (s : State p) (w : p.Queue) (now queued : List Entry) : Prop where
  pushed : s.pushed (p.queueIndex w) = s.seen (p.queueIndex w) ++ now ++ queued
  items : (s.queues (p.queueIndex w)).items = queued.map (·.buf)
  hand : (s.workers w).hand = now.map (·.buf)
  intact : ∀ e ∈ now ++ queued, s.entry e.buf = e

/-- An untouched buffer holds the packet it held. -/
lemma entry_eq {b : ℕ} (own : Owned s) (same : Untouched s.pool t.pool b)
    (arrival : t.arrival b = s.arrival b) : t.entry b = s.entry b := by
  have agree : ∀ i < reach, t.pool.view b i = s.pool.view b i := by
    intro i lt
    refine same.view i ?_
    rw [own.size]
    exact lt_of_lt_of_le lt p.fits
  have content := same.content (by rw [own.size]; exact own.short b)
  obtain ⟨parsed, flow⟩ := parse_congr agree ((s.pool.len b).setWidth 64)
  unfold entry parsedIn
  rw [content, arrival, same.len, parsed, ← flow, parsed]

/-- The capture loop touches only what it holds. -/
lemma State.Produce.intact (own : Owned s) (st : Produce s t) {b : ℕ} (not : b ∉ s.producer.held) :
    t.entry b = s.entry b := by
  cases st with
  | acquire _ acq => exact entry_eq own (.acquire (congrArg Prod.snd acq)) rfl
  | exhausted _ acq => exact entry_eq own (.acquire (congrArg Prod.snd acq)) rfl
  | @fill frame buf at' =>
    rw [at'] at not
    have ne : b ≠ buf := fun e => not (List.mem_singleton.mpr e)
    refine entry_eq own (.store ne ?_) (Function.update_of_ne ne _ _)
    rw [own.size]
    calc _ ≤ p.capacity.toNat := List.length_take_le _ _
      _ = p.bufferSize % 2 ^ 32 := BitVec.toNat_ofNat _ _
      _ ≤ p.bufferSize := Nat.mod_le _ _
  | @release buf at' =>
    rw [at'] at not
    exact entry_eq own (.release .caller fun e => not (List.mem_singleton.mpr e)) rfl
  | _ => rfl

/-- A worker touches only what it has passed to the callback. -/
lemma State.Work.intact (own : Owned s) (st : Work w s t) {b : ℕ} (not : s.workers w ≠ .release b) :
    t.entry b = s.entry b := by
  cases st with
  | @release buf at' =>
    refine entry_eq own (.release .caller ?_) rfl
    rintro rfl
    exact not at'
  | _ => rfl

namespace Lane

/-- A lane depends only on what was pushed to it and seen of it, its queue, and the contents of its buffers.
-/
lemma of_same (h : Lane s w now queued)
    (pushed : t.pushed (p.queueIndex w) = s.pushed (p.queueIndex w))
    (seen : t.seen (p.queueIndex w) = s.seen (p.queueIndex w))
    (queues : t.queues (p.queueIndex w) = s.queues (p.queueIndex w))
    (workers : (t.workers w).hand = (s.workers w).hand)
    (intact : ∀ e ∈ now ++ queued, t.entry e.buf = s.entry e.buf) : Lane t w now queued := by
  refine ⟨?_, ?_, ?_, fun e mem => (intact e mem).trans (h.intact e mem)⟩
  · rw [pushed, seen]
    exact h.pushed
  · rw [queues]
    exact h.items
  · rw [workers]
    exact h.hand

/-- The buffers of a lane are in its queue or with its worker. -/
lemma place (h : Lane s w now queued) {e : Entry} (mem : e ∈ now ++ queued) :
    e.buf ∈ s.holding (.queue (p.queueIndex w)) ∨ s.workers w = .callback e.buf := by
  rcases List.mem_append.mp mem with mem | mem
  · refine .inr (Worker.held_of_hand ?_).1
    rw [h.hand]
    exact List.mem_map_of_mem mem
  · refine .inl ?_
    show e.buf ∈ (s.queues _).items
    rw [h.items]
    exact List.mem_map_of_mem mem

/-- The capture loop leaves the packets of a lane alone. -/
lemma produced (h : Lane s w now queued) (own : Owned s) (st : Produce s t) :
    ∀ e ∈ now ++ queued, t.entry e.buf = s.entry e.buf := by
  intro e mem
  refine st.intact own fun held => ?_
  rcases h.place mem with there | there
  · cases own.kept.unique (x := .producer) held there
  · have there' : e.buf ∈ s.holding (.worker w) := by
      show e.buf ∈ (s.workers w).held
      rw [there]
      exact List.mem_singleton_self _
    cases own.kept.unique (x := .producer) held there'

/-- A worker leaves the packets of a lane alone. -/
lemma worked (h : Lane s w now queued) (own : Owned s) (st : Work w' s t) :
    ∀ e ∈ now ++ queued, t.entry e.buf = s.entry e.buf := by
  intro e mem
  refine st.intact own fun at' => ?_
  have held : e.buf ∈ s.holding (.worker w') := by
    show e.buf ∈ (s.workers w').held
    rw [at']
    exact List.mem_singleton_self _
  rcases h.place mem with there | there
  · cases own.kept.unique held there
  · have there' : e.buf ∈ s.holding (.worker w) := by
      show e.buf ∈ (s.workers w).held
      rw [there]
      exact List.mem_singleton_self _
    cases own.kept.unique held there'
    rw [at'] at there
    cases there

/-- A push adds to the log of its own queue. -/
lemma pushed_concat (q q' : p.Queue) (e : Entry) (pushes : List (p.Queue × Entry)) :
    ((pushes ++ [(q, e)]).filter (·.1 = q')).map (·.2)
      = (pushes.filter (·.1 = q')).map (·.2) ++ if q = q' then [e] else [] := by
  rw [List.filter_append, List.map_append]
  congr 1
  by_cases eq : q = q'
  · simp [eq]
  · simp [eq]

/-- The capture loop keeps every lane in order. -/
lemma produce (h : Lane s w now queued) (own : Owned s) (st : Produce s t) :
    ∃ now queued, Lane t w now queued := by
  have intact := h.produced own st
  cases st with
  | @push buf q ring at' ok =>
    by_cases here : q = p.queueIndex w
    · subst here
      refine ⟨now, queued ++ [s.entry buf], ?_, ?_, h.hand, ?_⟩
      · show ((s.pushes ++ [_]).filter _).map _ = s.seen _ ++ now ++ (queued ++ _)
        rw [pushed_concat, if_pos rfl, ← List.append_assoc, ← h.pushed]
        rfl
      · show (Function.update s.queues _ ring _).items = _
        rw [Function.update_self, ((own.rings _).push_true ok).2, h.items, List.map_append]
        rfl
      · intro e mem
        rw [← List.append_assoc] at mem
        rcases List.mem_append.mp mem with mem | mem
        · exact h.intact e mem
        · obtain rfl := List.mem_singleton.mp mem
          rfl
    · refine ⟨now, queued, h.of_same ?_ rfl (Function.update_of_ne (Ne.symm here) _ _) rfl intact⟩
      show ((s.pushes ++ [_]).filter _).map _ = _
      rw [pushed_concat, if_neg here, List.append_nil]
      rfl
  | full at' failed =>
    obtain rfl := SPSCRing.push_false failed
    refine ⟨now, queued, h.of_same rfl rfl ?_ rfl intact⟩
    exact congrFun (Function.update_eq_self _ _) _
  | _ => exact ⟨now, queued, h.of_same rfl rfl rfl rfl intact⟩

/-- The steps of a worker that leave what it passes to the callback as it is. -/
lemma hand_update {pc : Worker} (f : p.Queue → Worker) (same : pc.hand = (f w').hand) :
    (Function.update f w' pc w).hand = (f w).hand := by
  by_cases e : w = w'
  · rw [e, Function.update_self, same]
  · rw [Function.update_of_ne e]

/-- So does a worker. -/
lemma work (h : Lane s w now queued) (own : Owned s) (st : Work w' s t) :
    ∃ now queued, Lane t w now queued := by
  have intact := h.worked own st
  -- What another worker does to its own queue is not seen here.
  have apart : w ≠ w' → p.queueIndex w ≠ p.queueIndex w' := fun ne e => ne (p.distinct e)
  cases st with
  | @pop buf ring at' some' =>
    by_cases here : w = w'
    · subst here
      have items := ((own.rings _).pop_some some').2
      have none := h.hand
      rw [at'] at none
      obtain rfl := List.map_eq_nil_iff.mp none.symm
      rw [h.items] at items
      obtain ⟨e, rest, rfl, rfl, tail⟩ := List.map_eq_cons_iff.mp items
      refine ⟨[e], rest, ?_, ?_, ?_, h.intact⟩
      · rw [List.append_assoc]
        exact h.pushed.trans (by rw [List.append_nil]; rfl)
      · show (Function.update s.queues _ ring _).items = _
        rw [Function.update_self, tail]
      · show (Function.update s.workers w _ w).hand = _
        rw [Function.update_self]
        rfl
    · refine ⟨now, queued, h.of_same rfl rfl ?_ ?_ intact⟩
      · exact Function.update_of_ne (apart here) _ _
      · show (Function.update s.workers w' _ w).hand = _
        rw [Function.update_of_ne here]
  | empty at' none' =>
    obtain rfl := SPSCRing.pop_none none'
    refine ⟨now, queued, h.of_same rfl rfl ?_ (hand_update s.workers (by rw [at']; rfl)) intact⟩
    exact congrFun (Function.update_eq_self _ _) _
  | @callback buf at' =>
    by_cases here : w = w'
    · subst here
      have one := h.hand
      rw [at'] at one
      obtain ⟨e, rest, rfl, same, nil⟩ := List.map_eq_cons_iff.mp one.symm
      obtain rfl := List.map_eq_nil_iff.mp nil
      obtain rfl := same
      refine ⟨[], queued, ?_, h.items, ?_, fun e mem => h.intact e (List.mem_cons_of_mem _ mem)⟩
      · show s.pushed _ = Function.update s.seen _ (s.seen _ ++ [s.entry e.buf]) _ ++ [] ++ queued
        rw [Function.update_self, h.intact e List.mem_cons_self, List.append_nil]
        exact h.pushed
      · show (Function.update s.workers w _ w).hand = _
        rw [Function.update_self]
        rfl
    · refine ⟨now, queued, h.of_same rfl ?_ rfl ?_ intact⟩
      · exact Function.update_of_ne (apart here) _ _
      · show (Function.update s.workers w' _ w).hand = _
        rw [Function.update_of_ne here]
  | release at' => exact ⟨now, queued, h.of_same rfl rfl rfl (hand_update s.workers (by rw [at']; rfl)) intact⟩
  | count at' => exact ⟨now, queued, h.of_same rfl rfl rfl (hand_update s.workers (by rw [at']; rfl)) intact⟩
  | again at' _ => exact ⟨now, queued, h.of_same rfl rfl rfl (hand_update s.workers (by rw [at']; rfl)) intact⟩
  | stop at' _ _ => exact ⟨now, queued, h.of_same rfl rfl rfl (hand_update s.workers (by rw [at']; rfl)) intact⟩

end Lane

/-! ## The pushes -/

/-- The frame that the capture loop is about to push. -/
def Producer.fresh : Producer p → ℕ
  | .acquire _ => 1
  | .fill _ _ => 1
  | .push _ _ => 1
  | _ => 0

/-- A packet holds the frame of its number, cut to the size of a buffer, and belongs to a queue. -/
structure Captured (s : State p) (q : p.Queue) (e : Entry) : Prop where
  frame : ∃ frame, s.taken[e.arrival]? = some frame ∧ e.bytes = frame.take p.capacity.toNat
  routed : (p.rss.indexOf e.flow).toNat = q.val

/-- What the capture loop knows of the last frame. -/
def State.Loaded (s : State p) : Prop :=
  match s.producer with
  | .acquire frame => s.taken.getLast? = some frame
  | .fill frame _ => s.taken.getLast? = some frame
  | .push buf q => (s.entry buf).arrival + 1 = s.taken.length ∧ Captured s q (s.entry buf)
  | _ => True

/-- The pushes so far. -/
structure Logged (s : State p) : Prop where
  sorted : s.pushes.Pairwise fun x y => x.2.arrival < y.2.arrival
  older : ∀ x ∈ s.pushes, x.2.arrival + s.producer.fresh < s.taken.length
  captured : ∀ x ∈ s.pushes, Captured s x.1 x.2
  loaded : s.Loaded

namespace Logged

/-- At the start nothing is pushed. -/
lemma init (p : Setup) : Logged (State.init p) :=
  ⟨.nil, fun _ mem => absurd mem List.not_mem_nil, fun _ mem => absurd mem List.not_mem_nil, trivial⟩

/-- Nothing is pushed, and no frame taken. -/
lemma of_same (h : Logged s) (pushes : t.pushes = s.pushes) (taken : t.taken = s.taken)
    (fresh : t.producer.fresh ≤ s.producer.fresh) (loaded : t.Loaded) : Logged t := by
  refine ⟨?_, ?_, ?_, loaded⟩
  · rw [pushes]
    exact h.sorted
  · rw [pushes, taken]
    intro x mem
    exact lt_of_le_of_lt (Nat.add_le_add_left fresh _) (h.older x mem)
  · rw [pushes]
    intro x mem
    refine ⟨?_, (h.captured x mem).routed⟩
    rw [taken]
    exact (h.captured x mem).frame

/-- What the capture loop pushes is the beginning of the frame it took last. -/
lemma produce (h : Logged s) (st : Produce s t) : Logged t := by
  have loaded := h.loaded
  unfold Loaded at loaded
  cases st with
  | receive frame at' =>
    refine ⟨h.sorted, ?_, ?_, List.getLast?_concat⟩
    · intro x mem
      show x.2.arrival + 1 < (s.taken ++ [frame]).length
      have lt := h.older x mem
      rw [List.length_append, List.length_singleton]
      omega
    · intro x mem
      obtain ⟨⟨frame', is, bytes⟩, routed⟩ := h.captured x mem
      refine ⟨⟨frame', ?_, bytes⟩, routed⟩
      show (s.taken ++ [frame])[x.2.arrival]? = _
      rw [List.getElem?_append_left (List.getElem?_eq_some_iff.mp is).1]
      exact is
  | stop at' => exact h.of_same rfl rfl (Nat.zero_le _) trivial
  | acquire at' acq =>
    rw [at'] at loaded
    exact h.of_same rfl rfl (by rw [at']; exact le_rfl) loaded
  | exhausted at' acq => exact h.of_same rfl rfl (Nat.zero_le _) trivial
  | @fill frame buf at' =>
    rw [at'] at loaded
    have arrival : (s.fill frame buf).arrival buf = s.taken.length - 1 := Function.update_self ..
    have pos : 0 < s.taken.length := by
      refine List.length_pos_iff.mpr ?_
      rintro nil
      rw [nil] at loaded
      cases loaded
    have short : (frame.take p.capacity.toNat).length < 2 ^ 32 :=
      lt_of_le_of_lt (List.length_take_le _ _) p.capacity.isLt
    refine h.of_same rfl rfl (by rw [at']; exact le_rfl) ⟨?_, ⟨frame, ?_, BufferPool.content_store short⟩, ?_⟩
    · show (s.fill frame buf).arrival buf + 1 = s.taken.length
      omega
    · show s.taken[(s.fill frame buf).arrival buf]? = some frame
      rw [arrival, ← List.getLast?_eq_getElem?]
      exact loaded
    · exact (p.route_val _ _).symm
  | @push buf q ring at' ok =>
    rw [at'] at loaded
    have before : ∀ x ∈ s.pushes, x.2.arrival < (s.entry buf).arrival := by
      intro x mem
      have lt : x.2.arrival + s.producer.fresh < s.taken.length := h.older x mem
      rw [at', ← loaded.1] at lt
      exact Nat.lt_of_add_lt_add_right lt
    refine ⟨?_, ?_, ?_, trivial⟩
    · refine List.pairwise_append.mpr ⟨h.sorted, List.pairwise_singleton _ _, ?_⟩
      intro x mem y new
      obtain rfl := List.mem_singleton.mp new
      exact before x mem
    · intro x mem
      show x.2.arrival < s.taken.length
      rcases List.mem_append.mp mem with mem | mem
      · have lt := before x mem
        omega
      · obtain rfl := List.mem_singleton.mp mem
        exact Nat.lt_of_succ_le (le_of_eq loaded.1)
    · intro x mem
      rcases List.mem_append.mp mem with mem | mem
      · exact ⟨(h.captured x mem).frame, (h.captured x mem).routed⟩
      · obtain rfl := List.mem_singleton.mp mem
        exact ⟨loaded.2.frame, loaded.2.routed⟩
  | full at' failed => exact h.of_same rfl rfl (Nat.zero_le _) trivial
  | recordDrop at' => exact h.of_same rfl rfl (Nat.zero_le _) trivial
  | release at' => exact h.of_same rfl rfl (Nat.zero_le _) trivial
  | ringRelease at' => exact h.of_same rfl rfl (Nat.zero_le _) trivial

/-- A worker pushes nothing. -/
lemma work (h : Logged s) (own : Owned s) (st : Work w s t) : Logged t := by
  obtain ⟨pushes, taken, producer⟩ : t.pushes = s.pushes ∧ t.taken = s.taken ∧ t.producer = s.producer := by
    cases st with
    | _ => exact ⟨rfl, rfl, rfl⟩
  refine h.of_same pushes taken (by rw [producer]) ?_
  have loaded := h.loaded
  unfold Loaded at loaded ⊢
  rw [producer, taken]
  cases at' : s.producer with
  | push buf q =>
    rw [at'] at loaded
    have intact : t.entry buf = s.entry buf := by
      refine st.intact own fun at'' => ?_
      have held : buf ∈ s.holding .producer := by
        show buf ∈ s.producer.held
        rw [at']
        exact List.mem_singleton_self _
      have held' : buf ∈ s.holding (.worker w) := by
        show buf ∈ (s.workers w).held
        rw [at'']
        exact List.mem_singleton_self _
      cases own.kept.unique held held'
    show (t.entry buf).arrival + 1 = _ ∧ Captured t q (t.entry buf)
    rw [intact]
    refine ⟨loaded.1, ?_, loaded.2.routed⟩
    rw [taken]
    exact loaded.2.frame
  | acquire frame =>
    rw [at'] at loaded
    exact loaded
  | fill frame buf =>
    rw [at'] at loaded
    exact loaded
  | _ => trivial

end Logged

/-- All that holds in every state. -/
structure Inv (s : State p) : Prop where
  owned : Owned s
  tally : Tally s
  lanes : ∀ w, ∃ now queued, Lane s w now queued
  logged : Logged s

/-- The invariant holds in every run. -/
lemma Inv.steps (run : Steps (State.init p) s) : Inv s := by
  induction run with
  | refl =>
    refine ⟨.init p, .init p, fun w => ⟨[], [], rfl, SPSCRing.items_new _, rfl, ?_⟩, .init p⟩
    exact fun _ mem => absurd mem List.not_mem_nil
  | tail _ st ih =>
    cases st with
    | produce st =>
      refine ⟨ih.owned.produce st, ih.tally.produce ih.owned st, ?_, ih.logged.produce st⟩
      intro w
      obtain ⟨_, _, lane⟩ := ih.lanes w
      exact lane.produce ih.owned st
    | work w' st =>
      refine ⟨ih.owned.work st, ih.tally.work ih.owned st, ?_, ih.logged.work ih.owned st⟩
      intro w
      obtain ⟨_, _, lane⟩ := ih.lanes w
      exact lane.work ih.owned st

namespace Inv

/-- What was pushed to a queue and not seen yet is with its worker or in the ring. -/
lemma waiting (h : Inv s) (w : p.Queue) :
    ∃ waiting, s.pushed (p.queueIndex w) = s.seen (p.queueIndex w) ++ waiting ∧
      waiting.map (·.buf) = (s.workers w).hand ++ (s.queues (p.queueIndex w)).items := by
  obtain ⟨now, queued, lane⟩ := h.lanes w
  refine ⟨now ++ queued, ?_, ?_⟩
  · rw [← List.append_assoc]
    exact lane.pushed
  · rw [List.map_append, lane.hand, lane.items]

/-- What a worker has seen is the beginning of what was pushed to it. -/
lemma seen_prefix (h : Inv s) (q : p.Queue) : s.seen q <+: s.pushed q := by
  obtain ⟨w, rfl⟩ := Finite.surjective_of_injective p.distinct q
  obtain ⟨waiting, pushed, _⟩ := h.waiting w
  exact ⟨waiting, pushed.symm⟩

/-- What is pushed to a queue is in the order of arrival. -/
lemma sorted (h : Inv s) (q : p.Queue) : (s.pushed q).Pairwise fun e e' => e.arrival < e'.arrival :=
  List.Pairwise.map _ (fun _ _ lt => lt) (h.logged.sorted.filter _)

/-- What is pushed was captured. -/
lemma captured (h : Inv s) {q : p.Queue} {e : Entry} (mem : e ∈ s.pushed q) : Captured s q e := by
  obtain ⟨x, there, rfl⟩ := List.mem_map.mp mem
  obtain ⟨logged, is⟩ := List.mem_filter.mp there
  obtain rfl := of_decide_eq_true is
  exact h.logged.captured x logged

/-- Packets of one flow go to one queue. -/
lemma queue_eq (h : Inv s) {q q' : p.Queue} {e e' : Entry} (mem : e ∈ s.pushed q)
    (mem' : e' ∈ s.pushed q')
    (same : e.flow.Same e'.flow) : q = q' := by
  apply Fin.ext
  rw [← (h.captured mem).routed, ← (h.captured mem').routed, p.rss.indexOf_same same]

/-- Of two packets of a queue the one that arrived first is seen first. -/
lemma seen_sublist (h : Inv s) {q : p.Queue} {e e' : Entry} (mem : e ∈ s.pushed q)
    (lt : e.arrival < e'.arrival) (seen : e' ∈ s.seen q) : [e, e'].Sublist (s.seen q) := by
  obtain ⟨before, after, split⟩ := List.append_of_mem seen
  obtain ⟨waiting, pushed⟩ := h.seen_prefix q
  have sorted := h.sorted q
  rw [← pushed, split, List.append_assoc] at mem sorted
  obtain ⟨_, later, _⟩ := List.pairwise_append.mp sorted
  obtain ⟨later, _⟩ := List.pairwise_cons.mp later
  have first : e ∈ before := by
    rcases List.mem_append.mp mem with mem | mem
    · exact mem
    · rcases List.mem_cons.mp mem with rfl | mem
      · exact absurd lt (Nat.lt_irrefl _)
      · exact absurd lt (Nat.lt_asymm (later e mem))
  rw [split]
  exact (List.singleton_sublist.mpr first).append (List.singleton_sublist.mpr List.mem_cons_self)

/-- Between frames nothing is carried. -/
lemma balanced (h : Inv s) (producer : s.producer = .idle ∨ s.producer = .stopped)
    (workers : ∀ w, s.workers w = .pop ∨ s.workers w = .stopped) :
    BitVec.ofNat 64 s.taken.length
      = ∑ w, ((s.stats w).packetsProcessed + (s.stats w).packetsDropped) + s.pool.totalExhausted
        + ∑ q, (s.queues q).size := by
  have none : s.producer.carries = 0 := by
    rcases producer with at' | at'
    · rw [at']
      rfl
    · rw [at']
      rfl
  have none' : ∀ w ∈ Finset.univ, (s.workers w).carries = 0 := by
    intro w _
    rcases workers w with at' | at'
    · rw [at']
      rfl
    · rw [at']
      rfl
  have all := h.tally
  rw [Tally, State.tally, none, Finset.sum_eq_zero none', add_zero, add_zero] at all
  exact all

end Inv

/-- The capture pipeline neither loses, duplicates nor reorders. In every state of every run: each
buffer is in one place and once there; between frames and between loop iterations the frames taken are
those processed, dropped, not taken for want of a buffer, or queued; what was pushed to a queue is what
its worker has passed to the callback, in this order, and what is still waiting; the pushes are in the
order of arrival and hold the frames; and packets of one flow are processed by the worker of one queue
in the order in which they arrived. -/
theorem pipeline_exact (p : Setup) (s : State p) (run : Steps (State.init p) s) :
    ((∀ b < p.bufferCount, ∃! x, b ∈ s.holding x) ∧ ∀ x, (s.holding x).Nodup) ∧
    ((s.producer = .idle ∨ s.producer = .stopped) → (∀ w, s.workers w = .pop ∨ s.workers w = .stopped) →
      BitVec.ofNat 64 s.taken.length
        = ∑ w, ((s.stats w).packetsProcessed + (s.stats w).packetsDropped) + s.pool.totalExhausted
          + ∑ q, BitVec.ofNat 64 (s.queues q).items.length) ∧
    (∀ w, ∃ waiting, s.pushed (p.queueIndex w) = s.seen (p.queueIndex w) ++ waiting ∧
      waiting.map (·.buf) = (s.workers w).hand ++ (s.queues (p.queueIndex w)).items) ∧
    (s.pushes.Pairwise fun x y => x.2.arrival < y.2.arrival) ∧
    (∀ q, ∀ e ∈ s.pushed q, ∃ frame, s.taken[e.arrival]? = some frame ∧
      e.bytes = frame.take p.capacity.toNat) ∧
    ∀ q q' e e', e ∈ s.pushed q → e' ∈ s.pushed q' → e.flow.Same e'.flow →
      q = q' ∧ (e.arrival < e'.arrival → e' ∈ s.seen q' → [e, e'].Sublist (s.seen q)) := by
  have inv := Inv.steps run
  refine ⟨⟨fun b lt => inv.owned.kept.existsUnique lt, inv.owned.kept.nodup⟩, ?_, inv.waiting,
    inv.logged.sorted, fun q e mem => (inv.captured mem).frame, ?_⟩
  · intro producer workers
    rw [inv.balanced producer workers]
    congr 1
    exact Finset.sum_congr rfl fun q _ => (s.queues q).length_items.symm
  · intro q q' e e' mem mem' same
    obtain rfl := inv.queue_eq mem mem' same
    exact ⟨rfl, fun lt seen => inv.seen_sublist mem lt seen⟩

/-- A frame is taken, pushed and passed to the callback. -/
theorem pipeline_exact_one_frame :
    ∃ s : State .small, s.taken = [[1, 2]] ∧ (s.seen 0).map (·.bytes) = [[1, 2]] ∧
      (∀ b < 2, ∃! x, b ∈ s.holding x) := by
  have run : Steps (State.init .small) _ := ((((Relation.ReflTransGen.refl.tail
    (.produce (.receive [1, 2] rfl))).tail (.produce (.acquire rfl rfl))).tail
    (.produce (.fill rfl))).tail (.produce (.push rfl rfl))).tail (.work 0 (.pop rfl rfl)) |>.tail
    (.work 0 (.callback rfl))
  exact ⟨_, rfl, by decide, (pipeline_exact .small _ run).1.1⟩

end UxNet.Capture
