import UxNet.Pool.FreeCount

/-!
# Races on the free count

Runs of two threads that take `free_count` out of its range. In the first a push is counted after the
pop of the buffer that it pushed, and the counter wraps around at 0. In the second a `pop` finds the
`top_` that it read `2 ^ 32` compare-exchanges ago, and puts a buffer on the list that another thread
holds; the counter does not count it. Between them they are there for every pool but those of
`inRange_steps`.
-/

namespace UxNet.FreeStack

open State

variable {Tid : Type} [DecidableEq Tid] {s : State Tid} {l : List (BitVec 32)} {t : Tid}

/-! ## Whole calls -/

namespace State

/-- `pop` up to its load of `top_`. -/
def popLoaded (s : State Tid) (t : Tid) : State Tid := (s.goto t .popLoad).load t popTest

/-- `pop` of a list that is not empty. -/
def popBy (s : State Tid) (t : Tid) : State Tid :=
  let s₁ := (s.popLoaded t).goto t (.popCas s.top (s.next (indexOf s.top)))
  let s₂ := s₁.swap t (pack (genOf s.top + 1) (s.next (indexOf s.top))) (.popSize (indexOf s.top))
    (indexOf s.top :: s₁.held t) (.popped (indexOf s.top))
  goto { s₂ with size := s₂.size - 1 } t (.returned (indexOf s.top))

end State

/-- The thread is between two calls, with the list `l`, the generation `g` and the counter at `k`. -/
structure At (t : Tid) (g k : BitVec 32) (l : List (BitVec 32)) (s : State Tid) : Prop where
  rest : (s.pc t).AtRest
  gen : genOf s.top = g
  size : s.size = k
  linked : Linked s.next kEmpty (indexOf s.top) l

variable {g k a i : BitVec 32}

/-- A `pop` up to its load is a run. -/
lemma popLoaded_steps (rest : (s.pc t).AtRest) : AnySteps s (s.popLoaded t) := by
  have call : AnyStep t s (s.goto t .popLoad) := .step (.callPop rest)
  exact (Relation.ReflTransGen.single ⟨t, call⟩).tail ⟨t, .step (.popLoad (Function.update_self ..))⟩

/-- It has found the list not empty. -/
lemma popLoaded_pc (some : indexOf s.top ≠ kEmpty) :
    (s.popLoaded t).pc = Function.update s.pc t (.popLink s.top) := by
  refine (Function.update_idem ..).trans ?_
  exact congrArg _ (if_neg some)

/-- A whole `pop` is a run. -/
lemma popBy_steps (rest : (s.pc t).AtRest) (some : indexOf s.top ≠ kEmpty) : AnySteps s (s.popBy t) := by
  have loaded : (s.popLoaded t).pc t = .popLink s.top := by
    rw [popLoaded_pc some, Function.update_self]
  have linked : ((s.popLoaded t).goto t (.popCas s.top (s.next (indexOf s.top)))).pc t
      = .popCas s.top (s.next (indexOf s.top)) := Function.update_self ..
  exact (((popLoaded_steps rest).tail ⟨t, .step (.popLink loaded)⟩).tail ⟨t, .popCas linked rfl⟩).tail
    ⟨t, .step (.popSize (Function.update_self ..))⟩

/-- A thread's push leaves the others where they are. -/
lemma pushHalf_pc {t' : Tid} (ne : t' ≠ t) : (s.pushHalf t i).pc t' = s.pc t' := by
  simp [State.pushHalf, State.goto, State.load, State.swap, ne]

/-- So does the whole call. -/
lemma pushBy_pc {t' : Tid} (ne : t' ≠ t) : (s.pushBy t i).pc t' = s.pc t' :=
  (Function.update_of_ne ne ..).trans (pushHalf_pc ne)

/-- So does a `pop`. -/
lemma popBy_pc {t' : Tid} (ne : t' ≠ t) : (s.popBy t).pc t' = s.pc t' := by
  simp [State.popBy, State.popLoaded, State.goto, State.load, State.swap, ne]

/-- What is pushed is no longer held. -/
lemma pushBy_held : (s.pushBy t i).held t = (s.held t).erase i := Function.update_self ..

/-- What is popped is held. -/
lemma popBy_held : (s.popBy t).held t = indexOf s.top :: s.held t := Function.update_self ..

/-- A `pop` writes no link. -/
lemma popBy_next : (s.popBy t).next = s.next := rfl

/-- A `push` writes the link of its index. -/
lemma pushBy_next : (s.pushBy t i).next = Function.update s.next i (indexOf s.top) := rfl

/-- The list after a compare-exchange of `push`. -/
lemma pushHalf_linked (linked : Linked s.next kEmpty (indexOf s.top) l) (ne : i ≠ kEmpty) (out : i ∉ l) :
    Linked (s.pushHalf t i).next kEmpty (indexOf (s.pushHalf t i).top) (i :: l) := by
  refine ⟨indexOf_pack .., ne, ?_⟩
  show Linked (Function.update s.next i (indexOf s.top)) kEmpty
    (Function.update s.next i (indexOf s.top) i) l
  rw [Function.update_self]
  exact linked.update out _

/-- A whole push. -/
lemma At.push (h : At t g k l s) (ne : i ≠ kEmpty) (out : i ∉ l) :
    At t (g + 1) (k + 1) (i :: l) (s.pushBy t i) where
  rest := .inl (Function.update_self ..)
  gen := by rw [← h.gen]; exact genOf_pack ..
  size := by rw [← h.size]; rfl
  linked := pushHalf_linked h.linked ne out

/-- A whole pop. -/
lemma At.pop (h : At t g k (a :: l) s) : At t (g + 1) (k - 1) l (s.popBy t) where
  rest := .inr ⟨_, Function.update_self ..⟩
  gen := by rw [← h.gen]; exact genOf_pack ..
  size := by rw [← h.size]; rfl
  linked := by
    obtain ⟨top, _, rest⟩ := h.linked
    show Linked s.next kEmpty (indexOf (pack _ (s.next (indexOf s.top)))) l
    rw [indexOf_pack, top]
    exact rest

/-- The pop is a run. -/
lemma At.pop_steps (h : At t g k (a :: l) s) : AnySteps s (s.popBy t) :=
  popBy_steps h.rest (h.linked.1 ▸ h.linked.2.1)

/-! ## A push that is counted too late -/

/-- One thread takes the whole list. -/
lemma At.popAll {t' : Tid} (ne : t' ≠ t) (h : At t g k l s) :
    ∃ s' g', AnySteps s s' ∧ At t g' (k - BitVec.ofNat 32 l.length) [] s' ∧
      (∀ i, i ∈ l ∨ i ∈ s.held t → i ∈ s'.held t) ∧ s'.pc t' = s.pc t' := by
  induction l generalizing s g k with
  | nil =>
    refine ⟨s, g, .refl, ?_, ?_, rfl⟩
    · rw [show k - BitVec.ofNat 32 [].length = k from BitVec.sub_zero k]
      exact h
    · rintro i (mem | mem)
      · cases mem
      · exact mem
  | cons a l ih =>
    obtain ⟨s', g', run, at', held, pc⟩ := ih h.pop
    refine ⟨s', g', h.pop_steps.trans run, ?_, ?_, pc.trans (popBy_pc ne)⟩
    · rw [List.length_cons, BitVec.ofNat_add, add_comm (BitVec.ofNat 32 l.length), ← sub_sub]
      exact at'
    · intro i mem
      apply held
      rw [popBy_held, List.mem_cons, h.linked.1]
      rw [List.mem_cons] at mem
      tauto

/-- A buffer is popped, and the pop counted, before its push is. -/
lemma counted_below_zero {t t' : Tid} (ne : t' ≠ t) (h : At t g (BitVec.ofNat 32 l.length) l s)
    (rest : (s.pc t').AtRest) (mem : i ∈ l) (valid : i ≠ kEmpty) :
    ∃ s', AnySteps s s' ∧ s'.freeCount.toNat = 2 ^ 32 - 1 := by
  obtain ⟨s₁, g₁, run, h₁, held, pc⟩ := h.popAll ne
  -- the list is empty and the counter 0 when `i` goes back
  have half := Steps.any (pushHalf_steps h₁.rest (held i (.inl mem)))
  have h₂ : At t' (g₁ + 1) 0 [i] (s₁.pushHalf t i) := by
    refine ⟨?_, ?_, ?_, pushHalf_linked h₁.linked valid List.not_mem_nil⟩
    · rw [pushHalf_pc ne, pc]
      exact rest
    · rw [← h₁.gen]
      exact genOf_pack ..
    · rw [sub_self] at h₁
      exact h₁.size
  refine ⟨_, (run.trans half).trans h₂.pop_steps, ?_⟩
  rw [toNat_freeCount, h₂.pop.size]
  rfl

/-! ## A generation that comes round again -/

/-- `top_` is its generation and its index. -/
lemma top_ext {v w : BitVec 64} (gen : genOf v = genOf w) (index : indexOf v = indexOf w) : v = w := by
  have high := congrArg BitVec.toNat gen
  have low := congrArg BitVec.toNat index
  rw [genOf, genOf, BitVec.toNat_setWidth, BitVec.toNat_setWidth, BitVec.toNat_ushiftRight,
    BitVec.toNat_ushiftRight, Nat.shiftRight_eq_div_pow, Nat.shiftRight_eq_div_pow] at high
  rw [indexOf, indexOf, BitVec.toNat_setWidth, BitVec.toNat_setWidth] at low
  have := v.isLt
  have := w.isLt
  apply BitVec.eq_of_toNat_eq
  omega

/-- A thread at rest, with the indices `hs` in its hands, while another is at some point and the others
are at rest. -/
structure Meanwhile (t t' : Tid) (p : Pc) (g k : BitVec 32) (l hs : List (BitVec 32)) (s : State Tid) :
    Prop extends At t' g k l s where
  pc : s.pc t = p
  others : ∀ t'' ≠ t, (s.pc t'').AtRest
  held : ∀ i ∈ hs, i ∈ s.held t'

namespace Meanwhile

variable {t' : Tid} {p : Pc} {hs : List (BitVec 32)}

omit [DecidableEq Tid] in
/-- After a whole call of the thread, the others are where they were. -/
lemma others_rest {s' : State Tid} (h : Meanwhile t t' p g k l hs s) (rest : (s'.pc t').AtRest)
    (pc : ∀ t'' ≠ t', s'.pc t'' = s.pc t'') : ∀ t'' ≠ t, (s'.pc t'').AtRest := by
  intro t'' ne
  by_cases e : t'' = t'
  · rw [e]
    exact rest
  · rw [pc t'' e]
    exact h.others t'' ne

/-- The other thread pops. -/
lemma pop (ne : t ≠ t') (h : Meanwhile t t' p g k (a :: l) hs s) :
    AnySteps s (s.popBy t') ∧ Meanwhile t t' p (g + 1) (k - 1) l (a :: hs) (s.popBy t') := by
  refine ⟨h.toAt.pop_steps, h.toAt.pop, (popBy_pc ne).trans h.pc, ?_, ?_⟩
  · exact h.others_rest h.toAt.pop.rest fun t'' => popBy_pc
  · intro i mem
    rw [popBy_held, h.linked.1, List.mem_cons]
    exact (List.mem_cons.mp mem).imp_right (h.held i)

/-- The other thread pushes. -/
lemma push (ne : t ≠ t') (h : Meanwhile t t' p g k l (a :: hs) s) (valid : a ≠ kEmpty) (out : a ∉ l)
    (out' : a ∉ hs) :
    AnySteps s (s.pushBy t' a) ∧ Meanwhile t t' p (g + 1) (k + 1) (a :: l) hs (s.pushBy t' a) := by
  refine ⟨Steps.any (pushBy_steps h.rest (h.held a List.mem_cons_self)), h.toAt.push valid out,
    (pushBy_pc ne).trans h.pc, ?_, ?_⟩
  · exact h.others_rest (h.toAt.push valid out).rest fun t'' => pushBy_pc
  · intro i mem
    rw [pushBy_held]
    refine (List.mem_erase_of_ne ?_).mpr (h.held i (List.mem_cons_of_mem a mem))
    rintro rfl
    exact out' mem

/-- The index on top goes to and fro. -/
lemma cycle (ne : t ≠ t') (n : ℕ) (h : Meanwhile t t' p g k (a :: l) hs s) (out : a ∉ hs)
    (notin : a ∉ l) {b : BitVec 32} {l' : List (BitVec 32)} (out' : a ∉ l')
    (other : Linked s.next kEmpty b l') :
    ∃ s', AnySteps s s' ∧ Meanwhile t t' p (g + BitVec.ofNat 32 (2 * n)) k (a :: l) hs s' ∧
      Linked s'.next kEmpty b l' := by
  induction n with
  | zero =>
    refine ⟨s, .refl, ?_, other⟩
    rw [show g + BitVec.ofNat 32 (2 * 0) = g from BitVec.add_zero g]
    exact h
  | succ n ih =>
    obtain ⟨s₁, run, h₁, other₁⟩ := ih
    obtain ⟨run₂, h₂⟩ := h₁.pop ne
    obtain ⟨run₃, h₃⟩ := h₂.push ne h₁.linked.2.1 notin out
    refine ⟨_, (run.trans run₂).trans run₃, ?_, ?_⟩
    · rw [sub_add_cancel, add_assoc, add_assoc] at h₃
      rw [Nat.mul_succ, BitVec.ofNat_add]
      exact h₃
    · rw [pushBy_next]
      exact other₁.update out' _

/-- The other thread takes a step of its own. -/
lemma other {s' : State Tid} {p' : Pc} (ne : t ≠ t') (h : Meanwhile t t' p g k l hs s)
    (pc : s'.pc = Function.update s.pc t p') (top : s'.top = s.top) (next : s'.next = s.next)
    (size : s'.size = s.size) (held : s'.held = s.held) : Meanwhile t t' p' g k l hs s' where
  rest := by
    rw [pc, Function.update_of_ne ne.symm]
    exact h.rest
  gen := by
    rw [top]
    exact h.gen
  size := size.trans h.size
  linked := by
    rw [top, next]
    exact h.linked
  pc := by rw [pc, Function.update_self]
  others := by
    intro t'' ne'
    rw [pc, Function.update_of_ne ne']
    exact h.others t'' ne'
  held := by
    rw [held]
    exact h.held

/-- Three steps of the generation. -/
lemma add_three (g : BitVec 32) : g + 1 + 1 + 1 = g + 3 := by
  rw [add_assoc, add_assoc]
  rfl

omit [DecidableEq Tid] in
/-- It may hold more than what counts. -/
lemma fewer (h : Meanwhile t t' p g k l hs s) (hs' : List (BitVec 32)) (sub : hs' ⊆ hs) :
    Meanwhile t t' p g k l hs' s :=
  { h with held := fun i mem => h.held i (sub mem) }

/-- The second index of the list is taken out from under the first, and still links to the rest. -/
lemma takeSecond (ne : t ≠ t') {b : BitVec 32} (h : Meanwhile t t' p g k (a :: b :: l) [] s)
    (nodup : (a :: b :: l).Nodup) :
    ∃ s', AnySteps s s' ∧ Meanwhile t t' p (g + 3) (k - 1) (a :: l) [b] s' ∧
      Linked s'.next kEmpty b (b :: l) := by
  obtain ⟨out, nodup'⟩ := List.nodup_cons.mp nodup
  obtain ⟨outA, ab⟩ : a ∉ l ∧ a ≠ b := by
    rw [List.mem_cons, not_or] at out
    exact out.symm
  obtain ⟨run₁, h₁⟩ := h.pop ne
  obtain ⟨run₂, h₂⟩ := h₁.pop ne
  obtain ⟨run₃, h₃⟩ := (h₂.fewer [a, b] (by simp)).push ne h.linked.2.1 outA (by simpa using ab)
  refine ⟨_, (run₁.trans run₂).trans run₃, ?_, ?_⟩
  · rw [sub_add_cancel, add_three] at h₃
    exact h₃
  · have linked := h₁.linked
    rw [linked.1] at linked
    rw [pushBy_next, popBy_next]
    exact linked.update out _

/-- An index is put under the first. -/
lemma putSecond (ne : t ≠ t') {b : BitVec 32} (h : Meanwhile t t' p g k (a :: l) [b] s)
    (valid : b ≠ kEmpty)
    (nodup : (a :: b :: l).Nodup) :
    ∃ s', AnySteps s s' ∧ Meanwhile t t' p (g + 3) (k + 1) (a :: b :: l) [] s' := by
  obtain ⟨out, nodup'⟩ := List.nodup_cons.mp nodup
  have ba : b ≠ a := fun e => out (e ▸ List.mem_cons_self)
  obtain ⟨run₁, h₁⟩ := h.pop ne
  obtain ⟨run₂, h₂⟩ := (h₁.fewer [b, a] (by simp)).push ne valid (List.nodup_cons.mp nodup').1
    (by simpa using ba)
  obtain ⟨run₃, h₃⟩ := h₂.push ne h.linked.2.1 out List.not_mem_nil
  refine ⟨_, (run₁.trans run₂).trans run₃, ?_⟩
  rw [sub_add_cancel, add_three] at h₃
  exact h₃

end Meanwhile

/-- A `pop` takes the list back to a buffer that another thread holds: it has read the link to that
buffer, and `2 ^ 32` compare-exchanges later finds the `top_` that it read. -/
lemma stale_link {t t' : Tid} (ne : t ≠ t') {b : BitVec 32} (h : At t' g k (a :: b :: l) s)
    (nodup : (a :: b :: l).Nodup) (rest : ∀ t, (s.pc t).AtRest) :
    ∃ s', AnySteps s s' ∧ (∀ t, (s'.pc t).AtRest) ∧ s'.size = k - 2 ∧
      Linked s'.next kEmpty (indexOf s'.top) (b :: l) := by
  obtain ⟨out, _⟩ := List.nodup_cons.mp nodup
  have outA : a ∉ l := fun mem => out (List.mem_cons_of_mem b mem)
  have ab : a ≠ b := fun e => out (e ▸ List.mem_cons_self)
  obtain ⟨_, _, _, valid, _⟩ := h.linked
  have h₀ : Meanwhile t t' (s.pc t) g k (a :: b :: l) [] s :=
    ⟨h, rfl, fun t'' _ => rest t'', fun i mem => absurd mem List.not_mem_nil⟩
  obtain ⟨s₁, run₁, h₁, _⟩ := h₀.takeSecond ne nodup
  -- the first thread reads `top_` with `a` on it
  have some : indexOf s₁.top ≠ kEmpty := h₁.linked.1 ▸ h₁.linked.2.1
  have run₂ := popLoaded_steps (s := s₁) (t := t) (by rw [h₁.pc]; exact rest t)
  have h₂ : Meanwhile t t' (.popLink s₁.top) (g + 3) (k - 1) (a :: l) [b] (s₁.popLoaded t) :=
    h₁.other ne (popLoaded_pc some) rfl rfl rfl rfl
  -- and, with `b` under `a`, the link to `b`
  obtain ⟨s₃, run₃, h₃⟩ := h₂.putSecond ne valid nodup
  have link : s₃.next (indexOf s₁.top) = b := by
    rw [h₁.linked.1]
    exact h₃.linked.2.2.1
  have step₄ := AnyStep.step (Step.popLink h₃.pc)
  rw [link] at step₄
  have h₄ : Meanwhile t t' (.popCas s₁.top b) (g + 3 + 3) (k - 1 + 1) (a :: b :: l) []
      (s₃.goto t (.popCas s₁.top b)) := h₃.other ne rfl rfl rfl rfl rfl
  -- `b` is taken out again, and the generation comes round
  obtain ⟨s₅, run₅, h₅, linked₅⟩ := h₄.takeSecond ne nodup
  obtain ⟨s₆, run₆, h₆, linked₆⟩ := h₅.cycle ne (2 ^ 31 - 3) (by simpa using ab) outA out linked₅
  have top : s₆.top = s₁.top := by
    refine top_ext ?_ (by rw [h₆.linked.1, h₁.linked.1])
    have round : (3 + 3 + BitVec.ofNat 32 (2 * (2 ^ 31 - 3)) : BitVec 32) = 0 := by decide
    rw [h₆.gen, h₁.gen, add_assoc (g + 3), add_assoc (g + 3), round]
    exact BitVec.add_zero _
  have step₇ := AnyStep.popCas h₆.pc top
  have at₇ : (s₆.swap t (pack (genOf s₁.top + 1) b) (.popSize (indexOf s₁.top))
      (indexOf s₁.top :: s₆.held t) (.popped (indexOf s₁.top))).pc t = .popSize (indexOf s₁.top) :=
    Function.update_self ..
  have step₈ := AnyStep.step (Step.popSize at₇)
  refine ⟨_, (((((((run₁.trans run₂).trans run₃).tail ⟨t, step₄⟩).trans run₅).trans run₆).tail
    ⟨t, step₇⟩).tail ⟨t, step₈⟩), ?_, ?_, ?_⟩
  · intro t''
    by_cases e : t'' = t
    · rw [e]
      exact .inr ⟨_, Function.update_self ..⟩
    · have same : (s₆.pc t'').AtRest := h₆.others t'' e
      simpa [State.goto, State.swap, e] using same
  · show s₆.size - 1 = k - 2
    rw [h₆.size, sub_add_cancel, sub_sub]
    rfl
  · show Linked s₆.next kEmpty (indexOf (pack (genOf s₁.top + 1) b)) (b :: l)
    rw [indexOf_pack]
    exact linked₆

/-! ## When the count is in range -/

omit [DecidableEq Tid] in
/-- A thread of a new pool before its first call. -/
lemma start_at {size count : BitVec 64} {node : ℤ} {first second : Geometry.MmapAnswer}
    {p : Geometry.Pool} (ok : Geometry.Pool.construct size count node first second = .ok p) (t : Tid) :
    ∃ g, At t g (BitVec.ofNat 32 (stacked (count.toNat % 2 ^ 32)).length) (stacked (count.toNat % 2 ^ 32))
      (start Tid p) := by
  obtain ⟨inv, counter⟩ : Inv _ (start Tid p) _ ∧ _ := start_inv ok
  refine ⟨_, .inl rfl, rfl, ?_, inv.linked⟩
  rw [counter, length_stacked, ofNat_mod]

/-- `free_count` is between 0 and the capacity in every state that the threads reach, and exact when
none is in a call, just when there is one thread at most, or one buffer and a capacity beyond the
counter. -/
theorem free_count_in_range_iff [Fintype Tid] (size count : BitVec 64) (node : ℤ)
    (first second : Geometry.MmapAnswer) (p : Geometry.Pool)
    (ok : Geometry.Pool.construct size count node first second = .ok p) :
    (∀ s : State Tid, AnySteps (start Tid p) s → InRange count.toNat s) ↔
      Subsingleton Tid ∨ (2 ^ 32 ≤ count.toNat ∧ count.toNat % 2 ^ 32 ≤ 1) := by
  constructor
  · intro all
    by_contra outside
    rw [not_or, not_subsingleton_iff_nontrivial] at outside
    obtain ⟨⟨t, t', ne⟩, many⟩ := outside
    obtain ⟨_, some, _⟩ := Geometry.Pool.construct_ok ok
    have pos : count.toNat ≠ 0 := fun zero => some (BitVec.eq_of_toNat_eq zero)
    have lt : count.toNat % 2 ^ 32 < 2 ^ 32 := Nat.mod_lt _ (by decide)
    -- a capacity that the wrapped counter can exceed, or at least two buffers on the list
    by_cases small : count.toNat < 2 ^ 32 - 1
    · obtain ⟨g, h⟩ := start_at ok t
      have mem : (0#32) ∈ stacked (count.toNat % 2 ^ 32) := by
        rw [mem_stacked lt]
        show 0 < _
        omega
      obtain ⟨s, run, top⟩ := counted_below_zero ne.symm h (.inl rfl) mem (by decide)
      have le := (all s run).le
      omega
    · obtain ⟨g, h⟩ := start_at ok t'
      have two : count.toNat % 2 ^ 32 = count.toNat % 2 ^ 32 - 2 + 1 + 1 := by omega
      rw [two, stacked_succ, stacked_succ] at h
      have nodup := stacked_nodup lt
      rw [two, stacked_succ, stacked_succ] at nodup
      obtain ⟨s, run, rest, counter, linked⟩ := stale_link ne h nodup fun _ => .inl rfl
      obtain ⟨l, linked', counts⟩ := (all s run).counts rest
      obtain rfl := linked.unique linked'
      -- one buffer is on the list that the counter does not count
      rw [toNat_freeCount, counter, List.length_cons, List.length_cons, length_stacked,
        BitVec.ofNat_add, BitVec.ofNat_add, add_assoc] at counts
      have less : BitVec.ofNat 32 (count.toNat % 2 ^ 32 - 2) + (BitVec.ofNat 32 1 + BitVec.ofNat 32 1) - 2
          = BitVec.ofNat 32 (count.toNat % 2 ^ 32 - 2) := add_sub_cancel_right _ (2 : BitVec 32)
      rw [less, BitVec.toNat_ofNat, Nat.mod_eq_of_lt (by omega)] at counts
      omega
  · intro safe s run
    exact inRange_steps ok safe run

/-- A pool with one buffer of 2048 bytes. -/
def oneBuffer : Except String Geometry.Pool :=
  Geometry.Pool.construct 2048 1 (-1) (Geometry.granted 0x200000) (Geometry.granted 0x400000)

/-- One thread on a pool of one buffer. -/
theorem one_thread_in_range :
    ∃ p, oneBuffer = .ok p ∧ ∀ s : State Unit, AnySteps (start Unit p) s → InRange 1 s := by
  refine ⟨_, rfl, ?_⟩
  exact (free_count_in_range_iff 2048 1 (-1) (Geometry.granted 0x200000) (Geometry.granted 0x400000) _
    rfl).mpr (.inl inferInstance)

/-- Two threads and one buffer: the first has popped it and pushes it, up to its compare-exchange; the
second pops it. -/
theorem free_count_underflows :
    ∃ p, oneBuffer = .ok p ∧ ∃ s : State Bool, AnySteps (start Bool p) s ∧
      s.freeCount.toNat = 4294967295 := by
  refine ⟨_, rfl, ?_⟩
  have ok : Geometry.Pool.construct 2048 1 (-1) (Geometry.granted 0x200000) (Geometry.granted 0x400000)
      = .ok _ := rfl
  obtain ⟨g, h⟩ := start_at ok false
  have ne : true ≠ false := by decide
  exact counted_below_zero ne h (.inl rfl) (i := 0) (by decide) (by decide)

end UxNet.FreeStack
