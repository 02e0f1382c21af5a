import UxNet.Pool.FreeStack

/-!
# What the program sees of the free list (`FreeStack`)

Between two calls a thread knows of the list only what it gave to `push` and what `pop` returned to it.
A `Trace` is a run with these calls and returns in the order in which they happen. The compare-exchanges,
at which indices change hands, lie somewhere inside the calls; so an index is in one of three places: with
a thread of the program, in a call, or on the list.
-/

namespace UxNet.FreeStack

variable {Tid : Type}

namespace State

/-- What the program sees of a step of a thread: it calls `push`, or `pop` returns an index to it. -/
def visible (t : Tid) (s' : State Tid) : List Event :=
  match s'.pc t with
  | .pushLoad index => [.pushed index]
  | .returned index => if index = kEmpty then [] else [.popped index]
  | _ => []

variable [DecidableEq Tid] in
/-- Steps of any threads in any order, with what the program sees of them. -/
inductive Trace (start : State Tid) : List Event → State Tid → Prop where
  | nil :
    Trace start [] start
  | step {seen s s' t} :
    Trace start seen s →
    Step t s s' →
    Trace start (seen ++ visible t s') s'

end State

open State

/-- The index a thread is pushing, or has popped and is about to return. -/
def Pc.Has (index : BitVec 32) : Pc → Prop
  | .pushLoad i | .pushLink i _ | .pushCas i _ | .popSize i => i = index
  | .idle | .pushSize | .popLoad | .popLink _ | .popCas _ _ | .returned _ => False

/-- An index is the program's: a thread holds it and is in no call with it. -/
def State.Owns (s : State Tid) (t : Tid) (index : BitVec 32) : Prop :=
  index ∈ s.held t ∧ ¬ (s.pc t).Has index

/-- What a step does to the indices that are the program's. -/
inductive Moves (t : Tid) (s s' : State Tid) : List Event → Prop where
  | none :
    (∀ u i, s'.Owns u i ↔ s.Owns u i) →
    Moves t s s' []
  | pushed {index} :
    s.Owns t index →
    (∀ u i, s'.Owns u i ↔ s.Owns u i ∧ i ≠ index) →
    Moves t s s' [.pushed index]
  | popped {index} :
    index ∈ s.held t →
    (∀ u, ¬ s.Owns u index) →
    (∀ u i, s'.Owns u i ↔ s.Owns u i ∨ u = t ∧ i = index) →
    Moves t s s' [.popped index]

/-- A step of one thread leaves alone what is with the others. -/
lemma State.owns_of_ne [DecidableEq Tid] {s : State Tid} {t u : Tid} {p : Pc} {hs : List (BitVec 32)}
    (ne : u ≠ t) (i : BitVec 32) :
    (i ∈ Function.update s.held t hs u ∧ ¬ (Function.update s.pc t p u).Has i) ↔ s.Owns u i := by
  rw [Function.update_of_ne ne, Function.update_of_ne ne, State.Owns]

namespace Moves

variable [DecidableEq Tid] {s s' : State Tid} {t : Tid}

/-- A step that changes only what is with its own thread, and there nothing. -/
lemma same {p : Pc} {hs : List (BitVec 32)} (pc : s'.pc = Function.update s.pc t p)
    (held : s'.held = Function.update s.held t hs) (here : ∀ i, (i ∈ hs ∧ ¬ p.Has i) ↔ s.Owns t i) :
    Moves t s s' [] := by
  apply Moves.none
  intro u i
  rw [State.Owns, pc, held]
  by_cases hu : u = t
  · subst hu
    rw [Function.update_self, Function.update_self]
    exact here i
  · exact State.owns_of_ne hu i

/-- A thread that only moves on, with the same index as before. -/
lemma goto {p : Pc} (pc : s'.pc = Function.update s.pc t p) (held : s'.held = s.held)
    (has : ∀ i, p.Has i ↔ (s.pc t).Has i) : Moves t s s' [] := by
  apply same pc (held.trans (Function.update_eq_self t s.held).symm)
  intro i
  rw [has, State.Owns]

end Moves

namespace Inv

variable [DecidableEq Tid] {n : ℕ} {s s' : State Tid} {l : List (BitVec 32)} {t : Tid}

/-- A thread between two calls is in no call with an index. -/
lemma not_has {p : Pc} (rest : p = .idle ∨ ∃ r, p = .returned r) (i : BitVec 32) : ¬ p.Has i := by
  rcases rest with rfl | ⟨r, rfl⟩
  · exact id
  · exact id

/-- Whatever `pop` has read, the test leaves it without an index. -/
lemma popTest_has (old : BitVec 64) (i : BitVec 32) : ¬ (popTest old).Has i := by
  unfold FreeStack.popTest
  split
  · exact id
  · exact id

/-- The test of `pop` shows the program nothing but an empty list. -/
lemma visible_popTest (s : State Tid) (t : Tid) : visible t (s.load t popTest) = [] := by
  simp only [visible, State.load, Function.update_self, FreeStack.popTest]
  split
  · rename_i e
    split at e
    · cases e
    · cases e
  · rename_i e
    split at e
    · cases e
      exact if_pos rfl
    · cases e
  · rfl

omit [DecidableEq Tid] in
/-- An index with a thread that pushes it, or is about to return it, is the program's no more. -/
lemma not_owns (h : Inv n s l) {i : BitVec 32} (mem : i ∈ s.held t) (has : (s.pc t).Has i) (u : Tid) :
    ¬ s.Owns u i := by
  rintro ⟨mem', out⟩
  have e := h.disjoint u t i mem' mem
  subst e
  exact out has

omit [DecidableEq Tid] in
/-- A thread in a call with an index holds it. -/
lemma mem_of_has (h : Inv n s l) {i : BitVec 32} (has : (s.pc t).Has i) : i ∈ s.held t := by
  have ready := h.ready t
  generalize s.pc t = p at ready has
  cases p with
  | pushLoad index =>
    cases has
    exact ready
  | pushLink index old =>
    cases has
    exact ready.1
  | pushCas index old =>
    cases has
    exact ready.1
  | popSize index =>
    cases has
    exact ready.2
  | _ => cases has

/-- A `push` whose compare-exchange has succeeded has given its index up, and the index is the top. -/
lemma pushed (h : Inv n s l) (hn : n < 2 ^ 32) (st : Step t s s') (over' : s'.pc t = .pushSize) :
    ∃ i old, s.pc t = .pushCas i old ∧ indexOf s'.top = i ∧ ∀ u, i ∉ s'.held u := by
  cases st with
  | @pushCas index old at' same _ =>
    have after := h.pushCas hn at' same
    refine ⟨index, old, at', indexOf_pack _ _, ?_⟩
    intro u mem
    exact after.apart u index mem List.mem_cons_self
  | popLoad _ | popFail _ =>
    simp only [State.load, Function.update_self, FreeStack.popTest] at over'
    split at over'
    · cases over'
    · cases over'
  | _ => simp [State.goto, State.load, State.swap] at over'

/-- A call of `push` takes its index from the program. -/
lemma moves_callPush (h : Inv n s l) {index : BitVec 32} (rest : s.pc t = .idle ∨ ∃ r, s.pc t = .returned r)
    (mem : index ∈ s.held t) : Moves t s (s.goto t (.pushLoad index)) [.pushed index] := by
  refine Moves.pushed ⟨mem, not_has rest index⟩ ?_
  intro u i
  show (i ∈ s.held u ∧ ¬ (Function.update s.pc t (.pushLoad index) u).Has i) ↔ _
  by_cases hu : u = t
  · subst hu
    rw [Function.update_self]
    constructor
    · rintro ⟨own, out⟩
      exact ⟨⟨own, not_has rest i⟩, fun e => out e.symm⟩
    · rintro ⟨own, ne⟩
      exact ⟨own.1, fun e => ne e.symm⟩
  · rw [Function.update_of_ne hu]
    refine ⟨fun own => ⟨own, ?_⟩, fun own => own.1⟩
    rintro rfl
    exact hu (h.disjoint u t i own.1 mem)

/-- A return of `pop` gives its index to the program. -/
lemma moves_return (h : Inv n s l) {index : BitVec 32} (at' : s.pc t = .popSize index)
    (mem : index ∈ s.held t) (pc : s'.pc = Function.update s.pc t (.returned index))
    (held : s'.held = s.held) : Moves t s s' [.popped index] := by
  have has : (s.pc t).Has index := by
    rw [at']
    exact rfl
  refine Moves.popped mem (h.not_owns mem has) ?_
  intro u i
  rw [State.Owns, pc, held]
  by_cases hu : u = t
  · subst hu
    rw [Function.update_self, State.Owns, at']
    simp only [Pc.Has, not_false_eq_true, and_true, true_and]
    by_cases hi : i = index
    · simp [hi, mem]
    · simp [hi, Ne.symm hi]
  · rw [Function.update_of_ne hu]
    simp [hu, State.Owns]

omit [DecidableEq Tid] in
/-- A `push` that succeeds takes from its thread the index that it is in a call with. -/
lemma owns_pushCas (h : Inv n s l) {index : BitVec 32} {old : BitVec 64} (at' : s.pc t = .pushCas index old)
    (i : BitVec 32) : (i ∈ (s.held t).erase index ∧ ¬ Pc.pushSize.Has i) ↔ s.Owns t i := by
  rw [(h.heldNodup t).mem_erase_iff, State.Owns, at']
  constructor
  · rintro ⟨⟨ne, mem⟩, _⟩
    exact ⟨mem, fun e => ne e.symm⟩
  · rintro ⟨mem, out⟩
    exact ⟨⟨fun e => out e.symm, mem⟩, id⟩

omit [DecidableEq Tid] in
/-- A `pop` that succeeds brings its thread an index that it is in a call with. -/
lemma owns_popCas {index : BitVec 32} {old : BitVec 64} {next : BitVec 32}
    (at' : s.pc t = .popCas old next) (new : index ∉ s.held t) (i : BitVec 32) :
    (i ∈ index :: s.held t ∧ ¬ (Pc.popSize index).Has i) ↔ s.Owns t i := by
  rw [List.mem_cons, State.Owns, at']
  simp only [Pc.Has, not_false_eq_true, and_true]
  constructor
  · rintro ⟨rfl | mem, ne⟩
    · exact absurd rfl ne
    · exact mem
  · intro mem
    refine ⟨.inr mem, ?_⟩
    rintro rfl
    exact new mem

/-- What the program sees of a step is what the step does to its indices. -/
lemma moves (h : Inv n s l) (hn : n < 2 ^ 32) (st : Step t s s') : Moves t s s' (visible t s') := by
  obtain ⟨l', after⟩ := h.step hn st
  have ready := h.ready t
  have distinct := after.heldNodup t
  cases st with
  | @callPush index rest mem =>
    simp only [visible, State.goto, Function.update_self]
    exact h.moves_callPush rest mem
  | @popSize index at' =>
    rw [at'] at ready
    simp only [visible, State.goto, Function.update_self, if_neg ready.1]
    exact h.moves_return at' ready.2 rfl rfl
  | @pushCas index old at' _ _ =>
    -- the index leaves the thread together with the call
    simp only [visible, State.swap, Function.update_self]
    exact Moves.same rfl rfl (h.owns_pushCas at')
  | @popCas old next at' _ _ =>
    -- the index comes to the thread, which is to return it
    have new : indexOf old ∉ s.held t := by
      simp only [State.swap, Function.update_self] at distinct
      exact (List.nodup_cons.mp distinct).1
    simp only [visible, State.swap, Function.update_self]
    exact Moves.same rfl rfl (owns_popCas at' new)
  | callPop rest =>
    have none := not_has rest
    simp only [visible, State.goto, Function.update_self]
    exact Moves.goto rfl rfl fun i => iff_of_false id (none i)
  | popLoad at' | popFail at' =>
    rw [visible_popTest]
    exact Moves.goto rfl rfl fun i => iff_of_false (popTest_has _ i) (by rw [at']; exact id)
  | pushLoad at' | pushLink at' | pushFail at' | pushSize at' | popLink at' =>
    simp only [visible, State.goto, State.load, Function.update_self]
    refine Moves.goto rfl rfl fun i => ?_
    rw [at']
    exact Iff.rfl

end Inv

/-- Calls and returns balance: an index has been pushed once more than popped while it is with no
thread of the program, and as often as popped while it is with one. -/
def Matched (n : ℕ) (seen : List Event) (s : State Tid) (i : BitVec 32) : Prop :=
  (seen.count (.pushed i) = seen.count (.popped i) + 1 ∧ i.toNat < n ∧ ∀ t, ¬ s.Owns t i) ∨
    (seen.count (.pushed i) = seen.count (.popped i) ∧ ((∃ t, s.Owns t i) ∨ n ≤ i.toNat))

namespace Matched

variable {n : ℕ} {s s' : State Tid} {l : List (BitVec 32)} {t : Tid} {seen : List Event}
  {i : BitVec 32}

/-- A step of which the program sees nothing of an index keeps the balance of that index. -/
lemma keep (m : Matched n seen s i) {new : List Event} (push : new.count (.pushed i) = 0)
    (pop : new.count (.popped i) = 0) (owns : ∀ u, s'.Owns u i ↔ s.Owns u i) :
    Matched n (seen ++ new) s' i := by
  unfold Matched at m ⊢
  simp only [List.count_append, push, pop, Nat.add_zero, owns]
  exact m

/-- A step keeps the balance. -/
lemma step (h : Inv n s l) {new : List Event} (m : Matched n seen s i) (st : Moves t s s' new) :
    Matched n (seen ++ new) s' i := by
  cases st with
  | none same => exact m.keep rfl rfl fun u => same u i
  | @pushed index own rest =>
    by_cases hi : i = index
    · subst hi
      have valid := (h.total i).mpr (.inr ⟨t, own.1⟩)
      rcases m with ⟨_, _, out⟩ | ⟨even, _⟩
      · exact absurd own (out t)
      · refine .inl ⟨?_, valid, fun u => by simp [rest]⟩
        simp [List.count_append, even]
    · have hi' : ¬ index = i := fun e => hi e.symm
      exact m.keep (by simp [hi']) (by simp) fun u => by simp [rest, hi]
  | @popped index mem out rest =>
    by_cases hi : i = index
    · subst hi
      have valid := (h.total i).mpr (.inr ⟨t, mem⟩)
      have own : s'.Owns t i := (rest t i).mpr (.inr ⟨rfl, rfl⟩)
      rcases m with ⟨odd, _⟩ | ⟨even, ⟨u, own'⟩ | big⟩
      · refine .inr ⟨?_, .inl ⟨t, own⟩⟩
        simp [List.count_append, odd]
      · exact absurd own' (out u)
      · exact absurd valid (by omega)
    · have hi' : ¬ index = i := fun e => hi e.symm
      exact m.keep (by simp) (by simp [hi']) fun u => by simp [rest, hi]

end Matched

/-- At the start every index is with the thread that will push it. -/
lemma Matched.init [DecidableEq Tid] (n : ℕ) (hn : n < 2 ^ 32) (next : BitVec 32 → BitVec 32)
    (owner : BitVec 32 → Tid) (i : BitVec 32) : Matched n [] (State.init n next owner) i := by
  refine .inr ⟨rfl, ?_⟩
  by_cases valid : i.toNat < n
  · rcases ((Inv.init n hn next owner).total i).mp valid with mem | ⟨t, mem⟩
    · cases mem
    · exact .inl ⟨t, mem, id⟩
  · exact .inr (by omega)

/-- The indices pushed and not yet popped again are those on the list and those in a call. -/
lemma Matched.out_iff {n : ℕ} {seen : List Event} {s : State Tid} {l : List (BitVec 32)}
    {i : BitVec 32} (m : Matched n seen s i) (h : Inv n s l) :
    seen.count (.pushed i) = seen.count (.popped i) + 1 ↔ i ∈ l ∨ ∃ t, (s.pc t).Has i := by
  constructor
  · intro odd
    rcases m with ⟨_, valid, out⟩ | ⟨even, _⟩
    · rcases (h.total i).mp valid with mem | ⟨t, mem⟩
      · exact .inl mem
      · exact .inr ⟨t, not_not.mp fun has => out t ⟨mem, has⟩⟩
    · omega
  · intro inside
    rcases m with ⟨odd, _⟩ | ⟨_, ⟨u, own⟩ | big⟩
    · exact odd
    · rcases inside with mem | ⟨t, has⟩
      · exact absurd mem (h.apart u i own.1)
      · exact absurd own (h.not_owns (h.mem_of_has has) has u)
    · have valid : i.toNat < n := by
        rw [h.total i]
        exact inside.imp_right fun ⟨t, has⟩ => ⟨t, h.mem_of_has has⟩
      omega

/-- Calls and returns that balance alternate. -/
lemma Matched.alternate {n : ℕ} {seen : List Event} {s : State Tid} {i : BitVec 32}
    (m : Matched n seen s i) : seen.count (.popped i) ≤ seen.count (.pushed i) ∧
      seen.count (.pushed i) ≤ seen.count (.popped i) + 1 := by
  rcases m with ⟨odd, _⟩ | ⟨even, _⟩
  · omega
  · omega

namespace State.Trace

variable [DecidableEq Tid] {n : ℕ} {next : BitVec 32 → BitVec 32} {owner : BitVec 32 → Tid}
  {seen : List Event} {s : State Tid}

/-- A run of which the program sees something is a run. -/
lemma steps {start : State Tid} (run : Trace start seen s) : Steps start s := by
  induction run with
  | nil => exact .refl
  | step _ st ih => exact ih.tail ⟨_, st⟩

/-- Every run keeps the balance of every index. -/
lemma matched (hn : n < 2 ^ 32) (run : Trace (State.init n next owner) seen s) (i : BitVec 32) :
    Matched n seen s i := by
  induction run with
  | nil => exact Matched.init n hn next owner i
  | step run st ih =>
    obtain ⟨l, h⟩ := Inv.steps hn run.steps
    exact ih.step h (h.moves hn st)

omit [DecidableEq Tid] in
/-- The program sees at most one thing of a step. -/
lemma visible_nil_or (t : Tid) (s' : State Tid) : visible t s' = [] ∨ ∃ e, visible t s' = [e] := by
  unfold visible
  split
  · exact .inr ⟨_, rfl⟩
  · split
    · exact .inl rfl
    · exact .inr ⟨_, rfl⟩
  · exact .inl rfl

/-- What the program sees of a run up to any moment is what it sees of a shorter run. -/
lemma of_prefix {start : State Tid} (run : Trace start seen s) {h : List Event} (pre : h <+: seen) :
    ∃ s', Trace start h s' := by
  induction run with
  | nil =>
    rw [List.prefix_nil.mp pre]
    exact ⟨_, .nil⟩
  | @step seen s s' t run st ih =>
    have whole := run.step st
    rcases visible_nil_or t s' with nil | ⟨e, one⟩
    · rw [nil, List.append_nil] at pre
      exact ih pre
    · rw [one] at pre whole
      rcases List.prefix_concat_iff.mp pre with rfl | pre
      · exact ⟨s', whole⟩
      · exact ih pre

end State.Trace

/-- In every state that any interleaving of `push` and `pop` calls reaches, the links followed from
`top_` are a finite list of distinct indices, and every index is either on it or with exactly one
thread, once. An index that `pop` returns is with the thread that called it, and one whose `push` has
succeeded is with no thread. By what the program sees no index is returned twice without a `push` in
between, nor lost: those pushed and not returned since are on the list or in a call that is under way.
The same holds of the compare-exchanges in their own order; and `pop` returns `kEmpty` only from a step
of the call at which the list is empty. -/
theorem free_list_sound [DecidableEq Tid] (n : ℕ) (hn : n < 2 ^ 32) (next : BitVec 32 → BitVec 32)
    (owner : BitVec 32 → Tid) (seen : List Event) (s : State Tid)
    (run : State.Trace (State.init n next owner) seen s) :
    ∃ l, Linked s.next kEmpty (indexOf s.top) l ∧ l.Nodup ∧
      (∀ i : BitVec 32, i.toNat < n ↔ i ∈ l ∨ ∃ t, i ∈ s.held t) ∧
      (∀ t, (s.held t).Nodup ∧ ∀ i ∈ s.held t, i ∉ l ∧ ∀ t', i ∈ s.held t' → t' = t) ∧
      (∀ t i, s.pc t = .popSize i ∨ s.pc t = .returned i ∧ i ≠ kEmpty → i ∈ s.held t) ∧
      (∀ t s', State.Step t s s' → s'.pc t = .pushSize →
        ∃ i old, s.pc t = .pushCas i old ∧ indexOf s'.top = i ∧ ∀ u, i ∉ s'.held u) ∧
      (∀ h, h <+: seen → ∀ i, h.count (.popped i) ≤ h.count (.pushed i) ∧
        h.count (.pushed i) ≤ h.count (.popped i) + 1) ∧
      (∀ i, seen.count (.pushed i) = seen.count (.popped i) + 1 ↔ i ∈ l ∨ ∃ t, (s.pc t).Has i) ∧
      (∀ h, h <+: s.history → ∀ i, h.count (.popped i) ≤ h.count (.pushed i) ∧
        h.count (.pushed i) ≤ h.count (.popped i) + 1) ∧
      ∀ t s', State.Step t s s' → s'.pc t = .returned kEmpty → l = [] := by
  obtain ⟨l, h⟩ := Inv.steps hn run.steps
  refine ⟨l, h.linked, h.nodup, h.total, ?_, fun t i => h.mem_of_popped, fun t s' => h.pushed hn, ?_,
    fun i => (run.matched hn i).out_iff h, h.balanced, fun t s' => h.empty⟩
  · intro t
    exact ⟨h.heldNodup t, fun i mem => ⟨h.apart t i mem, fun t' mem' => h.disjoint t' t i mem' mem⟩⟩
  · intro pre hpre i
    obtain ⟨s', run'⟩ := run.of_prefix hpre
    exact (run'.matched hn i).alternate

/-- One thread pushes the only index, and another pops it. -/
theorem free_list_sound_handed_over : ∃ s : State Bool,
    State.Trace (State.init 1 id fun _ => false) [.pushed 0, .popped 0] s ∧
      s.pc true = .returned 0 ∧ 0 ∈ s.held true ∧ 0 ∉ s.held false := by
  have start : State.Trace (State.init 1 id fun _ => false) [] (State.init 1 id fun _ => false) := .nil
  have mem : (0 : BitVec 32) ∈ (State.init 1 id fun _ => false).held false := by decide
  have pushing := ((start.step (.callPush (.inl rfl) mem)).step (.pushLoad (t := false) rfl)).step
    (.pushLink (t := false) rfl)
  have push := (pushing.step (.pushCas (t := false) rfl rfl (by decide))).step
    (.pushSize (t := false) rfl)
  have popping := ((push.step (.callPop (t := true) (.inl rfl))).step (.popLoad (t := true) rfl)).step
    (.popLink (t := true) rfl)
  have pop := (popping.step (.popCas (t := true) rfl rfl (by decide))).step (.popSize (t := true) rfl)
  obtain ⟨l, _, _, _, alone, back, _⟩ := free_list_sound 1 (by decide) id (fun _ => false) _ _ pop
  have got := back true 0 (.inr ⟨rfl, by decide⟩)
  exact ⟨_, pop, rfl, got, fun kept => Bool.noConfusion (((alone true).2 0 got).2 false kept)⟩

end UxNet.FreeStack
