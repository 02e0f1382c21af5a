import UxNet.Pool.Geometry

/-!
# The free count

`BufferPool::free_count` of a pool that any number of threads use, in any interleaving of their atomic
steps. `push` and `pop` change the list with a compare-exchange and update `size_` in a later step, so
that `size_` is the length of the list less the updates that are still to come (`Counted`). That is a
number between 0 and the capacity if the thread that made the compare-exchange is the only one.

`AnyStep` leaves out the bound that `Step` puts on a compare-exchange: without it a generation can come
round again, and a `pop` take the list back to what it was `2 ^ 32` compare-exchanges ago.
-/

namespace UxNet

/-! ## The free list of a new pool -/

namespace FreeStack.State

/-- An index of 32 bits comes round. -/
lemma ofNat_mod (n : ℕ) : BitVec.ofNat 32 (n % 2 ^ 32) = BitVec.ofNat 32 n := by
  apply BitVec.eq_of_toNat_eq
  rw [BitVec.toNat_ofNat, BitVec.toNat_ofNat, Nat.mod_mod]

/-- The indices below `m`, the last on top. -/
def stacked (m : ℕ) : List (BitVec 32) := (List.range m).reverse.map (BitVec.ofNat 32)

/-- The next index goes on top. -/
lemma stacked_succ (m : ℕ) : stacked (m + 1) = BitVec.ofNat 32 m :: stacked m := by
  rw [stacked, List.range_succ, List.reverse_append]
  rfl

/-- The list has every index once. -/
lemma length_stacked (m : ℕ) : (stacked m).length = m := by
  rw [stacked, List.length_map, List.length_reverse, List.length_range]

/-- The indices on the list. -/
lemma mem_stacked {m : ℕ} (lt : m < 2 ^ 32) (i : BitVec 32) : i ∈ stacked m ↔ i.toNat < m := by
  rw [stacked, List.mem_map]
  constructor
  · rintro ⟨j, mem, rfl⟩
    have hj := List.mem_range.mp (List.mem_reverse.mp mem)
    rw [BitVec.toNat_ofNat, Nat.mod_eq_of_lt (by omega)]
    exact hj
  · intro hi
    exact ⟨i.toNat, List.mem_reverse.mpr (List.mem_range.mpr hi), by simp⟩

/-- No index is there twice. -/
lemma stacked_nodup {m : ℕ} (lt : m < 2 ^ 32) : (stacked m).Nodup := by
  induction m with
  | zero => exact List.nodup_nil
  | succ m ih =>
    rw [stacked_succ, List.nodup_cons, mem_stacked (by omega), BitVec.toNat_ofNat,
      Nat.mod_eq_of_lt (by omega)]
    exact ⟨lt_irrefl m, ih (by omega)⟩

/-- What the pushes of the constructor leave, for any number of them: the index before `2 ^ 32` is the end
mark, so that pushing it empties the list. -/
lemma pushFirst_stacked (n count : ℕ) (next : BitVec 32 → BitVec 32) :
    Linked (pushFirst n (init count next fun _ => ())).next kEmpty
      (indexOf (pushFirst n (init count next fun _ => ())).top) (stacked (n % 2 ^ 32)) ∧
    genOf (pushFirst n (init count next fun _ => ())).top = BitVec.ofNat 32 n ∧
    (pushFirst n (init count next fun _ => ())).swaps = n := by
  induction n with
  | zero => exact ⟨indexOf_pack 0 kEmpty, genOf_pack 0 kEmpty, rfl⟩
  | succ n ih =>
    rw [pushFirst_succ]
    generalize pushFirst n (init count next fun _ => ()) = s at ih
    obtain ⟨linked, gen, swaps⟩ := ih
    refine ⟨?_, ?_, congrArg (· + 1) swaps⟩
    · show Linked (Function.update s.next (BitVec.ofNat 32 n) (indexOf s.top)) kEmpty
        (indexOf (pack (genOf s.top + 1) (BitVec.ofNat 32 n))) _
      rw [indexOf_pack]
      by_cases last : n % 2 ^ 32 = 2 ^ 32 - 1
      · -- the index is `kEmpty`: the new top is the end mark, whatever it links to
        rw [show (n + 1) % 2 ^ 32 = 0 by omega, ← ofNat_mod n, last]
        rfl
      · have lt : n % 2 ^ 32 < 2 ^ 32 - 1 := by omega
        have toNat : (BitVec.ofNat 32 n).toNat = n % 2 ^ 32 := BitVec.toNat_ofNat n 32
        have out : BitVec.ofNat 32 n ∉ stacked (n % 2 ^ 32) := by
          rw [mem_stacked (by omega), toNat]
          exact lt_irrefl _
        rw [show (n + 1) % 2 ^ 32 = n % 2 ^ 32 + 1 by omega, stacked_succ, ofNat_mod]
        refine ⟨rfl, ?_, ?_⟩
        · intro e
          rw [e] at toNat
          exact last toNat.symm
        · rw [Function.update_self]
          exact linked.update out _
    · show genOf (pack (genOf s.top + 1) (BitVec.ofNat 32 n)) = _
      rw [genOf_pack, gen, BitVec.ofNat_add]
      rfl

end FreeStack.State

namespace FreeStack

open State

variable {Tid : Type}

/-- A new pool in the hands of the threads that use it. -/
def start (Tid : Type) (p : Geometry.Pool) : State Tid where
  top := p.freeStack.top
  next := p.freeStack.next
  size := p.freeStack.size
  pc := fun _ => .idle
  held := fun _ => []
  swaps := p.freeStack.swaps
  loaded := fun _ => 0
  history := (stacked (p.bufferCount.toNat % 2 ^ 32)).map .pushed

/-- `BufferPool::free_count`. -/
def State.freeCount (s : State Tid) : BitVec 64 := s.size.setWidth 64

/-- The thread is between two calls. -/
def Pc.AtRest (p : Pc) : Prop := p = .idle ∨ ∃ r, p = .returned r

section

variable [DecidableEq Tid]

/-- An atomic step of a thread, however long ago it read `top_`. -/
inductive AnyStep (t : Tid) : State Tid → State Tid → Prop where
  | step {s s'} :
    Step t s s' →
    AnyStep t s s'
  | pushCas {s index old} :
    s.pc t = .pushCas index old →
    s.top = old →
    AnyStep t s (s.swap t (pack (genOf old + 1) index) .pushSize ((s.held t).erase index)
      (.pushed index))
  | popCas {s old next} :
    s.pc t = .popCas old next →
    s.top = old →
    AnyStep t s (s.swap t (pack (genOf old + 1) next) (.popSize (indexOf old))
      (indexOf old :: s.held t) (.popped (indexOf old)))

/-- Such steps of any threads in any order. -/
abbrev AnySteps : State Tid → State Tid → Prop := Relation.ReflTransGen fun s s' => ∃ t, AnyStep t s s'

/-- A run with the bound is one without it. -/
lemma Steps.any {s s' : State Tid} (run : Steps s s') : AnySteps s s' :=
  Relation.ReflTransGen.mono (fun _ _ ⟨t, st⟩ => ⟨t, .step st⟩) _ _ run

end

/-- What `free_count` promises in a state: it is between 0 and the capacity, and it is the length of the
free list when no thread is in a call. -/
structure InRange (capacity : ℕ) (s : State Tid) : Prop where
  le : s.freeCount.toNat ≤ capacity
  counts : (∀ t, (s.pc t).AtRest) →
    ∃ l, Linked s.next kEmpty (indexOf s.top) l ∧ s.freeCount.toNat = l.length

/-- `free_count` is `size_`. -/
lemma toNat_freeCount (s : State Tid) : s.freeCount.toNat = s.size.toNat := by
  rw [State.freeCount, BitVec.toNat_setWidth]
  exact Nat.mod_eq_of_lt (by have := s.size.isLt; omega)

/-- The free list of a new pool. -/
lemma start_inv {size count : BitVec 64} {node : ℤ} {first second : Geometry.MmapAnswer}
    {p : Geometry.Pool} (ok : Geometry.Pool.construct size count node first second = .ok p) :
    Inv (count.toNat % 2 ^ 32) (start Tid p) (stacked (count.toNat % 2 ^ 32)) ∧
    (start Tid p).size = BitVec.ofNat 32 count.toNat := by
  obtain ⟨_, _, _, rfl, _, _, _, stack⟩ := Geometry.Pool.construct_ok ok
  obtain ⟨linked, gen, swaps⟩ := pushFirst_stacked p.bufferCount.toNat p.bufferCount.toNat fun _ => 0
  obtain ⟨_, _, _, counted⟩ := pushFirst_run (le_refl p.bufferCount.toNat) fun _ => 0
  rw [← stack] at linked gen swaps counted
  have lt : p.bufferCount.toNat % 2 ^ 32 < 2 ^ 32 := Nat.mod_lt _ (by decide)
  have nodup := stacked_nodup lt
  have pushed : ∀ i, (start Tid p).history.count (.pushed i)
      = (stacked (p.bufferCount.toNat % 2 ^ 32)).count i := by
    intro i
    apply List.count_map_of_injective
    intro i j e
    exact Event.pushed.inj e
  have popped : ∀ h, h <+: (start Tid p).history → ∀ i, h.count (.popped i) = 0 := by
    intro h pre i
    rw [List.count_eq_zero]
    intro mem
    obtain ⟨j, _, e⟩ := List.mem_map.mp (pre.subset mem)
    cases e
  refine ⟨⟨linked, nodup, fun _ => List.nodup_nil, ?_, ?_, ?_, ?_, fun _ => trivial, ?_, ?_⟩, counted⟩
  · intro t i mem
    cases mem
  · intro t t' i mem
    cases mem
  · intro i
    rw [mem_stacked lt]
    refine ⟨.inl, ?_⟩
    rintro (mem | ⟨_, mem⟩)
    · exact mem
    · cases mem
  · show genOf p.freeStack.top = BitVec.ofNat 32 p.freeStack.swaps
    rw [gen, swaps]
  · intro i
    rw [pushed i, popped _ List.prefix_rfl i, nodup.count, zero_add]
  · intro h pre i
    have le := pre.sublist.count_le (.pushed i)
    rw [pushed i, nodup.count] at le
    rw [popped h pre i]
    refine ⟨Nat.zero_le _, le.trans ?_⟩
    split
    · exact le_rfl
    · exact Nat.zero_le 1

/-! ## What the counter counts -/

/-- The update of `size_` that a thread has yet to make. -/
def pending : Pc → ℤ
  | .pushSize => 1
  | .popSize _ => -1
  | _ => 0

/-- Between calls nothing is still to be counted. -/
lemma pending_atRest {p : Pc} (rest : p.AtRest) : pending p = 0 := by
  rcases rest with rfl | ⟨r, rfl⟩
  · rfl
  · rfl

variable [Fintype Tid]

/-- The invariant with the counter: it is behind by the updates to come. -/
structure Counted (m : ℕ) (s : State Tid) (l : List (BitVec 32)) : Prop extends Inv m s l where
  size : s.size = BitVec.ofInt 32 (l.length - ∑ t, pending (s.pc t))

variable [DecidableEq Tid] {m : ℕ} {s s' : State Tid} {l l' : List (BitVec 32)} {t : Tid}

/-- One thread's share changes the sum by the difference. -/
lemma sum_pending (pc : Tid → Pc) (t : Tid) (p : Pc) :
    ∑ t', pending (Function.update pc t p t') = ∑ t', pending (pc t') + (pending p - pending (pc t)) := by
  have others : ∑ t' ∈ Finset.univ.erase t, pending (Function.update pc t p t')
      = ∑ t' ∈ Finset.univ.erase t, pending (pc t') := by
    apply Finset.sum_congr rfl
    intro t' mem
    rw [Function.update_of_ne (Finset.ne_of_mem_erase mem)]
  rw [← Finset.add_sum_erase _ _ (Finset.mem_univ t), ← Finset.add_sum_erase _ _ (Finset.mem_univ t),
    others, Function.update_self]
  ring

/-- A thread moves on, with the list and the counter. -/
lemma Counted.moved (h : Counted m s l) (inv : Inv m s' l') {p : Pc}
    (pc : s'.pc = Function.update s.pc t p)
    (size : s'.size = s.size + BitVec.ofInt 32 (l'.length - l.length - (pending p - pending (s.pc t)))) :
    Counted m s' l' := by
  refine ⟨inv, ?_⟩
  rw [size, h.size, ← BitVec.ofInt_add, pc, sum_pending]
  congr 1
  ring

/-- A step that leaves the list as it is. -/
lemma Counted.kept (h : Counted m s l) (hm : m < 2 ^ 32) (st : Step t s s')
    (linked : Linked s'.next kEmpty (indexOf s'.top) l) {p : Pc} (pc : s'.pc = Function.update s.pc t p)
    (size : s'.size = s.size - BitVec.ofInt 32 (pending p - pending (s.pc t))) : Counted m s' l := by
  obtain ⟨l', inv⟩ := h.toInv.step hm st
  obtain rfl := linked.unique inv.linked
  refine h.moved inv pc ?_
  rw [size, sub_self, zero_sub, BitVec.ofInt_neg, sub_eq_add_neg]

/-- The thread has read the link of the list as it is. -/
def Fresh (t : Tid) (s : State Tid) : Prop :=
  ∀ old nx, s.pc t = .popCas old nx → s.top = old → s.next (indexOf old) = nx

/-- A `pop` that has just read `top_` has nothing to count. -/
lemma pending_popTest (old : BitVec 64) : pending (popTest old) = 0 := by
  unfold popTest
  split
  · rfl
  · rfl

/-- The compare-exchange of `push` is one to be counted. -/
lemma Counted.pushCas (h : Counted m s l) (hm : m < 2 ^ 32) {index : BitVec 32} {old : BitVec 64}
    (at' : s.pc t = .pushCas index old) (same : s.top = old) :
    Counted m (s.swap t (pack (genOf old + 1) index) .pushSize ((s.held t).erase index)
      (.pushed index)) (index :: l) := by
  refine h.moved (h.toInv.pushCas hm at' same) rfl ?_
  rw [at', List.length_cons]
  show s.size = s.size + BitVec.ofInt 32 (((l.length + 1 : ℕ) : ℤ) - l.length - (1 - 0))
  rw [show (((l.length + 1 : ℕ) : ℤ) - l.length - (1 - 0)) = 0 by omega]
  exact (BitVec.add_zero _).symm

/-- The compare-exchange of `pop` is one to be counted off, if the link it read is still so. -/
lemma Counted.popCas (h : Counted m s l) {old : BitVec 64} {nx : BitVec 32}
    (at' : s.pc t = .popCas old nx) (same : s.top = old) (link : s.next (indexOf old) = nx) :
    ∃ l', Counted m (s.swap t (pack (genOf old + 1) nx) (.popSize (indexOf old))
      (indexOf old :: s.held t) (.popped (indexOf old))) l' := by
  obtain ⟨l', rfl, inv⟩ := h.toInv.popCas_of_link at' same link
  refine ⟨l', h.moved inv rfl ?_⟩
  rw [at', List.length_cons]
  show s.size = s.size + BitVec.ofInt 32 ((l'.length : ℤ) - ((l'.length + 1 : ℕ) : ℤ) - (-1 - 0))
  rw [show ((l'.length : ℤ) - ((l'.length + 1 : ℕ) : ℤ) - (-1 - 0)) = 0 by omega]
  exact (BitVec.add_zero _).symm

/-- Every step keeps the counter, if what its thread has read is still so. -/
lemma Counted.step (h : Counted m s l) (hm : m < 2 ^ 32) (fresh : Fresh t s) (st : AnyStep t s s') :
    ∃ l', Counted m s' l' := by
  cases st with
  | pushCas at' same => exact ⟨_, h.pushCas hm at' same⟩
  | popCas at' same => exact h.popCas at' same (fresh _ _ at' same)
  | step st =>
    -- steps between points with nothing pending
    have quiet : ∀ p, s'.pc = Function.update s.pc t p → s'.size = s.size → pending (s.pc t) = 0 →
        pending p = 0 → Linked s'.next kEmpty (indexOf s'.top) l → ∃ l', Counted m s' l' := by
      intro p pc size none none' linked
      refine ⟨l, h.kept hm st linked pc ?_⟩
      rw [none, none', size]
      exact (BitVec.sub_zero _).symm
    cases st with
    | callPush rest mem => exact quiet _ rfl rfl (pending_atRest rest) rfl h.linked
    | callPop rest => exact quiet _ rfl rfl (pending_atRest rest) rfl h.linked
    | pushLoad at' => exact quiet _ rfl rfl (by rw [at']; rfl) rfl h.linked
    | @pushLink index old at' =>
      have ready := h.ready t
      rw [at'] at ready
      exact quiet _ rfl rfl (by rw [at']; rfl) rfl (h.linked.update (h.apart t index ready.1) _)
    | pushCas at' same _ => exact ⟨_, h.pushCas hm at' same⟩
    | pushFail at' => exact quiet _ rfl rfl (by rw [at']; rfl) rfl h.linked
    | pushSize at' =>
      refine ⟨l, h.kept hm (.pushSize at') h.linked rfl ?_⟩
      rw [at']
      show s.size + 1 = s.size - BitVec.ofInt 32 (0 - 1)
      rw [sub_eq_add_neg]
      rfl
    | popLoad at' => exact quiet _ rfl rfl (by rw [at']; rfl) (pending_popTest _) h.linked
    | popLink at' => exact quiet _ rfl rfl (by rw [at']; rfl) rfl h.linked
    | popCas at' same _ => exact h.popCas at' same (fresh _ _ at' same)
    | popFail at' => exact quiet _ rfl rfl (by rw [at']; rfl) (pending_popTest _) h.linked
    | @popSize index at' =>
      refine ⟨l, h.kept hm (.popSize at') h.linked rfl ?_⟩
      rw [at']
      show s.size - 1 = s.size - BitVec.ofInt 32 (0 - -1)
      rfl

/-- Distinct indices below `m` are at most `m`. -/
lemma length_le {m : ℕ} {l : List (BitVec 32)} (nodup : l.Nodup) (lt : ∀ i ∈ l, i.toNat < m) :
    l.length ≤ m := by
  have sub : l.map BitVec.toNat ⊆ List.range m := by
    intro i mem
    obtain ⟨j, mem', rfl⟩ := List.mem_map.mp mem
    exact List.mem_range.mpr (lt j mem')
  have le := ((nodup.map fun i j => BitVec.eq_of_toNat_eq).subperm sub).length_le
  rw [List.length_map, List.length_range] at le
  exact le

omit [DecidableEq Tid] in
/-- The list and what one thread holds are distinct indices. -/
lemma Counted.length_le (h : Counted m s l) (t : Tid) : l.length + (s.held t).length ≤ m := by
  rw [← List.length_append]
  apply FreeStack.length_le
  · rw [List.nodup_append]
    refine ⟨h.nodup, h.heldNodup t, ?_⟩
    rintro i mem j mem' rfl
    exact h.apart t i mem' mem
  · intro i mem
    rcases List.mem_append.mp mem with mem | mem
    · exact (h.total i).mpr (.inl mem)
    · exact (h.total i).mpr (.inr ⟨t, mem⟩)

omit [Fintype Tid] [DecidableEq Tid] in
/-- The list is no longer than there are indices. -/
lemma Inv.length_le (h : Inv m s l) : l.length ≤ m :=
  FreeStack.length_le h.nodup fun i mem => (h.total i).mpr (.inl mem)

omit [DecidableEq Tid] in
/-- With no updates to come the counter is right. -/
lemma Counted.counts (h : Counted m s l) (hm : m < 2 ^ 32) (rest : ∀ t, (s.pc t).AtRest) :
    s.freeCount.toNat = l.length := by
  have none : ∑ t, pending (s.pc t) = 0 := Finset.sum_eq_zero fun t _ => pending_atRest (rest t)
  have le := h.toInv.length_le
  rw [toNat_freeCount, h.size, none, sub_zero, BitVec.ofInt_natCast, BitVec.toNat_ofNat,
    Nat.mod_eq_of_lt (by omega)]

/-! ## One thread -/

/-- What a thread knows when there is no other. -/
def Current (top : BitVec 64) (swaps loaded : ℕ) (held : List (BitVec 32)) : Pc → Prop
  | .pushLink _ _ => loaded = swaps
  | .pushCas _ _ => loaded = swaps
  | .popLink _ => loaded = swaps
  | .popCas _ _ => loaded = swaps
  | .pushSize => indexOf top ≠ kEmpty
  | .popSize index => index ∈ held
  | _ => True

/-- No other thread has changed anything since the thread last did. -/
def Alone (t : Tid) (s : State Tid) : Prop :=
  Current s.top s.swaps (s.loaded t) (s.held t) (s.pc t)

omit [Fintype Tid] [DecidableEq Tid] in
/-- A thread that is alone knows what is so now. -/
lemma Alone.fresh (alone : Alone t s) (h : Inv m s l) : Fresh t s := by
  intro old nx at' _
  have ready := h.ready t
  rw [Alone, at'] at alone
  rw [at'] at ready
  exact ready.2.2 alone

/-- What has just been read is current. -/
lemma current_popTest (old : BitVec 64) (swaps : ℕ) (held : List (BitVec 32)) :
    Current old swaps swaps held (popTest old) := by
  unfold popTest
  split
  · trivial
  · rfl

omit [Fintype Tid] in
/-- A thread that moves on with current knowledge is still alone. -/
lemma Alone.of_pc {p : Pc} (pc : s'.pc = Function.update s.pc t p)
    (current : Current s'.top s'.swaps (s'.loaded t) (s'.held t) p) : Alone t s' := by
  rw [Alone, pc, Function.update_self]
  exact current

omit [Fintype Tid] in
/-- Every step of the thread leaves it alone. -/
lemma Alone.step (alone : Alone t s) (h : Inv m s l) (hm : m < 2 ^ 32) (st : AnyStep t s s') :
    Alone t s' := by
  have ready := h.ready t
  have pushed : ∀ index old, s.pc t = .pushCas index old →
      indexOf (pack (genOf old + 1) index) ≠ kEmpty := by
    intro index old at'
    rw [at'] at ready
    rw [indexOf_pack]
    exact h.ne_kEmpty hm ready.1
  have popped : ∀ i, i ∈ Function.update s.held t (i :: s.held t) t := by
    intro i
    rw [Function.update_self]
    exact List.mem_cons_self
  have tested : Current s.top s.swaps (Function.update s.loaded t s.swaps t) (s.held t)
      (popTest s.top) := by
    rw [Function.update_self]
    exact current_popTest _ _ _
  unfold Alone at alone
  cases st with
  | pushCas at' same => exact .of_pc rfl (pushed _ _ at')
  | popCas at' same => exact .of_pc rfl (popped _)
  | step st =>
    cases st with
    | callPush rest mem => exact .of_pc rfl trivial
    | callPop rest => exact .of_pc rfl trivial
    | pushLoad at' => exact .of_pc rfl (Function.update_self ..)
    | pushLink at' =>
      rw [at'] at alone
      exact .of_pc rfl alone
    | pushCas at' same _ => exact .of_pc rfl (pushed _ _ at')
    | pushFail at' => exact .of_pc rfl (Function.update_self ..)
    | pushSize at' => exact .of_pc rfl trivial
    | popLoad at' => exact .of_pc rfl tested
    | popLink at' =>
      rw [at'] at alone
      exact .of_pc rfl alone
    | popCas at' same _ => exact .of_pc rfl (popped _)
    | popFail at' => exact .of_pc rfl tested
    | popSize at' => exact .of_pc rfl trivial

/-- A number in range is not changed by the counter's width. -/
lemma toNat_ofInt_le {k : ℤ} (nonneg : 0 ≤ k) (le : k ≤ m) (hm : m < 2 ^ 32) :
    (BitVec.ofInt 32 k).toNat ≤ m := by
  obtain ⟨j, rfl⟩ := Int.eq_ofNat_of_zero_le nonneg
  rw [BitVec.ofInt_natCast, BitVec.toNat_ofNat, Nat.mod_eq_of_lt (by omega)]
  omega

omit [DecidableEq Tid] in
/-- One thread has one update to come at most, and what it has yet to count is there. -/
lemma Counted.le_of_alone [Subsingleton Tid] (h : Counted m s l) (hm : m < 2 ^ 32)
    (alone : ∀ t, Alone t s) : s.freeCount.toNat ≤ m := by
  have short := h.toInv.length_le
  have bounds : 0 ≤ (l.length : ℤ) - ∑ t, pending (s.pc t) ∧
      (l.length : ℤ) - ∑ t, pending (s.pc t) ≤ m := by
    rcases isEmpty_or_nonempty Tid with none | ⟨⟨t⟩⟩
    · rw [Fintype.sum_empty]
      omega
    · rw [Fintype.sum_subsingleton _ t]
      have here := alone t
      have room := h.length_le t
      unfold Alone at here
      generalize s.pc t = p at here
      cases p with
      | pushSize =>
        -- the buffer just pushed is still on the list
        have some : l ≠ [] := by
          rintro rfl
          exact here h.linked
        have := List.length_pos_iff.mpr some
        show 0 ≤ (l.length : ℤ) - 1 ∧ (l.length : ℤ) - 1 ≤ m
        omega
      | popSize index =>
        -- the buffer just popped is in the thread's hands, not on the list
        have := List.length_pos_of_mem here
        show 0 ≤ (l.length : ℤ) - -1 ∧ (l.length : ℤ) - -1 ≤ m
        omega
      | _ =>
        show 0 ≤ (l.length : ℤ) - 0 ∧ (l.length : ℤ) - 0 ≤ m
        omega
  rw [toNat_freeCount, h.size]
  exact toNat_ofInt_le bounds.1 bounds.2 hm

/-! ## One buffer -/

/-- What a thread knows when there is one buffer at most. -/
def OneView (m : ℕ) : Pc → Prop
  | .pushLink _ old => indexOf old = kEmpty
  | .popLink old => (indexOf old).toNat < m
  | .popCas _ nx => nx = kEmpty
  | _ => True

/-- No link leads to a buffer. -/
structure Single (m : ℕ) (s : State Tid) : Prop where
  links : ∀ i : BitVec 32, i.toNat < m → s.next i = kEmpty
  views : ∀ t, OneView m (s.pc t)

omit [Fintype Tid] [DecidableEq Tid] in
/-- With one buffer, the link that a `pop` has read is still so. -/
lemma Single.fresh (single : Single m s) (h : Inv m s l) (t : Tid) : Fresh t s := by
  intro old nx at' same
  have view := single.views t
  have ready := h.ready t
  rw [at'] at view ready
  obtain ⟨l', rfl, _⟩ := h.linked.cons_of_ne (same ▸ ready.2.1)
  rw [← same, single.links _ ((h.total _).mpr (.inl List.mem_cons_self)), view]

omit [Fintype Tid] in
/-- A thread moves on, with the view it has there. -/
lemma Single.view {p : Pc} (single : Single m s) (pc : s'.pc = Function.update s.pc t p)
    (next : ∀ i : BitVec 32, i.toNat < m → s'.next i = kEmpty) (view : OneView m p) : Single m s' := by
  refine ⟨next, ?_⟩
  intro t'
  rw [pc]
  by_cases ht : t' = t
  · rw [ht, Function.update_self]
    exact view
  · rw [Function.update_of_ne ht]
    exact single.views t'

omit [Fintype Tid] [DecidableEq Tid] in
/-- A `pop` that has just read `top_` has seen a buffer or none. -/
lemma oneView_popTest (h : Inv m s l) : OneView m (popTest s.top) := by
  unfold popTest
  split
  · trivial
  · rename_i ne
    obtain ⟨l', rfl, _⟩ := h.linked.cons_of_ne ne
    exact (h.total _).mpr (.inl List.mem_cons_self)

omit [Fintype Tid] [DecidableEq Tid] in
/-- Who holds the buffer sees an empty list. -/
lemma top_of_held (h : Inv m s l) (one : m ≤ 1) {index : BitVec 32} (mem : index ∈ s.held t) :
    indexOf s.top = kEmpty := by
  by_contra ne
  obtain ⟨l', rfl, _⟩ := h.linked.cons_of_ne ne
  have top := (h.total _).mpr (.inl List.mem_cons_self)
  have held := (h.total index).mpr (.inr ⟨t, mem⟩)
  have same : index = indexOf s.top := BitVec.eq_of_toNat_eq (by omega)
  rw [same] at mem
  exact h.apart t _ mem List.mem_cons_self

omit [Fintype Tid] in
/-- With one buffer, no step makes a link lead to it. -/
lemma Single.step (single : Single m s) (h : Inv m s l) (one : m ≤ 1) (st : AnyStep t s s') :
    Single m s' := by
  have ready := h.ready t
  have view := single.views t
  cases st with
  | pushCas at' same => exact single.view rfl single.links trivial
  | popCas at' same => exact single.view rfl single.links trivial
  | step st =>
    cases st with
    | callPush rest mem => exact single.view rfl single.links trivial
    | callPop rest => exact single.view rfl single.links trivial
    | pushLoad at' =>
      -- who pushes holds the only buffer, so that the link to be written is the end mark
      rw [at'] at ready
      exact single.view rfl single.links (top_of_held h one ready)
    | @pushLink index old at' =>
      rw [at'] at view
      refine single.view rfl ?_ trivial
      intro i lt
      show Function.update s.next index (indexOf old) i = kEmpty
      by_cases e : i = index
      · rw [e, Function.update_self]
        exact view
      · rw [Function.update_of_ne e]
        exact single.links i lt
    | pushCas at' same _ => exact single.view rfl single.links trivial
    | pushFail at' =>
      rw [at'] at ready
      exact single.view rfl single.links (top_of_held h one ready.1)
    | pushSize at' => exact single.view rfl single.links trivial
    | popLoad at' => exact single.view rfl single.links (oneView_popTest h)
    | popLink at' =>
      rw [at'] at view
      exact single.view rfl single.links (single.links _ view)
    | popCas at' same _ => exact single.view rfl single.links trivial
    | popFail at' => exact single.view rfl single.links (oneView_popTest h)
    | popSize at' => exact single.view rfl single.links trivial

/-! ## Runs -/

section Construct

variable {size count : BitVec 64} {node : ℤ} {first second : Geometry.MmapAnswer} {p : Geometry.Pool}

omit [DecidableEq Tid] in
/-- The counter of a new pool is right. -/
lemma start_counted (ok : Geometry.Pool.construct size count node first second = .ok p) :
    Counted (count.toNat % 2 ^ 32) (start Tid p) (stacked (count.toNat % 2 ^ 32)) := by
  obtain ⟨inv, counter⟩ : Inv _ (start Tid p) _ ∧ _ := start_inv ok
  refine ⟨inv, ?_⟩
  have none : ∑ t, pending ((start Tid p).pc t) = 0 := Finset.sum_eq_zero fun t _ => rfl
  rw [counter, none, sub_zero, BitVec.ofInt_natCast, length_stacked, ofNat_mod]

/-- What a run of one thread keeps. -/
lemma alone_steps [Subsingleton Tid] (ok : Geometry.Pool.construct size count node first second = .ok p)
    (run : AnySteps (start Tid p) s) :
    ∃ l, Counted (count.toNat % 2 ^ 32) s l ∧ ∀ t, Alone t s := by
  have hm : count.toNat % 2 ^ 32 < 2 ^ 32 := Nat.mod_lt _ (by decide)
  induction run with
  | refl => exact ⟨_, start_counted ok, fun _ => trivial⟩
  | tail _ st ih =>
    obtain ⟨l, h, alone⟩ := ih
    obtain ⟨t, st⟩ := st
    obtain ⟨l', h'⟩ := h.step hm ((alone t).fresh h.toInv) st
    refine ⟨l', h', ?_⟩
    intro t'
    rw [Subsingleton.elim t' t]
    exact (alone t).step h.toInv hm st

/-- What a run of any threads keeps when the indices of the buffers have come round to the first one. -/
lemma single_steps (ok : Geometry.Pool.construct size count node first second = .ok p)
    (one : count.toNat % 2 ^ 32 ≤ 1) (run : AnySteps (start Tid p) s) :
    ∃ l, Counted (count.toNat % 2 ^ 32) s l ∧ Single (count.toNat % 2 ^ 32) s := by
  have hm : count.toNat % 2 ^ 32 < 2 ^ 32 := Nat.mod_lt _ (by decide)
  induction run with
  | refl =>
    refine ⟨_, start_counted ok, ⟨?_, fun _ => trivial⟩⟩
    intro i lt
    have linked : Linked (start Tid p).next kEmpty _ _ := (start_counted ok).linked
    rw [show count.toNat % 2 ^ 32 = 1 by omega] at linked
    obtain rfl : i = 0#32 := BitVec.eq_of_toNat_eq (by show i.toNat = 0; omega)
    exact linked.2.2
  | tail _ st ih =>
    obtain ⟨l, h, single⟩ := ih
    obtain ⟨t, st⟩ := st
    obtain ⟨l', h'⟩ := h.step hm (single.fresh h.toInv t) st
    exact ⟨l', h', single.step h.toInv one st⟩

/-- One thread, or one buffer with a capacity that the counter cannot exceed. -/
lemma inRange_steps (ok : Geometry.Pool.construct size count node first second = .ok p)
    (safe : Subsingleton Tid ∨ (2 ^ 32 ≤ count.toNat ∧ count.toNat % 2 ^ 32 ≤ 1))
    (run : AnySteps (start Tid p) s) : InRange count.toNat s := by
  have hm : count.toNat % 2 ^ 32 < 2 ^ 32 := Nat.mod_lt _ (by decide)
  rcases safe with one | ⟨big, one⟩
  · obtain ⟨l, h, alone⟩ := alone_steps ok run
    refine ⟨?_, fun rest => ⟨l, h.linked, h.counts hm rest⟩⟩
    exact (h.le_of_alone hm alone).trans (Nat.mod_le _ _)
  · obtain ⟨l, h, _⟩ := single_steps ok one run
    refine ⟨?_, fun rest => ⟨l, h.linked, h.counts hm rest⟩⟩
    -- whatever the counter says, the capacity is more
    rw [toNat_freeCount]
    exact (Nat.le_of_lt s.size.isLt).trans big

end Construct

end FreeStack

end UxNet
