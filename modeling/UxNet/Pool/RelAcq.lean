import UxNet.Lib.Weak
import UxNet.Pool.FreeStack

/-!
# The free list with the memory orders of the source

`push` and `pop` of `FreeStack` over a memory in which a load may return an old value. `push` loads `top_`
`relaxed` and exchanges it with `release`; `pop` loads it with `acquire`, exchanges it with `acquire`, and
`size_` is counted `relaxed`. `top_` is only written by compare-exchanges, so that each of them reads the
last value, and passes on what the ones before it have released.

The links are plain members of the descriptors, and what a thread does with a buffer between `pop` and
`push` (`data`) is plain memory too. A `pop` that will fail its compare-exchange may read a link which the
index's new owner writes, without an order between the two: that is a data race (`links_race`). A plain
access is taken here as one that returns or writes some whole value even then, and what is shown of the
links is that no such value comes into the list; that there is no race is shown of `data` alone.

`seq` is the state of the free list as in an interleaving of whole steps: the last value of `top_` and of
each link. Its invariant (`FreeStack.Inv`) holds here too, where `loaded` is how far a thread has seen
`top_`: that it has loaded an old value is no different from not having come further since.

As in `FreeStack`, a generation comes round again after `2 ^ 32` compare-exchanges. The runs here are those
in which a compare-exchange of `pop` succeeds only if fewer came after the value that its thread has loaded
(`NearStep`); `push` needs no such bound.
-/

namespace UxNet.FreeStack.RelAcq

open Weak

/-- What the threads share. -/
inductive Loc where
  | top
  | size
  | next (i : BitVec 32)
  | data (i : BitVec 32)
deriving DecidableEq

/-- The type of what is there. -/
abbrev Loc.Val (D : Type) : Loc → Type
  | .top => BitVec 64
  | .size => BitVec 32
  | .next _ => BitVec 32
  | .data _ => D

/-- What the constructor finds. -/
def initial {D : Type} (next : BitVec 32 → BitVec 32) (data : BitVec 32 → D) : (x : Loc) → x.Val D
  | .top => pack 0 kEmpty
  | .size => (0 : BitVec 32)
  | .next i => next i
  | .data i => data i

/-- A free list and the threads that use it. -/
structure State (Tid D : Type) where
  mem : Memory Tid (Loc.Val D)
  pc : Tid → Pc
  held : Tid → List (BitVec 32)
  history : List Event

variable {Tid D : Type}

/-- A thread is in neither `push` nor `pop`. -/
def AtRest (p : Pc) : Prop := p = .idle ∨ ∃ r, p = .returned r

/-- Between calls a thread is not in a `pop`. -/
lemma AtRest.ne_popLink {p : Pc} (h : AtRest p) (old : BitVec 64) : p ≠ .popLink old := by
  rcases h with rfl | ⟨r, rfl⟩
  · exact nofun
  · exact nofun

namespace State

section

variable [DecidableEq Tid]

/-- The constructor; the `n` indices are with the threads that will push them. -/
def init (n : ℕ) (next : BitVec 32 → BitVec 32) (data : BitVec 32 → D) (owner : BitVec 32 → Tid) :
    State Tid D where
  mem := .init (initial next data)
  pc := fun _ => .idle
  held := (FreeStack.State.init n next owner).held
  history := []

/-- A thread moves on. -/
def goto (s : State Tid D) (t : Tid) (mem : Memory Tid (Loc.Val D)) (p : Pc) : State Tid D :=
  { s with mem := mem, pc := Function.update s.pc t p }

/-- A compare-exchange of a thread succeeds. -/
def swap (s : State Tid D) (t : Tid) (mem : Memory Tid (Loc.Val D)) (p : Pc) (hs : List (BitVec 32))
    (e : Event) : State Tid D :=
  { mem := mem
    pc := Function.update s.pc t p
    held := Function.update s.held t hs
    history := s.history ++ [e] }

/-- Fewer than `2 ^ 32` values of `top_` came after the one that a thread has loaded. -/
def Near (s : State Tid D) (t : Tid) : Prop :=
  (s.mem.cell .top).length ≤ (s.mem.view t).time .top + 2 ^ 32

instance (s : State Tid D) (t : Tid) : Decidable (s.Near t) := inferInstanceAs (Decidable (_ ≤ _))

/-- An atomic step of a thread. -/
inductive Step (t : Tid) : State Tid D → State Tid D → Prop where
  | callPush {s index} :
    AtRest (s.pc t) →
    index ∈ s.held t →
    Step t s (s.goto t s.mem (.pushLoad index))
  | callPop {s} :
    AtRest (s.pc t) →
    Step t s (s.goto t s.mem .popLoad)
  | pushLoad {s index old mem} :
    s.pc t = .pushLoad index →
    s.mem.Load t .top .relaxed old mem →
    Step t s (s.goto t mem (.pushLink index old))
  | pushLink {s index old mem} :
    s.pc t = .pushLink index old →
    s.mem.Write t (.next index) (indexOf old) mem →
    Step t s (s.goto t mem (.pushCas index old))
  | pushCas {s index mem} {old : BitVec 64} :
    s.pc t = .pushCas index old →
    s.mem.Update t .top .release (pack (genOf old + 1) index) old mem →
    Step t s (s.swap t mem .pushSize ((s.held t).erase index) (.pushed index))
  | pushFail {s index old old' mem} :
    s.pc t = .pushCas index old →
    s.mem.Load t .top .relaxed old' mem →
    Step t s (s.goto t mem (.pushLink index old'))
  | pushSize {s mem} {size : BitVec 32} :
    s.pc t = .pushSize →
    s.mem.Update t .size .relaxed (size + 1 : BitVec 32) size mem →
    Step t s (s.goto t mem .idle)
  | popLoad {s old mem} :
    s.pc t = .popLoad →
    s.mem.Load t .top .acquire old mem →
    Step t s (s.goto t mem (popTest old))
  | popLink {s old next mem} :
    s.pc t = .popLink old →
    s.mem.Read t (.next (indexOf old)) next mem →
    Step t s (s.goto t mem (.popCas old next))
  | popCas {s next mem} {old : BitVec 64} :
    s.pc t = .popCas old next →
    s.mem.Update t .top .acquire (pack (genOf old + 1) next) old mem →
    Step t s (s.swap t mem (.popSize (indexOf old)) (indexOf old :: s.held t)
      (.popped (indexOf old)))
  | popFail {s old old' next mem} :
    s.pc t = .popCas old next →
    s.mem.Load t .top .acquire old' mem →
    Step t s (s.goto t mem (popTest old'))
  | popSize {s index mem} {size : BitVec 32} :
    s.pc t = .popSize index →
    s.mem.Update t .size .relaxed (size - 1 : BitVec 32) size mem →
    Step t s (s.goto t mem (.returned index))
  | readData {s i a mem} :
    AtRest (s.pc t) →
    i ∈ s.held t →
    s.mem.Read t (.data i) a mem →
    Step t s (s.goto t mem (s.pc t))
  | writeData {s i a mem} :
    AtRest (s.pc t) →
    i ∈ s.held t →
    s.mem.Write t (.data i) a mem →
    Step t s (s.goto t mem (s.pc t))
  | approxSize {s size mem} :
    AtRest (s.pc t) →
    s.mem.Load t .size .relaxed size mem →
    Step t s (s.goto t mem (s.pc t))

/-- A step in which a `pop` that takes an index does so within `2 ^ 32` compare-exchanges of its load. -/
def NearStep (t : Tid) (s s' : State Tid D) : Prop :=
  Step t s s' ∧ ((∃ index, s'.pc t = .popSize index) → s.Near t)

/-- Such steps of any threads in any order. -/
abbrev NearSteps : State Tid D → State Tid D → Prop :=
  Relation.ReflTransGen fun s s' => ∃ t, NearStep t s s'

end

/-- The free list with the last values. -/
def seq (s : State Tid D) (top : BitVec 64) (next : BitVec 32 → BitVec 32) : FreeStack.State Tid where
  top := top
  next := next
  size := 0
  pc := s.pc
  held := s.held
  swaps := s.history.length
  loaded := fun t => (s.mem.view t).time .top
  history := s.history

end State

/-- What a compare-exchange does to a stack. -/
def apply : List (BitVec 32) → Event → Option (List (BitVec 32))
  | l, .pushed i => some (i :: l)
  | [], .popped _ => none
  | j :: l, .popped i => if i = j then some l else none

/-- The stack after some compare-exchanges, if each of them pops what is on top. -/
def replay (h : List Event) : Option (List (BitVec 32)) := h.foldlM apply []

/-- One more compare-exchange is one more operation of the stack. -/
lemma replay_concat {h : List Event} {l l' : List (BitVec 32)} {e : Event} (before : replay h = some l)
    (step : apply l e = some l') : replay (h ++ [e]) = some l' := by
  unfold replay at before ⊢
  rw [List.foldlM_append, before]
  simpa using step

/-- A view has all that was written to a buffer's link, and all that was done to its data. -/
def Whole (m : Memory Tid (Loc.Val D)) (v : View Loc Tid) (i : BitVec 32) : Prop :=
  m.Saw v (.next i) ∧ m.Holds v (.data i)

/-- Nothing was written to a buffer's link, and nothing done to its data. -/
def Untouched (m m' : Memory Tid (Loc.Val D)) (i : BitVec 32) : Prop :=
  m'.cell (.next i) = m.cell (.next i) ∧ Memory.Same m m' (.data i)

/-- The last value of a link. -/
structure Link (m : Memory Tid (Loc.Val D)) (i : BitVec 32) (nx : BitVec 32) : Prop where
  sorted : (m.cell (.next i)).Pairwise fun a b => a.time < b.time
  last : ∃ msg, (m.cell (.next i)).getLast? = some msg ∧ msg.val = nx

section Parts

variable {m m' : Memory Tid (Loc.Val D)} {v w : View Loc Tid} {i nx : BitVec 32}

/-- An index that was whole is so for every later view, while nobody touches it. -/
lemma Whole.mono (h : Whole m v i) (same : Untouched m m' i) (le : v ≤ w) : Whole m' w i :=
  ⟨h.1.mono same.1 le, h.2.mono same.2 le⟩

/-- A link is as it was when nothing was written to it. -/
lemma Link.mono (h : Link m i nx) (same : m'.cell (.next i) = m.cell (.next i)) : Link m' i nx where
  sorted := by
    rw [same]
    exact h.sorted
  last := by
    rw [same]
    exact h.last

variable [DecidableEq Tid] {t : Tid}

/-- The holder of a buffer writes its link. -/
lemma Link.store (h : Link m i nx) (mine : m.Saw (m.view t) (.next i)) {o : Order} {nx' : BitVec 32}
    (st : m.Store t (.next i) o nx' m') : Link m' i nx' := by
  have owned : m.Owned t (.next i) := ⟨h.sorted, mine⟩
  obtain ⟨msg, cell, val, _⟩ := st.msg
  refine ⟨(owned.store st).sorted, msg, ?_, val⟩
  rw [cell, List.getLast?_concat]

/-- A thread that has seen the last write of a link reads it. -/
lemma Link.read (h : Link m i nx) (seen : m.Saw (m.view t) (.next i)) {a : BitVec 32}
    (st : m.Read t (.next i) a m') : a = nx := by
  have owned : m.Owned t (.next i) := ⟨h.sorted, seen⟩
  obtain ⟨k, msg, len, get, val⟩ := owned.read_last st
  obtain ⟨last, e, val'⟩ := h.last
  rw [List.getLast?_eq_getElem?, ← len, Nat.add_sub_cancel, get] at e
  cases e
  exact val.symm.trans val'

end Parts

/-- What holds between any two steps: `top` and `next` are the last values, and `l` is the free list. -/
structure Inv (n : ℕ) (s : State Tid D) (top : BitVec 64) (next : BitVec 32 → BitVec 32)
    (l : List (BitVec 32)) : Prop where
  seq : FreeStack.Inv n (s.seq top next) l
  replays : replay s.history = some l
  chain : s.mem.Chain .top
  length : (s.mem.cell .top).length = s.history.length + 1
  tops : ∀ (k : ℕ) msg, (s.mem.cell .top)[k]? = some msg → genOf msg.val = BitVec.ofNat 32 k ∧
    ∃ l, replay (s.history.take k) = some l ∧ (indexOf msg.val = kEmpty → l = [])
  last : ∀ msg, (s.mem.cell .top)[s.history.length]? = some msg →
    msg.val = top ∧ ∀ i ∈ l, Whole s.mem msg.view i
  links : ∀ i, Link s.mem i (next i)
  mine : ∀ t, ∀ i ∈ s.held t, Whole s.mem (s.mem.view t) i
  acquired : ∀ t old, s.pc t = .popLink old → (s.mem.view t).time .top = s.history.length →
    ∀ msg, (s.mem.cell .top)[s.history.length]? = some msg → msg.view ≤ s.mem.view t

namespace Inv

variable {n : ℕ} {s : State Tid D} {top : BitVec 64} {next next' : BitVec 32 → BitVec 32}
  {l : List (BitVec 32)} {t : Tid} {mem : Memory Tid (Loc.Val D)} {p : Pc}

/-- What a thread knows after it has loaded a value of `top_`. -/
lemma seen (h : Inv n s top next l) {k : ℕ} {msg : Msg Loc Tid (BitVec 64)}
    (get : (s.mem.cell .top)[k]? = some msg) : Seen top s.history.length k msg.val := by
  have inside := (List.getElem?_eq_some_iff.mp get).1
  have len := h.length
  refine ⟨by omega, (h.tops k msg get).1, ?_⟩
  rintro rfl
  exact (h.last msg get).1.symm

/-- The last value of `top_`. -/
lemma get_last (h : Inv n s top next l) : ∃ msg, (s.mem.cell .top)[s.history.length]? = some msg := by
  have inside : s.history.length < (s.mem.cell .top).length := by
    rw [h.length]
    exact Nat.lt_succ_self _
  exact ⟨_, List.getElem?_eq_getElem inside⟩

variable [DecidableEq Tid]

/-- A step that is not a successful compare-exchange: only the buffers that the thread holds are touched. -/
lemma frame (h : Inv n s top next l) (seq : FreeStack.Inv n ((s.goto t mem p).seq top next') l)
    (chain : mem.Chain .top) (tops : mem.cell .top = s.mem.cell .top)
    (others : ∀ u ≠ t, mem.view u = s.mem.view u)
    (rest : ∀ i ∉ s.held t, Untouched s.mem mem i)
    (links : ∀ i, Link mem i (next' i)) (own : ∀ i ∈ s.held t, Whole mem (mem.view t) i)
    (acquired : ∀ old, p = .popLink old → (mem.view t).time .top = s.history.length →
      ∀ msg, (s.mem.cell .top)[s.history.length]? = some msg → msg.view ≤ mem.view t) :
    Inv n (s.goto t mem p) top next' l where
  seq := seq
  replays := h.replays
  chain := chain
  length := by
    show (mem.cell .top).length = _
    rw [tops]
    exact h.length
  tops := by
    show ∀ (k : ℕ) msg, (mem.cell .top)[k]? = some msg → _
    rw [tops]
    exact h.tops
  last := by
    show ∀ msg, (mem.cell .top)[s.history.length]? = some msg → _
    rw [tops]
    intro msg get
    obtain ⟨val, held⟩ := h.last msg get
    refine ⟨val, fun i mem' => (held i mem').mono (rest i ?_) le_rfl⟩
    exact fun m => h.seq.apart t i m mem'
  links := links
  mine := by
    intro u i mem'
    by_cases self : u = t
    · subst self
      exact own i mem'
    · show Whole mem (mem.view u) i
      rw [others u self]
      exact (h.mine u i mem').mono (rest i fun m => self (h.seq.disjoint u t i mem' m)) le_rfl
  acquired := by
    intro u old at' now
    show ∀ msg, (mem.cell .top)[s.history.length]? = some msg → _
    rw [tops]
    by_cases self : u = t
    · subst self
      exact acquired old (by simpa [State.goto] using at') now
    · have at'' : s.pc u = .popLink old := by simpa [State.goto, self] using at'
      have now' : (mem.view u).time .top = s.history.length := now
      intro msg get
      show msg.view ≤ mem.view u
      rw [others u self] at now' ⊢
      exact h.acquired u old at'' now' msg get

/-- The free list when a thread moves on. -/
lemma seq_goto (h : Inv n s top next l) (others : ∀ u ≠ t, mem.view u = s.mem.view u)
    (ready : Ready top next s.history.length (s.held t) ((mem.view t).time .top) p) :
    FreeStack.Inv n ((s.goto t mem p).seq top next) l := by
  refine { h.seq with ready := ?_ }
  intro u
  by_cases self : u = t
  · subst self
    simpa [State.seq, State.goto] using ready
  · have old := h.seq.ready u
    simpa [State.seq, State.goto, self, others u self] using old

/-- A step that only reads, and no data. -/
lemma look (h : Inv n s top next l) (cell : mem.cell = s.mem.cell)
    (data : ∀ i, Memory.Same s.mem mem (.data i)) (others : ∀ u ≠ t, mem.view u = s.mem.view u)
    (le : s.mem.view t ≤ mem.view t) (chain : mem.Chain .top)
    (ready : Ready top next s.history.length (s.held t) ((mem.view t).time .top) p)
    (acquired : ∀ old, p = .popLink old → (mem.view t).time .top = s.history.length →
      ∀ msg, (s.mem.cell .top)[s.history.length]? = some msg → msg.view ≤ mem.view t) :
    Inv n (s.goto t mem p) top next l := by
  have same : ∀ i, Untouched s.mem mem i := fun i => ⟨congrFun cell _, data i⟩
  apply h.frame
  · exact h.seq_goto others ready
  · exact chain
  · exact congrFun cell .top
  · exact others
  · exact fun i _ => same i
  · exact fun i => (h.links i).mono (same i).1
  · exact fun i held => (h.mine t i held).mono (same i) le
  · exact acquired

/-- An atomic load. -/
lemma load (h : Inv n s top next l) {x : Loc} {o : Order} {a : x.Val D} (st : s.mem.Load t x o a mem)
    (chain : mem.Chain .top)
    (ready : Ready top next s.history.length (s.held t) ((mem.view t).time .top) p)
    (acquired : ∀ old, p = .popLink old → (mem.view t).time .top = s.history.length →
      ∀ msg, (s.mem.cell .top)[s.history.length]? = some msg → msg.view ≤ mem.view t) :
    Inv n (s.goto t mem p) top next l :=
  h.look st.cell (fun _ => st.same _) (fun _ ne => st.view_of_ne ne) (st.view_le t) chain ready acquired

/-- A thread calls `push` or `pop`. -/
lemma call (h : Inv n s top next l)
    (ready : Ready top next s.history.length (s.held t) ((s.mem.view t).time .top) p)
    (other : ∀ old, p ≠ .popLink old) : Inv n (s.goto t s.mem p) top next l := by
  apply h.frame
  · exact h.seq_goto (fun _ _ => rfl) ready
  · exact h.chain
  · rfl
  · exact fun _ _ => rfl
  · exact fun i _ => ⟨rfl, rfl, rfl⟩
  · exact h.links
  · exact h.mine t
  · exact fun old e => absurd e (other old)

/-- `push` loads `top_`, first or after a compare-exchange that failed. -/
lemma pushLoad (h : Inv n s top next l) {index : BitVec 32} {old : BitVec 64}
    (held : index ∈ s.held t) (st : s.mem.Load t .top .relaxed old mem) :
    Inv n (s.goto t mem (.pushLink index old)) top next l := by
  obtain ⟨chain, k, msg, get, rfl, _, time, _⟩ := h.chain.load st
  refine h.load st chain ⟨held, ?_⟩ nofun
  rw [time]
  exact h.seen get

/-- `pop` loads `top_`, first or after a compare-exchange that failed. -/
lemma popLoad (h : Inv n s top next l) {old : BitVec 64} (st : s.mem.Load t .top .acquire old mem) :
    Inv n (s.goto t mem (popTest old)) top next l := by
  obtain ⟨chain, k, msg, get, rfl, _, time, took⟩ := h.chain.load st
  refine h.load st chain ?_ ?_
  · unfold popTest
    split
    · exact .inl rfl
    · rename_i ne
      refine ⟨?_, ne⟩
      rw [time]
      exact h.seen get
  · intro old _ now msg' get'
    rw [← now, time, get] at get'
    cases get'
    exact took rfl

/-- `pop` reads the link of what it has found on top. -/
lemma popLink (h : Inv n s top next l) {old : BitVec 64} {nx : BitVec 32}
    (at' : s.pc t = .popLink old) (st : s.mem.Read t (.next (indexOf old)) nx mem) :
    Inv n (s.goto t mem (.popCas old nx)) top next l := by
  have ready := h.seq.ready t
  rw [show (s.seq top next).pc t = .popLink old from at'] at ready
  obtain ⟨seen, ne⟩ := ready
  have apart : Loc.top ≠ .next (indexOf old) := nofun
  have same : (mem.view t).time .top = (s.mem.view t).time .top := st.time_of_ne apart
  refine h.look st.cell (fun _ => st.same nofun) (fun _ ne => st.view_of_ne ne) (st.view_le t)
    (h.chain.read_of_ne apart st) ?_ nofun
  rw [same]
  refine ⟨seen, ne, ?_⟩
  -- nothing has come after the value loaded, so that the link was written before it
  intro now
  obtain ⟨msg, get⟩ := h.get_last
  obtain ⟨_, held⟩ := h.last msg get
  have took := h.acquired t old at' now msg get
  have onTop : indexOf old ∈ l := by
    have e := seen.2.2 now
    have linked := h.seq.linked
    rw [e] at linked
    obtain ⟨l', rfl, _⟩ := linked.cons_of_ne ne
    exact List.mem_cons_self
  exact ((h.links _).read ((held _ onTop).1.mono rfl took) st).symm

omit [DecidableEq Tid] in
/-- What a thread knows stays as it is when its view of `top_` does. -/
lemma ready_same (h : Inv n s top next l) (time : (mem.view t).time .top = (s.mem.view t).time .top) :
    Ready top next s.history.length (s.held t) ((mem.view t).time .top) (s.pc t) := by
  rw [time]
  exact h.seq.ready t

/-- `push` writes the link of its index. -/
lemma pushLink (h : Inv n s top next l) {index : BitVec 32} {old : BitVec 64}
    (at' : s.pc t = .pushLink index old) (st : s.mem.Store t (.next index) .relaxed (indexOf old) mem) :
    Inv n (s.goto t mem (.pushCas index old)) top (Function.update next index (indexOf old)) l := by
  have ready := h.seq.ready t
  rw [show (s.seq top next).pc t = .pushLink index old from at'] at ready
  obtain ⟨held, seen⟩ := ready
  have apart : Loc.top ≠ .next index := nofun
  have same : ∀ u, (mem.view u).time .top = (s.mem.view u).time .top := by
    intro u
    by_cases self : u = t
    · rw [self]
      exact st.time_of_ne apart
    · rw [st.view_of_ne self]
  have rest : ∀ i ≠ index, Untouched s.mem mem i := by
    intro i ne
    exact ⟨st.cell_of_ne fun e => ne (Loc.next.inj e), st.same nofun⟩
  apply h.frame
  · have linked := h.seq.link held seen
    refine { linked with ready := fun u => ?_ }
    show Ready _ _ _ _ ((mem.view u).time .top) _
    rw [same u]
    exact linked.ready u
  · exact h.chain.store_of_ne apart st
  · exact st.cell_of_ne apart
  · exact fun u ne => st.view_of_ne ne
  · intro i out
    exact rest i fun e => out (e ▸ held)
  · intro i
    by_cases self : i = index
    · subst self
      rw [Function.update_self]
      exact (h.links i).store (h.mine t i held).1 st
    · rw [Function.update_of_ne self]
      exact (h.links i).mono (rest i self).1
  · intro i held'
    by_cases self : i = index
    · subst self
      exact ⟨(h.mine t i held).1.store st, (h.mine t i held).2.mono (st.same nofun) (st.view_le t)⟩
    · exact (h.mine t i held').mono (rest i self) (st.view_le t)
  · exact nofun

/-- A step at `size_`. -/
lemma count (h : Inv n s top next l) {a b : BitVec 32} (st : s.mem.Update t .size .relaxed a b mem)
    (ready : Ready top next s.history.length (s.held t) ((s.mem.view t).time .top) p)
    (other : ∀ old, p ≠ .popLink old) : Inv n (s.goto t mem p) top next l := by
  have apart : Loc.top ≠ .size := nofun
  have same : ∀ i, Untouched s.mem mem i := fun i => ⟨st.cell_of_ne nofun, st.same nofun⟩
  apply h.frame
  · apply h.seq_goto fun u ne => st.view_of_ne ne
    rw [st.time_of_ne apart]
    exact ready
  · exact h.chain.update_of_ne apart st
  · exact st.cell_of_ne apart
  · exact fun u ne => st.view_of_ne ne
  · exact fun i _ => same i
  · exact fun i => (h.links i).mono (same i).1
  · exact fun i held => (h.mine t i held).mono (same i) (st.view_le t)
  · exact fun old e => absurd e (other old)

/-- A step at a buffer that the thread holds. -/
lemma touch (h : Inv n s top next l) {i : BitVec 32} (held : i ∈ s.held t) (rest : AtRest (s.pc t))
    (chain : mem.Chain .top) (same : ∀ y, y ≠ .data i → Memory.Same s.mem mem y)
    (others : ∀ u ≠ t, mem.view u = s.mem.view u) (le : s.mem.view t ≤ mem.view t)
    (time : (mem.view t).time .top = (s.mem.view t).time .top)
    (own : mem.Holds (mem.view t) (.data i)) : Inv n (s.goto t mem (s.pc t)) top next l := by
  have untouched : ∀ j ≠ i, Untouched s.mem mem j := by
    intro j ne
    exact ⟨(same (.next j) nofun).1, same _ fun e => ne (Loc.data.inj e)⟩
  apply h.frame
  · exact h.seq_goto others (h.ready_same time)
  · exact chain
  · exact (same .top nofun).1
  · exact others
  · intro j out
    exact untouched j fun e => out (e ▸ held)
  · exact fun j => (h.links j).mono (same (.next j) nofun).1
  · intro j held'
    by_cases self : j = i
    · subst self
      exact ⟨(h.mine t j held).1.mono (same (.next j) nofun).1 le, own⟩
    · exact (h.mine t j held').mono (untouched j self) le
  · exact fun old e => absurd e (rest.ne_popLink old)

/-- The free list after a successful compare-exchange. -/
lemma seq_swap {a : BitVec 64} {hs l' : List (BitVec 32)} {e : Event}
    (h : FreeStack.Inv n ((s.seq top next).swap t a p hs e) l')
    (others : ∀ u ≠ t, mem.view u = s.mem.view u)
    (ready : ∀ swaps loaded, Ready a next swaps hs loaded p) :
    FreeStack.Inv n ((s.swap t mem p hs e).seq a next) l' := by
  have len : (s.history ++ [e]).length = s.history.length + 1 := List.length_append
  refine { h with gen := ?_, ready := ?_ }
  · show genOf a = BitVec.ofNat 32 (s.history ++ [e]).length
    rw [len]
    exact h.gen
  · intro u
    show Ready a next (s.history ++ [e]).length (Function.update s.held t hs u)
      ((mem.view u).time .top) (Function.update s.pc t p u)
    by_cases self : u = t
    · subst self
      rw [Function.update_self, Function.update_self]
      exact ready _ _
    · rw [len, others u self]
      exact h.ready u

/-- The invariant after a successful compare-exchange. -/
lemma swap (h : Inv n s top next l) {new : Msg Loc Tid (BitVec 64)} {hs l' : List (BitVec 32)}
    {e : Event} (chain : mem.Chain .top) (cells : mem.cell .top = s.mem.cell .top ++ [new])
    (same : ∀ y ≠ Loc.top, Memory.Same s.mem mem y) (others : ∀ u ≠ t, mem.view u = s.mem.view u)
    (seq : FreeStack.Inv n ((s.swap t mem p hs e).seq new.val next) l') (step : apply l e = some l')
    (empty : indexOf new.val = kEmpty → l' = []) (given : ∀ i ∈ l', Whole mem new.view i)
    (own : ∀ i ∈ hs, Whole mem (mem.view t) i) (other : ∀ old, p ≠ .popLink old) :
    Inv n (s.swap t mem p hs e) new.val next l' := by
  have len : (s.history ++ [e]).length = s.history.length + 1 := List.length_append
  have replays := replay_concat h.replays step
  have lastGet : ∀ msg, (mem.cell .top)[(s.history ++ [e]).length]? = some msg → msg = new := by
    intro msg get
    rw [cells, len, ← h.length, List.getElem?_concat_length] at get
    exact (Option.some.inj get).symm
  constructor
  · exact seq
  · exact replays
  · exact chain
  · show (mem.cell .top).length = (s.history ++ [e]).length + 1
    rw [cells, List.length_append, h.length, len]
    rfl
  · intro k msg get
    have get' : (mem.cell .top)[k]? = some msg := get
    show _ ∧ ∃ l, replay ((s.history ++ [e]).take k) = some l ∧ _
    rcases Nat.lt_or_ge k (s.mem.cell .top).length with old | late
    · rw [cells, List.getElem?_append_left old] at get'
      rw [List.take_append_of_le_length (by rw [h.length] at old; omega)]
      exact h.tops k msg get'
    · have inside := (List.getElem?_eq_some_iff.mp get').1
      rw [cells, List.length_append, List.length_singleton] at inside
      obtain rfl : k = (s.history ++ [e]).length := by
        rw [h.length] at late inside
        omega
      rw [lastGet msg get', List.take_length]
      exact ⟨seq.gen, l', replays, empty⟩
  · intro msg get
    rw [lastGet msg get]
    exact ⟨rfl, given⟩
  · exact fun i => (h.links i).mono (same (.next i) nofun).1
  · intro u i held
    have held' : i ∈ Function.update s.held t hs u := held
    show Whole mem (mem.view u) i
    by_cases self : u = t
    · subst self
      rw [Function.update_self] at held'
      exact own i held'
    · rw [Function.update_of_ne self] at held'
      rw [others u self]
      exact (h.mine u i held').mono ⟨(same (.next i) nofun).1, same _ nofun⟩ le_rfl
  · -- no other thread has seen the new value
    intro u old at' now
    have at'' : Function.update s.pc t p u = .popLink old := at'
    by_cases self : u = t
    · subst self
      rw [Function.update_self] at at''
      exact absurd at'' (other old)
    · have now' : (mem.view u).time .top = (s.history ++ [e]).length := now
      have lt := h.chain.views u
      rw [others u self, len] at now'
      rw [now', h.length] at lt
      exact absurd lt (lt_irrefl _)

/-- The compare-exchange of `push` puts its index on top, and passes on what its thread has done. -/
lemma pushCas (h : Inv n s top next l) (hn : n < 2 ^ 32) {index : BitVec 32} {old : BitVec 64}
    (at' : s.pc t = .pushCas index old)
    (st : s.mem.Update t .top .release (pack (genOf old + 1) index) old mem) :
    Inv n (s.swap t mem .pushSize ((s.held t).erase index) (.pushed index))
      (pack (genOf old + 1) index) next (index :: l) := by
  obtain ⟨chain, k, msg, new, len, get, rfl, cells, val, passed, gave, _⟩ := h.chain.update st
  obtain rfl : k = s.history.length := by
    have := h.length
    omega
  obtain ⟨rfl, held⟩ := h.last msg get
  have ready := h.seq.ready t
  rw [show (s.seq msg.val next).pc t = .pushCas index msg.val from at'] at ready
  have mem' : index ∈ s.held t := ready.1
  have same : ∀ y ≠ Loc.top, Memory.Same s.mem mem y := fun y ne => st.same ne
  have untouched : ∀ i, Untouched s.mem mem i := fun i => ⟨(same (.next i) nofun).1, same _ nofun⟩
  rw [← val]
  apply h.swap chain cells same fun u ne => st.view_of_ne ne
  · rw [val]
    exact seq_swap (h.seq.pushCas hn at' rfl) (fun u ne => st.view_of_ne ne) fun _ _ => trivial
  · rfl
  · rw [val, indexOf_pack]
    exact fun e => absurd e (h.seq.ne_kEmpty hn mem')
  · intro i on
    rcases List.mem_cons.mp on with rfl | on
    · exact (h.mine t i mem').mono (untouched i) (gave rfl)
    · exact (held i on).mono (untouched i) passed
  · intro i on
    exact (h.mine t i (List.mem_of_mem_erase on)).mono (untouched i) (st.view_le t)
  · exact nofun

/-- The compare-exchange of `pop` takes the index on top, and what was passed on with it. -/
lemma popCas (h : Inv n s top next l) {old : BitVec 64} {nx : BitVec 32}
    (at' : s.pc t = .popCas old nx)
    (st : s.mem.Update t .top .acquire (pack (genOf old + 1) nx) old mem) (near : s.Near t) :
    ∃ l', Inv n (s.swap t mem (.popSize (indexOf old)) (indexOf old :: s.held t)
      (.popped (indexOf old))) (pack (genOf old + 1) nx) next l' := by
  obtain ⟨chain, k, msg, new, len, get, rfl, cells, val, passed, _, took⟩ := h.chain.update st
  obtain rfl : k = s.history.length := by
    have := h.length
    omega
  obtain ⟨rfl, held⟩ := h.last msg get
  have ready := h.seq.ready t
  rw [show (s.seq msg.val next).pc t = .popCas msg.val nx from at'] at ready
  obtain ⟨seen, ne, link⟩ := ready
  -- the value exchanged is the one loaded, so that the link read is the link now
  have near' : s.history.length < (s.mem.view t).time .top + 2 ^ 32 := by
    have := near
    rw [State.Near, h.length] at this
    omega
  have now := h.seq.unchanged seen rfl near'
  obtain ⟨l', rfl, inv⟩ := h.seq.popCas_of_link at' rfl (link now)
  have same : ∀ y ≠ Loc.top, Memory.Same s.mem mem y := fun y ne => st.same ne
  have untouched : ∀ i, Untouched s.mem mem i := fun i => ⟨(same (.next i) nofun).1, same _ nofun⟩
  refine ⟨l', ?_⟩
  rw [← val]
  apply h.swap chain cells same fun u ne => st.view_of_ne ne
  · rw [val]
    exact seq_swap inv (fun u ne => st.view_of_ne ne) fun _ _ => ⟨ne, List.mem_cons_self⟩
  · exact if_pos rfl
  · intro e
    have linked : Linked next kEmpty (indexOf (pack (genOf msg.val + 1) nx)) l' := inv.linked
    rw [val] at e
    rw [e] at linked
    exact linked.eq_nil
  · exact fun i on => (held i (List.mem_cons_of_mem _ on)).mono (untouched i) passed
  · intro i on
    rcases List.mem_cons.mp on with rfl | on
    · exact (held _ List.mem_cons_self).mono (untouched _) (took rfl)
    · exact (h.mine t i on).mono (untouched i) (st.view_le t)
  · exact nofun

/-- Every step keeps the invariant. -/
lemma step (h : Inv n s top next l) (hn : n < 2 ^ 32) {s' : State Tid D}
    (st : State.NearStep t s s') : ∃ top' next' l', Inv n s' top' next' l' := by
  have ready := h.seq.ready t
  obtain ⟨st, near⟩ := st
  cases st with
  | callPush _ held => exact ⟨_, _, _, h.call held nofun⟩
  | callPop _ => exact ⟨_, _, _, h.call trivial nofun⟩
  | @pushLoad index _ _ at' st =>
    rw [show (s.seq top next).pc t = .pushLoad index from at'] at ready
    exact ⟨_, _, _, h.pushLoad ready st⟩
  | pushLink at' st => exact ⟨_, _, _, h.pushLink at' st⟩
  | pushCas at' st => exact ⟨_, _, _, h.pushCas hn at' st⟩
  | @pushFail index old _ _ at' st =>
    rw [show (s.seq top next).pc t = .pushCas index old from at'] at ready
    exact ⟨_, _, _, h.pushLoad ready.1 st⟩
  | pushSize _ st => exact ⟨_, _, _, h.count st trivial nofun⟩
  | popLoad _ st => exact ⟨_, _, _, h.popLoad st⟩
  | popLink at' st => exact ⟨_, _, _, h.popLink at' st⟩
  | popCas at' st =>
    obtain ⟨l', h'⟩ := h.popCas at' st (near ⟨_, Function.update_self t _ _⟩)
    exact ⟨_, _, _, h'⟩
  | popFail _ st => exact ⟨_, _, _, h.popLoad st⟩
  | @popSize index _ _ at' st =>
    rw [show (s.seq top next).pc t = .popSize index from at'] at ready
    exact ⟨_, _, _, h.count st (.inr ready.2) nofun⟩
  | @readData i _ _ rest held st =>
    have apart : Loc.top ≠ .data i := nofun
    exact ⟨_, _, _, h.touch held rest (h.chain.read_of_ne apart st) (fun y ne => st.same ne)
      (fun u ne => st.view_of_ne ne) (st.view_le t) (st.time_of_ne apart) ((h.mine t _ held).2.read st)⟩
  | @writeData i _ _ rest held st =>
    have apart : Loc.top ≠ .data i := nofun
    have store := Memory.Write.store st
    exact ⟨_, _, _, h.touch held rest (h.chain.store_of_ne apart store) (fun y ne => store.same ne)
      (fun u ne => store.view_of_ne ne) (store.view_le t) (store.time_of_ne apart)
      ((h.mine t _ held).2.store store)⟩
  | approxSize rest st =>
    have apart : Loc.top ≠ .size := nofun
    refine ⟨_, _, _, h.load st (h.chain.load_of_ne apart st) (h.ready_same (st.time_of_ne apart)) ?_⟩
    exact fun old e => absurd e (rest.ne_popLink old)

/-- The list is empty and every index is with its owner. -/
lemma init (n : ℕ) (hn : n < 2 ^ 32) (next : BitVec 32 → BitVec 32) (data : BitVec 32 → D)
    (owner : BitVec 32 → Tid) :
    Inv n (State.init n next data owner) (pack 0 kEmpty) next [] where
  seq := FreeStack.Inv.init n hn next owner
  replays := rfl
  chain := .init _ _
  length := rfl
  tops := by
    intro k msg get
    cases k with
    | zero =>
      cases get
      exact ⟨genOf_pack 0 kEmpty, [], rfl, fun _ => rfl⟩
    | succ k => cases get
  last := by
    intro msg get
    cases get
    exact ⟨rfl, nofun⟩
  links := fun i => ⟨List.pairwise_singleton _ _, _, rfl, rfl⟩
  mine := fun t i _ => ⟨.init _ _ _, .init _ _ _⟩
  acquired := nofun

/-- The invariant holds in every run. -/
lemma steps (hn : n < 2 ^ 32) {data : BitVec 32 → D} {owner : BitVec 32 → Tid}
    (run : State.NearSteps (.init n next data owner) s) : ∃ top' next' l, Inv n s top' next' l := by
  induction run with
  | refl => exact ⟨_, _, _, .init n hn next data owner⟩
  | tail _ st ih =>
    obtain ⟨_, _, _, h⟩ := ih
    obtain ⟨t, st⟩ := st
    exact h.step hn st

/-- `pop` gives up only on a value of `top_` with which the list was empty, and not on one before what it
has seen. -/
lemma empty (h : Inv n s top next l) {s' : State Tid D} (st : State.Step t s s')
    (start : s.pc t ≠ .returned kEmpty) (ret : s'.pc t = .returned kEmpty) :
    ∃ k, (s.mem.view t).time .top ≤ k ∧ k ≤ s.history.length ∧
      replay (s.history.take k) = some [] := by
  have load : ∀ old mem, s.mem.Load t .top .acquire old mem → popTest old = .returned kEmpty →
      ∃ k, (s.mem.view t).time .top ≤ k ∧ k ≤ s.history.length ∧
        replay (s.history.take k) = some [] := by
    intro old mem st test
    obtain ⟨_, k, msg, get, rfl, late, _⟩ := h.chain.load st
    have inside := (List.getElem?_eq_some_iff.mp get).1
    rw [h.length] at inside
    refine ⟨k, late, by omega, ?_⟩
    obtain ⟨_, l', replays, nil⟩ := h.tops k msg get
    unfold popTest at test
    split at test
    · rename_i e
      rw [replays, nil e]
    · cases test
  have ready := h.seq.ready t
  cases st with
  | popLoad _ st => exact load _ _ st (by simpa [State.goto] using ret)
  | popFail _ st => exact load _ _ st (by simpa [State.goto] using ret)
  | @popSize index _ _ at' _ =>
    rw [show (s.seq top next).pc t = .popSize index from at'] at ready
    have e : index = kEmpty := by simpa [State.goto] using ret
    exact absurd e ready.1
  | readData _ _ _ => exact absurd (by simpa [State.goto] using ret) start
  | writeData _ _ _ => exact absurd (by simpa [State.goto] using ret) start
  | approxSize _ _ => exact absurd (by simpa [State.goto] using ret) start
  | _ => simp [State.goto, State.swap] at ret

/-- A `push` whose compare-exchange has succeeded has given its index up. -/
lemma pushed (h : Inv n s top next l) {s' : State Tid D} (st : State.Step t s s')
    (after : s'.pc t = .pushSize) : ∃ i old, s.pc t = .pushCas i old ∧ i ∉ s'.held t := by
  have rest : AtRest (s.pc t) → s.pc t ≠ .pushSize := by
    rintro (e | ⟨r, e⟩)
    · rw [e]
      exact nofun
    · rw [e]
      exact nofun
  have test : ∀ old, popTest old ≠ .pushSize := by
    intro old e
    unfold popTest at e
    split at e
    · cases e
    · cases e
  cases st with
  | @pushCas index _ old at' st =>
    refine ⟨index, old, at', ?_⟩
    simp only [State.swap, Function.update_self]
    exact fun mem => ((h.seq.heldNodup t).mem_erase_iff.mp mem).1 rfl
  | popLoad _ _ => exact absurd (by simpa [State.goto] using after) (test _)
  | popFail _ _ => exact absurd (by simpa [State.goto] using after) (test _)
  | readData r _ _ => exact absurd (by simpa [State.goto] using after) (rest r)
  | writeData r _ _ => exact absurd (by simpa [State.goto] using after) (rest r)
  | approxSize r _ => exact absurd (by simpa [State.goto] using after) (rest r)
  | _ => simp [State.goto, State.swap] at after

end Inv

/-- The orders in the source suffice. In every run of any threads, with every value that a load may return,
in which no `pop` takes an index more than `2 ^ 32` compare-exchanges after its load, the compare-exchanges
that succeed are those of a stack: each pops the index on top. Every index is on that stack or with exactly
one thread: with the one to which `pop` returns it, until its `push` has succeeded. What a thread does to
the data of a buffer that it holds is never part of a data race: it comes after all that the threads before
it have done to them, and after all that they have written to the buffer's link. A `pop` returns `kEmpty`
only if the stack was empty after some of the compare-exchanges, and not before those that it has seen. -/
theorem orders_hand_over [DecidableEq Tid] {n : ℕ} (hn : n < 2 ^ 32) {next : BitVec 32 → BitVec 32}
    {data : BitVec 32 → D} {owner : BitVec 32 → Tid} {s : State Tid D}
    (run : State.NearSteps (.init n next data owner) s) :
    ∃ l, replay s.history = some l ∧ l.Nodup ∧
      (∀ i : BitVec 32, i.toNat < n ↔ i ∈ l ∨ ∃ t, i ∈ s.held t) ∧
      (∀ t, ∀ i ∈ s.held t, i ∉ l ∧ (∀ t', i ∈ s.held t' → t' = t) ∧ s.mem.CanWrite t (.data i) ∧
        s.mem.CanRead t (.next i)) ∧
      (∀ t i, s.pc t = .popSize i ∨ s.pc t = .returned i ∧ i ≠ kEmpty → i ∈ s.held t) ∧
      (∀ t s', State.Step t s s' → s'.pc t = .pushSize →
        ∃ i old, s.pc t = .pushCas i old ∧ i ∉ s'.held t) ∧
      ∀ t s', State.Step t s s' → s.pc t ≠ .returned kEmpty → s'.pc t = .returned kEmpty →
        ∃ k, (s.mem.view t).time .top ≤ k ∧ k ≤ s.history.length ∧
          replay (s.history.take k) = some [] := by
  obtain ⟨top', next', l, h⟩ := Inv.steps hn run
  refine ⟨l, h.replays, h.seq.nodup, h.seq.total, ?_, fun t i => h.seq.mem_of_popped,
    fun t s' => h.pushed, fun t s' => h.empty⟩
  intro t i held
  exact ⟨h.seq.apart t i held, fun t' held' => h.seq.disjoint t' t i held' held,
    (h.mine t i held).2.canWrite, (h.mine t i held).1⟩

namespace State

variable {s s' : State Bool ℕ} {t : Bool}

/-- A step that takes no index from the list needs no bound. -/
lemma Step.near (st : Step t s s') (other : ∀ index, s'.pc t ≠ .popSize index) :
    ∃ t, NearStep t s s' :=
  ⟨t, st, fun ⟨index, e⟩ => absurd e (other index)⟩

end State

/-- One thread writes a buffer and pushes it, and another pops it. -/
theorem orders_hand_over_once : ∃ s : State Bool ℕ,
    State.NearSteps (.init 1 id (fun _ => 0) fun _ => false) s ∧ s.pc true = .popSize 0 ∧
      0 ∈ s.held true ∧ s.mem.CanWrite true (.data 0) := by
  have run : ∃ s : State Bool ℕ,
      State.NearSteps (.init 1 id (fun _ => 0) fun _ => false) s ∧ s.pc true = .popSize 0 :=
    ⟨_, .head (State.Step.near (.writeData (a := (5 : ℕ)) (i := 0) (t := false) (.inl rfl) (by decide)
          (.of 1 (by decide) (by decide))) nofun) <|
      .head (State.Step.near (.callPush (t := false) (.inl rfl) (by decide : (0 : BitVec 32) ∈ _)) nofun) <|
      .head (State.Step.near (.pushLoad (t := false) rfl (.of _ (.head _) (by decide))) nofun) <|
      .head (State.Step.near (.pushLink (t := false) rfl (.of 1 (by decide) (by decide))) nofun) <|
      .head (State.Step.near (.pushCas (t := false) rfl (.of _ (.head _) (by decide) (by decide))) nofun) <|
      .head (State.Step.near (.callPop (t := true) (.inl rfl)) nofun) <|
      .head (State.Step.near (.popLoad (t := true) rfl (.of _ (.tail _ (.head _)) (by decide))) nofun) <|
      .head (State.Step.near (.popLink (t := true) rfl (.of _ (.tail _ (.head _)) (by decide))) nofun) <|
      .head ⟨true, .popCas rfl (.of _ (.tail _ (.head _)) (by decide) (by decide)),
        fun _ => by decide⟩ .refl, rfl⟩
  obtain ⟨s, steps, at'⟩ := run
  obtain ⟨_, _, _, _, mine, popped, _⟩ := orders_hand_over (by decide) steps
  have held := popped true 0 (.inl at')
  exact ⟨s, steps, at', held, (mine true 0 held).2.2.1⟩

/-- The links are not free of races. A thread has popped an index and is about to write the link as it
pushes the index again; the read of this link by another `pop`, which has come too late for the index, is
not ordered before the write. -/
theorem links_race : ∃ (s : State Bool ℕ) (old : BitVec 64),
    State.NearSteps (.init 1 id (fun _ => 0) fun _ => false) s ∧ s.pc false = .pushLink 0 old ∧
      ¬ s.mem.CanWrite false (.next 0) := by
  refine ⟨_, _,
    .head (State.Step.near (.callPush (t := false) (.inl rfl) (by decide : (0 : BitVec 32) ∈ _)) nofun) <|
    .head (State.Step.near (.pushLoad (t := false) rfl (.of _ (.head _) (by decide))) nofun) <|
    .head (State.Step.near (.pushLink (t := false) rfl (.of 1 (by decide) (by decide))) nofun) <|
    .head (State.Step.near (.pushCas (t := false) rfl (.of _ (.head _) (by decide) (by decide))) nofun) <|
    .head (State.Step.near (.pushSize (t := false) rfl (.of _ (.head _) (by decide) (by decide))) nofun) <|
    -- the other thread reads the link
    .head (State.Step.near (.callPop (t := true) (.inl rfl)) nofun) <|
    .head (State.Step.near (.popLoad (t := true) rfl (.of _ (.tail _ (.head _)) (by decide))) nofun) <|
    .head (State.Step.near (.popLink (t := true) rfl (.of _ (.tail _ (.head _)) (by decide))) nofun) <|
    -- and this one takes the index meanwhile
    .head (State.Step.near (.callPop (t := false) (.inl rfl)) nofun) <|
    .head (State.Step.near (.popLoad (t := false) rfl (.of _ (.tail _ (.head _)) (by decide))) nofun) <|
    .head (State.Step.near (.popLink (t := false) rfl (.of _ (.tail _ (.head _)) (by decide))) nofun) <|
    .head ⟨false, .popCas rfl (.of _ (.tail _ (.head _)) (by decide) (by decide)),
      fun _ => by decide⟩ <|
    .head (State.Step.near (.popSize (t := false) rfl (.of _ (.tail _ (.head _)) (by decide) (by decide)))
      nofun) <|
    .head (State.Step.near (.callPush (t := false) (.inr ⟨_, rfl⟩) (by decide : (0 : BitVec 32) ∈ _))
      nofun) <|
    .head (State.Step.near (.pushLoad (t := false) rfl (.of _ (.tail _ (.tail _ (.head _))) (by decide)))
      nofun) .refl, rfl, ?_⟩
  intro can
  exact absurd (can.2 true) (by decide)

end UxNet.FreeStack.RelAcq
