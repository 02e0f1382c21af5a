import UxNet.Lib.Weak
import UxNet.Ring.Spsc

/-!
# The ring with the memory orders of the source

`push`, `pop` and `size` of `spsc_ring.h` over a memory in which a load may return an old value. Each
thread loads its own cursor `relaxed` and the other one with `acquire`, and stores its own with `release`;
the slots are plain memory.

A cursor that was loaded may be behind, so that `push` and `pop` can fail although there is room or an
item. What they rely on is the way round: a thread that has loaded the `i`-th value of the other cursor
has seen everything that the other thread did to the slots before it stored that value (`SeesHead`,
`SeesTail`).
-/

namespace UxNet.SPSCRing.RelAcq

open Weak

/-- What the two threads share. -/
inductive Loc (k : Fin 64) where
  | head
  | tail
  | slot (c : Fin (2 ^ k.val))
deriving DecidableEq

/-- The type of what is there. -/
abbrev Loc.Val (T : Type) {k : Fin 64} : Loc k → Type
  | .head => BitVec 64
  | .tail => BitVec 64
  | .slot _ => T

/-- The two threads. -/
inductive Thread where
  | producer
  | consumer
deriving DecidableEq, Repr

variable {T : Type} {k : Fin 64}

/-- A ring and the two threads; `sent` is what the producer had seen when it pushed each item, and `sizes`
are the values `size` has returned. -/
structure State (T : Type) (k : Fin 64) where
  mem : Memory Thread (Loc.Val T (k := k))
  producer : Producer T
  consumer : Consumer T
  pushed : List T
  sent : List (View (Loc k) Thread)
  popped : List T
  sizes : List (BitVec 64)

/-- The constructor; the slots hold anything. -/
def initial (slots : Fin (2 ^ k.val) → T) : (x : Loc k) → x.Val T
  | .head => (0 : BitVec 64)
  | .tail => (0 : BitVec 64)
  | .slot c => slots c

namespace State

/-- Both threads are about to start. -/
def init (slots : Fin (2 ^ k.val) → T) : State T k where
  mem := .init (initial slots)
  producer := .idle
  consumer := .idle
  pushed := []
  sent := []
  popped := []
  sizes := []

/-- A step of the producer. -/
inductive Produce : State T k → State T k → Prop where
  | push {s tail mem} (item : T) :
    s.producer = .idle →
    s.mem.Load .producer .tail .relaxed tail mem →
    Produce s { s with mem := mem, producer := .pushHead item tail }
  | pushFull {s item tail head mem} :
    s.producer = .pushHead item tail →
    s.mem.Load .producer .head .acquire head mem →
    tail - head = capacity k →
    Produce s { s with mem := mem, producer := .idle }
  | pushRoom {s item tail head mem} :
    s.producer = .pushHead item tail →
    s.mem.Load .producer .head .acquire head mem →
    tail - head ≠ capacity k →
    Produce s { s with mem := mem, producer := .pushWrite item tail }
  | pushWrite {s item tail mem} :
    s.producer = .pushWrite item tail →
    s.mem.Write .producer (.slot (slotOf k tail)) item mem →
    Produce s { s with mem := mem, producer := .pushStore item tail }
  | pushStore {s item mem} {tail : BitVec 64} :
    s.producer = .pushStore item tail →
    s.mem.Store .producer .tail .release (tail + 1 : BitVec 64) mem →
    Produce s { s with
      mem := mem
      producer := .idle
      pushed := s.pushed ++ [item]
      sent := s.sent ++ [s.mem.view .producer] }
  | sizeFromTail {s tail mem} :
    s.producer = .idle →
    s.mem.Load .producer .tail .acquire tail mem →
    Produce s { s with mem := mem, producer := .sizeHead tail }
  | sizeFromHead {s head mem} :
    s.producer = .idle →
    s.mem.Load .producer .head .acquire head mem →
    Produce s { s with mem := mem, producer := .sizeTail head }
  | sizeHead {s tail head mem} :
    s.producer = .sizeHead tail →
    s.mem.Load .producer .head .acquire head mem →
    Produce s { s with mem := mem, producer := .idle, sizes := s.sizes ++ [tail - head] }
  | sizeTail {s tail head mem} :
    s.producer = .sizeTail head →
    s.mem.Load .producer .tail .acquire tail mem →
    Produce s { s with mem := mem, producer := .idle, sizes := s.sizes ++ [tail - head] }

/-- A step of the consumer. -/
inductive Consume : State T k → State T k → Prop where
  | pop {s head mem} :
    s.consumer = .idle →
    s.mem.Load .consumer .head .relaxed head mem →
    Consume s { s with mem := mem, consumer := .popTail head }
  | popEmpty {s head tail mem} :
    s.consumer = .popTail head →
    s.mem.Load .consumer .tail .acquire tail mem →
    head = tail →
    Consume s { s with mem := mem, consumer := .idle }
  | popSome {s head tail mem} :
    s.consumer = .popTail head →
    s.mem.Load .consumer .tail .acquire tail mem →
    head ≠ tail →
    Consume s { s with mem := mem, consumer := .popRead head }
  | popRead {s head item mem} :
    s.consumer = .popRead head →
    s.mem.Read .consumer (.slot (slotOf k head)) item mem →
    Consume s { s with mem := mem, consumer := .popStore head item }
  | popStore {s item mem} {head : BitVec 64} :
    s.consumer = .popStore head item →
    s.mem.Store .consumer .head .release (head + 1 : BitVec 64) mem →
    Consume s { s with mem := mem, consumer := .idle, popped := s.popped ++ [item] }
  | sizeFromTail {s tail mem} :
    s.consumer = .idle →
    s.mem.Load .consumer .tail .acquire tail mem →
    Consume s { s with mem := mem, consumer := .sizeHead tail }
  | sizeFromHead {s head mem} :
    s.consumer = .idle →
    s.mem.Load .consumer .head .acquire head mem →
    Consume s { s with mem := mem, consumer := .sizeTail head }
  | sizeHead {s tail head mem} :
    s.consumer = .sizeHead tail →
    s.mem.Load .consumer .head .acquire head mem →
    Consume s { s with mem := mem, consumer := .idle, sizes := s.sizes ++ [tail - head] }
  | sizeTail {s tail head mem} :
    s.consumer = .sizeTail head →
    s.mem.Load .consumer .tail .acquire tail mem →
    Consume s { s with mem := mem, consumer := .idle, sizes := s.sizes ++ [tail - head] }

/-- A step of either thread. -/
def Step (s s' : State T k) : Prop := Produce s s' ∨ Consume s s'

/-- Steps of the two threads in any order. -/
abbrev Steps : State T k → State T k → Prop := Relation.ReflTransGen Step

end State

/-! ## The memory -/

/-- What is in the memory when `t` items were pushed and `h` popped: `written` are the items whose slot was
written, `r` the number of slots read, `stamp` the times of the writes to the slots, and `sent` what the
producer had seen when it stored its cursor. -/
structure Laid (m : Memory Thread (Loc.Val T (k := k))) (written : List T) (t h r : ℕ)
    (stamp : ℕ → ℕ) (sent : ℕ → View (Loc k) Thread) : Prop where
  known : m.Known
  tailOwned : m.Owned .producer .tail
  headOwned : m.Owned .consumer .head
  slotOwned : ∀ c, m.Owned .producer (.slot c)
  tail : ∀ (i : ℕ) msg, (m.cell .tail)[i]? = some msg →
    msg.val = BitVec.ofNat 64 i ∧ ∀ j < i, sent j ≤ msg.view
  tailLen : (m.cell .tail).length = t + 1
  head : ∀ (j : ℕ) msg, (m.cell .head)[j]? = some msg →
    msg.val = BitVec.ofNat 64 j ∧ j ≤ msg.view.reads .consumer
  headLen : (m.cell .head).length = h + 1
  slots : ∀ c, ∀ msg ∈ m.cell (.slot c), msg.time = 0 ∨
    ∃ i : ℕ, written[i]? = some msg.val ∧ cell k i = c ∧ msg.time = stamp i
  stamps : ∀ i < written.length, 0 < stamp i ∧ stamp i ≤ (m.view .producer).time (.slot (cell k i)) ∧
    ∀ j < i, cell k j = cell k i → stamp j < stamp i
  sents : ∀ i < t, sent i ≤ m.view .producer ∧ stamp i ≤ (sent i).time (.slot (cell k i))
  reads : (m.view .consumer).reads .consumer = r
  readers : ∀ c, m.readers (.slot c) .producer = 0 ∧ (m.readers (.slot c) .consumer = 0 ∨
    ∃ j < r, cell k j = c ∧ m.readers (.slot c) .consumer = j + 1)

/-- The producer has seen what the consumer did before it stored its `j`-th cursor. -/
def SeesHead (m : Memory Thread (Loc.Val T (k := k))) (j : ℕ) : Prop :=
  (∃ msg, (m.cell .head)[j]? = some msg ∧ msg.time ≤ (m.view .producer).time .head) ∧
    j ≤ (m.view .producer).reads .consumer

/-- The consumer has seen what the producer did before it stored its `i`-th cursor. -/
def SeesTail (m : Memory Thread (Loc.Val T (k := k))) (sent : ℕ → View (Loc k) Thread) (i : ℕ) : Prop :=
  (∃ msg, (m.cell .tail)[i]? = some msg ∧ msg.time ≤ (m.view .consumer).time .tail) ∧
    ∀ j < i, sent j ≤ m.view .consumer

/-- Items with one slot are a turn apart. -/
lemma turn_le {i j : ℕ} (lt : i < j) (same : cell k i = cell k j) : i + 2 ^ k.val ≤ j := by
  by_contra near
  exact turn k i j lt (by omega) same

section Grow

variable {m m' : Memory Thread (Loc.Val T (k := k))} {sent sent' : ℕ → View (Loc k) Thread} {i j : ℕ}

/-- What the producer has seen of the head stays seen. -/
lemma SeesHead.mono (h : SeesHead m j) (grows : Memory.Grows m m') : SeesHead m' j := by
  obtain ⟨⟨msg, get, le⟩, reads⟩ := h
  refine ⟨⟨msg, ?_, le.trans ((grows.view _).1 _)⟩, reads.trans ((grows.view _).2 _)⟩
  exact grows.getElem? get

/-- What the consumer has seen of the tail stays seen. -/
lemma SeesTail.mono (h : SeesTail m sent i) (grows : Memory.Grows m m')
    (same : ∀ j < i, sent' j = sent j) : SeesTail m' sent' i := by
  obtain ⟨⟨msg, get, le⟩, took⟩ := h
  refine ⟨⟨msg, ?_, le.trans ((grows.view _).1 _)⟩, ?_⟩
  · exact grows.getElem? get
  · intro j lt
    rw [same j lt]
    exact (took j lt).trans (grows.view _)

end Grow

namespace Laid

variable {m m' : Memory Thread (Loc.Val T (k := k))} {written : List T} {t h r : ℕ} {stamp : ℕ → ℕ}
  {sent : ℕ → View (Loc k) Thread}

/-- The indices are 0 and the slots are as they were made. -/
lemma init (slots : Fin (2 ^ k.val) → T) :
    Laid (.init (initial slots)) [] 0 0 0 (fun _ => 0) sent where
  known := .init _
  tailOwned := .init _ _ _
  headOwned := .init _ _ _
  slotOwned := fun _ => .init _ _ _
  tail := by
    intro i msg get
    cases i with
    | zero =>
      cases get
      exact ⟨rfl, nofun⟩
    | succ i => cases get
  tailLen := rfl
  head := by
    intro j msg get
    cases j with
    | zero =>
      cases get
      exact ⟨rfl, le_rfl⟩
    | succ j => cases get
  headLen := rfl
  slots := by
    intro c msg mem
    rw [List.mem_singleton.mp mem]
    exact .inl rfl
  stamps := nofun
  sents := nofun
  reads := rfl
  readers := fun _ => ⟨rfl, .inl rfl⟩

/-- A load leaves the memory as it is. -/
lemma load (l : Laid m written t h r stamp sent) {u : Thread} {x : Loc k} {o : Order} {a : x.Val T}
    (st : m.Load u x o a m') : Laid m' written t h r stamp sent where
  known := l.known.load st
  tailOwned := l.tailOwned.mono (by rw [st.cell]) (st.view_le _)
  headOwned := l.headOwned.mono (by rw [st.cell]) (st.view_le _)
  slotOwned := fun c => (l.slotOwned c).mono (by rw [st.cell]) (st.view_le _)
  tail := by rw [st.cell]; exact l.tail
  tailLen := by rw [st.cell]; exact l.tailLen
  head := by rw [st.cell]; exact l.head
  headLen := by rw [st.cell]; exact l.headLen
  slots := by rw [st.cell]; exact l.slots
  stamps := by
    intro i lt
    obtain ⟨pos, seen, later⟩ := l.stamps i lt
    exact ⟨pos, seen.trans ((st.view_le _).1 _), later⟩
  sents := fun i lt => ⟨(l.sents i lt).1.trans (st.view_le _), (l.sents i lt).2⟩
  reads := by
    by_cases own : u = .consumer
    · subst own
      rw [l.known.reads_load st]
      exact l.reads
    · rw [st.view_of_ne (Ne.symm own)]
      exact l.reads
  readers := by rw [st.readers]; exact l.readers

/-- The producer's load of its own cursor. -/
lemma load_tail (l : Laid m written t h r stamp sent) {o : Order} {a : BitVec 64}
    (st : m.Load .producer .tail o a m') : a = BitVec.ofNat 64 t := by
  obtain ⟨i, msg, len, get, val⟩ := l.tailOwned.load_last st
  rw [← val, (l.tail i msg get).1]
  have := l.tailLen
  congr 1
  omega

/-- The consumer's load of its own cursor. -/
lemma load_head (l : Laid m written t h r stamp sent) {o : Order} {a : BitVec 64}
    (st : m.Load .consumer .head o a m') : a = BitVec.ofNat 64 h := by
  obtain ⟨j, msg, len, get, val⟩ := l.headOwned.load_last st
  rw [← val, (l.head j msg get).1]
  have := l.headLen
  congr 1
  omega

/-- The consumer has stored the cursor that the producer has seen. -/
lemma seesHead_le (l : Laid m written t h r stamp sent) {j : ℕ} (sees : SeesHead m j) : j ≤ h := by
  obtain ⟨⟨msg, get, _⟩, _⟩ := sees
  have := (List.getElem?_eq_some_iff.mp get).1
  have := l.headLen
  omega

/-- The producer has stored the cursor that the consumer has seen. -/
lemma seesTail_le (l : Laid m written t h r stamp sent) {i : ℕ} (sees : SeesTail m sent i) : i ≤ t := by
  obtain ⟨⟨msg, get, _⟩, _⟩ := sees
  have := (List.getElem?_eq_some_iff.mp get).1
  have := l.tailLen
  omega

/-- The producer's load of the other cursor: it does not go back behind what it has seen. -/
lemma see_head (l : Laid m written t h r stamp sent) {a : BitVec 64} {j : ℕ} (sees : SeesHead m j)
    (st : m.Load .producer .head .acquire a m') :
    ∃ j', j ≤ j' ∧ j' ≤ h ∧ a = BitVec.ofNat 64 j' ∧ SeesHead m' j' := by
  obtain ⟨j', msg, get, val, late, seen, took⟩ := st.msg
  obtain ⟨⟨old, get₀, le₀⟩, _⟩ := sees
  obtain ⟨value, reads⟩ := l.head j' msg get
  refine ⟨j', l.headOwned.index_le get₀ get (le₀.trans late), ?_, val.symm.trans value, ?_, ?_⟩
  · have := (List.getElem?_eq_some_iff.mp get).1
    have := l.headLen
    omega
  · rw [st.cell]
    exact ⟨msg, get, seen⟩
  · exact reads.trans ((took rfl).2 _)

/-- The consumer's load of the other cursor. -/
lemma see_tail (l : Laid m written t h r stamp sent) {a : BitVec 64} {i : ℕ} (sees : SeesTail m sent i)
    (st : m.Load .consumer .tail .acquire a m') :
    ∃ i', i ≤ i' ∧ i' ≤ t ∧ a = BitVec.ofNat 64 i' ∧ SeesTail m' sent i' := by
  obtain ⟨i', msg, get, val, late, seen, took⟩ := st.msg
  obtain ⟨⟨old, get₀, le₀⟩, _⟩ := sees
  obtain ⟨value, given⟩ := l.tail i' msg get
  refine ⟨i', l.tailOwned.index_le get₀ get (le₀.trans late), ?_, val.symm.trans value, ?_, ?_⟩
  · have := (List.getElem?_eq_some_iff.mp get).1
    have := l.tailLen
    omega
  · rw [st.cell]
    exact ⟨msg, get, seen⟩
  · exact fun j lt => (given j lt).trans (took rfl)

/-- A write to the slot of the next item has no race. -/
lemma canWrite (l : Laid m written t h r stamp sent) {j : ℕ} (sees : SeesHead m j) (room : t < j + 2 ^ k.val)
    (read : r ≤ t) : m.CanWrite .producer (.slot (cell k t)) := by
  refine ⟨(l.slotOwned _).seen, ?_⟩
  obtain ⟨own, other⟩ := l.readers (cell k t)
  intro u
  cases u with
  | producer =>
    rw [own]
    exact Nat.zero_le _
  | consumer =>
    rcases other with none | ⟨i, lt, same, last⟩
    · rw [none]
      exact Nat.zero_le _
    · -- the last item read there is a turn behind the one to be written
      have far := turn_le (by omega) same
      rw [last]
      exact le_trans (by omega) sees.2

/-- The write to the slot of the next item. -/
lemma write (l : Laid m written t h r stamp sent) (len : written.length = t) {item : T}
    (st : m.Write .producer (.slot (cell k t)) item m') :
    ∃ stamp', Laid m' (written ++ [item]) t h r stamp' sent := by
  have st : m.Store .producer (.slot (cell k t)) .relaxed item m' := st
  obtain ⟨msg, added, val, late, seen, _⟩ := st.msg
  have tails : m'.cell .tail = m.cell .tail := st.cell_of_ne nofun
  have heads : m'.cell .head = m.cell .head := st.cell_of_ne nofun
  have other : m'.view .consumer = m.view .consumer := st.view_of_ne nofun
  have old : ∀ j < t, Function.update stamp t msg.time j = stamp j :=
    fun j lt => Function.update_of_ne lt.ne _ _
  have stays : ∀ {i : ℕ} {x : T}, written[i]? = some x → i < t ∧ (written ++ [item])[i]? = some x := by
    intro i x get
    have lt := (List.getElem?_eq_some_iff.mp get).1
    exact ⟨by omega, (List.getElem?_append_left lt).trans get⟩
  refine ⟨Function.update stamp t msg.time, ?_⟩
  constructor
  · exact l.known.store st
  · exact l.tailOwned.mono tails (st.view_le _)
  · exact l.headOwned.mono heads (st.view_le _)
  · intro c
    by_cases here : Loc.slot c = .slot (cell k t)
    · rw [here]
      exact (l.slotOwned _).store st
    · exact (l.slotOwned c).mono (st.cell_of_ne here) (st.view_le _)
  · rw [tails]
    exact l.tail
  · rw [tails]
    exact l.tailLen
  · rw [heads]
    exact l.head
  · rw [heads]
    exact l.headLen
  · have before : ∀ c, ∀ msg' ∈ m.cell (.slot c), msg'.time = 0 ∨ ∃ i : ℕ,
        (written ++ [item])[i]? = some msg'.val ∧ cell k i = c ∧
          msg'.time = Function.update stamp t msg.time i := by
      intro c msg' mem
      rcases l.slots c msg' mem with zero | ⟨i, get, at', time⟩
      · exact .inl zero
      · obtain ⟨lt, get⟩ := stays get
        exact .inr ⟨i, get, at', by rw [old i lt, time]⟩
    intro c msg' mem
    by_cases here : c = cell k t
    · subst here
      rw [added, List.mem_append, List.mem_singleton] at mem
      rcases mem with mem | rfl
      · exact before _ msg' mem
      · refine .inr ⟨t, ?_, rfl, ?_⟩
        · rw [val, List.getElem?_append_right len.le, len, Nat.sub_self]
          rfl
        · rw [Function.update_self]
    · rw [st.cell_of_ne fun e => here (Loc.slot.inj e)] at mem
      exact before c msg' mem
  · intro i lt
    rw [List.length_append, List.length_singleton, len] at lt
    rcases Nat.lt_succ_iff_lt_or_eq.mp lt with lt | rfl
    · obtain ⟨pos, le, later⟩ := l.stamps i (by omega)
      rw [old i lt]
      refine ⟨pos, le.trans ((st.view_le _).1 _), ?_⟩
      intro j ltj same
      rw [old j (by omega)]
      exact later j ltj same
    · rw [Function.update_self]
      refine ⟨by omega, seen, ?_⟩
      intro j ltj same
      rw [old j ltj]
      have le := (l.stamps j (by omega)).2.1
      rw [same] at le
      exact le.trans_lt late
  · intro i lt
    rw [old i lt]
    exact ⟨(l.sents i lt).1.trans (st.view_le _), (l.sents i lt).2⟩
  · rw [other]
    exact l.reads
  · rw [st.readers]
    exact l.readers

/-- The store of the producer's cursor. -/
lemma storeTail (l : Laid m written t h r stamp sent) (len : written.length = t + 1)
    {sent' : ℕ → View (Loc k) Thread} (old : ∀ j < t, sent' j = sent j)
    (new : sent' t = m.view .producer)
    (st : m.Store .producer .tail .release (BitVec.ofNat 64 t + 1 : BitVec 64) m') :
    Laid m' written (t + 1) h r stamp sent' := by
  obtain ⟨msg, added, val, late, seen, gave⟩ := st.msg
  have heads : m'.cell .head = m.cell .head := st.cell_of_ne nofun
  have other : m'.view .consumer = m.view .consumer := st.view_of_ne nofun
  have sents : ∀ i < t + 1, sent' i ≤ m.view .producer ∧ stamp i ≤ (sent' i).time (.slot (cell k i)) := by
    intro i lt
    rcases Nat.lt_succ_iff_lt_or_eq.mp lt with lt | rfl
    · rw [old i lt]
      exact l.sents i lt
    · rw [new]
      exact ⟨le_rfl, (l.stamps i (by omega)).2.1⟩
  constructor
  · exact l.known.store st
  · exact l.tailOwned.store st
  · exact l.headOwned.mono heads (st.view_le _)
  · exact fun c => (l.slotOwned c).mono (st.cell_of_ne nofun) (st.view_le _)
  · intro i msg' get
    rw [added] at get
    rcases Ring.getElem?_concat_cases get with ⟨lt, get⟩ | ⟨rfl, rfl⟩
    · obtain ⟨value, given⟩ := l.tail i msg' get
      rw [l.tailLen] at lt
      refine ⟨value, ?_⟩
      intro j ltj
      rw [old j (by omega)]
      exact given j ltj
    · rw [l.tailLen]
      refine ⟨?_, ?_⟩
      · rw [val, BitVec.ofNat_add]
        rfl
      · exact fun j lt => (sents j lt).1.trans (gave rfl)
  · rw [added, List.length_append, l.tailLen]
    rfl
  · rw [heads]
    exact l.head
  · rw [heads]
    exact l.headLen
  · intro c
    have slots : m'.cell (.slot c) = m.cell (.slot c) := st.cell_of_ne nofun
    rw [slots]
    exact l.slots c
  · intro i lt
    obtain ⟨pos, le, later⟩ := l.stamps i lt
    exact ⟨pos, le.trans ((st.view_le _).1 _), later⟩
  · exact fun i lt => ⟨(sents i lt).1.trans (st.view_le _), (sents i lt).2⟩
  · rw [other]
    exact l.reads
  · rw [st.readers]
    exact l.readers

/-- The consumer has seen the write of an item that it has seen pushed. -/
lemma stamp_le (l : Laid m written t h r stamp sent) {i j : ℕ} (sees : SeesTail m sent i) (lt : j < i) :
    stamp j ≤ (m.view .consumer).time (.slot (cell k j)) :=
  (l.sents j (lt.trans_le (l.seesTail_le sees))).2.trans ((sees.2 j lt).1 _)

/-- The message that a read of the next item's slot can find. -/
lemma slot_msg (l : Laid m written t h r stamp sent) (near : written.length ≤ h + 2 ^ k.val)
    {msg : Msg (Loc k) Thread T} (mem : msg ∈ m.cell (.slot (cell k h))) :
    msg.time = 0 ∨ ∃ i ≤ h, cell k i = cell k h ∧ written[i]? = some msg.val ∧ msg.time = stamp i := by
  rcases l.slots _ msg mem with zero | ⟨i, get, same, time⟩
  · exact .inl zero
  · refine .inr ⟨i, ?_, same, get, time⟩
    by_contra later
    have far := turn_le (by omega) same.symm
    have := (List.getElem?_eq_some_iff.mp get).1
    omega

/-- A read of the next item's slot has no race. -/
lemma canRead (l : Laid m written t h r stamp sent) (near : written.length ≤ h + 2 ^ k.val)
    {i : ℕ} (sees : SeesTail m sent i) (some : h < i) (made : i ≤ written.length) :
    m.CanRead .consumer (.slot (cell k h)) := by
  have seen := l.stamp_le sees some
  intro msg mem
  rcases l.slot_msg near mem with zero | ⟨j, le, same, _, time⟩
  · rw [zero]
    exact Nat.zero_le _
  · rw [time]
    rcases Nat.lt_or_eq_of_le le with lt | rfl
    · exact ((l.stamps h (by omega)).2.2 j lt same).le.trans seen
    · exact seen

/-- The read of the next item's slot returns the item. -/
lemma read_val (l : Laid m written t h r stamp sent) (near : written.length ≤ h + 2 ^ k.val)
    {i : ℕ} (sees : SeesTail m sent i) (some' : h < i) (made : i ≤ written.length) {item : T}
    (st : m.Read .consumer (.slot (cell k h)) item m') : written[h]? = some item := by
  obtain ⟨msg, mem, rfl, late⟩ := st.msg
  obtain ⟨pos, _, later⟩ := l.stamps h (by omega)
  have seen := (l.stamp_le sees some').trans late
  rcases l.slot_msg near mem with zero | ⟨j, le, same, get, time⟩
  · omega
  · rcases Nat.lt_or_eq_of_le le with lt | rfl
    · have := later j lt same
      omega
    · exact get

/-- The read of the next item's slot. -/
lemma read (l : Laid m written t h h stamp sent) {item : T}
    (st : m.Read .consumer (.slot (cell k h)) item m') : Laid m' written t h (h + 1) stamp sent where
  known := l.known.read st
  tailOwned := l.tailOwned.mono (by rw [st.cell]) (st.view_le _)
  headOwned := l.headOwned.mono (by rw [st.cell]) (st.view_le _)
  slotOwned := fun c => (l.slotOwned c).mono (by rw [st.cell]) (st.view_le _)
  tail := by rw [st.cell]; exact l.tail
  tailLen := by rw [st.cell]; exact l.tailLen
  head := by rw [st.cell]; exact l.head
  headLen := by rw [st.cell]; exact l.headLen
  slots := by rw [st.cell]; exact l.slots
  stamps := by
    intro i lt
    obtain ⟨pos, seen, later⟩ := l.stamps i lt
    exact ⟨pos, seen.trans ((st.view_le _).1 _), later⟩
  sents := fun i lt => ⟨(l.sents i lt).1.trans (st.view_le _), (l.sents i lt).2⟩
  reads := by rw [st.reads, l.reads]
  readers := by
    intro c
    obtain ⟨own, other⟩ := l.readers c
    have producer : m'.readers (.slot c) .producer = m.readers (.slot c) .producer :=
      st.readers_of_ne (.inr nofun)
    refine ⟨producer.trans own, ?_⟩
    by_cases here : c = cell k h
    · subst here
      refine .inr ⟨h, Nat.lt_succ_self h, rfl, ?_⟩
      rw [st.readers_self, l.reads]
    · rw [st.readers_of_ne (.inl fun e => here (Loc.slot.inj e))]
      rcases other with none | ⟨j, lt, same, last⟩
      · exact .inl none
      · exact .inr ⟨j, lt.trans (Nat.lt_succ_self h), same, last⟩

/-- The store of the consumer's cursor. -/
lemma storeHead (l : Laid m written t h (h + 1) stamp sent)
    (st : m.Store .consumer .head .release (BitVec.ofNat 64 h + 1 : BitVec 64) m') :
    Laid m' written t (h + 1) (h + 1) stamp sent := by
  obtain ⟨msg, added, val, late, seen, gave⟩ := st.msg
  have tails : m'.cell .tail = m.cell .tail := st.cell_of_ne nofun
  have slots : ∀ c, m'.cell (.slot c) = m.cell (.slot c) := fun c => st.cell_of_ne nofun
  have other : m'.view .producer = m.view .producer := st.view_of_ne nofun
  constructor
  · exact l.known.store st
  · exact l.tailOwned.mono tails (st.view_le _)
  · exact l.headOwned.store st
  · exact fun c => (l.slotOwned c).mono (slots c) (st.view_le _)
  · rw [tails]
    exact l.tail
  · rw [tails]
    exact l.tailLen
  · intro j msg' get
    rw [added] at get
    rcases Ring.getElem?_concat_cases get with ⟨_, get⟩ | ⟨rfl, rfl⟩
    · exact l.head j msg' get
    · rw [l.headLen]
      refine ⟨?_, ?_⟩
      · rw [val, BitVec.ofNat_add]
        rfl
      · rw [← l.reads]
        exact (gave rfl).2 _
  · rw [added, List.length_append, l.headLen]
    rfl
  · intro c
    rw [slots c]
    exact l.slots c
  · rw [other]
    exact l.stamps
  · rw [other]
    exact l.sents
  · rw [st.reads]
    exact l.reads
  · rw [st.readers]
    exact l.readers

end Laid

/-! ## The threads -/

namespace State

/-- The items whose slot was written. -/
def written (s : State T k) : List T :=
  match s.producer with
  | .pushStore item _ => s.pushed ++ [item]
  | _ => s.pushed

/-- The number of slots read. -/
def readCount (s : State T k) : ℕ :=
  match s.consumer with
  | .popStore _ _ => s.popped.length + 1
  | _ => s.popped.length

/-- What the producer had seen when it pushed an item. -/
def given (s : State T k) (i : ℕ) : View (Loc k) Thread := s.sent.getD i ⊥

/-- What is pushed has been written. -/
lemma pushed_prefix_written (s : State T k) : s.pushed <+: s.written := by
  unfold written
  split
  · exact List.prefix_append _ _
  · exact List.prefix_refl _

end State

/-- What the producer knows when it has pushed `t` items and seen the `j`-th cursor of the consumer. -/
def Sure (k : Fin 64) (t j : ℕ) : Producer T → Prop
  | .idle => True
  | .pushHead _ tail => tail = BitVec.ofNat 64 t
  | .pushWrite _ tail => tail = BitVec.ofNat 64 t ∧ t < j + 2 ^ k.val
  | .pushStore _ tail => tail = BitVec.ofNat 64 t ∧ t < j + 2 ^ k.val
  | .sizeHead tail => tail = BitVec.ofNat 64 t
  | .sizeTail head => ∃ j₀ ≤ j, head = BitVec.ofNat 64 j₀ ∧ t ≤ j₀ + 2 ^ k.val

/-- What the consumer knows when it has popped `h` items and seen the `i`-th cursor of the producer. -/
def Certain (pushed : List T) (h i : ℕ) : Consumer T → Prop
  | .idle => True
  | .popTail head => head = BitVec.ofNat 64 h
  | .popRead head => head = BitVec.ofNat 64 h ∧ h < i
  | .popStore head item => head = BitVec.ofNat 64 h ∧ h < i ∧ pushed[h]? = some item
  | .sizeHead tail => ∃ i₀ ≤ pushed.length, tail = BitVec.ofNat 64 i₀ ∧ h ≤ i₀
  | .sizeTail head => head = BitVec.ofNat 64 h

/-- What the consumer knows stays true while the producer goes on. -/
lemma Certain.mono {pushed pushed' : List T} {h i : ℕ} {c : Consumer T}
    (certain : Certain pushed h i c) (pre : pushed <+: pushed') : Certain pushed' h i c := by
  cases c with
  | popStore head item =>
    obtain ⟨rest, rfl⟩ := pre
    obtain ⟨e, ahead, get⟩ := certain
    exact ⟨e, ahead, Ring.getElem?_append_of_some get⟩
  | sizeHead tail =>
    obtain ⟨i₀, le, e, low⟩ := certain
    exact ⟨i₀, le.trans pre.length_le, e, low⟩
  | _ => exact certain

/-- What holds between any two steps. -/
structure Inv (s : State T k) (stamp : ℕ → ℕ) : Prop where
  laid : Laid s.mem s.written s.pushed.length s.popped.length s.readCount stamp s.given
  sent : s.sent.length = s.pushed.length
  order : s.popped <+: s.pushed
  producer : ∃ j, SeesHead s.mem j ∧ s.pushed.length ≤ j + 2 ^ k.val ∧ Sure k s.pushed.length j s.producer
  consumer : ∃ i, SeesTail s.mem s.given i ∧ s.popped.length ≤ i ∧
    Certain s.pushed s.popped.length i s.consumer
  sizes : ∀ v ∈ s.sizes, v.toNat ≤ 2 ^ k.val

namespace Inv

variable {s s' : State T k} {stamp : ℕ → ℕ}

/-- Nothing is pushed or popped. -/
lemma init (slots : Fin (2 ^ k.val) → T) : Inv (State.init slots) (fun _ => 0) where
  laid := .init slots
  sent := rfl
  order := List.prefix_refl _
  producer := ⟨0, ⟨⟨_, rfl, le_rfl⟩, le_rfl⟩, Nat.zero_le _, trivial⟩
  consumer := ⟨0, ⟨⟨_, rfl, le_rfl⟩, nofun⟩, le_rfl, trivial⟩
  sizes := nofun

/-- The cursors are at most `N` apart. -/
lemma near (h : Inv s stamp) : s.popped.length ≤ s.pushed.length ∧
    s.pushed.length ≤ s.popped.length + 2 ^ k.val := by
  obtain ⟨j, sees, le, _⟩ := h.producer
  have := h.laid.seesHead_le sees
  exact ⟨h.order.length_le, by omega⟩

/-- The slot that is written ahead of the cursor is within the capacity too. -/
lemma written_near (h : Inv s stamp) : s.written.length ≤ s.popped.length + 2 ^ k.val := by
  obtain ⟨j, sees, le, sure⟩ := h.producer
  have made := h.laid.seesHead_le sees
  cases here : s.producer with
  | pushStore item tail =>
    rw [here] at sure
    have room := sure.2
    simp only [State.written, here, List.length_append, List.length_singleton]
    omega
  | _ =>
    simp only [State.written, here]
    exact h.near.2

/-- The test of `push`, for a cursor that is at most `N` behind. -/
lemma full_iff {t j : ℕ} (low : j ≤ t) (high : t ≤ j + 2 ^ k.val) :
    BitVec.ofNat 64 t - BitVec.ofNat 64 j = capacity k ↔ t = j + 2 ^ k.val := by
  rw [← BitVec.toNat_inj, toNat_sub low high, toNat_capacity]
  omega

/-- The test of `pop`, for a cursor that is at most `N` ahead. -/
lemma empty_iff {h i : ℕ} (low : h ≤ i) (high : i ≤ h + 2 ^ k.val) :
    BitVec.ofNat 64 h = BitVec.ofNat 64 i ↔ h = i := by
  have lt := Nat.pow_lt_pow_right (a := 2) (by decide) k.isLt
  constructor
  · intro e
    exact (Serial.ofNat_inj_of_near low (by omega) e.symm).symm
  · intro e
    rw [e]

/-- One more value that `size` has returned. -/
lemma sizes_concat (h : Inv s stamp) {t j : ℕ} (low : j ≤ t) (high : t ≤ j + 2 ^ k.val) :
    ∀ u ∈ s.sizes ++ [BitVec.ofNat 64 t - BitVec.ofNat 64 j], u.toNat ≤ 2 ^ k.val := by
  intro u mem
  rcases List.mem_append.mp mem with old | new
  · exact h.sizes u old
  · rw [List.mem_singleton.mp new, toNat_sub low high]
    omega

/-- The producer keeps the invariant. -/
lemma produce (h : Inv s stamp) (st : State.Produce s s') : ∃ stamp', Inv s' stamp' := by
  obtain ⟨j, seesHead, high, sure⟩ := h.producer
  obtain ⟨i, seesTail, low, certain⟩ := h.consumer
  obtain ⟨le, ge⟩ := h.near
  have laid := h.laid
  cases st with
  | @push tail mem item here load =>
    simp only [State.written, here] at laid
    exact ⟨stamp, laid.load load, h.sent, h.order, ⟨j, seesHead.mono load.grows, high, laid.load_tail load⟩,
      ⟨i, seesTail.mono load.grows fun _ _ => rfl, low, certain⟩, h.sizes⟩
  | @pushFull item tail head mem here load full =>
    simp only [State.written, here] at laid
    exact ⟨stamp, laid.load load, h.sent, h.order, ⟨j, seesHead.mono load.grows, high, trivial⟩,
      ⟨i, seesTail.mono load.grows fun _ _ => rfl, low, certain⟩, h.sizes⟩
  | @pushRoom item tail head mem here load room =>
    simp only [State.written, here] at laid
    rw [here] at sure
    obtain rfl : tail = BitVec.ofNat 64 s.pushed.length := sure
    obtain ⟨j', more, made, rfl, sees⟩ := laid.see_head seesHead load
    have lt : s.pushed.length < j' + 2 ^ k.val := by
      rw [Ne, full_iff (made.trans le) (by omega)] at room
      omega
    exact ⟨stamp, laid.load load, h.sent, h.order, ⟨j', sees, lt.le, rfl, lt⟩,
      ⟨i, seesTail.mono load.grows fun _ _ => rfl, low, certain⟩, h.sizes⟩
  | @pushWrite item tail mem here write =>
    simp only [State.written, here] at laid
    rw [here] at sure
    obtain ⟨rfl, room⟩ := sure
    have grows : Memory.Grows s.mem mem := Memory.Store.grows write
    obtain ⟨stamp', laid'⟩ := laid.write rfl write
    exact ⟨stamp', laid', h.sent, h.order, ⟨j, seesHead.mono grows, high, rfl, room⟩,
      ⟨i, seesTail.mono grows fun _ _ => rfl, low, certain⟩, h.sizes⟩
  | @pushStore item mem tail here store =>
    simp only [State.written, here] at laid
    rw [here] at sure
    obtain ⟨rfl, room⟩ := sure
    have len : (s.pushed ++ [item]).length = s.pushed.length + 1 := List.length_append
    have pre := List.prefix_append s.pushed [item]
    have old : ∀ j < s.pushed.length, (s.sent ++ [s.mem.view .producer]).getD j ⊥ = s.given j := by
      intro j lt
      rw [State.given, List.getD_eq_getElem?_getD, List.getD_eq_getElem?_getD,
        List.getElem?_append_left (by rw [h.sent]; exact lt)]
    have new : (s.sent ++ [s.mem.view .producer]).getD s.pushed.length ⊥ = s.mem.view .producer := by
      rw [List.getD_eq_getElem?_getD, ← h.sent, List.getElem?_concat_length]
      rfl
    have made := laid.seesTail_le seesTail
    refine ⟨stamp, ?_, ?_, h.order.trans pre, ⟨j, seesHead.mono store.grows, ?_, trivial⟩,
      ⟨i, seesTail.mono store.grows fun j lt => old j (lt.trans_le made), low, certain.mono pre⟩,
      h.sizes⟩
    · have laid' := laid.storeTail len old new store
      rw [← len] at laid'
      exact laid'
    · show (s.sent ++ [_]).length = (s.pushed ++ [item]).length
      rw [List.length_append, h.sent, len]
      rfl
    · show (s.pushed ++ [item]).length ≤ _
      omega
  | @sizeFromTail tail mem here load =>
    simp only [State.written, here] at laid
    exact ⟨stamp, laid.load load, h.sent, h.order, ⟨j, seesHead.mono load.grows, high, laid.load_tail load⟩,
      ⟨i, seesTail.mono load.grows fun _ _ => rfl, low, certain⟩, h.sizes⟩
  | @sizeFromHead head mem here load =>
    simp only [State.written, here] at laid
    obtain ⟨j', more, made, rfl, sees⟩ := laid.see_head seesHead load
    have high' : s.pushed.length ≤ j' + 2 ^ k.val := by omega
    exact ⟨stamp, laid.load load, h.sent, h.order, ⟨j', sees, high', j', le_rfl, rfl, high'⟩,
      ⟨i, seesTail.mono load.grows fun _ _ => rfl, low, certain⟩, h.sizes⟩
  | @sizeHead tail head mem here load =>
    simp only [State.written, here] at laid
    rw [here] at sure
    obtain rfl : tail = BitVec.ofNat 64 s.pushed.length := sure
    obtain ⟨j', more, made, rfl, sees⟩ := laid.see_head seesHead load
    have high' : s.pushed.length ≤ j' + 2 ^ k.val := by omega
    exact ⟨stamp, laid.load load, h.sent, h.order, ⟨j', sees, high', trivial⟩,
      ⟨i, seesTail.mono load.grows fun _ _ => rfl, low, certain⟩,
      h.sizes_concat (made.trans le) high'⟩
  | @sizeTail tail head mem here load =>
    simp only [State.written, here] at laid
    rw [here] at sure
    obtain ⟨j₀, before, rfl, high₀⟩ := sure
    have made := laid.seesHead_le seesHead
    obtain rfl := laid.load_tail load
    exact ⟨stamp, laid.load load, h.sent, h.order, ⟨j, seesHead.mono load.grows, high, trivial⟩,
      ⟨i, seesTail.mono load.grows fun _ _ => rfl, low, certain⟩,
      h.sizes_concat (by omega) high₀⟩

/-- So does the consumer. -/
lemma consume (h : Inv s stamp) (st : State.Consume s s') : ∃ stamp', Inv s' stamp' := by
  obtain ⟨j, seesHead, high, sure⟩ := h.producer
  obtain ⟨i, seesTail, low, certain⟩ := h.consumer
  obtain ⟨le, ge⟩ := h.near
  have laid := h.laid
  cases st with
  | @pop head mem here load =>
    simp only [State.readCount, here] at laid
    exact ⟨stamp, laid.load load, h.sent, h.order, ⟨j, seesHead.mono load.grows, high, sure⟩,
      ⟨i, seesTail.mono load.grows fun _ _ => rfl, low, laid.load_head load⟩, h.sizes⟩
  | @popEmpty head tail mem here load empty =>
    simp only [State.readCount, here] at laid
    exact ⟨stamp, laid.load load, h.sent, h.order, ⟨j, seesHead.mono load.grows, high, sure⟩,
      ⟨i, seesTail.mono load.grows fun _ _ => rfl, low, trivial⟩, h.sizes⟩
  | @popSome head tail mem here load some =>
    simp only [State.readCount, here] at laid
    rw [here] at certain
    obtain rfl : head = BitVec.ofNat 64 s.popped.length := certain
    obtain ⟨i', more, made, rfl, sees⟩ := laid.see_tail seesTail load
    have lt : s.popped.length < i' := by
      rw [Ne, empty_iff (k := k) (low.trans more) (by omega)] at some
      omega
    exact ⟨stamp, laid.load load, h.sent, h.order, ⟨j, seesHead.mono load.grows, high, sure⟩,
      ⟨i', sees, lt.le, rfl, lt⟩, h.sizes⟩
  | @popRead head item mem here read =>
    simp only [State.readCount, here] at laid
    rw [here] at certain
    obtain ⟨rfl, ahead⟩ := certain
    have made := laid.seesTail_le seesTail
    have pre := s.pushed_prefix_written
    have get := laid.read_val h.written_near seesTail ahead (made.trans pre.length_le) read
    rw [List.prefix_iff_getElem?.mp pre _ (ahead.trans_le made),
      ← List.getElem?_eq_getElem (ahead.trans_le made)] at get
    exact ⟨stamp, laid.read read, h.sent, h.order, ⟨j, seesHead.mono read.grows, high, sure⟩,
      ⟨i, seesTail.mono read.grows fun _ _ => rfl, low, rfl, ahead, get⟩, h.sizes⟩
  | @popStore item mem head here store =>
    simp only [State.readCount, here] at laid
    rw [here] at certain
    obtain ⟨rfl, ahead, get⟩ := certain
    have len : (s.popped ++ [item]).length = s.popped.length + 1 := List.length_append
    have laid' := laid.storeHead store
    rw [← len] at laid'
    refine ⟨stamp, laid', h.sent, ?_, ⟨j, seesHead.mono store.grows, high, sure⟩,
      ⟨i, seesTail.mono store.grows fun _ _ => rfl, ?_, trivial⟩, h.sizes⟩
    · -- the item read is the first of those pushed and not popped
      obtain ⟨rest, e⟩ := h.order
      rw [← e, List.getElem?_append_right le_rfl, Nat.sub_self, ← List.head?_eq_getElem?,
        List.head?_eq_some_iff] at get
      obtain ⟨rest', rfl⟩ := get
      exact ⟨rest', by rw [← e, List.append_assoc, List.singleton_append]⟩
    · exact len.trans_le ahead
  | @sizeFromTail tail mem here load =>
    simp only [State.readCount, here] at laid
    obtain ⟨i', more, made, rfl, sees⟩ := laid.see_tail seesTail load
    exact ⟨stamp, laid.load load, h.sent, h.order, ⟨j, seesHead.mono load.grows, high, sure⟩,
      ⟨i', sees, low.trans more, i', made, rfl, low.trans more⟩, h.sizes⟩
  | @sizeFromHead head mem here load =>
    simp only [State.readCount, here] at laid
    exact ⟨stamp, laid.load load, h.sent, h.order, ⟨j, seesHead.mono load.grows, high, sure⟩,
      ⟨i, seesTail.mono load.grows fun _ _ => rfl, low, laid.load_head load⟩, h.sizes⟩
  | @sizeHead tail head mem here load =>
    simp only [State.readCount, here] at laid
    rw [here] at certain
    obtain ⟨i₀, made, rfl, low₀⟩ := certain
    obtain rfl := laid.load_head load
    exact ⟨stamp, laid.load load, h.sent, h.order, ⟨j, seesHead.mono load.grows, high, sure⟩,
      ⟨i, seesTail.mono load.grows fun _ _ => rfl, low, trivial⟩,
      h.sizes_concat low₀ (made.trans ge)⟩
  | @sizeTail tail head mem here load =>
    simp only [State.readCount, here] at laid
    rw [here] at certain
    obtain rfl : head = BitVec.ofNat 64 s.popped.length := certain
    obtain ⟨i', more, made, rfl, sees⟩ := laid.see_tail seesTail load
    exact ⟨stamp, laid.load load, h.sent, h.order, ⟨j, seesHead.mono load.grows, high, sure⟩,
      ⟨i', sees, low.trans more, trivial⟩, h.sizes_concat (low.trans more) (made.trans ge)⟩

/-- Every step keeps the invariant. -/
lemma step (h : Inv s stamp) (st : State.Step s s') : ∃ stamp', Inv s' stamp' := by
  rcases st with st | st
  · exact h.produce st
  · exact h.consume st

/-- Every reachable state. -/
lemma steps {slots : Fin (2 ^ k.val) → T} (st : State.Steps (.init slots) s) :
    ∃ stamp, Inv s stamp := by
  induction st with
  | refl => exact ⟨_, .init slots⟩
  | tail _ last ih =>
    obtain ⟨stamp, h⟩ := ih
    exact h.step last

/-- The consumer has read no slot that was not written. -/
lemma readCount_le (h : Inv s stamp) : s.readCount ≤ s.pushed.length := by
  obtain ⟨i, sees, _, certain⟩ := h.consumer
  cases here : s.consumer with
  | popStore head item =>
    rw [here] at certain
    simp only [State.readCount, here]
    exact certain.2.1.trans_le (h.laid.seesTail_le sees)
  | _ =>
    simp only [State.readCount, here]
    exact h.near.1

/-- The consumer has seen what the producer had seen when it pushed an item that is popped. -/
lemma handed (h : Inv s stamp) {i : ℕ} {v : View (Loc k) Thread} (get : s.sent[i]? = some v)
    (lt : i < s.popped.length) : v ≤ s.mem.view .consumer := by
  obtain ⟨j, sees, low, _⟩ := h.consumer
  have took := sees.2 i (lt.trans_le low)
  rw [State.given, List.getD_eq_getElem?_getD, get] at took
  exact took

/-- The producer's write of a slot has no race. -/
lemma canWrite (h : Inv s stamp) {item : T} {tail : BitVec 64}
    (here : s.producer = .pushWrite item tail) :
    s.mem.CanWrite .producer (.slot (slotOf k tail)) := by
  obtain ⟨j, sees, _, sure⟩ := h.producer
  rw [here] at sure
  obtain ⟨rfl, room⟩ := sure
  exact h.laid.canWrite sees room h.readCount_le

/-- The consumer's read of a slot has no race. -/
lemma canRead (h : Inv s stamp) {head : BitVec 64} (here : s.consumer = .popRead head) :
    s.mem.CanRead .consumer (.slot (slotOf k head)) := by
  obtain ⟨i, sees, _, certain⟩ := h.consumer
  rw [here] at certain
  obtain ⟨rfl, ahead⟩ := certain
  exact h.laid.canRead h.written_near sees ahead
    ((h.laid.seesTail_le sees).trans s.pushed_prefix_written.length_le)

end Inv

/-- The orders in the source suffice: in every run of a producer and a consumer, with every value that a load
may return, the items popped are the first of those pushed, at most `N` items are in the ring, `size` never
returns more, and neither the producer's write of a slot nor the consumer's read of one is part of a data
race. The consumer of an item has seen all that its producer had done before the push, so that the item may
be a pointer to it. -/
theorem orders_suffice {slots : Fin (2 ^ k.val) → T} {s : State T k}
    (run : State.Steps (.init slots) s) :
    s.popped <+: s.pushed ∧
      s.pushed.length ≤ s.popped.length + 2 ^ k.val ∧
      (∀ v ∈ s.sizes, v.toNat ≤ 2 ^ k.val) ∧
      (∀ item tail, s.producer = .pushWrite item tail →
        s.mem.CanWrite .producer (.slot (slotOf k tail))) ∧
      (∀ head, s.consumer = .popRead head → s.mem.CanRead .consumer (.slot (slotOf k head))) ∧
      ∀ i v, s.sent[i]? = some v → i < s.popped.length → v ≤ s.mem.view .consumer := by
  obtain ⟨stamp, h⟩ := Inv.steps run
  exact ⟨h.order, h.near.2, h.sizes, fun _ _ => h.canWrite, fun _ => h.canRead, fun _ _ => h.handed⟩

/-- One item through a ring of one slot. -/
theorem orders_suffice_one_item :
    ∃ s : State ℕ 0, State.Steps (.init fun _ => 0) s ∧ s.popped = [7] ∧ s.popped <+: s.pushed := by
  have run : ∃ s : State ℕ 0, State.Steps (.init fun _ => 0) s ∧ s.popped = [7] :=
    ⟨_, .head (.inl (.push 7 rfl (.of _ (.head _) (by decide)))) <|
      .head (.inl (.pushRoom rfl (.of _ (.head _) (by decide)) (by decide))) <|
      .head (.inl (.pushWrite rfl (.of 1 (by decide) (by decide)))) <|
      .head (.inl (.pushStore rfl (.of 1 (by decide) (by decide)))) <|
      .head (.inr (.pop rfl (.of _ (.head _) (by decide)))) <|
      .head (.inr (.popSome rfl (.of _ (.tail _ (.head _)) (by decide)) (by decide))) <|
      .head (.inr (.popRead rfl (.of _ (.tail _ (.head _)) (by decide)))) <|
      .head (.inr (.popStore rfl (.of 1 (by decide) (by decide)))) .refl,
      rfl⟩
  obtain ⟨s, steps, popped⟩ := run
  exact ⟨s, steps, popped, (orders_suffice steps).1⟩

end UxNet.SPSCRing.RelAcq
