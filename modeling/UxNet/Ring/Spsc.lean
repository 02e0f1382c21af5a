import Mathlib.Data.List.ReduceOption
import UxNet.Lib.Ring
import UxNet.Lib.Serial

/-!
# Single-producer single-consumer ring

`SPSCRing<T, N>` of `spsc_ring.h`, for `N = 2 ^ k`. The cursors are 64-bit counters that wrap around and
are masked to slots. `push`, `pop` and `size` are given as functions, and as programs of atomic steps
(each load, store and slot access) run by one producer and one consumer thread in any interleaving. The
two loads of `size` are operands of a subtraction, so they may be made in either order.

`pushes` and `pops` are what the calls of `push` and `pop` have returned, in their order; the items of
those that succeeded are `pushed` and `popped`, and the queue is what lies between the two.
-/

namespace UxNet

/-- `SPSCRing<T, 2 ^ k>`. -/
structure SPSCRing (T : Type) (k : Fin 64) where
  head : BitVec 64
  tail : BitVec 64
  slots : Fin (2 ^ k.val) → T

namespace SPSCRing

variable {T : Type} {k : Fin 64}

/-- `N`. -/
def capacity (k : Fin 64) : BitVec 64 := BitVec.ofNat 64 (2 ^ k.val)

/-- The capacity is `2 ^ k`. -/
lemma toNat_capacity (k : Fin 64) : (capacity k).toNat = 2 ^ k.val := by
  rw [capacity, BitVec.toNat_ofNat]
  exact Nat.mod_eq_of_lt (Nat.pow_lt_pow_right (by decide) k.isLt)

/-- The mask takes the index modulo the capacity. -/
lemma toNat_mask (k : Fin 64) (i : BitVec 64) :
    (i &&& (capacity k - 1)).toNat = i.toNat % 2 ^ k.val := by
  have pos := Nat.two_pow_pos k.val
  have one : (capacity k - 1).toNat = 2 ^ k.val - 1 := by
    rw [BitVec.toNat_sub_of_le, toNat_capacity]
    · rfl
    · rw [BitVec.le_def, toNat_capacity]
      exact pos
  rw [BitVec.toNat_and, one, Nat.and_two_pow_sub_one_eq_mod]

/-- `i & (N - 1)`. -/
def slotOf (k : Fin 64) (i : BitVec 64) : Fin (2 ^ k.val) :=
  ⟨(i &&& (capacity k - 1)).toNat, by
    rw [toNat_mask]
    exact Nat.mod_lt _ (Nat.two_pow_pos _)⟩

/-- The slot of the `i`-th item. -/
def cell (k : Fin 64) (i : ℕ) : Fin (2 ^ k.val) := slotOf k (BitVec.ofNat 64 i)

/-- The cells are filled in turn. -/
lemma turn (k : Fin 64) : Ring.Turn (cell k) (2 ^ k.val) := by
  have val : ∀ i, (cell k i).val = i % 2 ^ k.val := by
    intro i
    show (BitVec.ofNat 64 i &&& (capacity k - 1)).toNat = _
    rw [toNat_mask, BitVec.toNat_ofNat]
    exact Nat.mod_mod_of_dvd i (Nat.pow_dvd_pow 2 k.isLt.le)
  apply Ring.Turn.of_mod
  intro i j e
  rw [← val, ← val, e]

/-- The constructor. -/
def new (slots : Fin (2 ^ k.val) → T) : SPSCRing T k where
  head := 0
  tail := 0
  slots := slots

/-- `SPSCRing::push`. -/
def push (item : T) (r : SPSCRing T k) : Bool × SPSCRing T k :=
  if r.tail - r.head = capacity k then (false, r)
  else (true, { r with slots := Function.update r.slots (slotOf k r.tail) item, tail := r.tail + 1 })

/-- `SPSCRing::pop`. -/
def pop (r : SPSCRing T k) : Option T × SPSCRing T k :=
  if r.head = r.tail then (none, r)
  else (some (r.slots (slotOf k r.head)), { r with head := r.head + 1 })

/-- `SPSCRing::size`. -/
def size (r : SPSCRing T k) : BitVec 64 := r.tail - r.head

/-- The items in the ring, the next one to leave first. -/
def items (r : SPSCRing T k) : List T :=
  (List.range r.size.toNat).map fun i => r.slots (slotOf k (r.head + BitVec.ofNat 64 i))

/-- Of the items pushed all but the first `h` are in the ring. -/
structure Contains (r : SPSCRing T k) (pushed : List T) (h : ℕ) : Prop where
  holds : Ring.Holds (cell k) (2 ^ k.val) r.slots pushed h
  head : r.head = BitVec.ofNat 64 h
  tail : r.tail = BitVec.ofNat 64 pushed.length

/-- The difference of two cursors that are at most `N` apart. -/
lemma toNat_sub {t h : ℕ} (low : h ≤ t) (high : t ≤ h + 2 ^ k.val) :
    (BitVec.ofNat 64 t - BitVec.ofNat 64 h).toNat = t - h := by
  have lt := Nat.pow_lt_pow_right (a := 2) (by decide) k.isLt
  rw [Serial.dist_of_le low]
  exact Nat.mod_eq_of_lt (by omega)

namespace Contains

variable {r : SPSCRing T k} {pushed : List T} {h : ℕ}

/-- A new ring contains nothing. -/
lemma new (slots : Fin (2 ^ k.val) → T) : (SPSCRing.new slots).Contains [] 0 :=
  ⟨.nil _ _ _, rfl, rfl⟩

/-- `size()` is the number of items. -/
lemma toNat_size (c : r.Contains pushed h) : r.size.toNat = pushed.length - h := by
  rw [size, c.head, c.tail]
  exact toNat_sub c.holds.low c.holds.high

/-- The test of `push`. -/
lemma full_iff (c : r.Contains pushed h) :
    r.tail - r.head = capacity k ↔ pushed.length = h + 2 ^ k.val := by
  have low := c.holds.low
  have size : (r.tail - r.head).toNat = pushed.length - h := c.toNat_size
  have pos := Nat.two_pow_pos k.val
  rw [← BitVec.toNat_inj, size, toNat_capacity]
  omega

/-- The test of `pop`. -/
lemma empty_iff (c : r.Contains pushed h) : r.head = r.tail ↔ pushed.length = h := by
  have low := c.holds.low
  have high := c.holds.high
  have lt := Nat.pow_lt_pow_right (a := 2) (by decide) k.isLt
  rw [c.head, c.tail]
  constructor
  · intro e
    exact Serial.ofNat_inj_of_near low (by omega) e.symm
  · intro e
    rw [e]

/-- If the ring is not full there is room for one more. -/
lemma room (c : r.Contains pushed h) (not : r.tail - r.head ≠ capacity k) :
    pushed.length < h + 2 ^ k.val :=
  lt_of_le_of_ne c.holds.high fun e => not (c.full_iff.mpr e)

/-- If the ring is not empty there is an item. -/
lemma some (c : r.Contains pushed h) (not : r.head ≠ r.tail) : h < pushed.length :=
  lt_of_le_of_ne c.holds.low fun e => not (c.empty_iff.mpr e.symm)

/-- The slot access of `push`. -/
lemma write (c : r.Contains pushed h) (room : pushed.length < h + 2 ^ k.val) (item : T) :
    Contains { r with slots := Function.update r.slots (slotOf k r.tail) item } pushed h := by
  refine ⟨?_, c.head, c.tail⟩
  rw [c.tail]
  exact c.holds.write (turn k) room item

/-- The store of `push`. -/
lemma store (c : r.Contains pushed h) (room : pushed.length < h + 2 ^ k.val) {item : T}
    (written : r.slots (slotOf k r.tail) = item) :
    Contains { r with tail := r.tail + 1 } (pushed ++ [item]) h := by
  rw [c.tail] at written
  refine ⟨c.holds.push room written, c.head, ?_⟩
  rw [c.tail, List.length_append, BitVec.ofNat_add]
  rfl

/-- The store of `pop`. -/
lemma take (c : r.Contains pushed h) (some : h < pushed.length) :
    Contains { r with head := r.head + 1 } pushed (h + 1) := by
  refine ⟨c.holds.pop (turn k) some fun _ _ => rfl, ?_, c.tail⟩
  rw [c.head, BitVec.ofNat_add]
  rfl

/-- The slot access of `pop`. -/
lemma read (c : r.Contains pushed h) (some : h < pushed.length) :
    pushed[h]? = .some (r.slots (slotOf k r.head)) := by
  rw [c.head]
  exact c.holds.getElem? le_rfl some

/-- The items are read off the slots from the head on. -/
lemma items (c : r.Contains pushed h) : r.items = pushed.drop h := by
  apply List.ext_getElem?
  intro i
  rw [SPSCRing.items, List.getElem?_map, List.getElem?_drop]
  by_cases lt : i < r.size.toNat
  · rw [List.getElem?_range lt, Option.map_some]
    rw [c.toNat_size] at lt
    rw [c.head, ← BitVec.ofNat_add]
    exact (c.holds.getElem? (Nat.le_add_right h i) (by omega)).symm
  · rw [List.getElem?_eq_none (by rw [List.length_range]; omega), Option.map_none]
    rw [c.toNat_size] at lt
    exact (List.getElem?_eq_none (by omega)).symm

end Contains

/-! ## One call after another -/

/-- The ring can come about by calls of `push` and `pop`. -/
def Sound (r : SPSCRing T k) : Prop := ∃ pushed h, r.Contains pushed h

/-- A new ring has no items. -/
lemma items_new (slots : Fin (2 ^ k.val) → T) : (new slots).items = [] := (Contains.new slots).items

/-- `size()` counts the items. -/
lemma length_items (r : SPSCRing T k) : BitVec.ofNat 64 r.items.length = r.size := by
  rw [items, List.length_map, List.length_range, BitVec.ofNat_toNat, BitVec.setWidth_eq]

section Calls

variable {r r' : SPSCRing T k} {item : T}

/-- A `push` that fails changes nothing. -/
lemma push_false (e : r.push item = (false, r')) : r' = r := by
  unfold push at e
  split at e
  · cases e
    rfl
  · cases e

/-- A `push` that succeeds adds its item at the end. -/
lemma Sound.push_true (s : r.Sound) (e : r.push item = (true, r')) :
    r'.Sound ∧ r'.items = r.items ++ [item] := by
  obtain ⟨pushed, h, c⟩ := s
  unfold push at e
  split at e
  · cases e
  · rename_i not
    cases e
    have room := c.room not
    have c' := (c.write room item).store room (Function.update_self ..)
    refine ⟨⟨_, _, c'⟩, ?_⟩
    rw [c.items, ← List.drop_append_of_le_length c.holds.low]
    exact c'.items

/-- A `pop` that fails changes nothing. -/
lemma pop_none (e : r.pop = (none, r')) : r' = r := by
  unfold pop at e
  split at e
  · cases e
    rfl
  · cases e

/-- A `pop` that succeeds takes the first item. -/
lemma Sound.pop_some (s : r.Sound) (e : r.pop = (some item, r')) :
    r'.Sound ∧ r.items = item :: r'.items := by
  obtain ⟨pushed, h, c⟩ := s
  unfold pop at e
  split at e
  · cases e
  · rename_i not
    cases e
    have lt := c.some not
    have c' := c.take lt
    refine ⟨⟨_, _, c'⟩, ?_⟩
    rw [c.items, c'.items, List.drop_eq_getElem_cons lt]
    congr 1
    exact Option.some.inj ((List.getElem?_eq_getElem lt).symm.trans (c.read lt))

end Calls

/-! ## Two threads -/

/-- Where the producer is. -/
inductive Producer (T : Type) where
  | idle
  /-- `push`: about to load `head_` -/
  | pushHead (item : T) (tail : BitVec 64)
  /-- `push`: about to write the slot -/
  | pushWrite (item : T) (tail : BitVec 64)
  /-- `push`: about to store `tail_` -/
  | pushStore (item : T) (tail : BitVec 64)
  /-- `size`: about to load `head_` -/
  | sizeHead (tail : BitVec 64)
  /-- `size`: about to load `tail_` -/
  | sizeTail (head : BitVec 64)

/-- Where the consumer is. -/
inductive Consumer (T : Type) where
  | idle
  /-- `pop`: about to load `tail_` -/
  | popTail (head : BitVec 64)
  /-- `pop`: about to read the slot -/
  | popRead (head : BitVec 64)
  /-- `pop`: about to store `head_` -/
  | popStore (head : BitVec 64) (item : T)
  /-- `size`: about to load `head_` -/
  | sizeHead (tail : BitVec 64)
  /-- `size`: about to load `tail_` -/
  | sizeTail (head : BitVec 64)

/-- The item of the call of `push` that the producer is in. -/
def Producer.pushing : Producer T → Option T
  | .pushHead item _ | .pushWrite item _ | .pushStore item _ => some item
  | .idle | .sizeHead _ | .sizeTail _ => none

/-- The consumer is in a call of `pop`. -/
def Consumer.popping : Consumer T → Bool
  | .popTail _ | .popRead _ | .popStore _ _ => true
  | .idle | .sizeHead _ | .sizeTail _ => false

/-- A ring and the two threads, with what the calls of `push`, `pop` and `size` have returned. -/
structure State (T : Type) (k : Fin 64) where
  ring : SPSCRing T k
  producer : Producer T
  consumer : Consumer T
  pushes : List (T × Bool)
  pops : List (Option T)
  sizes : List (BitVec 64)

namespace State

/-- Both threads are about to start. -/
def init (slots : Fin (2 ^ k.val) → T) : State T k where
  ring := .new slots
  producer := .idle
  consumer := .idle
  pushes := []
  pops := []
  sizes := []

/-- The items of the calls of `push` that returned `true`. -/
def pushed (s : State T k) : List T := (s.pushes.filter Prod.snd).map Prod.fst

/-- The items that calls of `pop` returned. -/
def popped (s : State T k) : List T := s.pops.reduceOption

/-- The items in the queue, the first one to leave first. -/
def queue (s : State T k) : List T := s.pushed.drop s.popped.length

/-- `slots_[tail & (N - 1)] = item`. -/
def write (s : State T k) (tail : BitVec 64) (item : T) : State T k :=
  { s with
    ring := { s.ring with slots := Function.update s.ring.slots (slotOf k tail) item }
    producer := .pushStore item tail }

/-- `tail_.store(tail + 1)`. -/
def storeTail (s : State T k) (tail : BitVec 64) (item : T) : State T k :=
  { s with
    ring := { s.ring with tail := tail + 1 }
    producer := .idle
    pushes := s.pushes ++ [(item, true)] }

/-- `push` returns `false`. -/
def refuse (s : State T k) (item : T) : State T k :=
  { s with producer := .idle, pushes := s.pushes ++ [(item, false)] }

/-- `head_.store(head + 1)`. -/
def storeHead (s : State T k) (head : BitVec 64) (item : T) : State T k :=
  { s with
    ring := { s.ring with head := head + 1 }
    consumer := .idle
    pops := s.pops ++ [some item] }

/-- `pop` returns `false`. -/
def miss (s : State T k) : State T k := { s with consumer := .idle, pops := s.pops ++ [none] }

section Results

variable (s : State T k) (i : BitVec 64) (item : T)

/-- A `push` that succeeds adds its item. -/
@[simp] lemma storeTail_pushed : (s.storeTail i item).pushed = s.pushed ++ [item] := by
  simp [pushed, storeTail]

/-- A `push` that fails adds none. -/
@[simp] lemma refuse_pushed : (s.refuse item).pushed = s.pushed := by
  simp [pushed, refuse]

/-- A `pop` that succeeds adds its item. -/
@[simp] lemma storeHead_popped : (s.storeHead i item).popped = s.popped ++ [item] := by
  simp [popped, storeHead, List.reduceOption_append]

/-- A `pop` that fails adds none. -/
@[simp] lemma miss_popped : s.miss.popped = s.popped := by
  simp [popped, miss, List.reduceOption_append]

end Results

/-- An atomic step of the producer. -/
inductive Produce : State T k → State T k → Prop where
  | push {s} (item : T) :
    s.producer = .idle →
    Produce s { s with producer := .pushHead item s.ring.tail }
  | pushFull {s item tail} :
    s.producer = .pushHead item tail →
    tail - s.ring.head = capacity k →
    Produce s (s.refuse item)
  | pushRoom {s item tail} :
    s.producer = .pushHead item tail →
    tail - s.ring.head ≠ capacity k →
    Produce s { s with producer := .pushWrite item tail }
  | pushWrite {s item tail} :
    s.producer = .pushWrite item tail →
    Produce s (s.write tail item)
  | pushStore {s item tail} :
    s.producer = .pushStore item tail →
    Produce s (s.storeTail tail item)
  | sizeFromTail {s} :
    s.producer = .idle →
    Produce s { s with producer := .sizeHead s.ring.tail }
  | sizeFromHead {s} :
    s.producer = .idle →
    Produce s { s with producer := .sizeTail s.ring.head }
  | sizeHead {s tail} :
    s.producer = .sizeHead tail →
    Produce s { s with producer := .idle, sizes := s.sizes ++ [tail - s.ring.head] }
  | sizeTail {s head} :
    s.producer = .sizeTail head →
    Produce s { s with producer := .idle, sizes := s.sizes ++ [s.ring.tail - head] }

/-- An atomic step of the consumer. -/
inductive Consume : State T k → State T k → Prop where
  | pop {s} :
    s.consumer = .idle →
    Consume s { s with consumer := .popTail s.ring.head }
  | popEmpty {s head} :
    s.consumer = .popTail head →
    head = s.ring.tail →
    Consume s s.miss
  | popSome {s head} :
    s.consumer = .popTail head →
    head ≠ s.ring.tail →
    Consume s { s with consumer := .popRead head }
  | popRead {s head} :
    s.consumer = .popRead head →
    Consume s { s with consumer := .popStore head (s.ring.slots (slotOf k head)) }
  | popStore {s head item} :
    s.consumer = .popStore head item →
    Consume s (s.storeHead head item)
  | sizeFromTail {s} :
    s.consumer = .idle →
    Consume s { s with consumer := .sizeHead s.ring.tail }
  | sizeFromHead {s} :
    s.consumer = .idle →
    Consume s { s with consumer := .sizeTail s.ring.head }
  | sizeHead {s tail} :
    s.consumer = .sizeHead tail →
    Consume s { s with consumer := .idle, sizes := s.sizes ++ [tail - s.ring.head] }
  | sizeTail {s head} :
    s.consumer = .sizeTail head →
    Consume s { s with consumer := .idle, sizes := s.sizes ++ [s.ring.tail - head] }

/-- A step of either thread. -/
def Step (s s' : State T k) : Prop := Produce s s' ∨ Consume s s'

/-- Steps of the two threads in any order. -/
abbrev Steps : State T k → State T k → Prop := Relation.ReflTransGen Step

end State

/-! ## The invariant -/

/-- What the producer knows, with `t` items pushed and `h` popped. -/
def Producer.Knows (r : SPSCRing T k) (t h : ℕ) : Producer T → Prop
  | .idle => True
  | .pushHead _ tail => tail = r.tail
  | .pushWrite _ tail => tail = r.tail ∧ t < h + 2 ^ k.val
  | .pushStore item tail => tail = r.tail ∧ t < h + 2 ^ k.val ∧ r.slots (slotOf k tail) = item
  | .sizeHead tail => tail = r.tail
  | .sizeTail head => ∃ h₀ ≤ h, head = BitVec.ofNat 64 h₀ ∧ t ≤ h₀ + 2 ^ k.val

/-- What the consumer knows, with `h` items popped. -/
def Consumer.Knows (r : SPSCRing T k) (pushed : List T) (h : ℕ) : Consumer T → Prop
  | .idle => True
  | .popTail head => head = r.head
  | .popRead head => head = r.head ∧ h < pushed.length
  | .popStore head item => head = r.head ∧ pushed[h]? = some item
  | .sizeHead tail => ∃ t₀ ≤ pushed.length, tail = BitVec.ofNat 64 t₀ ∧ h ≤ t₀
  | .sizeTail head => head = r.head

/-- What holds between any two steps. -/
structure Inv (s : State T k) : Prop where
  ring : s.ring.Contains s.pushed s.popped.length
  order : s.popped <+: s.pushed
  producer : s.producer.Knows s.ring s.pushed.length s.popped.length
  consumer : s.consumer.Knows s.ring s.pushed s.popped.length
  sizes : ∀ v ∈ s.sizes, v.toNat ≤ 2 ^ k.val

/-- What the producer knows stays true while the consumer goes on. -/
lemma Producer.Knows.mono {r r' : SPSCRing T k} {p : Producer T} {t h h' : ℕ} (know : p.Knows r t h)
    (le : h ≤ h') (tail : r'.tail = r.tail) (slots : r'.slots = r.slots) : p.Knows r' t h' := by
  cases p with
  | idle => trivial
  | pushHead item tl => exact Eq.trans know tail.symm
  | pushWrite item tl => exact ⟨know.1.trans tail.symm, by have := know.2; omega⟩
  | pushStore item tl =>
    refine ⟨know.1.trans tail.symm, by have := know.2.1; omega, ?_⟩
    rw [slots]
    exact know.2.2
  | sizeHead tl => exact Eq.trans know tail.symm
  | sizeTail hd =>
    obtain ⟨h₀, le₀, e, high⟩ := know
    exact ⟨h₀, le₀.trans le, e, high⟩

/-- What the consumer knows stays true while the producer goes on. -/
lemma Consumer.Knows.mono {r r' : SPSCRing T k} {c : Consumer T} {pushed pushed' : List T} {h : ℕ}
    (know : c.Knows r pushed h) (pre : pushed <+: pushed') (head : r'.head = r.head) :
    c.Knows r' pushed' h := by
  have le := pre.length_le
  cases c with
  | idle => trivial
  | popTail hd => exact Eq.trans know head.symm
  | popRead hd => exact ⟨know.1.trans head.symm, lt_of_lt_of_le know.2 le⟩
  | popStore hd item =>
    obtain ⟨rest, rfl⟩ := pre
    exact ⟨know.1.trans head.symm, Ring.getElem?_append_of_some know.2⟩
  | sizeHead tl =>
    obtain ⟨t₀, le₀, e, low⟩ := know
    exact ⟨t₀, le₀.trans le, e, low⟩
  | sizeTail hd => exact Eq.trans know head.symm

namespace Inv

variable {s s' : State T k}

/-- Nothing is pushed or popped. -/
lemma init (slots : Fin (2 ^ k.val) → T) : Inv (State.init slots) where
  ring := .new slots
  order := List.prefix_refl _
  producer := trivial
  consumer := trivial
  sizes := by
    intro v mem
    cases mem

/-- One more value that `size` has returned. -/
lemma sizes_concat (h : Inv s) {v : BitVec 64} (le : v.toNat ≤ 2 ^ k.val) :
    ∀ u ∈ s.sizes ++ [v], u.toNat ≤ 2 ^ k.val := by
  intro u mem
  rcases List.mem_append.mp mem with old | new
  · exact h.sizes u old
  · rw [List.mem_singleton.mp new]
    exact le

/-- A value between cursors that are at most `N` apart. -/
lemma size_le {t h : ℕ} (low : h ≤ t) (high : t ≤ h + 2 ^ k.val) :
    (BitVec.ofNat 64 t - BitVec.ofNat 64 h).toNat ≤ 2 ^ k.val := by
  rw [toNat_sub low high]
  omega

/-- The producer keeps the invariant. -/
lemma produce (h : Inv s) (st : State.Produce s s') : Inv s' := by
  have know := h.producer
  have low := h.ring.holds.low
  have high := h.ring.holds.high
  cases st with
  | push item _ => exact ⟨h.ring, h.order, rfl, h.consumer, h.sizes⟩
  | @pushFull item _ _ _ =>
    have same := s.refuse_pushed item
    exact ⟨by rw [same]; exact h.ring, by rw [same]; exact h.order, trivial,
      by rw [same]; exact h.consumer, h.sizes⟩
  | @pushRoom item tail here room =>
    rw [here] at know
    obtain rfl : tail = s.ring.tail := know
    exact ⟨h.ring, h.order, ⟨rfl, h.ring.room room⟩, h.consumer, h.sizes⟩
  | @pushWrite item tail here =>
    rw [here] at know
    obtain ⟨rfl, room⟩ := know
    exact ⟨h.ring.write room item, h.order, ⟨rfl, room, Function.update_self _ _ _⟩,
      h.consumer.mono (List.prefix_refl _) rfl, h.sizes⟩
  | @pushStore item tail here =>
    rw [here] at know
    obtain ⟨rfl, room, written⟩ := know
    have pre := List.prefix_append s.pushed [item]
    have more := s.storeTail_pushed s.ring.tail item
    exact ⟨by rw [more]; exact h.ring.store room written, by rw [more]; exact h.order.trans pre, trivial,
      by rw [more]; exact h.consumer.mono pre rfl, h.sizes⟩
  | sizeFromTail _ => exact ⟨h.ring, h.order, rfl, h.consumer, h.sizes⟩
  | sizeFromHead _ =>
    exact ⟨h.ring, h.order, ⟨_, le_rfl, h.ring.head, high⟩, h.consumer, h.sizes⟩
  | @sizeHead tail here =>
    rw [here] at know
    obtain rfl : tail = s.ring.tail := know
    refine ⟨h.ring, h.order, trivial, h.consumer, h.sizes_concat ?_⟩
    rw [h.ring.tail, h.ring.head]
    exact size_le low high
  | @sizeTail head here =>
    -- the head read may be behind by now, but nothing was pushed since it was read
    rw [here] at know
    obtain ⟨h₀, le, rfl, high₀⟩ := know
    refine ⟨h.ring, h.order, trivial, h.consumer, h.sizes_concat ?_⟩
    rw [h.ring.tail]
    exact size_le (le.trans low) high₀

/-- So does the consumer. -/
lemma consume (h : Inv s) (st : State.Consume s s') : Inv s' := by
  have know := h.consumer
  have low := h.ring.holds.low
  have high := h.ring.holds.high
  cases st with
  | pop _ => exact ⟨h.ring, h.order, h.producer, rfl, h.sizes⟩
  | popEmpty _ _ =>
    have same := s.miss_popped
    exact ⟨by rw [same]; exact h.ring, by rw [same]; exact h.order, by rw [same]; exact h.producer,
      trivial, h.sizes⟩
  | @popSome head here some =>
    rw [here] at know
    obtain rfl : head = s.ring.head := know
    exact ⟨h.ring, h.order, h.producer, ⟨rfl, h.ring.some some⟩, h.sizes⟩
  | @popRead head here =>
    rw [here] at know
    obtain ⟨rfl, some⟩ := know
    exact ⟨h.ring, h.order, h.producer, ⟨rfl, h.ring.read some⟩, h.sizes⟩
  | @popStore head item here =>
    rw [here] at know
    obtain ⟨rfl, get⟩ := know
    have some := (List.getElem?_eq_some_iff.mp get).1
    have more := s.storeHead_popped s.ring.head item
    have len : (s.popped ++ [item]).length = s.popped.length + 1 := List.length_append
    refine ⟨?_, ?_, ?_, trivial, h.sizes⟩
    · rw [more, len]
      exact h.ring.take some
    · -- the item read is the first of those pushed and not popped
      obtain ⟨rest, e⟩ := h.order
      cases rest with
      | nil =>
        rw [List.append_nil] at e
        rw [e] at some
        exact absurd some (Nat.lt_irrefl _)
      | cons x rest =>
        rw [← e, List.getElem?_append_right le_rfl, Nat.sub_self] at get
        obtain rfl : x = item := Option.some.inj get
        exact ⟨rest, by rw [more, List.append_assoc]; exact e⟩
    · rw [more, len]
      exact h.producer.mono (Nat.le_succ _) rfl rfl
  | sizeFromTail _ =>
    exact ⟨h.ring, h.order, h.producer, ⟨_, le_rfl, h.ring.tail, low⟩, h.sizes⟩
  | sizeFromHead _ => exact ⟨h.ring, h.order, h.producer, rfl, h.sizes⟩
  | @sizeHead tail here =>
    -- the tail read may be behind by now, but nothing was popped since it was read
    rw [here] at know
    obtain ⟨t₀, le, rfl, low₀⟩ := know
    refine ⟨h.ring, h.order, h.producer, trivial, h.sizes_concat ?_⟩
    rw [h.ring.head]
    exact size_le low₀ (le.trans high)
  | @sizeTail head here =>
    rw [here] at know
    obtain rfl : head = s.ring.head := know
    refine ⟨h.ring, h.order, h.producer, trivial, h.sizes_concat ?_⟩
    rw [h.ring.tail, h.ring.head]
    exact size_le low high

/-- The invariant holds in every run. -/
lemma steps {slots : Fin (2 ^ k.val) → T} (run : State.Steps (State.init slots) s) : Inv s := by
  induction run with
  | refl => exact init slots
  | tail _ st ih =>
    rcases st with st | st
    · exact ih.produce st
    · exact ih.consume st

/-- A `push` that fails finds the queue full. -/
lemma full (h : Inv s) {item : T} {tail : BitVec 64} (here : s.producer = .pushHead item tail)
    (full : tail - s.ring.head = capacity k) : s.queue.length = 2 ^ k.val := by
  have know := h.producer
  rw [here] at know
  obtain rfl : tail = s.ring.tail := know
  rw [State.queue, List.length_drop, h.ring.full_iff.mp full, Nat.add_sub_cancel_left]

/-- A `pop` that fails finds the queue empty. -/
lemma empty (h : Inv s) {head : BitVec 64} (here : s.consumer = .popTail head)
    (empty : head = s.ring.tail) : s.queue = [] := by
  have know := h.consumer
  rw [here] at know
  obtain rfl : head = s.ring.head := know
  have := h.ring.empty_iff.mp empty
  exact List.drop_eq_nil_iff.mpr this.le

/-- A `push` that succeeds had room, and its item joins the queue at the end. -/
lemma queue_storeTail (h : Inv s) {item : T} {tail : BitVec 64}
    (here : s.producer = .pushStore item tail) :
    s.queue.length < 2 ^ k.val ∧ (s.storeTail tail item).queue = s.queue ++ [item] := by
  have know := h.producer
  rw [here] at know
  constructor
  · rw [State.queue, List.length_drop]
    have := know.2.1
    have := h.ring.holds.low
    omega
  · rw [State.queue, s.storeTail_pushed]
    exact List.drop_append_of_le_length h.ring.holds.low

/-- A `pop` that succeeds takes the first item of the queue. -/
lemma queue_storeHead (h : Inv s) {item : T} {head : BitVec 64}
    (here : s.consumer = .popStore head item) : s.queue = item :: (s.storeHead head item).queue := by
  have know := h.consumer
  rw [here] at know
  obtain ⟨lt, get⟩ := List.getElem?_eq_some_iff.mp know.2
  rw [State.queue, State.queue, s.storeHead_popped, List.length_append, List.drop_eq_getElem_cons lt, get]
  rfl

/-- A failed `push` leaves the queue alone. -/
lemma queue_refuse (s : State T k) (item : T) : (s.refuse item).queue = s.queue := by
  rw [State.queue, s.refuse_pushed]
  rfl

/-- A failed `pop` leaves the queue alone. -/
lemma queue_miss (s : State T k) : s.miss.queue = s.queue := by
  rw [State.queue, s.miss_popped]
  rfl

/-- The queue changes as a bounded queue does: an item joins at the end if there is room, or the first one
leaves. -/
lemma queue_step (h : Inv s) (st : State.Step s s') :
    s'.queue = s.queue ∨
    (∃ item, s.queue.length < 2 ^ k.val ∧ s'.queue = s.queue ++ [item]) ∨
    ∃ item, s.queue = item :: s'.queue := by
  rcases st with st | st
  · cases st with
    | pushFull _ _ => exact .inl (queue_refuse s _)
    | pushStore here => exact .inr (.inl ⟨_, h.queue_storeTail here⟩)
    | _ => exact .inl rfl
  · cases st with
    | popEmpty _ _ => exact .inl (queue_miss s)
    | popStore here => exact .inr (.inr ⟨_, h.queue_storeHead here⟩)
    | _ => exact .inl rfl

/-- A call of `push` ends in one of two ways. -/
lemma push_returns (h : Inv s) {item : T} (st : State.Produce s s')
    (call : s.producer.pushing = some item) (ends : s'.producer.pushing = none) :
    (s'.pushes = s.pushes ++ [(item, true)] ∧ s.queue.length < 2 ^ k.val ∧
      s'.queue = s.queue ++ [item]) ∨
    s'.pushes = s.pushes ++ [(item, false)] ∧ s.queue.length = 2 ^ k.val ∧ s'.queue = s.queue := by
  cases st with
  | pushFull here full =>
    rw [here] at call
    cases call
    exact .inr ⟨rfl, h.full here full, queue_refuse s _⟩
  | pushStore here =>
    rw [here] at call
    cases call
    exact .inl ⟨rfl, h.queue_storeTail here⟩
  | pushRoom here _ | pushWrite here => cases ends
  | push _ here | sizeFromTail here | sizeFromHead here | sizeHead here | sizeTail here =>
    rw [here] at call
    cases call

/-- A call of `pop` ends in one of two ways. -/
lemma pop_returns (h : Inv s) (st : State.Consume s s') (call : s.consumer.popping = true)
    (ends : s'.consumer.popping = false) :
    (∃ item, s'.pops = s.pops ++ [some item] ∧ s.queue = item :: s'.queue) ∨
    s'.pops = s.pops ++ [none] ∧ s.queue = [] ∧ s'.queue = [] := by
  cases st with
  | popEmpty here empty =>
    have nil := h.empty here empty
    exact .inr ⟨rfl, nil, (queue_miss s).trans nil⟩
  | popStore here => exact .inl ⟨_, rfl, h.queue_storeHead here⟩
  | popSome here _ | popRead here => cases ends
  | pop here | sizeFromTail here | sizeFromHead here | sizeHead here | sizeTail here =>
    rw [here] at call
    cases call

end Inv

/-- The ring refines a bounded first-in first-out queue. In every state of every interleaving of a
producer and a consumer: what was popped is a prefix of what was pushed; `tail_ - head_` is the number
of items in the queue and at most `N`; a slot about to be written holds no item of the queue and is
not one about to be read; `size` has returned nothing above `N`; and every step leaves the queue alone,
adds an item at its end if it has fewer than `N`, or takes the first one off. The step with which a call
of `push` returns adds its item to the queue and returns `true`, or finds `N` items there and returns
`false`; that of a call of `pop` takes and returns the first item, or finds none and returns `false`. -/
theorem ring_refines_queue (T : Type) (k : Fin 64) (slots : Fin (2 ^ k.val) → T) (s : State T k)
    (run : State.Steps (State.init slots) s) :
    s.popped <+: s.pushed ∧
    (s.ring.tail - s.ring.head).toNat = s.queue.length ∧ s.queue.length ≤ 2 ^ k.val ∧
    (∀ s' item, State.Produce s s' → s.producer.pushing = some item → s'.producer.pushing = none →
      (s'.pushes = s.pushes ++ [(item, true)] ∧ s.queue.length < 2 ^ k.val ∧
        s'.queue = s.queue ++ [item]) ∨
      s'.pushes = s.pushes ++ [(item, false)] ∧ s.queue.length = 2 ^ k.val ∧ s'.queue = s.queue) ∧
    (∀ s', State.Consume s s' → s.consumer.popping = true → s'.consumer.popping = false →
      (∃ item, s'.pops = s.pops ++ [some item] ∧ s.queue = item :: s'.queue) ∨
      s'.pops = s.pops ++ [none] ∧ s.queue = [] ∧ s'.queue = []) ∧
    (∀ item tail, s.producer = .pushWrite item tail →
      (∀ i, s.popped.length ≤ i → i < s.pushed.length → cell k i ≠ slotOf k tail) ∧
      ∀ head, s.consumer = .popRead head → slotOf k head ≠ slotOf k tail) ∧
    (∀ v ∈ s.sizes, v.toNat ≤ 2 ^ k.val) ∧
    ∀ s', State.Step s s' → s'.queue = s.queue ∨
      (∃ item, s.queue.length < 2 ^ k.val ∧ s'.queue = s.queue ++ [item]) ∨
      ∃ item, s.queue = item :: s'.queue := by
  have h := Inv.steps run
  have high := h.ring.holds.high
  have len : s.queue.length = s.pushed.length - s.popped.length := List.length_drop
  have pos := Nat.two_pow_pos k.val
  refine ⟨h.order, h.ring.toNat_size.trans len.symm, by omega, fun s' item => h.push_returns,
    fun s' => h.pop_returns, ?_, h.sizes, fun s' => h.queue_step⟩
  intro item tail here
  have know := h.producer
  rw [here] at know
  obtain ⟨rfl, room⟩ := know
  have apart : ∀ i, s.popped.length ≤ i → i < s.pushed.length → cell k i ≠ slotOf k s.ring.tail := by
    intro i le lt
    rw [h.ring.tail]
    exact turn k i _ lt (by omega)
  refine ⟨apart, ?_⟩
  intro head there
  have know := h.consumer
  rw [there] at know
  obtain ⟨rfl, some⟩ := know
  have first := apart _ le_rfl some
  rw [h.ring.head]
  exact first

/-- A ring for one item: of two calls of `push` the second fails, and so does the second of `pop`. -/
theorem ring_refines_queue_both_ways : ∃ s : State ℕ 0, State.Steps (State.init fun _ => 0) s ∧
    s.pushes = [(7, true), (8, false)] ∧ s.pops = [some 7, none] ∧ s.popped <+: s.pushed ∧
    (s.ring.tail - s.ring.head).toNat = s.queue.length := by
  have start : State.Steps (State.init (k := 0) fun _ => 0) _ := .single (.inl (.push 7 rfl))
  have pushed := ((start.tail (.inl (.pushRoom rfl (by decide)))).tail (.inl (.pushWrite rfl))).tail
    (.inl (.pushStore rfl))
  have refused := (pushed.tail (.inl (.push 8 rfl))).tail (.inl (.pushFull rfl (by decide)))
  have popped := (((refused.tail (.inr (.pop rfl))).tail (.inr (.popSome rfl (by decide)))).tail
    (.inr (.popRead rfl))).tail (.inr (.popStore rfl))
  have missed := (popped.tail (.inr (.pop rfl))).tail (.inr (.popEmpty rfl (by decide)))
  obtain ⟨order, size, _⟩ := ring_refines_queue ℕ 0 _ _ missed
  exact ⟨_, missed, rfl, rfl, order, size⟩

end SPSCRing

end UxNet
