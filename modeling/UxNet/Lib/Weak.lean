import Mathlib.Tactic

/-!
# Release and acquire

Shared memory with the orders that C++20 gives to atomic operations, apart from fences and `seq_cst`. A
location has messages, one for each write to it, whose times are its modification order; they are listed in
the order in which they were made. A thread has a view: for each location the time up to which it has
seen it, and for each thread how many of its plain reads happened before. A load may return any message
that is not older than the view of its thread, and a store takes any free time that is later. A message
carries the view of a release store, and an acquire load adds it to the view of its thread. An update (a
read-modify-write) takes the time right after the message that it reads, and passes the view of that
message on, whatever its own order is.

Plain accesses are as relaxed ones, but a plain read is on record with the location. `CanRead` and
`CanWrite` say that a plain access has no race with an earlier one.

`Owned` is for a location that one thread writes and `Chain` for one that is only written by updates.
`Holds` is for a location that is handed over: it may be held by a thread, or by a message from which the
next thread will get it.
-/

namespace UxNet.Weak

/-- `std::memory_order`. -/
inductive Order where
  | relaxed
  | acquire
  | release
deriving DecidableEq, Repr

/-- What a thread has seen. -/
@[ext]
structure View (Loc Tid : Type) where
  time : Loc → ℕ
  reads : Tid → ℕ

namespace View

variable {Loc Tid : Type}

instance : SemilatticeSup (View Loc Tid) where
  le v w := v.time ≤ w.time ∧ v.reads ≤ w.reads
  le_refl v := ⟨le_rfl, le_rfl⟩
  le_trans _ _ _ h h' := ⟨h.1.trans h'.1, h.2.trans h'.2⟩
  le_antisymm _ _ h h' := View.ext (le_antisymm h.1 h'.1) (le_antisymm h.2 h'.2)
  sup v w := { time := v.time ⊔ w.time, reads := v.reads ⊔ w.reads }
  le_sup_left _ _ := ⟨le_sup_left, le_sup_left⟩
  le_sup_right _ _ := ⟨le_sup_right, le_sup_right⟩
  sup_le _ _ _ h h' := ⟨sup_le h.1 h'.1, sup_le h.2 h'.2⟩

instance : OrderBot (View Loc Tid) where
  bot := { time := fun _ => 0, reads := fun _ => 0 }
  bot_le _ := ⟨fun _ => Nat.zero_le _, fun _ => Nat.zero_le _⟩

/-- A location has been seen up to a time. -/
def upTo [DecidableEq Loc] (x : Loc) (time : ℕ) : View Loc Tid where
  time := Function.update (fun _ => 0) x time
  reads := fun _ => 0

/-- A thread has made this number of plain reads. -/
def made [DecidableEq Tid] (t : Tid) (n : ℕ) : View Loc Tid where
  time := fun _ => 0
  reads := Function.update (fun _ => 0) t n

/-- Two views together have seen a location as far as the one that has seen more of it. -/
@[simp] lemma sup_time (v w : View Loc Tid) (x : Loc) : (v ⊔ w).time x = max (v.time x) (w.time x) := rfl

/-- Two views together have the reads of the one that has more of them. -/
@[simp] lemma sup_reads (v w : View Loc Tid) (t : Tid) :
    (v ⊔ w).reads t = max (v.reads t) (w.reads t) := rfl

/-- The least view has seen the first message of each location. -/
@[simp] lemma bot_time (x : Loc) : (⊥ : View Loc Tid).time x = 0 := rfl

/-- The least view has no reads. -/
@[simp] lemma bot_reads (t : Tid) : (⊥ : View Loc Tid).reads t = 0 := rfl

/-- The location that was seen. -/
@[simp] lemma upTo_time_self [DecidableEq Loc] (x : Loc) (n : ℕ) :
    (upTo x n : View Loc Tid).time x = n := by simp [upTo]

/-- The other locations were not. -/
@[simp] lemma upTo_time_of_ne [DecidableEq Loc] {x y : Loc} (ne : y ≠ x) (n : ℕ) :
    (upTo x n : View Loc Tid).time y = 0 := by simp [upTo, ne]

/-- Seeing a location is not a plain read. -/
@[simp] lemma upTo_reads [DecidableEq Loc] (x : Loc) (n : ℕ) (t : Tid) :
    (upTo x n : View Loc Tid).reads t = 0 := rfl

/-- Plain reads are counted for the thread, not for the location. -/
@[simp] lemma made_time [DecidableEq Tid] (t : Tid) (n : ℕ) (x : Loc) :
    (made t n : View Loc Tid).time x = 0 := rfl

/-- The thread that has made the reads. -/
@[simp] lemma made_reads_self [DecidableEq Tid] (t : Tid) (n : ℕ) :
    (made t n : View Loc Tid).reads t = n := by simp [made]

/-- The other threads have made none. -/
@[simp] lemma made_reads_of_ne [DecidableEq Tid] {t u : Tid} (ne : u ≠ t) (n : ℕ) :
    (made t n : View Loc Tid).reads u = 0 := by simp [made, ne]

end View

/-- A write to a location. -/
structure Msg (Loc Tid A : Type) where
  time : ℕ
  val : A
  view : View Loc Tid

variable {Loc Tid : Type} {V : Loc → Type}

/-- The messages of each location, the last plain read of each thread there, and what the threads have
seen. -/
structure Memory (Tid : Type) (V : Loc → Type) where
  cell : (x : Loc) → List (Msg Loc Tid (V x))
  readers : Loc → Tid → ℕ
  view : Tid → View Loc Tid

/-- The part of a message's view that a read takes over. -/
def Order.taken (o : Order) (v : View Loc Tid) : View Loc Tid := if o = .acquire then v else ⊥

/-- The part of a thread's view that a write gives to its message. -/
def Order.given (o : Order) (v : View Loc Tid) : View Loc Tid := if o = .release then v else ⊥

namespace Memory

/-- A memory that all threads have seen. -/
def init (v : (x : Loc) → V x) : Memory Tid V where
  cell := fun x => [{ time := 0, val := v x, view := ⊥ }]
  readers := fun _ _ => 0
  view := fun _ => ⊥

/-- No message has this time. -/
def Free (m : Memory Tid V) (x : Loc) (time : ℕ) : Prop := ∀ msg ∈ m.cell x, msg.time ≠ time

instance (m : Memory Tid V) (x : Loc) (time : ℕ) : Decidable (m.Free x time) :=
  inferInstanceAs (Decidable (∀ msg ∈ m.cell x, msg.time ≠ time))

/-- Messages and views only become more. -/
structure Grows (m m' : Memory Tid V) : Prop where
  view : ∀ t, m.view t ≤ m'.view t
  cell : ∀ x, m.cell x <+: m'.cell x

/-- Nothing was done to a location. -/
def Same (m m' : Memory Tid V) (x : Loc) : Prop := m'.cell x = m.cell x ∧ m'.readers x = m.readers x

/-- A plain read by a thread has no race: it has seen all writes. -/
def CanRead (m : Memory Tid V) (t : Tid) (x : Loc) : Prop :=
  ∀ msg ∈ m.cell x, msg.time ≤ (m.view t).time x

/-- A plain write by a thread has no race: all writes and plain reads happened before. -/
def CanWrite (m : Memory Tid V) (t : Tid) (x : Loc) : Prop :=
  m.CanRead t x ∧ ∀ u, m.readers x u ≤ (m.view t).reads u

variable {m m' : Memory Tid V} {t u : Tid} {x y : Loc} {o : Order} {a b : V x}

/-- A message stays where it is. -/
lemma Grows.getElem? (h : Grows m m') {i : ℕ} {msg : Msg Loc Tid (V x)}
    (get : (m.cell x)[i]? = some msg) : (m'.cell x)[i]? = some msg := by
  obtain ⟨rest, e⟩ := h.cell x
  rw [← e, List.getElem?_append_left (List.getElem?_eq_some_iff.mp get).1]
  exact get

section See

variable [DecidableEq Tid]

/-- A thread sees more. -/
def see (m : Memory Tid V) (t : Tid) (v : View Loc Tid) : Memory Tid V :=
  { m with view := Function.update m.view t (m.view t ⊔ v) }

/-- Seeing more writes nothing. -/
@[simp] lemma see_cell (v : View Loc Tid) : (m.see t v).cell = m.cell := rfl

/-- Seeing more is not a plain read. -/
@[simp] lemma see_readers (v : View Loc Tid) : (m.see t v).readers = m.readers := rfl

/-- The thread has seen both. -/
@[simp] lemma see_view_self (v : View Loc Tid) : (m.see t v).view t = m.view t ⊔ v := by
  simp [see]

/-- The other threads have seen what they had. -/
@[simp] lemma see_view_of_ne (ne : u ≠ t) (v : View Loc Tid) : (m.see t v).view u = m.view u := by
  simp [see, ne]

/-- No thread has seen less. -/
lemma le_see (v : View Loc Tid) (u : Tid) : m.view u ≤ (m.see t v).view u := by
  by_cases here : u = t
  · subst here
    rw [see_view_self]
    exact le_sup_left
  · rw [see_view_of_ne here]

end See

section Add

variable [DecidableEq Loc]

/-- One more message. -/
def add (m : Memory Tid V) (x : Loc) (msg : Msg Loc Tid (V x)) : Memory Tid V :=
  { m with cell := Function.update m.cell x (m.cell x ++ [msg]) }

/-- A message is not seen by being there. -/
@[simp] lemma add_view (msg : Msg Loc Tid (V x)) : (m.add x msg).view = m.view := rfl

/-- A message is not a plain read. -/
@[simp] lemma add_readers (msg : Msg Loc Tid (V x)) : (m.add x msg).readers = m.readers := rfl

/-- The location has one message more. -/
@[simp] lemma add_cell_self (msg : Msg Loc Tid (V x)) : (m.add x msg).cell x = m.cell x ++ [msg] := by
  simp [add]

/-- The other locations have what they had. -/
@[simp] lemma add_cell_of_ne (ne : y ≠ x) (msg : Msg Loc Tid (V x)) :
    (m.add x msg).cell y = m.cell y := by
  simp [add, ne]

end Add

section Steps

variable [DecidableEq Loc] [DecidableEq Tid]

/-- An atomic load, with the value it returns. -/
inductive Load (m : Memory Tid V) (t : Tid) (x : Loc) (o : Order) : V x → Memory Tid V → Prop where
  | of (msg) :
    msg ∈ m.cell x →
    (m.view t).time x ≤ msg.time →
    Load m t x o msg.val (m.see t (.upTo x msg.time ⊔ o.taken msg.view))

/-- An atomic store. -/
inductive Store (m : Memory Tid V) (t : Tid) (x : Loc) (o : Order) (a : V x) : Memory Tid V → Prop where
  | of (time) :
    (m.view t).time x < time →
    m.Free x time →
    Store m t x o a ((m.see t (.upTo x time)).add x
      { time := time, val := a, view := .upTo x time ⊔ o.given (m.view t) })

/-- A read-modify-write, with the value it reads. -/
inductive Update (m : Memory Tid V) (t : Tid) (x : Loc) (o : Order) (a : V x) :
    V x → Memory Tid V → Prop where
  | of (msg) :
    msg ∈ m.cell x →
    (m.view t).time x ≤ msg.time →
    m.Free x (msg.time + 1) →
    Update m t x o a msg.val ((m.see t (.upTo x (msg.time + 1) ⊔ o.taken msg.view)).add x
      { time := msg.time + 1, val := a, view := .upTo x (msg.time + 1) ⊔ msg.view ⊔ o.given (m.view t) })

/-- A plain read, with the value it returns. -/
inductive Read (m : Memory Tid V) (t : Tid) (x : Loc) : V x → Memory Tid V → Prop where
  | of (msg) :
    msg ∈ m.cell x →
    (m.view t).time x ≤ msg.time →
    Read m t x msg.val { m.see t (.upTo x msg.time ⊔ .made t ((m.view t).reads t + 1)) with
      readers := Function.update m.readers x
        (Function.update (m.readers x) t ((m.view t).reads t + 1)) }

/-- A plain write. -/
def Write (m : Memory Tid V) (t : Tid) (x : Loc) (a : V x) (m' : Memory Tid V) : Prop :=
  m.Store t x .relaxed a m'

/-- A plain write is a relaxed store. -/
lemma Write.store (h : Write m t x a m') : Store m t x .relaxed a m' := h

/-! ## What a step changes -/

namespace Load

/-- A load writes nothing. -/
lemma cell (h : Load m t x o a m') : m'.cell = m.cell := by
  cases h with
  | of msg mem le => rfl

/-- A load is not a plain read. -/
lemma readers (h : Load m t x o a m') : m'.readers = m.readers := by
  cases h with
  | of msg mem le => rfl

/-- A load changes the view of its thread only. -/
lemma view_of_ne (h : Load m t x o a m') (ne : u ≠ t) : m'.view u = m.view u := by
  cases h with
  | of msg mem le => exact see_view_of_ne ne _

/-- A load only adds to the views. -/
lemma view_le (h : Load m t x o a m') (u : Tid) : m.view u ≤ m'.view u := by
  cases h with
  | of msg mem le => exact le_see _ u

/-- A load only adds to the memory. -/
lemma grows (h : Load m t x o a m') : Grows m m' where
  view := h.view_le
  cell := by
    intro y
    rw [h.cell]

/-- A relaxed load sees no more of the other locations. -/
lemma time_of_ne (h : Load m t x .relaxed a m') (ne : y ≠ x) :
    (m'.view t).time y = (m.view t).time y := by
  cases h with
  | of msg mem le => simp [ne, Order.taken]

/-- A load does nothing to any location. -/
lemma same (h : Load m t x o a m') (y : Loc) : Same m m' y :=
  ⟨congrFun h.cell y, congrFun h.readers y⟩

/-- The message that is read. -/
lemma msg (h : Load m t x o a m') : ∃ (k : ℕ) (msg : Msg Loc Tid (V x)),
    (m.cell x)[k]? = some msg ∧ msg.val = a ∧ (m.view t).time x ≤ msg.time ∧
    msg.time ≤ (m'.view t).time x ∧ (o = .acquire → msg.view ≤ m'.view t) := by
  cases h with
  | of msg mem le =>
    obtain ⟨k, get⟩ := List.mem_iff_getElem?.mp mem
    refine ⟨k, msg, get, rfl, le, ?_, ?_⟩
    · simp
    · rintro rfl
      rw [see_view_self]
      exact le_sup_of_le_right le_sup_right

end Load

namespace Read

/-- A plain read writes nothing. -/
lemma cell (h : Read m t x a m') : m'.cell = m.cell := by
  cases h with
  | of msg mem le => rfl

/-- A plain read changes the view of its thread only. -/
lemma view_of_ne (h : Read m t x a m') (ne : u ≠ t) : m'.view u = m.view u := by
  cases h with
  | of msg mem le => exact see_view_of_ne ne _

/-- A plain read only adds to the views. -/
lemma view_le (h : Read m t x a m') (u : Tid) : m.view u ≤ m'.view u := by
  cases h with
  | of msg mem le => exact le_see _ u

/-- A plain read only adds to the memory. -/
lemma grows (h : Read m t x a m') : Grows m m' where
  view := h.view_le
  cell := by
    intro y
    rw [h.cell]

/-- The read is the next one of its thread, and on record. -/
lemma reads (h : Read m t x a m') : (m'.view t).reads t = (m.view t).reads t + 1 := by
  cases h with
  | of msg mem le => simp

/-- A plain read is the last one of its thread at its location. -/
lemma readers_self (h : Read m t x a m') : m'.readers x t = (m.view t).reads t + 1 := by
  cases h with
  | of msg mem le => simp

/-- The other records stay as they are. -/
lemma readers_of_ne (h : Read m t x a m') (ne : y ≠ x ∨ u ≠ t) : m'.readers y u = m.readers y u := by
  cases h with
  | of msg mem le =>
    by_cases here : y = x
    · subst here
      simp [ne.resolve_left (fun h => h rfl)]
    · simp [here]

/-- A plain read sees no more of the other locations. -/
lemma time_of_ne (h : Read m t x a m') (ne : y ≠ x) :
    (m'.view t).time y = (m.view t).time y := by
  cases h with
  | of msg mem le => simp [ne]

/-- A plain read does nothing to the other locations. -/
lemma same (h : Read m t x a m') (ne : y ≠ x) : Same m m' y :=
  ⟨congrFun h.cell y, funext fun _ => h.readers_of_ne (.inl ne)⟩

/-- The message that is read. -/
lemma msg (h : Read m t x a m') : ∃ msg ∈ m.cell x, msg.val = a ∧ (m.view t).time x ≤ msg.time := by
  cases h with
  | of msg mem le => exact ⟨msg, mem, rfl, le⟩

end Read

namespace Store

/-- A store leaves the other locations alone. -/
lemma cell_of_ne (h : Store m t x o a m') (ne : y ≠ x) : m'.cell y = m.cell y := by
  cases h with
  | of time late free => exact add_cell_of_ne ne _

/-- A store is not a plain read. -/
lemma readers (h : Store m t x o a m') : m'.readers = m.readers := by
  cases h with
  | of time late free => rfl

/-- A store changes the view of its thread only. -/
lemma view_of_ne (h : Store m t x o a m') (ne : u ≠ t) : m'.view u = m.view u := by
  cases h with
  | of time late free => exact see_view_of_ne ne _

/-- A store only adds to the views. -/
lemma view_le (h : Store m t x o a m') (u : Tid) : m.view u ≤ m'.view u := by
  cases h with
  | of time late free => exact le_see _ u

/-- A store adds no reads to the view of its thread. -/
lemma reads (h : Store m t x o a m') : (m'.view t).reads = (m.view t).reads := by
  cases h with
  | of time late free =>
    funext w
    simp

/-- A store only adds to the memory. -/
lemma grows (h : Store m t x o a m') : Grows m m' where
  view := h.view_le
  cell := by
    intro y
    by_cases here : y = x
    · subst here
      cases h with
      | of time late free =>
        rw [add_cell_self]
        exact List.prefix_append _ _
    · rw [h.cell_of_ne here]

/-- A store sees no more of the other locations. -/
lemma time_of_ne (h : Store m t x o a m') (ne : y ≠ x) :
    (m'.view t).time y = (m.view t).time y := by
  cases h with
  | of time late free => simp [ne]

/-- A store does nothing to the other locations. -/
lemma same (h : Store m t x o a m') (ne : y ≠ x) : Same m m' y :=
  ⟨h.cell_of_ne ne, congrFun h.readers y⟩

/-- The message that is written. -/
lemma msg (h : Store m t x o a m') : ∃ msg : Msg Loc Tid (V x), m'.cell x = m.cell x ++ [msg] ∧ msg.val = a ∧
    (m.view t).time x < msg.time ∧ msg.time ≤ (m'.view t).time x ∧
    (o = .release → m.view t ≤ msg.view) := by
  cases h with
  | of time late free =>
    refine ⟨_, add_cell_self _, rfl, late, ?_, ?_⟩
    · simp
    · rintro rfl
      exact le_sup_right

end Store

namespace Update

/-- An update leaves the other locations alone. -/
lemma cell_of_ne (h : Update m t x o a b m') (ne : y ≠ x) : m'.cell y = m.cell y := by
  cases h with
  | of msg mem le free => exact add_cell_of_ne ne _

/-- A relaxed update sees no more of the other locations. -/
lemma time_of_ne (h : Update m t x .relaxed a b m') (ne : y ≠ x) :
    (m'.view t).time y = (m.view t).time y := by
  cases h with
  | of msg mem le free => simp [ne, Order.taken]

/-- An update does nothing to the other locations. -/
lemma same (h : Update m t x o a b m') (ne : y ≠ x) : Same m m' y := by
  refine ⟨h.cell_of_ne ne, ?_⟩
  cases h with
  | of msg mem le free => rfl

/-- An update changes the view of its thread only. -/
lemma view_of_ne (h : Update m t x o a b m') (ne : u ≠ t) : m'.view u = m.view u := by
  cases h with
  | of msg mem le free => exact see_view_of_ne ne _

/-- An update only adds to the views. -/
lemma view_le (h : Update m t x o a b m') (u : Tid) : m.view u ≤ m'.view u := by
  cases h with
  | of msg mem le free => exact le_see _ u

end Update

/-! ## Nobody knows more of a thread's reads than the thread itself -/

/-- No view has more reads of a thread than the thread has made. -/
structure Known (m : Memory Tid V) : Prop where
  view : ∀ t u, (m.view u).reads t ≤ (m.view t).reads t
  msg : ∀ x, ∀ msg ∈ m.cell x, ∀ t, msg.view.reads t ≤ (m.view t).reads t

namespace Known

omit [DecidableEq Loc] [DecidableEq Tid] in
/-- At the start there are no reads to know of. -/
lemma init (v : (x : Loc) → V x) : Known (init v : Memory Tid V) where
  view := fun _ _ => le_rfl
  msg := by
    intro x msg mem t
    rw [List.mem_singleton.mp mem]
    exact le_rfl

omit [DecidableEq Loc] in
/-- A thread may see what others know of themselves. -/
lemma see (h : Known m) {v : View Loc Tid} (le : ∀ u ≠ t, v.reads u ≤ (m.view u).reads u) :
    Known (m.see t v) where
  view := by
    intro w u
    by_cases here : u = t
    · subst here
      by_cases self : w = u
      · rw [self]
      · rw [see_view_self, see_view_of_ne self]
        exact max_le (h.view w u) (le w self)
    · rw [see_view_of_ne here]
      exact (h.view w u).trans ((le_see v w).2 w)
  msg := by
    intro x msg mem w
    exact (h.msg x msg mem w).trans ((le_see v w).2 w)

omit [DecidableEq Tid] in
/-- A message may carry what the threads know of themselves. -/
lemma add (h : Known m) {msg : Msg Loc Tid (V x)} (le : ∀ u, msg.view.reads u ≤ (m.view u).reads u) :
    Known (m.add x msg) where
  view := h.view
  msg := by
    intro y msg' mem w
    by_cases here : y = x
    · subst here
      rw [add_cell_self, List.mem_append, List.mem_singleton] at mem
      rcases mem with old | rfl
      · exact h.msg y msg' old w
      · exact le w
    · rw [add_cell_of_ne here] at mem
      exact h.msg y msg' mem w

omit [DecidableEq Loc] [DecidableEq Tid] in
/-- A read takes over no more than is known. -/
lemma taken (h : Known m) {msg : Msg Loc Tid (V x)} (mem : msg ∈ m.cell x) (o : Order) (u : Tid) :
    (o.taken msg.view).reads u ≤ (m.view u).reads u := by
  unfold Order.taken
  split
  · exact h.msg x msg mem u
  · exact Nat.zero_le _

omit [DecidableEq Loc] [DecidableEq Tid] in
/-- A write gives no more than is known. -/
lemma given (h : Known m) (o : Order) (u : Tid) :
    (o.given (m.view t)).reads u ≤ (m.view u).reads u := by
  unfold Order.given
  split
  · exact h.view u t
  · exact Nat.zero_le _

/-- A load keeps what is known. -/
lemma load (h : Known m) (st : Load m t x o a m') : Known m' := by
  cases st with
  | of msg mem le =>
    apply h.see
    intro u _
    exact max_le (Nat.zero_le _) (h.taken mem o u)

/-- A plain read is known to its thread first. -/
lemma read (h : Known m) (st : Read m t x a m') : Known m' := by
  cases st with
  | of msg mem le =>
    have seen : Known (m.see t (.upTo x msg.time ⊔ .made t ((m.view t).reads t + 1))) := by
      apply h.see
      intro u ne
      simp [ne]
    exact ⟨seen.view, seen.msg⟩

/-- A store keeps what is known. -/
lemma store (h : Known m) (st : Store m t x o a m') : Known m' := by
  cases st with
  | of time late free =>
    apply add
    · exact h.see fun u _ => Nat.zero_le _
    · intro u
      exact (max_le (Nat.zero_le _) (h.given o u)).trans ((le_see _ u).2 u)

/-- A load does not change the number of reads of its own thread. -/
lemma reads_load (h : Known m) (st : Load m t x o a m') : (m'.view t).reads t = (m.view t).reads t := by
  cases st with
  | of msg mem le =>
    rw [see_view_self]
    exact max_eq_left (max_le (Nat.zero_le _) (h.taken mem o t))

end Known

/-! ## One writer -/

/-- A thread has seen all messages of a location, and they were made in the order of their times. -/
structure Owned (m : Memory Tid V) (t : Tid) (x : Loc) : Prop where
  sorted : (m.cell x).Pairwise fun a b => a.time < b.time
  seen : m.CanRead t x

namespace Owned

omit [DecidableEq Loc] [DecidableEq Tid] in
/-- At the start everybody has seen the only message. -/
lemma init (v : (x : Loc) → V x) (t : Tid) (x : Loc) : Owned (init v : Memory Tid V) t x where
  sorted := List.pairwise_singleton _ _
  seen := by
    intro msg mem
    rw [List.mem_singleton.mp mem]
    exact le_rfl

omit [DecidableEq Loc] [DecidableEq Tid] in
/-- The owner may see more. -/
lemma mono (h : Owned m t x) (cell : m'.cell x = m.cell x) (le : m.view t ≤ m'.view t) :
    Owned m' t x where
  sorted := by rw [cell]; exact h.sorted
  seen := by
    intro msg mem
    rw [cell] at mem
    exact (h.seen msg mem).trans (le.1 x)

/-- The owner has seen its own store. -/
lemma store (h : Owned m t x) (st : Store m t x o a m') : Owned m' t x := by
  obtain ⟨msg, cell, _, late, le, _⟩ := st.msg
  constructor
  · rw [cell, List.pairwise_append]
    refine ⟨h.sorted, List.pairwise_singleton _ _, ?_⟩
    intro old mem new mem'
    rw [List.mem_singleton.mp mem']
    exact (h.seen old mem).trans_lt late
  · intro msg' mem
    rw [cell, List.mem_append, List.mem_singleton] at mem
    rcases mem with old | rfl
    · exact (h.seen msg' old).trans ((st.view_le t).1 x)
    · exact le

omit [DecidableEq Loc] [DecidableEq Tid] in
/-- A message that is not older than another was not made before it. -/
lemma index_le (h : Owned m t x) {i j : ℕ} {old new : Msg Loc Tid (V x)}
    (geti : (m.cell x)[i]? = some old) (getj : (m.cell x)[j]? = some new) (le : old.time ≤ new.time) :
    i ≤ j := by
  by_contra lt
  obtain ⟨hi, rfl⟩ := List.getElem?_eq_some_iff.mp geti
  obtain ⟨hj, rfl⟩ := List.getElem?_eq_some_iff.mp getj
  have later := List.pairwise_iff_getElem.mp h.sorted j i hj hi (by omega)
  omega

omit [DecidableEq Loc] [DecidableEq Tid] in
/-- No message but the last is left for the writer to read. -/
lemma last_of_le (h : Owned m t x) {k : ℕ} {msg : Msg Loc Tid (V x)} (get : (m.cell x)[k]? = some msg)
    (le : (m.view t).time x ≤ msg.time) : k + 1 = (m.cell x).length := by
  obtain ⟨lt, _⟩ := List.getElem?_eq_some_iff.mp get
  have last : (m.cell x).length - 1 < (m.cell x).length := by omega
  have seen := h.seen _ (List.getElem_mem last)
  have here := h.index_le (List.getElem?_eq_getElem last) get (seen.trans le)
  omega

/-- The writer itself loads the last message. -/
lemma load_last (h : Owned m t x) (st : Load m t x o a m') : ∃ (k : ℕ) (msg : Msg Loc Tid (V x)),
    k + 1 = (m.cell x).length ∧ (m.cell x)[k]? = some msg ∧ msg.val = a := by
  obtain ⟨k, msg, get, val, le, _⟩ := st.msg
  exact ⟨k, msg, h.last_of_le get le, get, val⟩

/-- The writer itself reads the last message. -/
lemma read_last (h : Owned m t x) (st : Read m t x a m') : ∃ (k : ℕ) (msg : Msg Loc Tid (V x)),
    k + 1 = (m.cell x).length ∧ (m.cell x)[k]? = some msg ∧ msg.val = a := by
  obtain ⟨msg, mem, val, le⟩ := st.msg
  obtain ⟨k, get⟩ := List.mem_iff_getElem?.mp mem
  exact ⟨k, msg, h.last_of_le get le, get, val⟩

end Owned

/-! ## What is handed over -/

/-- A view has all writes to a location. -/
def Saw (m : Memory Tid V) (v : View Loc Tid) (x : Loc) : Prop := ∀ msg ∈ m.cell x, msg.time ≤ v.time x

namespace Saw

variable {v w : View Loc Tid}

omit [DecidableEq Loc] [DecidableEq Tid] in
/-- Every view has what was there at the start. -/
lemma init (a : (x : Loc) → V x) (v : View Loc Tid) (x : Loc) : Saw (init a : Memory Tid V) v x := by
  intro msg mem
  rw [List.mem_singleton.mp mem]
  exact Nat.zero_le _

omit [DecidableEq Loc] [DecidableEq Tid] in
/-- As long as nothing is written, a view with more has it too. -/
lemma mono (h : Saw m v x) (same : m'.cell x = m.cell x) (le : v ≤ w) : Saw m' w x := by
  intro msg mem
  rw [same] at mem
  exact (h msg mem).trans (le.1 x)

/-- A thread that has seen all writes has seen its own too. -/
lemma store (h : Saw m (m.view t) x) (st : Store m t x o a m') : Saw m' (m'.view t) x := by
  obtain ⟨msg, cell, _, _, seen, _⟩ := st.msg
  intro msg' mem
  rw [cell, List.mem_append, List.mem_singleton] at mem
  rcases mem with old | rfl
  · exact (h msg' old).trans ((st.view_le t).1 x)
  · exact seen

end Saw

/-- A view has all that was done to a location. -/
def Holds (m : Memory Tid V) (v : View Loc Tid) (x : Loc) : Prop :=
  m.Saw v x ∧ ∀ u, m.readers x u ≤ v.reads u

namespace Holds

variable {v w : View Loc Tid}

omit [DecidableEq Loc] [DecidableEq Tid] in
/-- Who holds a location may write it. -/
lemma canWrite (h : Holds m (m.view t) x) : m.CanWrite t x := h

omit [DecidableEq Loc] [DecidableEq Tid] in
/-- At the start every view has all that was done. -/
lemma init (a : (x : Loc) → V x) (v : View Loc Tid) (x : Loc) : Holds (init a : Memory Tid V) v x :=
  ⟨.init a v x, fun _ => Nat.zero_le _⟩

omit [DecidableEq Loc] [DecidableEq Tid] in
/-- What is held stays held, by every larger view. -/
lemma mono (h : Holds m v x) (same : Same m m' x) (le : v ≤ w) : Holds m' w x := by
  refine ⟨h.1.mono same.1 le, ?_⟩
  rw [same.2]
  exact fun u => (h.2 u).trans (le.2 u)

/-- The holder has its own store. -/
lemma store (h : Holds m (m.view t) x) (st : Store m t x o a m') : Holds m' (m'.view t) x := by
  refine ⟨h.1.store st, ?_⟩
  rw [st.readers]
  exact fun u => (h.2 u).trans ((st.view_le t).2 u)

/-- The holder has its own read. -/
lemma read (h : Holds m (m.view t) x) (st : Read m t x a m') : Holds m' (m'.view t) x := by
  refine ⟨h.1.mono (congrFun st.cell x) (st.view_le t), ?_⟩
  intro u
  by_cases self : u = t
  · rw [self, st.readers_self, st.reads]
  · rw [st.readers_of_ne (.inr self)]
    exact (h.2 u).trans ((st.view_le t).2 u)

end Holds

/-! ## Only updates -/

/-- The messages of a location follow each other without a gap, and nobody has seen more of them. -/
structure Chain (m : Memory Tid V) (x : Loc) : Prop where
  times : ∀ (k : ℕ) (msg : Msg Loc Tid (V x)), (m.cell x)[k]? = some msg →
    msg.time = k ∧ msg.view.time x ≤ k
  views : ∀ t, (m.view t).time x < (m.cell x).length
  given : ∀ y, ∀ msg ∈ m.cell y, msg.view.time x < (m.cell x).length

namespace Chain

omit [DecidableEq Loc] [DecidableEq Tid] in
/-- The first message is at time 0. -/
lemma init (a : (x : Loc) → V x) (x : Loc) : Chain (init a : Memory Tid V) x where
  times := by
    intro k msg get
    cases k with
    | zero =>
      cases get
      exact ⟨rfl, le_rfl⟩
    | succ k => cases get
  views := fun _ => Nat.one_pos
  given := by
    intro y msg mem
    rw [List.mem_singleton.mp mem]
    exact Nat.one_pos

omit [DecidableEq Loc] in
/-- A thread may see any message that is there. -/
lemma see (h : Chain m x) {v : View Loc Tid} (lt : v.time x < (m.cell x).length) :
    Chain (m.see t v) x where
  times := h.times
  views := by
    intro u
    by_cases here : u = t
    · rw [here, see_view_self]
      exact max_lt (h.views t) lt
    · rw [see_view_of_ne here]
      exact h.views u
  given := h.given

omit [DecidableEq Tid] in
/-- A message at another location. -/
lemma add_of_ne (h : Chain m x) (ne : x ≠ y) {msg : Msg Loc Tid (V y)}
    (lt : msg.view.time x < (m.cell x).length) : Chain (m.add y msg) x where
  times := by
    rw [add_cell_of_ne ne]
    exact h.times
  views := by
    rw [add_cell_of_ne ne]
    exact h.views
  given := by
    rw [add_cell_of_ne ne]
    intro z msg' mem
    by_cases here : z = y
    · subst here
      rw [add_cell_self, List.mem_append, List.mem_singleton] at mem
      rcases mem with old | rfl
      · exact h.given z msg' old
      · exact lt
    · rw [add_cell_of_ne here] at mem
      exact h.given z msg' mem

omit [DecidableEq Loc] [DecidableEq Tid] in
/-- A read takes over a view of messages that are there. -/
lemma taken_lt (h : Chain m x) {msg : Msg Loc Tid (V y)} (mem : msg ∈ m.cell y) (o : Order) :
    (o.taken msg.view).time x < (m.cell x).length := by
  unfold Order.taken
  split
  · exact h.given y msg mem
  · exact (Nat.zero_le _).trans_lt (h.given y msg mem)

omit [DecidableEq Loc] [DecidableEq Tid] in
/-- A write gives a view of messages that are there. -/
lemma given_lt (h : Chain m x) (o : Order) (t : Tid) :
    (o.given (m.view t)).time x < (m.cell x).length := by
  unfold Order.given
  split
  · exact h.views t
  · exact (Nat.zero_le _).trans_lt (h.views t)

omit [DecidableEq Tid] in
/-- Another location does not count. -/
lemma upTo_lt (h : Chain m x) (t : Tid) (ne : x ≠ y) (time : ℕ) :
    (View.upTo y time : View Loc Tid).time x < (m.cell x).length := by
  rw [View.upTo_time_of_ne ne]
  exact (Nat.zero_le _).trans_lt (h.views t)

/-- A load elsewhere keeps the chain. -/
lemma load_of_ne (h : Chain m x) (ne : x ≠ y) {a : V y} (st : Load m t y o a m') : Chain m' x := by
  cases st with
  | of msg mem le => exact h.see (max_lt (h.upTo_lt t ne _) (h.taken_lt mem o))

/-- A plain read elsewhere keeps the chain. -/
lemma read_of_ne (h : Chain m x) (ne : x ≠ y) {a : V y} (st : Read m t y a m') : Chain m' x := by
  cases st with
  | of msg mem le =>
    have seen : Chain (m.see t (.upTo y msg.time ⊔ .made t ((m.view t).reads t + 1))) x :=
      h.see (max_lt (h.upTo_lt t ne _) ((Nat.zero_le _).trans_lt (h.views t)))
    exact ⟨seen.times, seen.views, seen.given⟩

/-- A store elsewhere keeps the chain. -/
lemma store_of_ne (h : Chain m x) (ne : x ≠ y) {a : V y} (st : Store m t y o a m') : Chain m' x := by
  cases st with
  | of time late free =>
    apply add_of_ne _ ne
    · exact max_lt (h.upTo_lt t ne _) (h.given_lt o t)
    · exact h.see (h.upTo_lt t ne _)

/-- An update elsewhere keeps the chain. -/
lemma update_of_ne (h : Chain m x) (ne : x ≠ y) {a b : V y} (st : Update m t y o a b m') :
    Chain m' x := by
  cases st with
  | of msg mem le free =>
    apply add_of_ne _ ne
    · exact max_lt (max_lt (h.upTo_lt t ne _) (h.given y msg mem)) (h.given_lt o t)
    · exact h.see (max_lt (h.upTo_lt t ne _) (h.taken_lt mem o))

/-- A load reads a message up to which its thread has then seen the location. -/
lemma load (h : Chain m x) (st : Load m t x o a m') : Chain m' x ∧
    ∃ (k : ℕ) (msg : Msg Loc Tid (V x)), (m.cell x)[k]? = some msg ∧ msg.val = a ∧
      (m.view t).time x ≤ k ∧ (m'.view t).time x = k ∧ (o = .acquire → msg.view ≤ m'.view t) := by
  cases st with
  | of msg mem le =>
    obtain ⟨k, get⟩ := List.mem_iff_getElem?.mp mem
    obtain ⟨time, own⟩ := h.times k msg get
    have inside := (List.getElem?_eq_some_iff.mp get).1
    refine ⟨h.see ?_, k, msg, get, rfl, le.trans_eq time, ?_, ?_⟩
    · exact max_lt (by rw [View.upTo_time_self, time]; exact inside) (h.taken_lt mem o)
    · have took : (o.taken msg.view).time x ≤ k := by
        unfold Order.taken
        split
        · exact own
        · exact Nat.zero_le _
      rw [see_view_self, View.sup_time, View.sup_time, View.upTo_time_self]
      omega
    · rintro rfl
      rw [see_view_self]
      exact le_sup_of_le_right le_sup_right

/-- The next message. -/
lemma extend (h : Chain m x) {v : View Loc Tid} {msg : Msg Loc Tid (V x)}
    (seen : v.time x ≤ (m.cell x).length) (time : msg.time = (m.cell x).length)
    (own : msg.view.time x ≤ (m.cell x).length) : Chain ((m.see t v).add x msg) x := by
  have len : (((m.see t v).add x msg).cell x).length = (m.cell x).length + 1 := by
    rw [add_cell_self, List.length_append]
    rfl
  constructor
  · intro k msg' get
    rw [add_cell_self, see_cell] at get
    rcases Nat.lt_or_ge k (m.cell x).length with old | new
    · rw [List.getElem?_append_left old] at get
      exact h.times k msg' get
    · rw [List.getElem?_append_right new, List.getElem?_singleton] at get
      split at get
      · cases get
        omega
      · cases get
  · intro u
    rw [len, add_view]
    by_cases here : u = t
    · rw [here, see_view_self]
      exact max_lt ((h.views t).trans (Nat.lt_succ_self _)) (Nat.lt_succ_of_le seen)
    · rw [see_view_of_ne here]
      exact (h.views u).trans (Nat.lt_succ_self _)
  · intro y msg' mem
    rw [len]
    by_cases here : y = x
    · subst here
      rw [add_cell_self, List.mem_append, List.mem_singleton] at mem
      rcases mem with old | rfl
      · exact (h.given y msg' old).trans (Nat.lt_succ_self _)
      · exact Nat.lt_succ_of_le own
    · rw [add_cell_of_ne here] at mem
      exact (h.given y msg' mem).trans (Nat.lt_succ_self _)

/-- An update reads the last message. -/
lemma update (h : Chain m x) (st : Update m t x o a b m') : Chain m' x ∧
    ∃ (k : ℕ) (msg new : Msg Loc Tid (V x)), (m.cell x).length = k + 1 ∧ (m.cell x)[k]? = some msg ∧
      msg.val = b ∧ m'.cell x = m.cell x ++ [new] ∧ new.val = a ∧ msg.view ≤ new.view ∧
      (o = .release → m.view t ≤ new.view) ∧ (o = .acquire → msg.view ≤ m'.view t) := by
  cases st with
  | of msg mem le free =>
    obtain ⟨k, get⟩ := List.mem_iff_getElem?.mp mem
    obtain ⟨time, own⟩ := h.times k msg get
    have inside := (List.getElem?_eq_some_iff.mp get).1
    -- the time after the message is only free when no message follows
    have last : (m.cell x).length = k + 1 := by
      by_contra more
      have next : k + 1 < (m.cell x).length := by omega
      have get' := List.getElem?_eq_getElem next
      refine free _ (List.getElem_mem next) ?_
      rw [(h.times _ _ get').1, time]
    have gave := h.given_lt o t
    have took := h.taken_lt mem o
    refine ⟨?_, k, msg, _, last, get, rfl, add_cell_self _, rfl, ?_, ?_, ?_⟩
    · apply h.extend
      · exact max_le (by rw [View.upTo_time_self]; omega) took.le
      · exact (congrArg Nat.succ time).trans last.symm
      · refine max_le (max_le ?_ (by omega)) gave.le
        rw [View.upTo_time_self]
        omega
    · exact le_sup_of_le_left le_sup_right
    · rintro rfl
      exact le_sup_right
    · rintro rfl
      rw [add_view, see_view_self]
      exact le_sup_of_le_right le_sup_right

end Chain

end Steps

end Memory

end UxNet.Weak
