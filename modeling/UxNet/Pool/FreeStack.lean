import UxNet.Lib.Linked
import UxNet.Lib.Serial

/-!
# Lock-free free list

`FreeStack` of `buffer_pool.cpp`: a Treiber stack of buffer indices whose head word packs a 32-bit
generation above a 32-bit index. `push` and `pop` are programs of atomic steps (load of `top_`, access
to a next link, compare-exchange, update of `size_`), run by any number of threads in any interleaving.
`compare_exchange_weak` may fail spuriously, and reloads `top_` when it fails.

Four fields of `State` are history that no step of the source reads: `held`, the indices a thread has
popped or been given and not pushed since; `swaps`, the number of successful compare-exchanges; `loaded`,
the value of `swaps` when a thread last read `top_`; and `history`, the successful compare-exchanges in
order. A successful compare-exchange is a step only if fewer than `2 ^ 32` others came between it and the
thread's last load: within that bound a generation cannot come round again.
-/

namespace UxNet.FreeStack

/-- `FreeStack::kEmpty`. -/
def kEmpty : BitVec 32 := 0xFFFFFFFF

/-- `FreeStack::pack`. -/
def pack (gen index : BitVec 32) : BitVec 64 := gen.setWidth 64 <<< 32 ||| index.setWidth 64

/-- `FreeStack::gen_of`. -/
def genOf (v : BitVec 64) : BitVec 32 := (v >>> 32).setWidth 32

/-- `FreeStack::index_of`. -/
def indexOf (v : BitVec 64) : BitVec 32 := v.setWidth 32

/-- The generation comes out as it went in. -/
@[simp] lemma genOf_pack (gen index : BitVec 32) : genOf (pack gen index) = gen := by
  ext i hi
  have low : i < 64 := by omega
  have high : 32 + i < 64 := by omega
  simp [genOf, pack, hi, low, high]

/-- The index comes out as it went in. -/
@[simp] lemma indexOf_pack (gen index : BitVec 32) : indexOf (pack gen index) = index := by
  ext i hi
  simp [indexOf, pack]

/-- Where a thread is in `push` or `pop`. -/
inductive Pc where
  /-- in neither -/
  | idle
  /-- `push`: about to load `top_` -/
  | pushLoad (index : BitVec 32)
  /-- `push`: about to write the next link -/
  | pushLink (index : BitVec 32) (old : BitVec 64)
  /-- `push`: about to compare and exchange -/
  | pushCas (index : BitVec 32) (old : BitVec 64)
  /-- `push`: about to add to `size_` -/
  | pushSize
  /-- `pop`: about to load `top_` -/
  | popLoad
  /-- `pop`: about to read the next link -/
  | popLink (old : BitVec 64)
  /-- `pop`: about to compare and exchange -/
  | popCas (old : BitVec 64) (next : BitVec 32)
  /-- `pop`: about to subtract from `size_` -/
  | popSize (index : BitVec 32)
  /-- `pop` has returned -/
  | returned (index : BitVec 32)
deriving DecidableEq, Repr

/-- A successful compare-exchange; or, as the program sees it, a call of `push` or a return of `pop`. -/
inductive Event where
  | pushed (index : BitVec 32)
  | popped (index : BitVec 32)
deriving DecidableEq, Repr

/-- A free list and the threads that use it. -/
structure State (Tid : Type) where
  top : BitVec 64
  next : BitVec 32 → BitVec 32
  size : BitVec 32
  pc : Tid → Pc
  held : Tid → List (BitVec 32)
  swaps : ℕ
  loaded : Tid → ℕ
  history : List Event

/-- `pop` after a load of `top_`: the test for `kEmpty`. -/
def popTest (old : BitVec 64) : Pc :=
  if indexOf old = kEmpty then .returned kEmpty else .popLink old

variable {Tid : Type}

namespace State

section

variable [DecidableEq Tid]

/-- The constructor; the `n` indices are with the threads that will push them. -/
def init (n : ℕ) (next : BitVec 32 → BitVec 32) (owner : BitVec 32 → Tid) : State Tid where
  top := pack 0 kEmpty
  next := next
  size := 0
  pc := fun _ => .idle
  held := fun t => ((List.range n).map (BitVec.ofNat 32)).filter fun i => owner i = t
  swaps := 0
  loaded := fun _ => 0
  history := []

/-- A thread moves on. -/
def goto (s : State Tid) (t : Tid) (p : Pc) : State Tid := { s with pc := Function.update s.pc t p }

/-- A thread reads `top_` and moves on. -/
def load (s : State Tid) (t : Tid) (p : BitVec 64 → Pc) : State Tid :=
  { s with
    pc := Function.update s.pc t (p s.top)
    loaded := Function.update s.loaded t s.swaps }

/-- A compare-exchange of a thread succeeds. -/
def swap (s : State Tid) (t : Tid) (new : BitVec 64) (p : Pc) (hs : List (BitVec 32)) (e : Event) :
    State Tid :=
  { s with
    top := new
    pc := Function.update s.pc t p
    held := Function.update s.held t hs
    swaps := s.swaps + 1
    history := s.history ++ [e] }

/-- An atomic step of a thread. -/
inductive Step (t : Tid) : State Tid → State Tid → Prop where
  | callPush {s index} :
    s.pc t = .idle ∨ (∃ r, s.pc t = .returned r) →
    index ∈ s.held t →
    Step t s (s.goto t (.pushLoad index))
  | callPop {s} :
    s.pc t = .idle ∨ (∃ r, s.pc t = .returned r) →
    Step t s (s.goto t .popLoad)
  | pushLoad {s index} :
    s.pc t = .pushLoad index →
    Step t s (s.load t (.pushLink index))
  | pushLink {s index old} :
    s.pc t = .pushLink index old →
    Step t s (goto { s with next := Function.update s.next index (indexOf old) } t
      (.pushCas index old))
  | pushCas {s index old} :
    s.pc t = .pushCas index old →
    s.top = old →
    s.swaps < s.loaded t + 2 ^ 32 →
    Step t s (s.swap t (pack (genOf old + 1) index) .pushSize ((s.held t).erase index)
      (.pushed index))
  | pushFail {s index old} :
    s.pc t = .pushCas index old →
    Step t s (s.load t (.pushLink index))
  | pushSize {s} :
    s.pc t = .pushSize →
    Step t s (goto { s with size := s.size + 1 } t .idle)
  | popLoad {s} :
    s.pc t = .popLoad →
    Step t s (s.load t popTest)
  | popLink {s old} :
    s.pc t = .popLink old →
    Step t s (s.goto t (.popCas old (s.next (indexOf old))))
  | popCas {s old next} :
    s.pc t = .popCas old next →
    s.top = old →
    s.swaps < s.loaded t + 2 ^ 32 →
    Step t s (s.swap t (pack (genOf old + 1) next) (.popSize (indexOf old))
      (indexOf old :: s.held t) (.popped (indexOf old)))
  | popFail {s old next} :
    s.pc t = .popCas old next →
    Step t s (s.load t popTest)
  | popSize {s index} :
    s.pc t = .popSize index →
    Step t s (goto { s with size := s.size - 1 } t (.returned index))

/-- Steps of any threads in any order. -/
abbrev Steps : State Tid → State Tid → Prop := Relation.ReflTransGen fun s s' => ∃ t, Step t s s'

/-! ## A call of `push` that no other thread interrupts -/

/-- `push` up to its compare-exchange, with no step of another thread in between. -/
def pushHalf (s : State Tid) (t : Tid) (index : BitVec 32) : State Tid :=
  let s₁ := (s.goto t (.pushLoad index)).load t (.pushLink index)
  let s₂ := goto { s₁ with next := Function.update s₁.next index (indexOf s.top) } t
    (.pushCas index s.top)
  s₂.swap t (pack (genOf s.top + 1) index) .pushSize ((s₂.held t).erase index) (.pushed index)

/-- `push`, with no step of another thread in between. -/
def pushBy (s : State Tid) (t : Tid) (index : BitVec 32) : State Tid :=
  goto { s.pushHalf t index with size := s.size + 1 } t .idle

variable {s : State Tid} {t : Tid} {index : BitVec 32}

/-- Such a push is a run of the steps of `push`: the compare-exchange finds what it has just read. -/
lemma pushHalf_steps (rest : s.pc t = .idle ∨ ∃ r, s.pc t = .returned r) (mem : index ∈ s.held t) :
    Steps s (s.pushHalf t index) := by
  have call : Step t s (s.goto t (.pushLoad index)) := .callPush rest mem
  have load : Step t (s.goto t (.pushLoad index))
      ((s.goto t (.pushLoad index)).load t (.pushLink index)) := .pushLoad (Function.update_self ..)
  have loaded : ((s.goto t (.pushLoad index)).load t (.pushLink index)).pc t = .pushLink index s.top :=
    Function.update_self ..
  refine (((Relation.ReflTransGen.single ⟨t, call⟩).tail ⟨t, load⟩).tail ⟨t, .pushLink loaded⟩).tail
    ⟨t, .pushCas (Function.update_self ..) rfl ?_⟩
  show s.swaps < Function.update s.loaded t s.swaps t + 2 ^ 32
  rw [Function.update_self]
  omega

/-- So is the whole call. -/
lemma pushBy_steps (rest : s.pc t = .idle ∨ ∃ r, s.pc t = .returned r) (mem : index ∈ s.held t) :
    Steps s (s.pushBy t index) :=
  (pushHalf_steps rest mem).tail ⟨t, .pushSize (Function.update_self ..)⟩

end

end State

open State

/-- What a thread knows of the `top_` it read: nothing has changed unless `swaps` has. -/
def Seen (top : BitVec 64) (swaps loaded : ℕ) (old : BitVec 64) : Prop :=
  loaded ≤ swaps ∧ genOf old = BitVec.ofNat 32 loaded ∧ (loaded = swaps → top = old)

/-- What a thread knows at each point. -/
def Ready (top : BitVec 64) (next : BitVec 32 → BitVec 32) (swaps : ℕ) (held : List (BitVec 32))
    (loaded : ℕ) : Pc → Prop
  | .pushLoad index => index ∈ held
  | .pushLink index old => index ∈ held ∧ Seen top swaps loaded old
  | .pushCas index old => index ∈ held ∧ Seen top swaps loaded old ∧ next index = indexOf old
  | .popLink old => Seen top swaps loaded old ∧ indexOf old ≠ kEmpty
  | .popCas old nx => Seen top swaps loaded old ∧ indexOf old ≠ kEmpty ∧
    (loaded = swaps → next (indexOf old) = nx)
  | .popSize index => index ≠ kEmpty ∧ index ∈ held
  | .returned index => index = kEmpty ∨ index ∈ held
  | .idle | .pushSize | .popLoad => True

/-- The invariant: `l` is the free list. -/
structure Inv (n : ℕ) (s : State Tid) (l : List (BitVec 32)) : Prop where
  linked : Linked s.next kEmpty (indexOf s.top) l
  nodup : l.Nodup
  heldNodup : ∀ t, (s.held t).Nodup
  apart : ∀ t, ∀ i ∈ s.held t, i ∉ l
  disjoint : ∀ t t' i, i ∈ s.held t → i ∈ s.held t' → t = t'
  total : ∀ i : BitVec 32, i.toNat < n ↔ i ∈ l ∨ ∃ t, i ∈ s.held t
  gen : genOf s.top = BitVec.ofNat 32 s.swaps
  ready : ∀ t, Ready s.top s.next s.swaps (s.held t) (s.loaded t) (s.pc t)
  ledger : ∀ i, s.history.count (.pushed i) = s.history.count (.popped i) + if i ∈ l then 1 else 0
  balanced : ∀ h, h <+: s.history → ∀ i, h.count (.popped i) ≤ h.count (.pushed i) ∧
    h.count (.pushed i) ≤ h.count (.popped i) + 1

namespace Inv

variable {n : ℕ} {s : State Tid} {l : List (BitVec 32)} {t : Tid}

/-- What a thread knows right after it read `top_`. -/
lemma seen (h : Inv n s l) : Seen s.top s.swaps s.swaps s.top :=
  ⟨le_refl _, h.gen, fun _ => rfl⟩

/-- What a `pop` knows after the test of what it has read. -/
lemma ready_popTest (h : Inv n s l) :
    Ready s.top s.next s.swaps (s.held t) s.swaps (popTest s.top) := by
  unfold FreeStack.popTest
  split
  · exact .inl rfl
  · rename_i ne
    exact ⟨h.seen, ne⟩

/-- A compare-exchange that succeeds finds the very `top_` it read: within the bound on the number of
others, a generation does not come round again. -/
lemma unchanged (h : Inv n s l) {old : BitVec 64} (seen : Seen s.top s.swaps (s.loaded t) old)
    (same : s.top = old) (near : s.swaps < s.loaded t + 2 ^ 32) : s.loaded t = s.swaps := by
  obtain ⟨le, gen, _⟩ := seen
  have turn : BitVec.ofNat 32 s.swaps = BitVec.ofNat 32 (s.loaded t) := by
    rw [← h.gen, same, gen]
  exact (Serial.ofNat_inj_of_near le (by omega) turn).symm

/-- A valid index is not the end mark. -/
lemma ne_kEmpty (h : Inv n s l) (hn : n < 2 ^ 32) {i : BitVec 32} (mem : i ∈ s.held t) :
    i ≠ kEmpty := by
  rintro rfl
  have lt := (h.total kEmpty).mpr (.inr ⟨t, mem⟩)
  have top : kEmpty.toNat = 2 ^ 32 - 1 := rfl
  omega

variable [DecidableEq Tid]

/-- A thread moves on, with what it knows there. -/
lemma goto (h : Inv n s l) {p : Pc}
    (ready : Ready s.top s.next s.swaps (s.held t) (s.loaded t) p) : Inv n (s.goto t p) l := by
  refine { h with ready := ?_ }
  intro t'
  by_cases ht : t' = t
  · subst ht
    simpa [State.goto] using ready
  · simpa [State.goto, ht] using h.ready t'

/-- A thread reads `top_`, and knows what it has just read. -/
lemma load (h : Inv n s l) {p : BitVec 64 → Pc}
    (ready : Ready s.top s.next s.swaps (s.held t) s.swaps (p s.top)) : Inv n (s.load t p) l := by
  refine { h with ready := ?_ }
  intro t'
  by_cases ht : t' = t
  · subst ht
    simpa [State.load] using ready
  · simpa [State.load, ht] using h.ready t'

/-- `push` writes the link of its index, which no other thread and no list has. -/
lemma link (h : Inv n s l) {index : BitVec 32} {old : BitVec 64}
    (mem : index ∈ s.held t) (seen : Seen s.top s.swaps (s.loaded t) old) :
    Inv n (State.goto { s with next := Function.update s.next index (indexOf old) } t
      (.pushCas index old)) l := by
  refine { h with linked := h.linked.update (h.apart t index mem) _, ready := ?_ }
  intro t'
  by_cases ht : t' = t
  · subst ht
    simpa [State.goto, Ready] using ⟨mem, seen⟩
  · have ready := h.ready t'
    simp only [State.goto, Function.update_of_ne ht]
    generalize s.pc t' = p at ready
    cases p with
    | pushCas index' old' =>
      -- another push has written a link of its own
      obtain ⟨mem', seen', eq⟩ := ready
      have ne : index' ≠ index := by
        rintro rfl
        exact ht (h.disjoint t' t index' mem' mem)
      exact ⟨mem', seen', by rw [Function.update_of_ne ne, eq]⟩
    | popCas old' nx =>
      -- a pop has read the link of the top, which is on the list
      obtain ⟨seen', ne, eq⟩ := ready
      refine ⟨seen', ne, ?_⟩
      intro now
      have top := seen'.2.2 now
      obtain ⟨l', rfl, _⟩ := h.linked.cons_of_ne (top ▸ ne)
      have other : indexOf old' ≠ index := by
        rintro rfl
        exact h.apart t _ mem (top ▸ List.mem_cons_self)
      rw [Function.update_of_ne other, eq now]
    | _ => exact ready

/-- An index is held by some thread after one thread's indices have changed. -/
lemma mem_update_iff (held : Tid → List (BitVec 32)) (t : Tid) (hs : List (BitVec 32)) (i : BitVec 32) :
    (∃ t', i ∈ Function.update held t hs t') ↔ i ∈ hs ∨ ∃ t' ≠ t, i ∈ held t' := by
  constructor
  · rintro ⟨t', mem⟩
    by_cases ht : t' = t
    · subst ht
      left
      simpa using mem
    · right
      exact ⟨t', ht, by simpa [ht] using mem⟩
  · rintro (mem | ⟨t', ht, mem⟩)
    · exact ⟨t, by simpa using mem⟩
    · exact ⟨t', by simpa [ht] using mem⟩

/-- After a successful compare-exchange the other threads know that `top_` may have changed. -/
lemma ready_swap {top top' : BitVec 64} {next : BitVec 32 → BitVec 32} {swaps loaded : ℕ}
    {held : List (BitVec 32)} {p : Pc} (h : Ready top next swaps held loaded p) :
    Ready top' next (swaps + 1) held loaded p := by
  have seen : ∀ old, Seen top swaps loaded old → Seen top' (swaps + 1) loaded old := by
    rintro old ⟨le, gen, _⟩
    exact ⟨by omega, gen, fun e => by omega⟩
  cases p with
  | pushLink index old => exact ⟨h.1, seen old h.2⟩
  | pushCas index old => exact ⟨h.1, seen old h.2.1, h.2.2⟩
  | popLink old => exact ⟨seen old h.1, h.2⟩
  | popCas old nx => exact ⟨seen old h.1, h.2.1, fun e => absurd h.1.1 (by omega)⟩
  | _ => exact h

/-- The rest of the invariant after a successful compare-exchange. -/
lemma swap (h : Inv n s l) {l' hs : List (BitVec 32)} {gen index : BitVec 32} {p : Pc} {e : Event}
    (linked : Linked s.next kEmpty index l') (nodup : l'.Nodup) (heldNodup : hs.Nodup)
    (apart : ∀ i ∈ hs, i ∉ l') (others : ∀ t' ≠ t, ∀ i ∈ s.held t', i ∉ l' ∧ i ∉ hs)
    (total : ∀ i, i ∈ l' ∨ i ∈ hs ↔ i ∈ l ∨ i ∈ s.held t)
    (bump : gen = genOf s.top) (ready : ∀ top next swaps loaded, Ready top next swaps hs loaded p)
    (ledger : ∀ i, (s.history ++ [e]).count (.pushed i)
      = (s.history ++ [e]).count (.popped i) + if i ∈ l' then 1 else 0) :
    Inv n (s.swap t (pack (gen + 1) index) p hs e) l' where
  linked := by simpa [State.swap] using linked
  nodup := nodup
  heldNodup := by
    intro t'
    by_cases ht : t' = t
    · subst ht
      simpa [State.swap] using heldNodup
    · simpa [State.swap, ht] using h.heldNodup t'
  apart := by
    intro t'
    by_cases ht : t' = t
    · subst ht
      simpa [State.swap] using apart
    · simpa [State.swap, ht] using fun i mem => (others t' ht i mem).1
  disjoint := by
    intro t₁ t₂ i
    by_cases h₁ : t₁ = t
    · by_cases h₂ : t₂ = t
      · intro _ _
        rw [h₁, h₂]
      · simpa [State.swap, h₁, h₂] using fun m₁ m₂ => absurd m₁ (others t₂ h₂ i m₂).2
    · by_cases h₂ : t₂ = t
      · simpa [State.swap, h₁, h₂] using fun m₁ m₂ => absurd m₂ (others t₁ h₁ i m₁).2
      · simpa [State.swap, h₁, h₂] using h.disjoint t₁ t₂ i
  total := by
    intro i
    have here := total i
    have old := mem_update_iff s.held t (s.held t) i
    rw [Function.update_eq_self] at old
    show i.toNat < n ↔ i ∈ l' ∨ ∃ t', i ∈ Function.update s.held t hs t'
    rw [h.total i, old, mem_update_iff, ← or_assoc, ← or_assoc, here]
  gen := by
    show genOf (pack (gen + 1) index) = BitVec.ofNat 32 (s.swaps + 1)
    rw [genOf_pack, bump, h.gen, BitVec.ofNat_add]
    rfl
  ready := by
    intro t'
    by_cases ht : t' = t
    · subst ht
      simpa [State.swap] using ready _ _ _ _
    · simpa [State.swap, ht] using ready_swap (h.ready t')
  ledger := ledger
  balanced := by
    -- only the whole history is new among its prefixes, and of it the ledger says all
    intro pre hpre
    rcases List.prefix_concat_iff.mp hpre with rfl | hpre
    · intro i
      have := ledger i
      split at this
      · omega
      · omega
    · exact h.balanced pre hpre

/-- The compare-exchange of `push` puts its index on top. -/
lemma pushCas (h : Inv n s l) (hn : n < 2 ^ 32) {index : BitVec 32} {old : BitVec 64}
    (at' : s.pc t = .pushCas index old) (same : s.top = old) :
    Inv n (s.swap t (pack (genOf old + 1) index) .pushSize ((s.held t).erase index)
      (.pushed index)) (index :: l) := by
  have ready := h.ready t
  rw [at'] at ready
  obtain ⟨mem, _, link⟩ := ready
  have out := h.apart t index mem
  have nodup := h.heldNodup t
  apply h.swap
  · refine ⟨rfl, h.ne_kEmpty hn mem, ?_⟩
    rw [link, ← same]
    exact h.linked
  · exact List.nodup_cons.mpr ⟨out, h.nodup⟩
  · exact nodup.erase index
  · intro i mem'
    obtain ⟨ne, mem'⟩ := (nodup.mem_erase_iff).mp mem'
    rw [List.mem_cons, not_or]
    exact ⟨ne, h.apart t i mem'⟩
  · intro t' ht i mem'
    have notin : i ∉ s.held t := fun m => ht (h.disjoint t' t i mem' m)
    constructor
    · rw [List.mem_cons, not_or]
      refine ⟨?_, h.apart t' i mem'⟩
      rintro rfl
      exact notin mem
    · exact fun m => notin (List.mem_of_mem_erase m)
  · intro i
    rw [List.mem_cons, nodup.mem_erase_iff]
    by_cases hi : i = index
    · subst hi
      simp [mem]
    · simp [hi]
  · rw [same]
  · intro _ _ _ _
    trivial
  · intro i
    have led := h.ledger i
    rw [List.count_append, List.count_append, led]
    by_cases hi : i = index
    · subst hi
      simp [out]
    · have hi' : ¬ index = i := fun e => hi e.symm
      simp [hi, hi']

/-- A compare-exchange of `pop` that has read the link as it is. -/
lemma popCas_of_link (h : Inv n s l) {old : BitVec 64} {nx : BitVec 32}
    (at' : s.pc t = .popCas old nx) (same : s.top = old) (link : s.next (indexOf old) = nx) :
    ∃ l', l = indexOf old :: l' ∧ Inv n (s.swap t (pack (genOf old + 1) nx) (.popSize (indexOf old))
      (indexOf old :: s.held t) (.popped (indexOf old))) l' := by
  have ready := h.ready t
  rw [at'] at ready
  obtain ⟨_, ne, _⟩ := ready
  obtain ⟨l', rfl, rest⟩ := h.linked.cons_of_ne (same ▸ ne)
  rw [same, link] at rest
  have out : ∀ t', indexOf old ∉ s.held t' := by
    intro t' mem
    exact h.apart t' _ mem (same ▸ List.mem_cons_self)
  have tail : indexOf old ∉ l' := by
    rw [← same]
    exact (List.nodup_cons.mp h.nodup).1
  refine ⟨l', by rw [same], h.swap rest (List.nodup_cons.mp h.nodup).2 ?_ ?_ ?_ ?_ (by rw [same]) ?_ ?_⟩
  · exact List.nodup_cons.mpr ⟨out t, h.heldNodup t⟩
  · intro i mem
    rcases List.mem_cons.mp mem with rfl | mem
    · exact tail
    · exact fun m => h.apart t i mem (List.mem_cons_of_mem _ m)
  · intro t' ht i mem
    constructor
    · exact fun m => h.apart t' i mem (List.mem_cons_of_mem _ m)
    · rw [List.mem_cons, not_or]
      constructor
      · rintro rfl
        exact out t' mem
      · exact fun m => ht (h.disjoint t' t i mem m)
  · intro i
    rw [same, List.mem_cons, List.mem_cons]
    tauto
  · intro _ _ _ _
    exact ⟨ne, List.mem_cons_self⟩
  · intro i
    have led := h.ledger i
    rw [List.count_append, List.count_append, led, same]
    by_cases hi : i = indexOf old
    · subst hi
      simp [tail]
    · have hi' : ¬ indexOf old = i := fun e => hi e.symm
      simp [hi, hi']

/-- A compare-exchange of `pop` within the bound. -/
lemma popCas (h : Inv n s l) {old : BitVec 64} {nx : BitVec 32}
    (at' : s.pc t = .popCas old nx) (same : s.top = old) (near : s.swaps < s.loaded t + 2 ^ 32) :
    ∃ l', Inv n (s.swap t (pack (genOf old + 1) nx) (.popSize (indexOf old))
      (indexOf old :: s.held t) (.popped (indexOf old))) l' := by
  have ready := h.ready t
  rw [at'] at ready
  obtain ⟨seen, _, link⟩ := ready
  -- no compare-exchange since the load, so that the link read is the link now
  obtain ⟨l', _, inv⟩ := h.popCas_of_link at' same (link (h.unchanged seen same near))
  exact ⟨l', inv⟩

/-- Every atomic step keeps the invariant. -/
lemma step (h : Inv n s l) (hn : n < 2 ^ 32) {s' : State Tid} (st : Step t s s') :
    ∃ l', Inv n s' l' := by
  cases st with
  | callPush _ mem => exact ⟨l, h.goto mem⟩
  | callPop _ => exact ⟨l, h.goto trivial⟩
  | pushLoad at' =>
    have ready := h.ready t
    rw [at'] at ready
    exact ⟨l, h.load ⟨ready, h.seen⟩⟩
  | pushLink at' =>
    have ready := h.ready t
    rw [at'] at ready
    exact ⟨l, h.link ready.1 ready.2⟩
  | pushCas at' same _ => exact ⟨_, h.pushCas hn at' same⟩
  | pushFail at' =>
    have ready := h.ready t
    rw [at'] at ready
    exact ⟨l, h.load ⟨ready.1, h.seen⟩⟩
  | pushSize _ =>
    have h' : Inv n { s with size := s.size + 1 } l := { h with }
    exact ⟨l, h'.goto trivial⟩
  | popLoad _ => exact ⟨l, h.load h.ready_popTest⟩
  | popLink at' =>
    have ready := h.ready t
    rw [at'] at ready
    exact ⟨l, h.goto ⟨ready.1, ready.2, fun _ => rfl⟩⟩
  | popCas at' same near => exact h.popCas at' same near
  | popFail _ => exact ⟨l, h.load h.ready_popTest⟩
  | popSize at' =>
    have ready := h.ready t
    rw [at'] at ready
    have h' : Inv n { s with size := s.size - 1 } l := { h with }
    exact ⟨l, h'.goto (.inr ready.2)⟩

/-- The list is empty and every index is with its owner. -/
lemma init (n : ℕ) (hn : n < 2 ^ 32) (next : BitVec 32 → BitVec 32) (owner : BitVec 32 → Tid) :
    Inv n (State.init n next owner) [] where
  linked := indexOf_pack 0 kEmpty
  nodup := List.nodup_nil
  heldNodup := by
    intro t
    apply List.Nodup.filter
    apply List.nodup_range.map_on
    intro i mi j mj e
    have hi := List.mem_range.mp mi
    have hj := List.mem_range.mp mj
    have := congrArg BitVec.toNat e
    simp only [BitVec.toNat_ofNat] at this
    rwa [Nat.mod_eq_of_lt (by omega), Nat.mod_eq_of_lt (by omega)] at this
  apart := by
    intro t i _
    exact List.not_mem_nil
  disjoint := by
    intro t t' i m m'
    have o := of_decide_eq_true (List.mem_filter.mp m).2
    have o' := of_decide_eq_true (List.mem_filter.mp m').2
    rw [← o, ← o']
  total := by
    intro i
    constructor
    · intro lt
      refine .inr ⟨owner i, List.mem_filter.mpr ⟨?_, by simp⟩⟩
      exact List.mem_map.mpr ⟨i.toNat, List.mem_range.mpr lt, by simp⟩
    · rintro (mem | ⟨t, mem⟩)
      · cases mem
      · obtain ⟨j, mj, rfl⟩ := List.mem_map.mp (List.mem_filter.mp mem).1
        have hj := List.mem_range.mp mj
        rw [BitVec.toNat_ofNat, Nat.mod_eq_of_lt (by omega)]
        exact hj
  gen := genOf_pack 0 kEmpty
  ready := by
    intro t
    trivial
  ledger := by
    intro i
    simp [State.init]
  balanced := by
    intro h pre i
    rw [List.prefix_nil.mp pre]
    simp

/-- The invariant holds in every run. -/
lemma steps {next : BitVec 32 → BitVec 32} {owner : BitVec 32 → Tid} (hn : n < 2 ^ 32)
    (run : State.Steps (State.init n next owner) s) : ∃ l, Inv n s l := by
  induction run with
  | refl => exact ⟨[], Inv.init n hn next owner⟩
  | tail _ st ih =>
    obtain ⟨l, h⟩ := ih
    obtain ⟨t, st⟩ := st
    exact h.step hn st

omit [DecidableEq Tid] in
/-- An index that `pop` has returned, or is about to return, is with the thread that called it. -/
lemma mem_of_popped (h : Inv n s l) {i : BitVec 32}
    (pop : s.pc t = .popSize i ∨ s.pc t = .returned i ∧ i ≠ kEmpty) : i ∈ s.held t := by
  have ready := h.ready t
  rcases pop with at' | ⟨at', ne⟩
  · rw [at'] at ready
    exact ready.2
  · rw [at'] at ready
    exact ready.resolve_left ne

/-- `pop` gives up only on an empty list. -/
lemma empty (h : Inv n s l) {s' : State Tid} (st : Step t s s')
    (ret : s'.pc t = .returned kEmpty) : l = [] := by
  have test : popTest s.top = .returned kEmpty → l = [] := by
    intro e
    unfold FreeStack.popTest at e
    split at e
    · rename_i nil
      have linked := h.linked
      rw [nil] at linked
      exact linked.eq_nil
    · cases e
  cases st with
  | popLoad _ => exact test (by simpa [State.load] using ret)
  | popFail _ => exact test (by simpa [State.load] using ret)
  | @popSize index at' =>
    have ready := h.ready t
    rw [at'] at ready
    have e : index = kEmpty := by simpa [State.goto] using ret
    exact absurd e ready.1
  | _ => simp [State.goto, State.load, State.swap] at ret

end Inv

end UxNet.FreeStack
