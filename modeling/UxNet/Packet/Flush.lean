import UxNet.Packet.Processor

/-!
# Flushing after a batch

`BatchProcessor::dispatch_batch` once more, with the array `touched` as it stands in the source: a fixed
number of cells that start out with whatever is on the stack, a count, and the linear scan of `mark`.
Every index at which the array is accessed is recorded, and so is every call on a handler, in order.
This refines the dispatch of `Packet.Batch`, in which the handlers touched are a list; that the list has
no duplicates and stands in the order of the first `handle` calls is proved there, over one round and then
over the batch.
-/

namespace UxNet.Packet

variable {Handler Buf : Type}

/-- A call on a handler. -/
inductive HandlerCall (Handler Buf : Type) where
  | handle (h : Handler) (buf : Buf)
  | flush (h : Handler)

/-- The array `touched` and `touched_count`; `accessed` are the indices at which the array was read or
written. -/
structure Touched (Handler : Type) where
  slots : ℕ → Handler
  count : ℕ
  accessed : List ℕ

namespace Touched

variable [DecidableEq Handler]

/-- The loop of `mark` with `n` cells to go from `j` on: whether the handler is found, and the indices
read. -/
def scan (t : Touched Handler) (h : Handler) : ℕ → ℕ → Bool × List ℕ
  | 0, _ => (false, [])
  | n + 1, j =>
    if t.slots j = h then (true, [j])
    else ((t.scan h n (j + 1)).1, j :: (t.scan h n (j + 1)).2)

/-- `mark`. -/
def mark (t : Touched Handler) (h : Handler) : Touched Handler :=
  if (t.scan h t.count 0).1 then { t with accessed := t.accessed ++ (t.scan h t.count 0).2 }
  else
    { slots := Function.update t.slots t.count h
      count := t.count + 1
      accessed := t.accessed ++ (t.scan h t.count 0).2 ++ [t.count] }

end Touched

/-- The variables of `dispatch_batch`, and the calls made so far. -/
structure DispatchRun (Handler Buf : Type) where
  calls : List (HandlerCall Handler Buf)
  touched : Touched Handler
  packetsDispatched : BitVec 64

namespace HandlerTable

variable [DecidableEq Handler] (table : HandlerTable Handler)

/-- One round of the first loop of `dispatch_batch`. -/
def dispatchRound (r : DispatchRun Handler Buf) (e : BatchEntry Buf) : DispatchRun Handler Buf :=
  match (table.handlerFor e.pkt).run e.mem with
  | some h =>
    { calls := r.calls ++ [.handle h e.buf]
      touched := r.touched.mark h
      packetsDispatched := r.packetsDispatched + 1 }
  | none => r

/-- One round of the second loop of `dispatch_batch`. -/
def flushRound (r : DispatchRun Handler Buf) (j : ℕ) : DispatchRun Handler Buf :=
  { r with
    calls := r.calls ++ [.flush (r.touched.slots j)]
    touched := { r.touched with accessed := r.touched.accessed ++ [j] } }

/-- `BatchProcessor::dispatch_batch`, on an array that starts out as `stack`. -/
def dispatchAll (stack : ℕ → Handler) (packetsDispatched : BitVec 64) (batch : List (BatchEntry Buf)) :
    DispatchRun Handler Buf :=
  let r := batch.foldl table.dispatchRound
    { calls := [], touched := { slots := stack, count := 0, accessed := [] },
      packetsDispatched := packetsDispatched }
  (List.range r.touched.count).foldl flushRound r

end HandlerTable

/-- The second loop calls `flush` on what the cells hold, one after the other. -/
lemma HandlerTable.foldl_flushRound (n : ℕ) (r : DispatchRun Handler Buf) :
    (List.range n).foldl HandlerTable.flushRound r =
      { calls := r.calls ++ (List.range n).map fun j => .flush (r.touched.slots j)
        touched := { r.touched with accessed := r.touched.accessed ++ List.range n }
        packetsDispatched := r.packetsDispatched } := by
  induction n with
  | zero => simp
  | succ n ih =>
    rw [List.range_succ, List.foldl_append, ih]
    simp [HandlerTable.flushRound]

/-! ## The array holds a list -/

namespace Touched

/-- The first cells hold the list `l`, and no access was beyond cell `b`. -/
structure Holds (t : Touched Handler) (l : List Handler) (b : ℕ) : Prop where
  count : t.count = l.length
  slots : ∀ j < l.length, l[j]? = some (t.slots j)
  accessed : ∀ j ∈ t.accessed, j ≤ b

variable {t : Touched Handler} {h : Handler} {l : List Handler} {b : ℕ}

/-- Going through the cells is going through the list. -/
lemma Holds.map_range {α : Type} (holds : t.Holds l b) (f : Handler → α) :
    (List.range t.count).map (fun j => f (t.slots j)) = l.map f := by
  rw [holds.count]
  apply List.ext_getElem?
  intro j
  rw [List.getElem?_map, List.getElem?_map]
  by_cases lt : j < l.length
  · rw [holds.slots j lt, List.getElem?_range lt]
    rfl
  · rw [List.getElem?_eq_none (by rw [List.length_range]; omega),
      List.getElem?_eq_none (Nat.le_of_not_lt lt)]
    rfl

variable [DecidableEq Handler]

/-- The scan finds the handler exactly if it is in one of the slots looked at. -/
lemma scan_found (n j : ℕ) : (t.scan h n j).1 = true ↔ ∃ i, j ≤ i ∧ i < j + n ∧ t.slots i = h := by
  induction n generalizing j with
  | zero =>
    constructor
    · intro found
      cases found
    · rintro ⟨i, ge, lt, _⟩
      omega
  | succ n ih =>
    rw [scan]
    split
    · rename_i here
      exact ⟨fun _ => ⟨j, le_rfl, by omega, here⟩, fun _ => rfl⟩
    · rename_i not
      rw [ih]
      constructor
      · rintro ⟨i, ge, lt, at'⟩
        exact ⟨i, by omega, by omega, at'⟩
      · rintro ⟨i, ge, lt, at'⟩
        have ne : i ≠ j := fun e => not (e ▸ at')
        exact ⟨i, by omega, by omega, at'⟩

/-- The scan looks at the slots from `j` on only. -/
lemma scan_accessed (n j : ℕ) : ∀ i ∈ (t.scan h n j).2, i < j + n := by
  induction n generalizing j with
  | zero => exact fun i mem => absurd mem List.not_mem_nil
  | succ n ih =>
    intro i mem
    rw [scan] at mem
    split at mem
    · rw [List.mem_singleton] at mem
      omega
    · rcases List.mem_cons.mp mem with rfl | mem
      · omega
      · have := ih (j + 1) i mem
        omega

/-- The scan finds what is in the list. -/
lemma Holds.found_iff (holds : t.Holds l b) : (t.scan h t.count 0).1 = true ↔ h ∈ l := by
  rw [scan_found, List.mem_iff_getElem?, holds.count]
  constructor
  · rintro ⟨i, _, lt, at'⟩
    exact ⟨i, at' ▸ holds.slots i (by omega)⟩
  · rintro ⟨i, at'⟩
    obtain ⟨lt, _⟩ := List.getElem?_eq_some_iff.mp at'
    have slot := holds.slots i lt
    rw [at'] at slot
    exact ⟨i, Nat.zero_le i, by omega, (Option.some.inj slot).symm⟩

/-- `mark` appends a handler that is not there yet. -/
lemma Holds.mark (holds : t.Holds l b) (room : l.length ≤ b) (h : Handler) :
    (t.mark h).Holds (if h ∈ l then l else l ++ [h]) b := by
  have read : ∀ j ∈ t.accessed ++ (t.scan h t.count 0).2, j ≤ b := by
    intro j mem
    rcases List.mem_append.mp mem with mem | mem
    · exact holds.accessed j mem
    · have := scan_accessed t.count 0 j mem
      rw [holds.count] at this
      omega
  rw [Touched.mark]
  by_cases there : h ∈ l
  · rw [if_pos (holds.found_iff.mpr there), if_pos there]
    exact ⟨holds.count, holds.slots, read⟩
  · rw [if_neg fun found => there (holds.found_iff.mp found), if_neg there]
    refine ⟨?_, ?_, ?_⟩
    · rw [List.length_append, ← holds.count]
      rfl
    · -- the cell behind the list is written, whatever was in it before
      intro j lt
      rw [List.length_append, List.length_singleton] at lt
      show _ = some (Function.update t.slots t.count h j)
      rw [holds.count]
      by_cases last : j = l.length
      · subst last
        rw [Function.update_self, List.getElem?_append_right le_rfl, Nat.sub_self]
        rfl
      · rw [Function.update_of_ne last, List.getElem?_append_left (by omega)]
        exact holds.slots j (by omega)
    · intro j mem
      rcases List.mem_append.mp mem with mem | mem
      · exact read j mem
      · rw [List.mem_singleton.mp mem, holds.count]
        exact room

end Touched

/-! ## The handlers in the order of their first call -/

/-- The handlers to flush are those called, each once, in the order of their first calls. -/
structure FirstCalls (touched called : List Handler) [DecidableEq Handler] : Prop where
  nodup : touched.Nodup
  mem_iff : ∀ h, h ∈ touched ↔ h ∈ called
  ordered : touched.Pairwise fun h h' => called.idxOf h < called.idxOf h'
  short : touched.length ≤ called.length

variable [DecidableEq Handler]

/-- One more call. -/
lemma FirstCalls.call {touched called : List Handler} (f : FirstCalls touched called) (h : Handler) :
    FirstCalls (if h ∈ touched then touched else touched ++ [h]) (called ++ [h]) := by
  -- the call is behind the first calls of the handlers touched so far
  have stays : ∀ x ∈ touched, (called ++ [h]).idxOf x = called.idxOf x := by
    intro x mem
    exact List.idxOf_append_of_mem ((f.mem_iff x).mp mem)
  have ordered : touched.Pairwise fun x y => (called ++ [h]).idxOf x < (called ++ [h]).idxOf y := by
    apply f.ordered.imp_of_mem
    intro x y hx hy lt
    rw [stays x hx, stays y hy]
    exact lt
  by_cases there : h ∈ touched
  · rw [if_pos there]
    refine ⟨f.nodup, ?_, ordered, ?_⟩
    · intro x
      rw [List.mem_append, List.mem_singleton, ← f.mem_iff]
      constructor
      · exact .inl
      · rintro (mem | rfl)
        · exact mem
        · exact there
    · rw [List.length_append]
      exact Nat.le_trans f.short (Nat.le_add_right _ _)
  · have new : h ∉ called := fun mem => there ((f.mem_iff h).mpr mem)
    rw [if_neg there]
    refine ⟨?_, ?_, ?_, ?_⟩
    · exact List.nodup_append.mpr ⟨f.nodup, List.nodup_singleton h, by
        intro x hx y hy e
        rw [List.mem_singleton] at hy
        exact there (hy ▸ e ▸ hx)⟩
    · intro x
      rw [List.mem_append, List.mem_append, f.mem_iff]
    · refine List.pairwise_append.mpr ⟨ordered, List.pairwise_singleton _ _, ?_⟩
      intro x hx y hy
      rw [List.mem_singleton.mp hy, stays x hx, List.idxOf_append_of_notMem new, List.idxOf_cons_self]
      exact Nat.lt_of_lt_of_le (List.idxOf_lt_length_of_mem ((f.mem_iff x).mp hx)) (Nat.le_add_right _ _)
    · rw [List.length_append, List.length_append]
      exact Nat.add_le_add_right f.short 1

/-- The run on the array follows the dispatch on the list, at most `b` calls long. -/
structure DispatchRun.Follows (r : DispatchRun Handler Buf) (d : Dispatch Handler Buf) (b : ℕ) : Prop where
  calls : r.calls = d.handled.map fun c => .handle c.1 c.2
  touched : r.touched.Holds d.touched b
  packetsDispatched : r.packetsDispatched = d.packetsDispatched
  first : FirstCalls d.touched (d.handled.map Prod.fst)

namespace HandlerTable

variable (table : HandlerTable Handler)

/-- One round. -/
lemma dispatchRound_follows {r : DispatchRun Handler Buf} {d : Dispatch Handler Buf} {b : ℕ}
    (f : r.Follows d b) (room : d.handled.length ≤ b) (e : BatchEntry Buf) :
    (table.dispatchRound r e).Follows (table.dispatchOne d e) b := by
  have len := f.first.short
  rw [List.length_map] at len
  rw [dispatchRound, dispatchOne]
  cases (table.handlerFor e.pkt).run e.mem with
  | none => exact f
  | some h =>
    refine ⟨?_, f.touched.mark (Nat.le_trans len room) h, ?_, ?_⟩
    · rw [List.map_append, f.calls]
      rfl
    · rw [f.packetsDispatched]
    · rw [List.map_append]
      exact f.first.call h

/-- The first loop. -/
lemma foldl_follows (batch : List (BatchEntry Buf)) {r : DispatchRun Handler Buf}
    {d : Dispatch Handler Buf} {b : ℕ} (f : r.Follows d b) (room : d.handled.length + batch.length ≤ b) :
    (batch.foldl table.dispatchRound r).Follows (batch.foldl table.dispatchOne d) b := by
  induction batch generalizing r d with
  | nil => exact f
  | cons e batch ih =>
    rw [List.length_cons] at room
    have grows : (table.dispatchOne d e).handled.length ≤ d.handled.length + 1 := by
      rw [dispatchOne]
      cases (table.handlerFor e.pkt).run e.mem with
      | none => exact Nat.le_succ _
      | some h => exact Nat.le_of_eq (List.length_append)
    exact ih (table.dispatchRound_follows f (by omega) e) (by omega)

/-- What `dispatch_batch` does on a batch. -/
lemma dispatchAll_spec (stack : ℕ → Handler) (n : BitVec 64) (batch : List (BatchEntry Buf)) :
    (table.dispatchAll stack n batch).calls
        = (table.dispatchBatch n batch).handled.map (fun c => .handle c.1 c.2)
          ++ (table.dispatchBatch n batch).touched.map .flush ∧
    (table.dispatchAll stack n batch).packetsDispatched
        = (table.dispatchBatch n batch).packetsDispatched ∧
    FirstCalls (table.dispatchBatch n batch).touched
      ((table.dispatchBatch n batch).handled.map Prod.fst) ∧
    ∀ j ∈ (table.dispatchAll stack n batch).touched.accessed, j ≤ batch.length := by
  have start : DispatchRun.Follows
      { calls := [], touched := { slots := stack, count := 0, accessed := [] }, packetsDispatched := n }
      { handled := [], touched := [], packetsDispatched := n : Dispatch Handler Buf } batch.length :=
    ⟨rfl, ⟨rfl, nofun, nofun⟩, rfl, ⟨List.nodup_nil, fun _ => Iff.rfl, .nil, le_rfl⟩⟩
  have f := table.foldl_follows batch start (by simp)
  have holds := f.touched
  have few : (batch.foldl table.dispatchOne
      { handled := [], touched := [], packetsDispatched := n }).touched.length ≤ batch.length := by
    refine Nat.le_trans f.first.short ?_
    rw [List.length_map]
    show (table.dispatchBatch n batch).handled.length ≤ _
    rw [dispatchBatch_handled]
    exact List.length_filterMap_le _ _
  rw [dispatchAll, dispatchBatch]
  refine ⟨?_, ?_, f.first, ?_⟩
  · rw [foldl_flushRound, f.calls, holds.map_range HandlerCall.flush]
  · rw [foldl_flushRound, f.packetsDispatched]
  · intro j mem
    rw [foldl_flushRound] at mem
    rcases List.mem_append.mp mem with mem | mem
    · exact holds.accessed j mem
    · rw [List.mem_range, holds.count] at mem
      omega

/-- For every batch of at most 32 packets, every table of handlers and whatever is on the stack: after all
`handle` calls each handler that was called is flushed once, and no other, in the order of their first
`handle` calls; and every access to `touched` is inside it. -/
theorem flush_discipline (stack : ℕ → Handler) (n : BitVec 64) (batch : List (BatchEntry Buf))
    (short : batch.length ≤ batchSize) :
    ∃ (handled : List (Handler × Buf)) (flushed : List Handler),
      handled = batch.filterMap (fun e =>
        ((table.handlerFor e.pkt).run e.mem).map fun h => (h, e.buf)) ∧
      (table.dispatchAll stack n batch).calls
        = handled.map (fun c => .handle c.1 c.2) ++ flushed.map .flush ∧
      flushed.Nodup ∧
      (∀ h, h ∈ flushed ↔ ∃ buf, (h, buf) ∈ handled) ∧
      flushed.Pairwise (fun h h' =>
        (handled.map Prod.fst).idxOf h < (handled.map Prod.fst).idxOf h') ∧
      ∀ j ∈ (table.dispatchAll stack n batch).touched.accessed, j < batchSize + 1 := by
  obtain ⟨calls, _, first, accessed⟩ := table.dispatchAll_spec stack n batch
  refine ⟨_, _, table.dispatchBatch_handled n batch, calls, first.nodup, ?_, first.ordered, ?_⟩
  · intro h
    rw [first.mem_iff, List.mem_map]
    constructor
    · rintro ⟨⟨h', buf⟩, mem, rfl⟩
      exact ⟨buf, mem⟩
    · rintro ⟨buf, mem⟩
      exact ⟨(h, buf), mem, rfl⟩
  · intro j mem
    have := accessed j mem
    omega

/-- One handler for the ports 7 and 8, another one for port 9. -/
def sharedPorts : HandlerTable Bool where
  udp := fun port => if port = 7 ∨ port = 8 then some true else if port = 9 then some false else none
  default := none

/-- A datagram to a port, in a batch. -/
def datagramTo (port : BitVec 8) (buf : ℕ) : BatchEntry ℕ :=
  let mem := fun a => (BatchProcessor.wrongChecksumFrame.set 37 port).getD a 0
  { pkt := (parse 42).run mem, mem := mem, buf := buf }

/-- Datagrams to the ports 7, 9, 8 and 5: the first and the third go to one handler, the last one to none. -/
theorem flush_discipline_shared_handler :
    ∃ (handled : List (Bool × ℕ)) (flushed : List Bool), handled = [(true, 0), (false, 1), (true, 2)] ∧
      (sharedPorts.dispatchAll (fun _ => true) 0
          [datagramTo 7 0, datagramTo 9 1, datagramTo 8 2, datagramTo 5 3]).calls
        = handled.map (fun c => .handle c.1 c.2) ++ flushed.map .flush ∧
      flushed.Nodup ∧ (∀ h, h ∈ flushed ↔ ∃ buf, (h, buf) ∈ handled) ∧
      flushed.Pairwise (fun h h' =>
        (handled.map Prod.fst).idxOf h < (handled.map Prod.fst).idxOf h') := by
  obtain ⟨handled, flushed, eq, calls, nodup, mem, ordered, _⟩ :=
    sharedPorts.flush_discipline (fun _ => true) 0
      [datagramTo 7 0, datagramTo 9 1, datagramTo 8 2, datagramTo 5 3] (by decide)
  exact ⟨handled, flushed, eq.trans (by decide +kernel), calls, nodup, mem, ordered⟩

end HandlerTable

end UxNet.Packet
