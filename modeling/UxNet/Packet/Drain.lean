import UxNet.Capture.Pipeline
import UxNet.Packet.Flush
import UxNet.Pool.Contents

/-!
# Draining a queue in batches

`BatchProcessor::run_once` again, step by step: every `pop`, every `parse`, every call on a handler and
every `release` is a step, and between any two of them the rest of the program may push more buffers and
do what it likes with the buffers that are not on their way. `batch_` is a pair of arrays that keep what
the calls before left in them. The handlers do not write to buffers and do not register others.

`pushed` and `trace` are history: the buffers pushed, with their frames, and what `run_once` has done.
The trace of a finished call is `callTrace` of its batch. `Told` says how far the trace of the current
call has got, one case for each place `run_once` can be at; `Owned` says that the frames of the buffers
on their way are still those pushed.
-/

namespace UxNet.Packet

/-- A buffer as it is pushed: the bytes from `data` on, and `len`. -/
structure Pushed where
  buf : ℕ
  mem : ℕ → BitVec 8
  len : BitVec 32

/-- What the frame is parsed to. -/
def Pushed.parsed (e : Pushed) : ParsedPacket := (parse (e.len.setWidth 64)).run e.mem

variable {Handler : Type}

/-- The `handle` calls when the frames are parsed and handled one by one. -/
def HandlerTable.oneByOne (table : HandlerTable Handler) (es : List Pushed) : List (Handler × ℕ) :=
  es.filterMap fun e => ((table.handlerFor e.parsed).run e.mem).map fun h => (h, e.buf)

namespace Drain

/-- What `run_once` does that can be seen from outside. -/
inductive Event (Handler : Type) where
  | call
  | pop (buf : ℕ)
  | handle (h : Handler) (buf : ℕ)
  | flush (h : Handler)
  | release (buf : ℕ)

/-- Where `run_once` is; `n` is `batch_.count`, or the number of buffers popped so far. -/
inductive Pc where
  /-- not called, or returned -/
  | idle
  /-- about to test `n` and to call `pop` -/
  | drain (n : ℕ)
  /-- about to parse buffer `i` -/
  | parse (n i : ℕ)
  /-- `dispatch_batch`: about to look at packet `i` -/
  | dispatch (n i : ℕ)
  /-- `dispatch_batch`: about to flush handler `j` -/
  | flush (n j : ℕ)
  /-- about to release buffer `i` -/
  | release (n i : ℕ)
deriving DecidableEq

/-- The processor, its queue and its pool. -/
structure State (Handler : Type) (k : Fin 64) where
  pool : BufferPool
  queue : SPSCRing ℕ k
  bufs : ℕ → ℕ
  packets : ℕ → ParsedPacket
  touched : List Handler
  pc : Pc
  batchesProcessed : BitVec 64
  packetsProcessed : BitVec 64
  packetsDispatched : BitVec 64
  pushed : List Pushed
  trace : List (Event Handler)

/-- The number of buffers in the batch. -/
def Pc.count : Pc → ℕ
  | .idle => 0
  | .drain n | .parse n _ | .dispatch n _ | .flush n _ | .release n _ => n

/-- The number of buffers of the batch that have been released. -/
def Pc.released : Pc → ℕ
  | .release _ i => i
  | _ => 0

namespace State

variable {k : Fin 64}

/-- Nothing has been pushed and `run_once` has not been called. -/
def init (pool : BufferPool) (slots : Fin (2 ^ k.val) → ℕ) (bufs : ℕ → ℕ) (packets : ℕ → ParsedPacket)
    (touched : List Handler) : State Handler k where
  pool := pool
  queue := .new slots
  bufs := bufs
  packets := packets
  touched := touched
  pc := .idle
  batchesProcessed := 0
  packetsProcessed := 0
  packetsDispatched := 0
  pushed := []
  trace := []

/-- The buffers on their way: pushed, and not yet released. -/
def inFlight (s : State Handler k) : List ℕ :=
  ((List.range s.pc.count).map s.bufs).drop s.pc.released ++ s.queue.items

/-- A buffer with its frame. -/
def frame (s : State Handler k) (buf : ℕ) : Pushed where
  buf := buf
  mem := s.pool.view buf
  len := s.pool.len buf

/-- The end of the drain loop: `batch_.count = n; if (n == 0) return`. -/
def drained (n : ℕ) : Pc := if n = 0 then .idle else .parse n 0

/-- `dispatch_batch`: the round of packet `i`. -/
def dispatchRound [DecidableEq Handler] (table : HandlerTable Handler) (s : State Handler k) (n i : ℕ) :
    State Handler k :=
  match (table.handlerFor (s.packets i)).run (s.pool.view (s.bufs i)) with
  | some h =>
    { s with
      packetsDispatched := s.packetsDispatched + 1
      touched := if h ∈ s.touched then s.touched else s.touched ++ [h]
      pc := .dispatch n (i + 1)
      trace := s.trace ++ [.handle h (s.bufs i)] }
  | none => { s with pc := .dispatch n (i + 1) }

/-- A step of `run_once`. -/
inductive RunOnce [DecidableEq Handler] (table : HandlerTable Handler) :
    State Handler k → State Handler k → Prop where
  | call {s} :
    s.pc = .idle →
    RunOnce table s { s with pc := .drain 0, trace := s.trace ++ [.call] }
  | pop {s n buf queue} :
    s.pc = .drain n →
    n < batchSize →
    s.queue.pop = (some buf, queue) →
    RunOnce table s { s with
      queue := queue
      bufs := Function.update s.bufs n buf
      pc := .drain (n + 1)
      trace := s.trace ++ [.pop buf] }
  | empty {s n queue} :
    s.pc = .drain n →
    n < batchSize →
    s.queue.pop = (none, queue) →
    RunOnce table s { s with queue := queue, pc := drained n }
  | full {s n} :
    s.pc = .drain n →
    ¬n < batchSize →
    RunOnce table s { s with pc := drained n }
  | parse {s n i} :
    s.pc = .parse n i →
    i < n →
    RunOnce table s { s with
      packets := Function.update s.packets i (s.frame (s.bufs i)).parsed
      pc := .parse n (i + 1) }
  | parsed {s n i} :
    s.pc = .parse n i →
    ¬i < n →
    RunOnce table s { s with pc := .dispatch n 0, touched := [] }
  | dispatch {s n i} :
    s.pc = .dispatch n i →
    i < n →
    RunOnce table s (s.dispatchRound table n i)
  | dispatched {s n i} :
    s.pc = .dispatch n i →
    ¬i < n →
    RunOnce table s { s with pc := .flush n 0 }
  | flush {s n j h} :
    s.pc = .flush n j →
    s.touched[j]? = some h →
    RunOnce table s { s with pc := .flush n (j + 1), trace := s.trace ++ [.flush h] }
  | flushed {s n j} :
    s.pc = .flush n j →
    s.touched.length ≤ j →
    RunOnce table s { s with pc := .release n 0 }
  | release {s n i} :
    s.pc = .release n i →
    i < n →
    RunOnce table s { s with
      pool := s.pool.release .caller (s.bufs i)
      pc := .release n (i + 1)
      trace := s.trace ++ [.release (s.bufs i)] }
  | finish {s n i} :
    s.pc = .release n i →
    ¬i < n →
    RunOnce table s { s with
      batchesProcessed := s.batchesProcessed + 1
      packetsProcessed := s.packetsProcessed + BitVec.ofNat 64 n
      pc := .idle }

/-- The frame of a buffer is as it was, as far as it is looked at. -/
def SameFrame (p p' : BufferPool) (buf : ℕ) : Prop :=
  p'.len buf = p.len buf ∧ ∀ i < reach, p'.view buf i = p.view buf i

/-- A step of the rest of the program: it pushes a buffer, or does something with the pool. The buffers
on their way are not its own. -/
inductive Other : State Handler k → State Handler k → Prop where
  | push {s buf queue} :
    buf ∉ s.inFlight →
    s.queue.push buf = (true, queue) →
    Other s { s with queue := queue, pushed := s.pushed ++ [s.frame buf] }
  | pool {s pool} :
    (∀ buf ∈ s.inFlight, SameFrame s.pool pool buf) →
    Other s { s with pool := pool }

/-- With buffers large enough for the parser, what the rest of the program does with its own buffers is
such a step. -/
lemma Other.callerOp {s : State Handler k} (fits : reach ≤ s.pool.bufferSize)
    (free : ∀ buf ∈ s.inFlight, buf ∉ s.pool.free) (caller : ∀ buf ∈ s.inFlight, buf ∉ s.pool.caller)
    (op : CallerOp) : Other s { s with pool := s.pool.callerOp op } := by
  refine .pool fun buf mem => ?_
  obtain ⟨untouched, _⟩ := Untouched.callerOp op (free buf mem) (caller buf mem)
  exact ⟨untouched.len, fun i lt => untouched.view i (Nat.lt_of_lt_of_le lt fits)⟩

/-- A step of the processor or of the rest of the program. -/
inductive Step [DecidableEq Handler] (table : HandlerTable Handler) :
    State Handler k → State Handler k → Prop where
  | run {s t} : RunOnce table s t → Step table s t
  | other {s t} : Other s t → Step table s t

/-- Any number of steps. -/
def Steps [DecidableEq Handler] (table : HandlerTable Handler) :
    State Handler k → State Handler k → Prop :=
  Relation.ReflTransGen (Step table)

end State

/-! ## The trace of a call -/

/-- The distinct members of a list, in the order of their first occurrence, as `mark` collects them. -/
def firsts [DecidableEq Handler] (hs : List Handler) : List Handler :=
  hs.foldl (fun l h => if h ∈ l then l else l ++ [h]) []

variable [DecidableEq Handler] (table : HandlerTable Handler)

/-- The calls on the handlers for a batch. -/
def handleCalls (batch : List Pushed) : List (Event Handler) :=
  (table.oneByOne batch).map fun c => .handle c.1 c.2

/-- The handlers to flush for a batch. -/
def toFlush (batch : List Pushed) : List Handler := firsts ((table.oneByOne batch).map Prod.fst)

/-- What a call of `run_once` does with a batch. -/
def callTrace (batch : List Pushed) : List (Event Handler) :=
  [.call] ++ batch.map (fun e => .pop e.buf) ++ handleCalls table batch
    ++ (toFlush table batch).map .flush ++ batch.map fun e => .release e.buf

/-- What it has done when it is at `pc`. -/
def partTrace (batch : List Pushed) : Pc → List (Event Handler)
  | .idle => []
  | .drain _ | .parse _ _ => [.call] ++ batch.map fun e => .pop e.buf
  | .dispatch _ i => [.call] ++ batch.map (fun e => .pop e.buf) ++ handleCalls table (batch.take i)
  | .flush _ j => [.call] ++ batch.map (fun e => .pop e.buf) ++ handleCalls table batch
      ++ ((toFlush table batch).take j).map .flush
  | .release _ i => [.call] ++ batch.map (fun e => .pop e.buf) ++ handleCalls table batch
      ++ (toFlush table batch).map .flush ++ (batch.take i).map fun e => .release e.buf

/-- The `handle` calls in a trace. -/
def handled (trace : List (Event Handler)) : List (Handler × ℕ) :=
  trace.filterMap fun
    | .handle h buf => some (h, buf)
    | _ => none

/-- The buffers popped in a trace. -/
def popped (trace : List (Event Handler)) : List ℕ :=
  trace.filterMap fun
    | .pop buf => some buf
    | _ => none

/-- The buffers released in a trace. -/
def releasedIn (trace : List (Event Handler)) : List ℕ :=
  trace.filterMap fun
    | .release buf => some buf
    | _ => none

/-! ## The buffers on their way -/

/-- The frame of a buffer is still the one that was pushed, as far as it is looked at. -/
def Framed (pool : BufferPool) (e : Pushed) : Prop :=
  pool.len e.buf = e.len ∧ ∀ i < reach, pool.view e.buf i = e.mem i

omit [DecidableEq Handler] in
/-- A buffer that still has its frame is parsed to the same packet and gets the same handler. -/
lemma Framed.handler {pool : BufferPool} {e : Pushed} (f : Framed pool e) :
    (parse ((pool.len e.buf).setWidth 64)).run (pool.view e.buf) = e.parsed ∧
    (table.handlerFor e.parsed).run (pool.view e.buf) = (table.handlerFor e.parsed).run e.mem := by
  obtain ⟨same, flow⟩ := parse_congr f.2 (e.len.setWidth 64)
  have parsed : (parse (e.len.setWidth 64)).run (pool.view e.buf) = e.parsed := same
  rw [parsed] at flow
  have flow' : e.parsed.flow.run (pool.view e.buf) = e.parsed.flow.run e.mem := flow
  have port : e.parsed.udp.dstPort.run (pool.view e.buf) = e.parsed.udp.dstPort.run e.mem := by
    have at' := congrArg Flow.dstPort flow'
    simpa [ParsedPacket.flow] using at'
  refine ⟨f.1 ▸ parsed, ?_⟩
  unfold HandlerTable.handlerFor
  split
  · simp only [Access.run_bind, Access.run_pure, port]
  · rfl

variable {k : Fin 64} {s t : State Handler k} {cur waiting : List Pushed} {done : List (List Pushed)}

/-- The batch `cur` and the queue hold the buffers on their way, with their frames. -/
structure Owned (s : State Handler k) (cur waiting : List Pushed) : Prop where
  sound : s.queue.Sound
  items : s.queue.items = waiting.map Pushed.buf
  bufs : (List.range s.pc.count).map s.bufs = cur.map Pushed.buf
  frames : ∀ e ∈ cur.drop s.pc.released ++ waiting, Framed s.pool e
  distinct : ((cur.drop s.pc.released ++ waiting).map Pushed.buf).Nodup

namespace Owned

omit [DecidableEq Handler]

/-- The buffers on their way are those of the batch and of the queue. -/
lemma inFlight (own : Owned s cur waiting) :
    s.inFlight = (cur.drop s.pc.released ++ waiting).map Pushed.buf := by
  rw [State.inFlight, own.bufs, own.items, List.map_append, List.map_drop]

/-- The batch is as long as the loop counts. -/
lemma length (own : Owned s cur waiting) : cur.length = s.pc.count := by
  have len := congrArg List.length own.bufs
  rw [List.length_map, List.length_map, List.length_range] at len
  exact len.symm

/-- The array holds the buffers of the batch. -/
lemma buf_eq (own : Owned s cur waiting) {i : ℕ} {e : Pushed} (at' : cur[i]? = some e) :
    s.bufs i = e.buf := by
  obtain ⟨lt, _⟩ := List.getElem?_eq_some_iff.mp at'
  have same := congrArg (·[i]?) own.bufs
  simp only [List.getElem?_map, at', List.getElem?_range (own.length ▸ lt), Option.map_some] at same
  exact Option.some.inj same

/-- A step inside `run_once` that keeps the batch. -/
lemma same (own : Owned s cur waiting) (pool : t.pool = s.pool) (queue : t.queue = s.queue)
    (bufs : t.bufs = s.bufs) (count : t.pc.count = s.pc.count)
    (released : t.pc.released = s.pc.released) : Owned t cur waiting := by
  refine ⟨?_, ?_, ?_, ?_, ?_⟩
  · rw [queue]
    exact own.sound
  · rw [queue]
    exact own.items
  · rw [count, bufs]
    exact own.bufs
  · rw [released, pool]
    exact own.frames
  · rw [released]
    exact own.distinct

/-- A buffer moves from the queue to the batch. -/
lemma pop (own : Owned s cur waiting) {n buf : ℕ} {queue : SPSCRing ℕ k} (at' : s.pc = .drain n)
    (take : s.queue.pop = (some buf, queue)) (tr : List (Event Handler)) :
    ∃ e rest, waiting = e :: rest ∧ e.buf = buf ∧
      Owned { s with
        queue := queue
        bufs := Function.update s.bufs n buf
        pc := .drain (n + 1)
        trace := tr } (cur ++ [e]) rest := by
  obtain ⟨sound, items⟩ := own.sound.pop_some take
  rw [own.items] at items
  have len : cur.length = n := by
    rw [own.length, at']
    rfl
  have frames := own.frames
  have distinct := own.distinct
  rw [at'] at frames distinct
  cases waiting with
  | nil => cases items
  | cons e rest =>
    obtain ⟨first, rest'⟩ := List.cons.inj items
    refine ⟨e, rest, rfl, first, sound, rest'.symm, ?_, ?_, ?_⟩
    · have before : (List.range n).map (Function.update s.bufs n buf) = (List.range n).map s.bufs := by
        apply List.map_congr_left
        intro i mem
        exact Function.update_of_ne (Nat.ne_of_lt (List.mem_range.mp mem)) _ _
      have bufs := own.bufs
      rw [at'] at bufs
      show (List.range (n + 1)).map (Function.update s.bufs n buf) = _
      rw [List.range_succ, List.map_append, before, List.map_append, List.map_singleton,
        Function.update_self, List.map_singleton, first]
      exact congrArg (· ++ [buf]) bufs
    · intro x mem
      apply frames x
      simpa [Pc.released] using mem
    · simpa [Pc.released] using distinct

/-- The next buffer of the batch is released. -/
lemma release (own : Owned s cur waiting) {n i : ℕ} (at' : s.pc = .release n i) (lt : i < n)
    (tr : List (Event Handler)) :
    ∃ e, cur[i]? = some e ∧ s.bufs i = e.buf ∧
      Owned { s with
        pool := s.pool.release .caller (s.bufs i)
        pc := .release n (i + 1)
        trace := tr } cur waiting := by
  have len : cur.length = n := by
    rw [own.length, at']
    rfl
  have lt' : i < cur.length := by omega
  have here : cur[i]? = some cur[i] := List.getElem?_eq_getElem lt'
  have buf := own.buf_eq here
  have frames := own.frames
  have distinct := own.distinct
  rw [at', Pc.released, List.drop_eq_getElem_cons lt'] at frames distinct
  rw [List.cons_append, List.map_cons, List.nodup_cons] at distinct
  refine ⟨cur[i], here, buf, own.sound, own.items, ?_, ?_, distinct.2⟩
  · have bufs := own.bufs
    rw [at'] at bufs
    exact bufs
  · -- `release` sets the length of its buffer to 0, and the others on their way are other buffers
    intro e mem
    have old := frames e (by rw [List.cons_append]; exact List.mem_cons_of_mem _ mem)
    have ne : e.buf ≠ s.bufs i := by
      rw [buf]
      intro eq
      exact distinct.1 (List.mem_map.mpr ⟨e, mem, eq⟩)
    exact ⟨(Function.update_of_ne ne _ _).trans old.1, old.2⟩

/-- All of the batch has been released. -/
lemma finish (own : Owned s cur waiting) (pool : t.pool = s.pool) (queue : t.queue = s.queue)
    (idle : t.pc = .idle) : Owned t [] waiting := by
  have frames := own.frames
  have distinct := own.distinct
  rw [List.map_append] at distinct
  refine ⟨?_, ?_, ?_, ?_, ?_⟩
  · rw [queue]
    exact own.sound
  · rw [queue]
    exact own.items
  · rw [idle]
    rfl
  · intro e mem
    rw [pool]
    refine frames e (List.mem_append_right _ ?_)
    simpa using mem
  · have later := (List.nodup_append.mp distinct).2.1
    simpa using later

/-- The rest of the program. -/
lemma other (own : Owned s cur waiting) (step : State.Other s t) :
    ∃ more, t.pushed = s.pushed ++ more ∧ Owned t cur (waiting ++ more) := by
  have inFlight := own.inFlight
  cases step with
  | @push buf queue new put =>
    obtain ⟨sound, items⟩ := own.sound.push_true put
    refine ⟨[s.frame buf], rfl, sound, ?_, own.bufs, ?_, ?_⟩
    · rw [items, own.items, List.map_append]
      rfl
    · intro e mem
      rw [← List.append_assoc] at mem
      rcases List.mem_append.mp mem with mem | mem
      · exact own.frames e mem
      · rw [List.mem_singleton.mp mem]
        exact ⟨rfl, fun _ _ => rfl⟩
    · rw [← List.append_assoc, List.map_append]
      refine List.nodup_append.mpr ⟨own.distinct, List.nodup_singleton _, ?_⟩
      intro x hx y hy e
      rw [inFlight] at new
      have here : x = buf := e.trans (List.mem_singleton.mp hy)
      exact new (here ▸ hx)
  | @pool pool same =>
    refine ⟨[], (List.append_nil _).symm, ?_⟩
    rw [List.append_nil]
    refine ⟨own.sound, own.items, own.bufs, ?_, own.distinct⟩
    intro e mem
    have old := own.frames e mem
    have kept := same e.buf (by rw [inFlight]; exact List.mem_map.mpr ⟨e, mem, rfl⟩)
    exact ⟨kept.1.trans old.1, fun i lt => (kept.2 i lt).trans (old.2 i lt)⟩

end Owned

/-! ## What has been done -/

omit [DecidableEq Handler] in
/-- Frames are handled one after another. -/
lemma oneByOne_append (es es' : List Pushed) :
    table.oneByOne (es ++ es') = table.oneByOne es ++ table.oneByOne es' :=
  List.filterMap_append

omit [DecidableEq Handler] in
/-- A frame is handled once if it has a handler. -/
lemma oneByOne_singleton (e : Pushed) : table.oneByOne [e]
    = (((table.handlerFor e.parsed).run e.mem).map fun h => (h, e.buf)).toList := by
  rw [HandlerTable.oneByOne, List.filterMap_cons]
  cases (table.handlerFor e.parsed).run e.mem with
  | none => rfl
  | some h => rfl

omit [DecidableEq Handler] in
/-- What is handled, event by event. -/
lemma handled_append (tr tr' : List (Event Handler)) : handled (tr ++ tr') = handled tr ++ handled tr' :=
  List.filterMap_append

/-- The batch up to one more packet. -/
lemma take_succ {es : List Pushed} {i : ℕ} {e : Pushed} (at' : es[i]? = some e) :
    es.take (i + 1) = es.take i ++ [e] := by
  rw [List.take_add_one, at']
  rfl

/-- The first `i` packets of the batch are in the array. -/
def ParsedUpTo (s : State Handler k) (cur : List Pushed) (i : ℕ) : Prop :=
  ∀ j < i, ∀ e, cur[j]? = some e → s.packets j = e.parsed

/-- What the variables of `run_once` are at each place. -/
def Phase (s : State Handler k) (cur : List Pushed) : Prop :=
  match s.pc with
  | .idle => cur = []
  | .drain n => n ≤ batchSize
  | .parse n i => 0 < n ∧ n ≤ batchSize ∧ i ≤ n ∧ ParsedUpTo s cur i
  | .dispatch n i => 0 < n ∧ n ≤ batchSize ∧ i ≤ n ∧ ParsedUpTo s cur n ∧
      s.touched = toFlush table (cur.take i)
  | .flush n j => 0 < n ∧ n ≤ batchSize ∧ s.touched = toFlush table cur ∧ j ≤ s.touched.length
  | .release n i => 0 < n ∧ n ≤ batchSize ∧ i ≤ n

/-- The batches `done` have been processed, and `cur` as far as the place of `run_once` says. -/
structure Told (s : State Handler k) (done : List (List Pushed)) (cur : List Pushed) : Prop where
  trace : s.trace = done.flatMap (callTrace table) ++ partTrace table cur s.pc
  small : ∀ b ∈ done, b.length ≤ batchSize
  phase : Phase table s cur
  batches : s.batchesProcessed = BitVec.ofNat 64 (done.countP fun b => !b.isEmpty)
  packets : s.packetsProcessed = BitVec.ofNat 64 done.flatten.length
  dispatched : s.packetsDispatched = BitVec.ofNat 64 (handled s.trace).length

/-- The whole invariant. -/
structure Inv (s : State Handler k) (done : List (List Pushed)) (cur waiting : List Pushed) : Prop where
  pushed : s.pushed = done.flatten ++ cur ++ waiting
  owned : Owned s cur waiting
  told : Told table s done cur

namespace Told

variable {table}

/-- A step that calls no handler and ends no call. -/
lemma silent (told : Told table s done cur) {cur' : List Pushed} {more : List (Event Handler)}
    (trace : t.trace = s.trace ++ more) (quiet : handled more = [])
    (part : partTrace table cur' t.pc = partTrace table cur s.pc ++ more) (phase : Phase table t cur')
    (batches : t.batchesProcessed = s.batchesProcessed)
    (packets : t.packetsProcessed = s.packetsProcessed)
    (dispatched : t.packetsDispatched = s.packetsDispatched) : Told table t done cur' := by
  refine ⟨?_, told.small, phase, batches.trans told.batches, packets.trans told.packets, ?_⟩
  · rw [trace, told.trace, part, List.append_assoc]
  · have same : handled t.trace = handled s.trace := by
      rw [trace, handled_append, quiet, List.append_nil]
    rw [dispatched, told.dispatched, same]

/-- A step that cannot be seen from outside. -/
lemma still (told : Told table s done cur) (trace : t.trace = s.trace)
    (part : partTrace table cur t.pc = partTrace table cur s.pc) (phase : Phase table t cur)
    (batches : t.batchesProcessed = s.batchesProcessed)
    (packets : t.packetsProcessed = s.packetsProcessed)
    (dispatched : t.packetsDispatched = s.packetsDispatched) : Told table t done cur :=
  told.silent (trace.trans (List.append_nil _).symm) rfl (part.trans (List.append_nil _).symm) phase
    batches packets dispatched

/-- The end of a call. -/
lemma returned (told : Told table s done cur) (pc : t.pc = .idle) (trace : t.trace = s.trace)
    (whole : partTrace table cur s.pc = callTrace table cur) (few : cur.length ≤ batchSize)
    (batches : t.batchesProcessed = s.batchesProcessed + if cur.isEmpty then 0 else 1)
    (packets : t.packetsProcessed = s.packetsProcessed + BitVec.ofNat 64 cur.length)
    (dispatched : t.packetsDispatched = s.packetsDispatched) : Told table t (done ++ [cur]) [] := by
  refine ⟨?_, ?_, ?_, ?_, ?_, ?_⟩
  · rw [trace, told.trace, whole, pc, List.flatMap_append]
    simp [partTrace]
  · intro b mem
    rcases List.mem_append.mp mem with mem | mem
    · exact told.small b mem
    · rw [List.mem_singleton.mp mem]
      exact few
  · rw [Phase, pc]
  · rw [batches, told.batches, List.countP_append]
    cases cur with
    | nil => simp
    | cons e es => simp [BitVec.ofNat_add]
  · rw [packets, told.packets, List.flatten_append, List.length_append, BitVec.ofNat_add]
    simp
  · rw [dispatched, told.dispatched, trace]

end Told

namespace Inv

variable {table}

/-- The end of the drain loop: an empty batch ends the call, any other is parsed. -/
lemma drained (inv : Inv table s done cur waiting) {n : ℕ} (at' : s.pc = .drain n) :
    ∃ done cur, Inv table { s with pc := State.drained n } done cur waiting := by
  have len := inv.owned.length
  have phase := inv.told.phase
  rw [Phase, at'] at phase
  rw [at'] at len
  by_cases none : n = 0
  · -- the call returns before anything is counted
    subst none
    obtain rfl : cur = [] := List.length_eq_zero_iff.mp len
    refine ⟨done ++ [[]], [], ?_, ?_, ?_⟩
    · rw [inv.pushed]
      simp
    · exact inv.owned.same rfl rfl rfl (by rw [at']; rfl) (by rw [at']; rfl)
    · refine inv.told.returned rfl rfl ?_ (Nat.zero_le _) ?_ ?_ rfl
      · rw [at']
        rfl
      · exact (BitVec.add_zero _).symm
      · exact (BitVec.add_zero _).symm
  · refine ⟨done, cur, inv.pushed, ?_, ?_⟩
    · rw [State.drained, if_neg none]
      exact inv.owned.same rfl rfl rfl (by rw [at']; rfl) (by rw [at']; rfl)
    · rw [State.drained, if_neg none]
      refine inv.told.still rfl ?_ ?_ rfl rfl rfl
      · rw [at']
        rfl
      · exact ⟨Nat.pos_of_ne_zero none, phase, Nat.zero_le _, nofun⟩

/-- The round of one packet. -/
lemma dispatch (inv : Inv table s done cur waiting) {n i : ℕ} (at' : s.pc = .dispatch n i) (lt : i < n) :
    Inv table (s.dispatchRound table n i) done cur waiting := by
  have len := inv.owned.length
  have phase := inv.told.phase
  rw [Phase, at'] at phase
  obtain ⟨pos, few, _, parsed, touched⟩ := phase
  rw [at'] at len
  obtain ⟨e, here⟩ : ∃ e, cur[i]? = some e :=
    ⟨_, List.getElem?_eq_getElem (by rw [len]; exact lt)⟩
  have buf := inv.owned.buf_eq here
  have mem : e ∈ cur.drop s.pc.released ++ waiting := by
    rw [at']
    exact List.mem_append_left _ (List.mem_of_getElem? here)
  -- the port is read again from the buffer, which still has the frame that was pushed
  have handler := ((inv.owned.frames _ mem).handler table).2
  rw [← parsed i lt _ here, ← buf] at handler
  have next := oneByOne_append table (cur.take i) [e]
  rw [← take_succ here] at next
  have one : table.oneByOne [e] = (((table.handlerFor (s.packets i)).run e.mem).map fun h =>
      (h, s.bufs i)).toList := by
    rw [buf, parsed i lt _ here]
    exact oneByOne_singleton table e
  unfold State.dispatchRound
  rw [handler]
  cases found : (table.handlerFor (s.packets i)).run e.mem with
  | none =>
    rw [found] at one
    rw [one] at next
    have same : table.oneByOne (cur.take (i + 1)) = table.oneByOne (cur.take i) :=
      next.trans (List.append_nil _)
    refine ⟨inv.pushed, ?_, ?_⟩
    · exact inv.owned.same rfl rfl rfl (by rw [at']; rfl) (by rw [at']; rfl)
    · refine inv.told.still rfl ?_ ?_ rfl rfl rfl
      · rw [at']
        simp only [partTrace, handleCalls, same]
      · refine ⟨pos, few, lt, parsed, ?_⟩
        rw [toFlush, same]
        exact touched
  | some h =>
    rw [found] at one
    rw [one] at next
    have more : table.oneByOne (cur.take (i + 1)) = table.oneByOne (cur.take i) ++ [(h, s.bufs i)] := next
    refine ⟨inv.pushed, ?_, ?_⟩
    · exact inv.owned.same rfl rfl rfl (by rw [at']; rfl) (by rw [at']; rfl)
    · refine ⟨?_, inv.told.small, ?_, inv.told.batches, inv.told.packets, ?_⟩
      · show s.trace ++ [.handle h (s.bufs i)] = _
        rw [inv.told.trace, at']
        simp only [partTrace, handleCalls, more, List.map_append, List.append_assoc]
        rfl
      · refine ⟨pos, few, lt, parsed, ?_⟩
        rw [toFlush, more, List.map_append]
        show (if h ∈ s.touched then s.touched else s.touched ++ [h]) = firsts (_ ++ [h])
        rw [firsts, List.foldl_append, touched]
        rfl
      · show s.packetsDispatched + 1 = _
        rw [inv.told.dispatched]
        show _ = BitVec.ofNat 64 (handled (s.trace ++ [.handle h (s.bufs i)])).length
        rw [handled_append, List.length_append, BitVec.ofNat_add]
        rfl

/-- The next packet is parsed. -/
lemma parse (inv : Inv table s done cur waiting) {n i : ℕ} (at' : s.pc = .parse n i) (lt : i < n) :
    Inv table { s with packets := Function.update s.packets i (s.frame (s.bufs i)).parsed
                       pc := .parse n (i + 1) } done cur waiting := by
  have phase := inv.told.phase
  rw [Phase, at'] at phase
  obtain ⟨pos, few, _, parsed⟩ := phase
  refine ⟨inv.pushed, ?_, ?_⟩
  · exact inv.owned.same rfl rfl rfl (by rw [at']; rfl) (by rw [at']; rfl)
  · refine inv.told.still rfl ?_ ?_ rfl rfl rfl
    · rw [at']
      rfl
    · refine ⟨pos, few, lt, ?_⟩
      intro j hj e at''
      by_cases last : j = i
      · subst last
        have mem : e ∈ cur.drop s.pc.released ++ waiting := by
          rw [at']
          exact List.mem_append_left _ (List.mem_of_getElem? at'')
        show Function.update s.packets j (s.frame (s.bufs j)).parsed j = _
        rw [Function.update_self, inv.owned.buf_eq at'']
        exact ((inv.owned.frames e mem).handler table).1
      · show Function.update s.packets i (s.frame (s.bufs i)).parsed j = _
        rw [Function.update_of_ne last]
        exact parsed j (by omega) e at''

/-- The call returns with its batch done. -/
lemma finish (inv : Inv table s done cur waiting) {n i : ℕ} (at' : s.pc = .release n i) (out : ¬i < n) :
    Inv table { s with batchesProcessed := s.batchesProcessed + 1
                       packetsProcessed := s.packetsProcessed + BitVec.ofNat 64 n
                       pc := .idle } (done ++ [cur]) [] waiting := by
  have len := inv.owned.length
  have phase := inv.told.phase
  rw [Phase, at'] at phase
  obtain ⟨pos, few, le⟩ := phase
  rw [at'] at len
  have len' : cur.length = n := len
  have all : cur.take i = cur := List.take_of_length_le (by omega)
  refine ⟨?_, inv.owned.finish rfl rfl rfl, ?_⟩
  · show s.pushed = _
    rw [inv.pushed]
    simp
  · refine inv.told.returned rfl rfl ?_ (by omega) ?_ ?_ rfl
    · rw [at', partTrace, callTrace, all]
    · have some : cur.isEmpty = false := by
        rw [List.isEmpty_eq_false_iff, ← List.length_pos_iff]
        omega
      rw [some]
      rfl
    · rw [len']

/-- A step of `run_once`. -/
lemma run (inv : Inv table s done cur waiting) (step : State.RunOnce table s t) :
    ∃ done cur waiting, Inv table t done cur waiting := by
  have len := inv.owned.length
  have phase := inv.told.phase
  cases step with
  | call at' =>
    rw [Phase, at'] at phase
    subst phase
    refine ⟨done, [], waiting, inv.pushed, ?_, ?_⟩
    · exact inv.owned.same rfl rfl rfl (by rw [at']; rfl) (by rw [at']; rfl)
    · refine inv.told.silent rfl rfl ?_ (Nat.zero_le _) rfl rfl rfl
      rw [at']
      rfl
  | @pop n buf queue at' lt take =>
    -- the batch grows by the buffer, and with it what its trace begins with
    obtain ⟨e, rest, rfl, rfl, own⟩ := inv.owned.pop at' take (s.trace ++ [.pop buf])
    refine ⟨done, cur ++ [e], rest, ?_, own, ?_⟩
    · show s.pushed = _
      rw [inv.pushed]
      simp
    · refine inv.told.silent rfl rfl ?_ lt rfl rfl rfl
      rw [at']
      simp [partTrace]
  | @empty n queue at' lt none =>
    obtain rfl := SPSCRing.pop_none none
    obtain ⟨done, cur, next⟩ := inv.drained at'
    exact ⟨done, cur, waiting, next⟩
  | full at' _ =>
    obtain ⟨done, cur, next⟩ := inv.drained at'
    exact ⟨done, cur, waiting, next⟩
  | parse at' lt => exact ⟨done, cur, waiting, inv.parse at' lt⟩
  | @parsed n i at' out =>
    rw [Phase, at'] at phase
    obtain ⟨pos, few, le, parsed⟩ := phase
    obtain rfl : i = n := by omega
    refine ⟨done, cur, waiting, inv.pushed, ?_, ?_⟩
    · exact inv.owned.same rfl rfl rfl (by rw [at']; rfl) (by rw [at']; rfl)
    · refine inv.told.still rfl ?_ ?_ rfl rfl rfl
      · rw [at']
        exact List.append_nil _
      · exact ⟨pos, few, Nat.zero_le _, parsed, rfl⟩
  | dispatch at' lt => exact ⟨done, cur, waiting, inv.dispatch at' lt⟩
  | @dispatched n i at' out =>
    rw [Phase, at'] at phase
    obtain ⟨pos, few, le, _, touched⟩ := phase
    rw [at'] at len
    have all : cur.take i = cur := List.take_of_length_le (by rw [len]; show n ≤ i; omega)
    rw [all] at touched
    refine ⟨done, cur, waiting, inv.pushed, ?_, ?_⟩
    · exact inv.owned.same rfl rfl rfl (by rw [at']; rfl) (by rw [at']; rfl)
    · refine inv.told.still rfl ?_ ?_ rfl rfl rfl
      · rw [at']
        simp [partTrace, all]
      · exact ⟨pos, few, touched, Nat.zero_le _⟩
  | @flush n j h at' here =>
    rw [Phase, at'] at phase
    obtain ⟨pos, few, touched, _⟩ := phase
    obtain ⟨lt, _⟩ := List.getElem?_eq_some_iff.mp here
    refine ⟨done, cur, waiting, inv.pushed, ?_, ?_⟩
    · exact inv.owned.same rfl rfl rfl (by rw [at']; rfl) (by rw [at']; rfl)
    · refine inv.told.silent rfl rfl ?_ ⟨pos, few, touched, lt⟩ rfl rfl rfl
      rw [touched] at here
      rw [at']
      simp [partTrace, List.take_add_one, here]
  | @flushed n j at' out =>
    rw [Phase, at'] at phase
    obtain ⟨pos, few, touched, _⟩ := phase
    have all : (toFlush table cur).take j = toFlush table cur :=
      List.take_of_length_le (touched ▸ out)
    refine ⟨done, cur, waiting, inv.pushed, ?_, ?_⟩
    · exact inv.owned.same rfl rfl rfl (by rw [at']; rfl) (by rw [at']; rfl)
    · refine inv.told.still rfl ?_ ?_ rfl rfl rfl
      · rw [at']
        simp [partTrace, all]
      · exact ⟨pos, few, Nat.zero_le _⟩
  | @release n i at' lt =>
    rw [Phase, at'] at phase
    obtain ⟨pos, few, _⟩ := phase
    obtain ⟨e, here, buf, own⟩ := inv.owned.release at' lt (s.trace ++ [.release (s.bufs i)])
    refine ⟨done, cur, waiting, inv.pushed, own, ?_⟩
    refine inv.told.silent rfl rfl ?_ ⟨pos, few, lt⟩ rfl rfl rfl
    rw [at', buf]
    simp [partTrace, take_succ here]
  | finish at' out => exact ⟨done ++ [cur], [], waiting, inv.finish at' out⟩

/-- A step of the rest of the program. -/
lemma other (inv : Inv table s done cur waiting) (step : State.Other s t) :
    ∃ waiting, Inv table t done cur waiting := by
  obtain ⟨more, pushed, own⟩ := inv.owned.other step
  refine ⟨waiting ++ more, ?_, own, ?_⟩
  · rw [pushed, inv.pushed, List.append_assoc]
  · have told := inv.told
    cases step with
    | push _ _ => exact ⟨told.trace, told.small, told.phase, told.batches, told.packets, told.dispatched⟩
    | pool _ => exact ⟨told.trace, told.small, told.phase, told.batches, told.packets, told.dispatched⟩

/-- Every run keeps the invariant. -/
lemma steps (inv : Inv table s done cur waiting) (run : State.Steps table s t) :
    ∃ done cur waiting, Inv table t done cur waiting := by
  induction run with
  | refl => exact ⟨done, cur, waiting, inv⟩
  | tail _ step ih =>
    obtain ⟨done, cur, waiting, inv⟩ := ih
    cases step with
    | run step => exact inv.run step
    | other step =>
      obtain ⟨waiting, inv⟩ := inv.other step
      exact ⟨done, cur, waiting, inv⟩

/-- It holds at the start. -/
lemma init (pool : BufferPool) (slots : Fin (2 ^ k.val) → ℕ) (bufs : ℕ → ℕ)
    (packets : ℕ → ParsedPacket) (touched : List Handler) :
    Inv table (State.init pool slots bufs packets touched) [] [] [] := by
  refine ⟨rfl, ⟨⟨_, _, .new slots⟩, SPSCRing.items_new slots, rfl, nofun, .nil⟩, ?_⟩
  exact ⟨rfl, nofun, rfl, rfl, rfl, rfl⟩

end Inv

/-! ## Results -/

/-- The processor between two calls, as `runOnce` takes it. -/
def State.processor (table : HandlerTable Handler) (s : State Handler k) : BatchProcessor Handler where
  pool := s.pool
  queue := s.queue.items
  table := table
  batchesProcessed := s.batchesProcessed
  packetsProcessed := s.packetsProcessed
  packetsDispatched := s.packetsDispatched

/-- A call with nothing in between, which is `runOnce`, handles the frames that wait as if one by one. -/
theorem Inv.runOnce_one_by_one {table : HandlerTable Handler} (inv : Inv table s done [] waiting) :
    (s.processor table).runOnce.2.handled = table.oneByOne (waiting.take batchSize) := by
  rw [BatchProcessor.runOnce_handled]
  show (s.queue.items.take batchSize).filterMap _ = _
  rw [inv.owned.items, ← List.map_take, List.filterMap_map, HandlerTable.oneByOne]
  apply List.filterMap_congr
  intro e mem
  have framed := inv.owned.frames e (List.mem_append_right _ (List.mem_of_mem_take mem))
  obtain ⟨parsed, handler⟩ := framed.handler table
  have packet : (s.processor table).packet e.buf = e.parsed := parsed
  show ((table.handlerFor ((s.processor table).packet e.buf)).run (s.pool.view e.buf)).map _ = _
  rw [packet, handler]

/-- A batch has its frames handled as if one by one. -/
lemma handled_callTrace (b : List Pushed) : handled (callTrace table b) = table.oneByOne b := by
  simp [handled, callTrace, handleCalls, List.filterMap_append, List.filterMap_map]

/-- A batch takes its buffers from the queue in order. -/
lemma popped_callTrace (b : List Pushed) : popped (callTrace table b) = b.map Pushed.buf := by
  simp [popped, callTrace, handleCalls, List.filterMap_append, List.filterMap_map]

/-- A batch gives back the buffers it took, in order. -/
lemma releasedIn_callTrace (b : List Pushed) :
    releasedIn (callTrace table b) = b.map Pushed.buf := by
  simp [releasedIn, callTrace, handleCalls, List.filterMap_append, List.filterMap_map]

/-- What is done at a place is part of what is done in the call. -/
lemma partTrace_before (b : List Pushed) (pc : Pc) : partTrace table b pc <+: callTrace table b := by
  cases pc with
  | idle => exact List.nil_prefix
  | drain n =>
    simp only [partTrace, callTrace, List.append_assoc]
    exact (List.prefix_append_right_inj _).mpr (List.prefix_append _ _)
  | parse n i =>
    simp only [partTrace, callTrace, List.append_assoc]
    exact (List.prefix_append_right_inj _).mpr (List.prefix_append _ _)
  | dispatch n i =>
    simp only [partTrace, callTrace, List.append_assoc, List.prefix_append_right_inj]
    apply List.prefix_append_of_prefix
    exact ((List.take_prefix i b).filterMap _).map _
  | flush n j =>
    simp only [partTrace, callTrace, List.append_assoc, List.prefix_append_right_inj]
    apply List.prefix_append_of_prefix
    exact (List.take_prefix j _).map _
  | release n i =>
    simp only [partTrace, callTrace, List.append_assoc, List.prefix_append_right_inj]
    exact (List.take_prefix i b).map _

/-- All buffers of the batch are popped before anything else is done with them. -/
lemma popped_partTrace {b : List Pushed} {pc : Pc} (idle : pc = .idle → b = []) :
    popped (partTrace table b pc) = b.map Pushed.buf := by
  cases pc with
  | idle =>
    rw [idle rfl]
    rfl
  | _ =>
    simp [-List.map_take, popped, partTrace, handleCalls, List.filterMap_append, List.filterMap_map]

/-- The `handle` calls of whole calls. -/
lemma handled_calls (done : List (List Pushed)) :
    handled (done.flatMap (callTrace table)) = table.oneByOne done.flatten := by
  rw [handled, List.filterMap_flatMap]
  show done.flatMap (fun b => handled (callTrace table b)) = _
  simp only [handled_callTrace]
  exact List.filterMap_flatten.symm

/-- The pops of whole calls. -/
lemma popped_calls (done : List (List Pushed)) :
    popped (done.flatMap (callTrace table)) = done.flatten.map Pushed.buf := by
  rw [popped, List.filterMap_flatMap, List.map_flatten]
  show done.flatMap (fun b => popped (callTrace table b)) = _
  simp only [popped_callTrace]
  rfl

/-- The releases of whole calls. -/
lemma releasedIn_calls (done : List (List Pushed)) :
    releasedIn (done.flatMap (callTrace table)) = done.flatten.map Pushed.buf := by
  rw [releasedIn, List.filterMap_flatMap, List.map_flatten]
  show done.flatMap (fun b => releasedIn (callTrace table b)) = _
  simp only [releasedIn_callTrace]
  rfl

variable {table} in
/-- No call takes more than 32 buffers. -/
lemma Inv.length_le (inv : Inv table s done cur waiting) : cur.length ≤ batchSize := by
  have phase := inv.told.phase
  rw [inv.owned.length]
  unfold Phase at phase
  cases at' : s.pc with
  | idle => exact Nat.zero_le _
  | drain n =>
    rw [at'] at phase
    exact phase
  | _ =>
    rw [at'] at phase
    exact phase.2.1

/-- In every state that can be reached, whatever is pushed between the steps of the calls: the trace is
that of calls that each take at most 32 of the buffers pushed, in order, make the `handle` calls for
them, flush, and release them; the last one may be under way. Between two calls the `handle` calls are
those made one frame at a time, every buffer popped has been released once, and the counters count the
buffers popped, the `handle` calls and the calls that popped something. -/
theorem batches_as_one_by_one (pool : BufferPool) (slots : Fin (2 ^ k.val) → ℕ) (bufs : ℕ → ℕ)
    (packets : ℕ → ParsedPacket) (touched : List Handler) (s : State Handler k)
    (run : State.Steps table (State.init pool slots bufs packets touched) s) :
    ∃ (batches : List (List Pushed)) (cur : List Pushed) (part : List (Event Handler)),
      batches.flatten ++ cur <+: s.pushed ∧
      (∀ b ∈ cur :: batches, b.length ≤ batchSize) ∧
      s.trace = batches.flatMap (callTrace table) ++ part ∧ part <+: callTrace table cur ∧
      popped s.trace = (batches.flatten ++ cur).map Pushed.buf ∧
      handled s.trace <+: table.oneByOne (batches.flatten ++ cur) ∧
      (s.pc = .idle → cur = [] ∧ part = [] ∧
        handled s.trace = table.oneByOne batches.flatten ∧
        releasedIn s.trace = popped s.trace ∧
        s.packetsProcessed = BitVec.ofNat 64 (popped s.trace).length ∧
        s.packetsDispatched = BitVec.ofNat 64 (handled s.trace).length ∧
        s.batchesProcessed = BitVec.ofNat 64 (batches.countP fun b => !b.isEmpty)) := by
  obtain ⟨done, cur, waiting, inv⟩ := (Inv.init pool slots bufs packets touched).steps run
  have told := inv.told
  have idle : s.pc = .idle → cur = [] := by
    intro at'
    have phase := told.phase
    rw [Phase, at'] at phase
    exact phase
  have pops : popped s.trace = (done.flatten ++ cur).map Pushed.buf := by
    rw [told.trace, popped, List.filterMap_append, List.map_append, ← popped_calls table done,
      ← popped_partTrace table idle]
    rfl
  refine ⟨done, cur, partTrace table cur s.pc, ?_, ?_, told.trace, partTrace_before table cur s.pc,
    pops, ?_, ?_⟩
  · rw [inv.pushed]
    exact List.prefix_append _ _
  · intro b mem
    rcases List.mem_cons.mp mem with rfl | mem
    · exact inv.length_le
    · exact told.small b mem
  · rw [told.trace, handled_append, handled_calls, oneByOne_append, List.prefix_append_right_inj,
      ← handled_callTrace]
    exact (partTrace_before table cur s.pc).filterMap _
  · intro at'
    -- between two calls the trace is that of whole calls
    obtain rfl := idle at'
    have trace := told.trace
    rw [at', partTrace, List.append_nil] at trace
    rw [List.append_nil] at pops
    refine ⟨rfl, by rw [at']; rfl, ?_, ?_, ?_, told.dispatched, told.batches⟩
    · rw [trace, handled_calls]
    · rw [pops, trace, releasedIn_calls]
    · rw [pops, List.length_map]
      exact told.packets

/-- Nothing is pushed yet; buffer 0 has a datagram to port 7 and buffer 1 one to port 9. -/
def twoDatagrams : State Bool ⟨1, by decide⟩ :=
  .init (((BufferPool.new 64 2 fun _ => 0).store 0 BatchProcessor.wrongChecksumFrame).store 1
    (BatchProcessor.wrongChecksumFrame.set 37 9)) (fun _ => 0) (fun _ => 0)
    (fun _ => BatchProcessor.portSeven.packet 0) []

/-- A datagram is pushed and `run_once` is called; the other one is pushed while it drains the queue. -/
lemma twoDatagrams_runs : ∃ s, State.Steps HandlerTable.sharedPorts twoDatagrams s ∧ s.pc = .idle ∧
    popped s.trace = [0, 1] ∧ handled s.trace = [(true, 0), (false, 1)] := by
  refine ⟨_, .tail (.tail (.tail (.tail (.tail (.tail (.tail (.tail (.tail (.tail (.tail (.tail (.tail
      (.tail (.tail (.tail (.tail (.tail .refl
      (.other (.push (show 0 ∉ State.inFlight _ by decide) rfl)))
      (.run (.call rfl)))
      (.run (.pop rfl (by decide) rfl)))
      (.other (.push (show 1 ∉ State.inFlight _ by decide) rfl)))
      (.run (.pop rfl (by decide) rfl)))
      (.run (.empty rfl (by decide) rfl)))
      (.run (.parse rfl (by decide))))
      (.run (.parse rfl (by decide))))
      (.run (.parsed rfl (by decide))))
      (.run (.dispatch rfl (by decide))))
      (.run (.dispatch (n := 2) (i := 1) (by decide +kernel) (by decide))))
      (.run (.dispatched (n := 2) (i := 2) (by decide +kernel) (by decide))))
      (.run (.flush (n := 2) (j := 0) (h := true) rfl (by decide +kernel))))
      (.run (.flush (n := 2) (j := 1) (h := false) rfl (by decide +kernel))))
      (.run (.flushed rfl (by decide +kernel))))
      (.run (.release rfl (by decide))))
      (.run (.release rfl (by decide))))
      (.run (.finish rfl (by decide))), ?_⟩
  decide +kernel

/-- The call took both datagrams, in one batch, and handled them as they would have been handled alone. -/
theorem batch_of_two :
    ∃ s, State.Steps HandlerTable.sharedPorts twoDatagrams s ∧ s.pc = .idle ∧
      popped s.trace = [0, 1] ∧ handled s.trace = [(true, 0), (false, 1)] ∧
      ∃ batches : List (List Pushed), batches.flatten <+: s.pushed ∧
        handled s.trace = HandlerTable.sharedPorts.oneByOne batches.flatten ∧
        s.packetsProcessed = BitVec.ofNat 64 (popped s.trace).length := by
  obtain ⟨s, run, idle, pops, calls⟩ := twoDatagrams_runs
  obtain ⟨batches, cur, part, pushed, _, _, _, _, _, returned⟩ :=
    batches_as_one_by_one HandlerTable.sharedPorts _ _ _ _ _ s run
  obtain ⟨rfl, _, one, _, packets, _⟩ := returned idle
  rw [List.append_nil] at pushed
  exact ⟨s, run, idle, pops, calls, batches, pushed, one, packets⟩

end Drain

end UxNet.Packet
