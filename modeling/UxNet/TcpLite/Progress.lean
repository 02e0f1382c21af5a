import UxNet.TcpLite.Completion
import UxNet.TcpLite.Recovery

/-!
# Progress over shared pools

Each session uses one pool for its unacknowledged packets and for the datagrams that arrive, as in the
ping-pong of `final_benchmark.cpp`, and nobody else uses it (`Private`): a datagram that finds no buffer
is lost. `System.Drain` is what may happen from a given state on without anybody calling `send`.

With more buffers than the window has slots there is always one for a datagram that arrives, so at any
time one more packet can be made to get through and be acknowledged (`Lined.advance`), and in the end
all of them (`System.Drain.complete`).
-/

namespace UxNet.TcpLite

open TcpLiteSession Reassembly

/-! ## Pools that nobody else uses -/

/-- The rest of the program holds no buffer and does not use the pool. -/
structure TcpLiteSession.Private (s : TcpLiteSession) : Prop where
  caller : s.pool.caller = []
  ops : ∀ i, (s.tape i).ops = []

/-- Releasing a buffer takes none from the caller. -/
lemma releaseBuf_caller (site : Site) (buf : Option ℕ) (pool : BufferPool) :
    (releaseBuf site buf pool).caller = pool.caller := by
  cases buf with
  | none => rfl
  | some b => rfl

/-- Nor does `mark_acked`. -/
lemma UnackedQueue.markAcked_caller (upToSeq : BitVec 32) (q : UnackedQueue) (pool : BufferPool) :
    (markAcked upToSeq q pool).2.2.caller = pool.caller := by
  have scan : ∀ (ks : List (Fin window)) (a : AckScan),
      (ks.foldl (ackSlot upToSeq) a).pool.caller = a.pool.caller := by
    intro ks
    induction ks with
    | nil => exact fun a => rfl
    | cons k ks ih =>
      intro a
      have round : (ackSlot upToSeq a k).pool.caller = a.pool.caller := by
        unfold ackSlot AckScan.note
        dsimp only
        split
        · split
          · exact releaseBuf_caller _ _ _
          · exact releaseBuf_caller _ _ _
        · rfl
      exact (ih (ackSlot upToSeq a k)).trans round
  have all := scan (List.finRange window)
    { queue := q, pool := pool, newestTsc := 0, newestSeq := 0, any := false }
  unfold markAcked
  dsimp only
  generalize (List.finRange window).foldl (ackSlot upToSeq) _ = r at all ⊢
  exact all

/-- Taking an ACK reads the tape once at most. -/
lemma takeAck_tape (s : TcpLiteSession) (ack : BitVec 32) :
    (s.takeAck ack).tape = s.tape ∨ (s.takeAck ack).tape = s.rest := by
  unfold takeAck
  generalize s.unacked.markAcked ack s.pool = r
  dsimp only
  unfold rttSample
  split
  · exact .inr rfl
  · exact .inl rfl

/-- A step reads at most one decision off the tape. -/
lemma Case.tape {s s' : TcpLiteSession} {f : Frame} {new : List Frame} (c : Case s f s' new) :
    s'.tape = s.tape ∨ s'.tape = s.rest := by
  cases c with
  | pumpStop _ =>
    obtain ⟨_, _, e, _⟩ := pumpReset_frame s
    rw [e]
    exact .inl rfl
  | pumpFull _ _ =>
    obtain ⟨_, _, e, _⟩ := pumpReset_frame { s with pool := _, tape := s.rest }
    rw [e]
    exact .inr rfl
  | pumpSend _ _ _ => exact .inr rfl
  | @ack buf hd _ _ => exact takeAck_tape s hd.ackNum
  | store _ =>
    obtain ⟨_, _, e⟩ := storeData_frame s _ _
    rw [e]
    exact .inl rfl
  | deliverCall _ => exact .inr rfl
  | tick => exact .inr rfl
  | _ => exact .inl rfl

namespace TcpLiteSession.Private

variable {s s' : TcpLiteSession} {f : Frame} {new : List Frame}

/-- The pool stays private while the tape is read in order. -/
lemma of_tape (h : s.Private) (caller : s'.pool.caller = s.pool.caller)
    (tape : s'.tape = s.tape ∨ s'.tape = s.rest) : s'.Private := by
  refine ⟨caller.trans h.caller, ?_⟩
  intro i
  rcases tape with same | rest
  · rw [same]
    exact h.ops i
  · rw [rest]
    exact h.ops (i + 1)

/-- Nothing is done to the pool from outside. -/
lemma callerOps (h : s.Private) : s.pool.callerOps (s.tape 0).ops = s.pool := by
  rw [h.ops 0]
  rfl

/-- The code between two callbacks keeps the pool private. -/
lemma exec (c : Case s f s' new) (h : s.Private) : s'.Private := by
  refine h.of_tape ?_ c.tape
  cases c with
  | pumpStop _ =>
    obtain ⟨_, _, e, _⟩ := pumpReset_frame s
    rw [e]
  | pumpFull _ none =>
    obtain ⟨_, _, e, _⟩ := pumpReset_frame { s with pool := _, tape := s.rest }
    rw [e]
    rw [h.callerOps] at none
    obtain ⟨_, rfl⟩ := BufferPool.acquire_none none
    rfl
  | @pumpSend buf pool queue pool' op acq marked =>
    rw [h.callerOps] at acq
    obtain ⟨_, _, rfl⟩ := BufferPool.acquire_some acq
    show pool'.caller = s.pool.caller
    obtain ⟨_, rfl⟩ := Prod.mk.inj marked
    split
    · exact releaseBuf_caller _ _ _
    · rfl
  | @ack buf hd _ _ =>
    obtain ⟨_, _, e⟩ := takeAck_frame s hd.ackNum
    rw [e]
    exact s.unacked.markAcked_caller hd.ackNum s.pool
  | store _ =>
    obtain ⟨_, _, e⟩ := storeData_frame s _ _
    rw [e]
  | _ => rfl

/-- So does a call. -/
lemma execs {c c' : Config} (run : Config.Execs c c') (h : c.session.Private) : c'.session.Private := by
  induction run with
  | refl => exact h
  | tail _ st ih =>
    cases st with
    | @step s f fs => exact ih.exec (exec_case s f)

/-- So does a `tick`. -/
lemma tick (h : s.Private) : s.tick.Private := execs (tick_execs s []) h

/-- A datagram that arrives is handed on at once. -/
lemma arrive {bytes : Bytes} {buf : ℕ} (h : s.Private) (arr : s.arrive bytes = some (buf, s')) :
    (s'.handOver buf).Private := by
  unfold TcpLiteSession.arrive at arr
  rcases acq : s.pool.acquire with ⟨_ | b, pool⟩
  · rw [acq] at arr
    cases arr
  · rw [acq] at arr
    cases arr
    obtain ⟨_, _, rfl⟩ := BufferPool.acquire_some acq
    refine h.of_tape ?_ (.inl rfl)
    exact List.erase_cons_head _ _

end TcpLiteSession.Private

/-- Nobody but the sessions uses the two pools. -/
def System.Private (w : System) : Prop := ∀ X, (w.host X).Private

/-- A call that runs keeps the pools private. -/
lemma System.Private.exec {w : System} (h : w.Private) : w.exec.Private := by
  intro X
  cases stack : w.stack with
  | nil =>
    rw [show w.exec = w by rw [System.exec, stack]]
    exact h X
  | cons e rest =>
    have r := w.exec_ran stack
    rcases e.host.eq_or_peer X with rfl | rfl
    · rw [r.self]
      exact (h e.host).exec r.code
    · rw [r.peer]
      exact h e.host.peer

/-- So does a run of calls. -/
lemma System.Private.runs {w w' : System} (run : Relation.ReflTransGen System.Runs w w') (h : w.Private) :
    w'.Private := by
  induction run with
  | refl => exact h
  | tail _ st ih =>
    obtain ⟨_, rfl⟩ := st
    exact ih.exec

/-- So does a delivery. -/
lemma System.Private.hand {w : System} {X : Host} {bytes : Bytes} {buf stamp : ℕ} {s : TcpLiteSession}
    (h : w.Private) (arr : (w.host X).arrive bytes = some (buf, s)) :
    (w.hand X buf s stamp []).exec.Private := by
  apply System.Private.exec
  intro Y
  rcases X.eq_or_peer Y with rfl | rfl
  · exact (w.put_self Y _).symm ▸ (h Y).arrive arr
  · exact (w.put_peer X _).symm ▸ h X.peer

/-- A step over the network with pools that nobody else uses. -/
def System.Shared (w w' : System) : Prop := System.Net System.FreshBorn w w' ∧ w'.Private

/-- A step of a continuation: the clock of a side is read, `tick` is called, and datagrams are delivered,
whatever their age, as long as there is a buffer for them. -/
inductive System.Drain : System → System → Prop where
  | exec {w} :
    w.stack ≠ [] →
    Drain w w.exec
  | tick {w} (X : Host) :
    w.stack = [] →
    Drain w { w with stack := [{ host := X, frame := .tick, stamp := w.assigned X.peer }] }
  | clock {w} (X : Host) (tsc : ℕ → BitVec 64) :
    w.stack = [] →
    Drain w (w.put X { w.host X with tape := fun i => { (w.host X).tape i with tsc := tsc i } })
  | deliver {w c buf s} :
    w.stack = [] →
    c ∈ w.net →
    (w.host c.src.peer).arrive c.bytes = some (buf, s) →
    Drain w (w.hand c.src.peer buf s (c.stamp c.src) []).exec

/-! ## Room for a datagram -/

section Room

variable {size n : ℕ} {s : TcpLiteSession}

/-- With more buffers than the window has slots, one is free between two calls. -/
lemma TcpLiteSession.Private.free_ne_nil (h : s.Private) (sender : Sender size n s [])
    (many : window < n) :
    s.pool.free ≠ [] := by
  intro none
  have total := sender.bufs.owned.total
  have few : s.unacked.inUse.card ≤ window := by
    have le := Finset.card_le_univ s.unacked.inUse
    rw [Fintype.card_fin] at le
    exact le
  have nobody : s.pool.caller = [] := h.caller
  rw [none, nobody] at total
  have total' : 0 + s.unacked.inUse.card + 0 + 0 = n := total
  omega

/-- With a free buffer a datagram can be delivered. -/
lemma deliver_of_free (free : s.pool.free ≠ []) (d : Bytes) : ∃ t, s.deliver d = some t := by
  obtain ⟨i, rest, eq⟩ := List.exists_cons_of_ne_nil free
  unfold TcpLiteSession.deliver TcpLiteSession.arrive BufferPool.acquire
  rw [eq]
  exact ⟨_, rfl⟩

/-- `tick` makes a packet if there are bytes, a place in the window and a buffer. -/
lemma tick_makes (op : s.pumpOpen = true) (free : (s.pool.callerOps (s.tape 1).ops).free ≠ []) :
    s.log.packets.length < s.tick.log.packets.length := by
  obtain ⟨queue, e⟩ := resend_foldl (s.tape 0).tsc s.timedOut { s with tape := s.rest }
  have flush : ∀ t : TcpLiteSession, t.flushAck.log.packets = t.log.packets := by
    intro t
    unfold flushAck
    split
    · exact packets_transmit_old t _ nofun
    · rfl
  have old := TcpLiteSession.again_filter { s with tape := s.rest } s.timedOut
    (show TxKind.data ≠ .retransmit from nofun)
  rw [tick, flush, e]
  refine lt_of_eq_of_lt ?_ (pumpTx_grows op free)
  unfold Log.packets
  dsimp only
  rw [List.filter_append, old, List.append_nil]

/-- A `tick` with bytes, room and a buffer makes a packet. -/
lemma tick_grows (h : s.Private) (op : s.pumpOpen = true) (free : s.pool.free ≠ []) :
    s.log.packets.length < s.tick.log.packets.length := by
  apply tick_makes op
  rw [h.ops 1]
  exact free

end Room

/-! ## Progress -/

/-- The clock of a session is read from now on as given. -/
def TcpLiteSession.atTime (tsc : ℕ → BitVec 64) (s : TcpLiteSession) : TcpLiteSession :=
  { s with tape := fun i => { s.tape i with tsc := tsc i } }

/-- A time at which a packet has timed out. -/
def TcpLiteSession.dueTime (seq : BitVec 32) (s : TcpLiteSession) : BitVec 64 :=
  s.clock.nsToCycles s.rtoNs + (s.unacked.slots (slotIdx seq)).sentTsc

/-- At its due time a packet is timed out. -/
lemma mem_timedOut_due {s : TcpLiteSession} {seq : BitVec 32} (occ : s.unacked.occupied seq = true) :
    seq ∈ (s.atTime fun _ => s.dueTime seq).timedOut := by
  obtain ⟨occ, eq⟩ := UnackedQueue.occupied_iff.mp occ
  refine List.mem_map.mpr ⟨slotIdx seq, List.mem_filter.mpr ⟨List.mem_finRange _, ?_⟩, eq⟩
  have due : s.clock.nsToCycles s.rtoNs ≤ s.dueTime seq - (s.unacked.slots (slotIdx seq)).sentTsc := by
    rw [dueTime, BitVec.add_sub_cancel]
    exact BitVec.le_refl _
  exact Bool.and_eq_true_iff.mpr ⟨occ, decide_eq_true due⟩

namespace Lined

variable {size n size' n' una : ℕ} {a b : TcpLiteSession} {first : ℕ → Option Bytes}

/-- There is something that the peer has not acknowledged. -/
def Left (una : ℕ) (a : TcpLiteSession) : Prop :=
  una < a.log.packets.length ∨ a.txOff < a.pendingTx.length

/-- At some time `tick` transmits the first packet that is not acknowledged. -/
lemma tick_first (h : Lined size n size' n' a b una first) (alone : a.Private) (many : window < n)
    (left : Left una a) : ∃ tsc, ∃ d ∈ (transmitted (a.atTime tsc) (a.atTime tsc).tick).map (·.bytes),
      (a.atTime tsc).tick.log.packets[una]? = some d := by
  obtain ⟨tsc, due⟩ : ∃ tsc, una < a.log.packets.length → BitVec.ofNat 32 una ∈ (a.atTime tsc).timedOut :=
    ⟨_, fun old => mem_timedOut_due (h.retained.slots una le_rfl old)⟩
  have h' : Lined size n size' n' (a.atTime tsc) b una first := h.program [] _
  refine ⟨tsc, h'.retained.tick_covers h'.sender due le_rfl ?_⟩
  obtain ⟨ds, packets, _⟩ := tick_wire (a.atTime tsc)
  rcases Nat.lt_or_ge una a.log.packets.length with old | new
  · rw [packets, List.length_append]
    exact Nat.lt_add_right _ old
  · have eq : una = a.log.packets.length := le_antisymm h.retained.lower new
    rcases left with old | bytes
    · exact absurd old (Nat.not_lt.mpr new)
    · have op : (a.atTime tsc).pumpOpen = true := by
        have room : (a.nextSeq - a.sndUna).toNat < window := by
          rw [h.sender.nextSeq_eq rfl, h.retained.una, ← eq, BitVec.sub_self]
          decide
        exact Bool.and_eq_true_iff.mpr ⟨decide_eq_true bytes, decide_eq_true room⟩
      have alone' : (a.atTime tsc).Private := ⟨alone.caller, alone.ops⟩
      refine lt_of_eq_of_lt eq ?_
      exact tick_grows alone' op (alone.free_ne_nil h.sender many)

/-- Nothing is left once everything is acknowledged and nothing is pending. -/
lemma complete (h : Lined size n size' n' a b una first) (done : ¬ Left una a) :
    b.log.delivered.flatten = a.log.sent := by
  obtain ⟨acked, packed⟩ := not_or.mp done
  have below := h.below
  have le := h.base_le
  have all : base first = (a.log.packets.map payloadOf).length := by
    rw [List.length_map]
    omega
  rw [h.delivered, all, List.take_length]
  exact h.sender.all_packed (Nat.not_lt.mp packed)

/-- No more is acknowledged than was sent. -/
lemma acked_le (h : Lined size n size' n' a b una first) : una ≤ a.log.sent.length :=
  h.retained.lower.trans ((Nat.le_add_right _ _).trans h.sender.length_le)

/-- One packet and its acknowledgement: at some time `tick` of the sender, the delivery of one packet,
`tick` of the receiver and the delivery of its ACK move `snd_una_`. -/
lemma advance (h : Lined size n size' n' a b una first) (alone : a.Private) (alone' : b.Private)
    (many : window < n) (many' : window < n') (left : Left una a) :
    ∃ tsc, ∃ d ∈ (transmitted (a.atTime tsc) (a.atTime tsc).tick).map (·.bytes), ∃ b',
      b.deliver d = some b' ∧ ∃ ack ∈ (transmitted b' b'.tick).map (·.bytes), ∃ a',
      (a.atTime tsc).tick.deliver ack = some a' ∧ a'.log.sent = a.log.sent ∧ ∃ first',
      Lined size n size' n' a' b'.tick (base first') first' ∧ una < base first' := by
  obtain ⟨tsc, d, mem, get⟩ := h.tick_first alone many left
  have ticked : Lined size n size' n' (a.atTime tsc).tick b una first := Lined.tick (h.program [] _)
  have still : (a.atTime tsc).tick.Private := Private.tick ⟨alone.caller, alone.ops⟩
  have sent := tick_sent (a.atTime tsc)
  obtain ⟨b', received⟩ := deliver_of_free (alone'.free_ne_nil h.peer many') d
  have upper := ticked.retained.upper
  obtain ⟨got, _, there, pending⟩ := ticked.receive get (by omega) received
  generalize Reassembly.arrive 256 first (BitVec.ofNat 32 una, payloadOf d) = first' at got there
  have ahead : una < base first' := by
    refine lt_of_le_of_ne got.below ?_
    rintro rfl
    exact there got.inbox.base_mem.1
  have owed := transmitted_acks b'
  rw [owedAck, if_pos pending, got.peer_ack] at owed
  obtain ⟨a', acked⟩ := deliver_of_free (still.free_ne_nil ticked.sender many)
    (TcpLiteHeader.makeAck b'.tick.nextSeq (BitVec.ofNat 32 (base first'))).toBytes
  have out := (List.mem_filter.mp (owed ▸ List.mem_cons_self)).1
  refine ⟨tsc, d, mem, b', received, _, List.mem_map.mpr ⟨_, out, rfl⟩, a', acked,
    (deliver_ack ticked.sender acked).2.2.trans sent, first', ?_, ahead⟩
  have waited := got.tick_peer
  have taken := waited.retained.deliver waited.sender (carriesAck_makeAck _ _) acked ahead.le waited.base_le
  exact waited.send taken le_rfl

end Lined

namespace System.Drain

variable {w w' : System} {X : Host}

/-- The calls of a system are part of its draining. -/
lemma of_runs (run : Relation.ReflTransGen System.Runs w w') :
    Relation.ReflTransGen System.Drain w w' := by
  induction run with
  | refl => exact .refl
  | tail _ st ih =>
    obtain ⟨busy, rfl⟩ := st
    exact ih.tail (.exec busy)

/-- A side calls `tick`. -/
lemma tick_call (idle : w.stack = []) (X : Host) :
    ∃ w', Relation.ReflTransGen System.Drain w w' ∧ Called X (w.host X).tick w w' ∧ w'.stack = [] := by
  obtain ⟨w', runs, called, idle'⟩ := w.tick_call X
  exact ⟨w', .head (.tick X idle) (of_runs runs), called, idle'⟩

/-- A copy is delivered. -/
lemma deliver_call {c : Copy} {t : TcpLiteSession} (idle : w.stack = []) (mem : c ∈ w.net)
    (dest : c.src.peer = X) (e : (w.host X).deliver c.bytes = some t) :
    ∃ w', Relation.ReflTransGen System.Drain w w' ∧ Called X t w w' ∧ w'.stack = [] := by
  subst dest
  obtain ⟨buf, s, w', arr, runs, called, idle'⟩ := System.deliver_call e (c.stamp c.src)
  exact ⟨w', .head (.deliver idle mem arr) (of_runs runs), called, idle'⟩

/-- Draining keeps the pools private. -/
lemma private_step (st : System.Drain w w') (h : w.Private) : w'.Private := by
  cases st with
  | exec _ => exact h.exec
  | tick Y _ => exact h
  | clock Y tsc _ =>
    intro Z
    rcases Y.eq_or_peer Z with rfl | rfl
    · rw [w.put_self]
      exact ⟨(h Z).caller, (h Z).ops⟩
    · rw [w.put_peer]
      exact h Y.peer
  | deliver _ _ arr => exact h.hand arr

/-- So does every run of it. -/
lemma private_steps (run : Relation.ReflTransGen System.Drain w w') (h : w.Private) : w'.Private := by
  induction run with
  | refl => exact h
  | tail _ st ih => exact st.private_step ih

variable {size n size' n' una : ℕ} {first : ℕ → Option Bytes}

/-- The continuation in which one packet gets through. -/
lemma advance (idle : w.stack = []) (alone : w.Private) (many : window < n) (many' : window < n')
    (h : Lined size n size' n' (w.host X) (w.host X.peer) una first) (left : Lined.Left una (w.host X)) :
    ∃ w', Relation.ReflTransGen System.Drain w w' ∧ w'.stack = [] ∧
      (w'.host X).log.sent = (w.host X).log.sent ∧ ∃ first',
      Lined size n size' n' (w'.host X) (w'.host X.peer) (base first') first' ∧ una < base first' := by
  obtain ⟨tsc, d, mem, b, received, ack, mem', a, acked, sent, first', lined, lt⟩ :=
    h.advance (alone X) (alone X.peer) many many' left
  -- the clock is read and `tick` transmits
  have clock : System.Drain w (w.put X ((w.host X).atTime tsc)) := .clock X tsc idle
  have self := w.put_self X ((w.host X).atTime tsc)
  have peer := w.put_peer X ((w.host X).atTime tsc)
  have idle₁ : (w.put X ((w.host X).atTime tsc)).stack = [] := idle
  generalize w.put X ((w.host X).atTime tsc) = w₁ at clock self peer idle₁
  obtain ⟨w₂, run₂, tick₂, idle₂⟩ := tick_call idle₁ X
  rw [self] at tick₂
  -- the peer receives the packet and acknowledges it
  obtain ⟨x, out, rfl⟩ := List.mem_map.mp mem
  obtain ⟨c, on, src, _, bytes, _⟩ := tick₂.mem_net (by rw [self]; exact out)
  obtain ⟨w₃, run₃, deliver₃, idle₃⟩ := deliver_call (X := X.peer) (t := b) idle₂ on (by rw [src]) (by
    rw [bytes, tick₂.peer, peer]
    exact received)
  obtain ⟨w₄, run₄, tick₄, idle₄⟩ := tick_call idle₃ X.peer
  rw [deliver₃.self] at tick₄
  -- the ACK is delivered
  obtain ⟨x', out', rfl⟩ := List.mem_map.mp mem'
  obtain ⟨c', on', src', _, bytes', _⟩ := tick₄.mem_net (by rw [deliver₃.self]; exact out')
  have back : w₄.host X = ((w.host X).atTime tsc).tick := by
    have same := tick₄.peer.trans deliver₃.peer
    rw [Host.peer_peer] at same
    exact same.trans tick₂.self
  obtain ⟨w₅, run₅, deliver₅, idle₅⟩ := deliver_call (X := X) (t := a) idle₄ on'
    (by rw [src', Host.peer_peer]) (by
    rw [bytes', back]
    exact acked)
  refine ⟨w₅, (((run₂.head clock).trans run₃).trans run₄).trans run₅, idle₅, ?_, first', ?_, lt⟩
  · rw [deliver₅.self]
    exact sent
  · rw [deliver₅.self, deliver₅.peer, tick₄.self]
    exact lined

/-- Everything that a side was given to send gets through. -/
lemma complete (idle : w.stack = []) (alone : w.Private) (many : window < n) (many' : window < n')
    (h : Lined size n size' n' (w.host X) (w.host X.peer) una first) :
    ∃ w', Relation.ReflTransGen System.Drain w w' ∧
      (w.host X).log.sent <+: (w'.host X.peer).log.delivered.flatten := by
  -- each round acknowledges at least one more byte
  induction left : (w.host X).log.sent.length - una using Nat.strong_induction_on
    generalizing w una first with
  | _ k ih =>
    by_cases more : Lined.Left una (w.host X)
    · obtain ⟨w₁, run, idle₁, sent, first₁, h₁, lt⟩ := advance idle alone many many' h more
      have le := h₁.acked_le
      rw [sent] at le
      obtain ⟨w₂, run₂, pre⟩ := ih _ (by rw [sent]; omega) idle₁ (private_steps run alone) h₁ rfl
      exact ⟨w₂, run.trans run₂, sent ▸ pre⟩
    · exact ⟨w, .refl, by rw [h.complete more]⟩

end System.Drain

end UxNet.TcpLite
