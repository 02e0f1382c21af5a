import UxNet.TcpLite.Safety

/-!
# Synchronous wiring

Two sessions wired as in the repository's tests: `transmit_` drops the datagram or hands a copy of it to
the peer at once, so that a session can be entered again from inside its own `transmit_` and `data_cb_`
calls. The invariant of `Stream.lean` survives as long as every step meets its `Guard`. It is not met in
general: `deliver_in_order` moves the base of its window only after the data callback has returned, so a
packet that arrives meanwhile makes it hand the same packet over again.
-/

namespace UxNet.TcpLite

open TcpLiteSession

/-- A step between guarded states. -/
def System.GuardedSync (w w' : System) : Prop := w.Guarded ∧ System.Sync w w'

/-- Only the innermost call can be in `transmit_`, and its datagram is the last one. -/
structure Latest (w : System) : Prop where
  below : ∀ e ∈ w.stack.tail, e.frame ≠ .transmitting
  top : ∀ X stamp rest, w.stack = { host := X, frame := .transmitting, stamp := stamp } :: rest →
    ∃ pre c, w.net = pre ++ [c] ∧ c.src = X ∧ ∀ Y, c.stamp Y = w.assigned Y

/-- A step enters `transmit_` with the datagram it transmits, at the top of the stack. -/
lemma Case.transmitting_top {s s' : TcpLiteSession} {f : Frame} {new : List Frame}
    (c : Case s f s' new) :
    (∀ g ∈ new.tail, g ≠ .transmitting) ∧
      (s'.log.wire = s.log.wire → ∀ g ∈ new, g ≠ .transmitting) := by
  have silent : (new.all fun g => g.level != 0) = true → (∀ g ∈ new.tail, g ≠ .transmitting) ∧
      (s'.log.wire = s.log.wire → ∀ g ∈ new, g ≠ .transmitting) := by
    intro all
    have one : ∀ g ∈ new, g ≠ .transmitting := by
      rintro g mem rfl
      have := List.all_eq_true.mp all _ mem
      cases this
    exact ⟨fun g mem => one g (List.mem_of_mem_tail mem), fun _ => one⟩
  have loud : ∀ {kind bytes g}, new = [.transmitting, g] → g ≠ .transmitting →
      s'.log.wire = s.log.wire ++ [{ kind := kind, bytes := bytes }] →
      (∀ g ∈ new.tail, g ≠ .transmitting) ∧
      (s'.log.wire = s.log.wire → ∀ g ∈ new, g ≠ .transmitting) := by
    intro kind bytes g eq ne wire
    subst eq
    refine ⟨?_, ?_⟩
    · intro g' mem
      obtain rfl := List.mem_singleton.mp mem
      exact ne
    · intro same
      rw [wire] at same
      simp at same
  cases c with
  | pumpSend _ _ _ => exact loud rfl nofun rfl
  | resend _ => exact loud rfl nofun rfl
  | tickAck _ => exact loud rfl nofun rfl
  | _ => exact silent rfl

namespace Latest

variable {w : System} {e : Entry} {rest : List Entry}

/-- The innermost call runs over calls none of which is in `transmit_`. -/
lemma exec (st : w.stack = e :: rest) (below : ∀ e' ∈ rest, e'.frame ≠ .transmitting) :
    Latest w.exec := by
  have r := w.exec_ran st
  obtain ⟨tail, silent⟩ := r.code.transmitting_top
  have stack := r.stack
  generalize (TcpLite.exec (w.host e.host) e.frame).2 = new at r tail silent stack
  refine ⟨?_, ?_⟩
  · intro e' mem
    rw [stack] at mem
    cases new with
    | nil => exact below e' (List.mem_of_mem_tail mem)
    | cons f fs =>
      rcases List.mem_append.mp mem with mem | mem
      · obtain ⟨g, hg, rfl⟩ := List.mem_map.mp mem
        exact tail g hg
      · exact below e' mem
  · intro X stamp rest' eq
    rw [stack] at eq
    cases new with
    | nil =>
      obtain rfl : rest = _ := eq
      exact absurd rfl (below _ List.mem_cons_self)
    | cons f fs =>
      obtain ⟨head, _⟩ := List.cons.inj eq
      rw [Entry.mk.injEq] at head
      obtain ⟨rfl, rfl, _⟩ := head
      rcases r.net with ⟨same, _⟩ | ⟨c, net, src, stamps, _⟩
      · exact absurd rfl (silent same _ List.mem_cons_self)
      · exact ⟨w.net, c, net, src, stamps⟩

/-- A step of one side keeps the datagram in `transmit_` the last one. -/
lemma call {w' : System} (h : Latest w) (st : System.Local w w') : Latest w' := by
  cases st with
  | exec ne =>
    obtain ⟨e, rest, st⟩ := List.exists_cons_of_ne_nil ne
    have below := h.below
    rw [st] at below
    exact .exec st below
  | send X data idle => exact ⟨fun e mem => absurd mem List.not_mem_nil, nofun⟩
  | tick X idle => exact ⟨fun e mem => absurd mem List.not_mem_nil, nofun⟩
  | program X ops tape idle =>
    have idle' : (w.put X ((w.host X).program ops tape)).stack = [] := idle
    refine ⟨?_, ?_⟩
    · rw [idle']
      exact fun e mem => absurd mem List.not_mem_nil
    · intro Y stamp rest eq
      rw [idle'] at eq
      cases eq

end Latest

/-- Dropping a datagram is returning from `transmit_`. -/
lemma System.exec_transmitting {w : System} {X : Host} {stamp : ℕ} {rest : List Entry}
    (st : w.stack = { host := X, frame := .transmitting, stamp := stamp } :: rest) :
    w.exec = { w with stack := rest } := by
  unfold System.exec
  rw [st]
  simp [System.run, TcpLite.exec]

/-- One guarded step keeps the invariant. -/
lemma System.GuardedSync.inv {p : Setup} {w w' : System} (st : System.GuardedSync w w') (h : Inv p w)
    (latest : Latest w) : Inv p w' ∧ Latest w' := by
  obtain ⟨guard, st⟩ := st
  cases st with
  | call st => exact ⟨h.local_step guard st, latest.call st⟩
  | @enter X stamp rest pre c buf s st net arr =>
    -- `transmit_` returns once the peer is done with the copy
    have idle : Inv p { w with stack := rest } := by
      have back := h.local_step guard (.exec (by simp [st]))
      rw [System.exec_transmitting st] at back
      exact back
    obtain ⟨pre', c', net', src, stamps⟩ := latest.top X stamp rest st
    obtain ⟨_, one⟩ := List.append_inj' (net.symm.trans net') rfl
    obtain rfl := List.singleton_inj.mp one
    have mem : c ∈ w.net := by
      rw [net]
      exact List.mem_append_right _ (List.mem_singleton_self c)
    have fresh : System.Fresh { w with stack := rest } c := by
      intro Y
      rw [stamps]
      exact Nat.le_add_right _ _
    have fit : c.bytes.length ≤ mtu := by
      obtain ⟨g, core, _⟩ := h
      exact (core.genuine c mem).length_le
    have inv := idle.arrive arr fit (c.stamp X)
      (.inr ⟨c, mem, by rw [src, Host.peer_peer], fresh, by rw [src], rfl⟩)
    refine ⟨inv, .exec rfl ?_⟩
    have below := latest.below
    rw [st] at below
    exact below

/-- The invariant holds in every run whose steps meet their guards. -/
lemma System.GuardedSync.steps_inv {p : Setup} {w : System}
    (run : Relation.ReflTransGen System.GuardedSync (.fresh p) w) : Inv p w ∧ Latest w := by
  induction run with
  | refl => exact ⟨.fresh p, fun e mem => absurd mem List.not_mem_nil, nofun⟩
  | tail _ st ih => exact st.inv ih.1 ih.2

/-- Synchronous wiring is safe along every run each of whose steps meets its guard: what the data callback
is handed is a prefix of what was sent, packet by packet and each packet once; and when no call is active
the packets transmitted for the sequence numbers below `next_seq_` cut what was passed to `send` into
consecutive chunks, up to what is still pending. -/
theorem guarded_sync_safe (p : Setup) (w : System)
    (run : Relation.ReflTransGen System.GuardedSync (.fresh p) w) (X : Host) :
    (w.host X.peer).log.delivered.flatten <+: (w.host X).log.sent ∧
    (w.host X.peer).log.delivered
      = ((w.host X).log.packets.map payloadOf).take (w.host X.peer).log.delivered.length ∧
    (w.stack = [] →
      (w.host X).nextSeq = BitVec.ofNat 32 (w.host X).log.packets.length ∧
      (∀ j bs, (w.host X).log.packets[j]? = some bs → ∃ ack, IsPacket (BitVec.ofNat 32 j) ack bs) ∧
      ((w.host X).log.packets.map payloadOf).flatten ++ (w.host X).pendingTx.drop (w.host X).txOff
        = (w.host X).log.sent) := by
  obtain ⟨⟨g, core, _⟩, _⟩ := System.GuardedSync.steps_inv run
  have receiver := core.receiver X.peer
  have sender := core.sender X
  rw [Host.peer_peer] at receiver
  refine ⟨receiver.prefix_sent sender, receiver.delivered, ?_⟩
  intro idle
  have none : pumps (framesOf X w.stack) = [] := by
    rw [idle]
    rfl
  have chunks := sender.chunks
  rw [none] at chunks
  exact ⟨sender.nextSeq_eq none, sender.packets, chunks⟩

/-- The guard of the next step, as a test. -/
def System.meetsGuard (w : System) : Bool :=
  match w.stack with
  | [] => true
  | e :: rest =>
    let s := w.host e.host
    match e.frame with
    | .pumpTx =>
      !s.pumpOpen || (s.pool.callerOps (s.tape 0).ops).free.isEmpty
        || (pumps (framesOf e.host rest)).isEmpty
    | .deliver => !s.deliverOpen || (calls (framesOf e.host rest)).isEmpty
    | .receiveData _ plen => plen == 0 || w.assigned e.host.peer ≤ e.stamp + 2 ^ 30
    | _ => true

/-- The test tells that the guard is met. -/
lemma System.guarded_of_test {w : System} (ok : w.meetsGuard = true) : w.Guarded := by
  intro e rest st
  unfold System.meetsGuard at ok
  rw [st] at ok
  dsimp only at ok
  refine ⟨?_, ?_, ?_⟩
  · rintro ⟨eq, op, free⟩
    rw [eq] at ok
    simpa [op, free] using ok
  · intro eq op
    rw [eq] at ok
    simpa [op] using ok
  · intro buf plen eq pos
    rw [eq] at ok
    simpa [Nat.ne_of_gt pos] using ok

/-- The guards of the next `n` steps. -/
def System.settleGuarded (deliver : Bool) : ℕ → System → Bool
  | 0, _ => true
  | n + 1, w => w.meetsGuard && settleGuarded deliver n (w.advance deliver)

/-- A run whose tests succeed meets its guards. -/
lemma System.settle_guarded {d : Bool} {n : ℕ} {w : System} (ok : w.settleGuarded d n = true) :
    Relation.ReflTransGen System.GuardedSync w (w.settle d n) := by
  induction n generalizing w with
  | zero => exact .refl
  | succ n ih =>
    rw [System.settleGuarded, Bool.and_eq_true] at ok
    rw [System.settle]
    by_cases idle : w.stack = []
    · have stay : w.advance d = w := by
        unfold System.advance
        rw [idle]
      rw [stay] at ok ⊢
      exact ih ok.2
    · exact .head ⟨System.guarded_of_test ok.1, System.advance_sync d w idle⟩ (ih ok.2)

/-- One byte is about to be sent. -/
def System.sendingOne : System :=
  { System.fresh .small with stack := [{ host := .a, frame := .sends [[7]], stamp := 0 }] }

/-- One byte is delivered from inside `transmit_`. -/
theorem guarded_sync_safe_one_byte :
    ((System.sendingOne.settle true 20).host .b).log.delivered = [[7]] ∧
    ((System.sendingOne.settle true 20).host .b).log.delivered.flatten
      <+: ((System.sendingOne.settle true 20).host .a).log.sent := by
  have start : System.GuardedSync (.fresh .small) System.sendingOne := ⟨nofun, .call (.send .a [7] rfl)⟩
  have run := (Relation.ReflTransGen.single start).trans
    (System.settle_guarded (d := true) (n := 20) (by decide +kernel))
  have safe := guarded_sync_safe .small _ run .a
  rw [show Host.a.peer = .b from rfl] at safe
  exact ⟨by decide +kernel, safe.1⟩

/-- Two sessions whose data callbacks each answer once. -/
def Setup.chatty : Setup where
  size := fun _ => mtu
  count := fun _ => 4
  mem := fun _ _ => 0
  clock := fun _ => .unit
  rtoNs := fun _ => 0
  tape := fun X n =>
    match X, n with
    | .a, 2 => { tsc := 0, ops := [], sends := [[3]] }
    | .b, 0 => { tsc := 0, ops := [], sends := [[2]] }
    | _, _ => { tsc := 0, ops := [], sends := [] }
  fits := fun _ => le_refl _

/-- A byte is sent and dropped, and sent again by `tick`. -/
def System.answered : System := ((System.fresh .chatty).send false 20 .a [1]).tick true 100 .a

/-- The callback of `b` answers from inside `tick`, the callback of `a` answers that from inside, and
`deliver_in_order` of `b`, entered again, hands the first byte over a second time. -/
theorem sync_delivers_twice :
    Relation.ReflTransGen System.Sync (.fresh .chatty) System.answered ∧ System.answered.stack = [] ∧
    (System.answered.host .a).log.sent = [1, 3] ∧
    (System.answered.host .b).log.delivered = [[1], [1], [3]] ∧
    ¬ (System.answered.host .b).log.delivered.flatten <+: (System.answered.host .a).log.sent := by
  have idle : ((System.fresh .chatty).send false 20 .a [1]).stack = [] :=
    List.isEmpty_iff.mp (by decide +kernel)
  have sent : (System.answered.host .a).log.sent = [1, 3] := by decide +kernel
  have delivered : (System.answered.host .b).log.delivered = [[1], [1], [3]] := by decide +kernel
  refine ⟨(System.send_sync rfl _ _ _ _).trans (System.tick_sync idle _ _ _),
    List.isEmpty_iff.mp (by decide +kernel), sent, delivered, ?_⟩
  rw [sent, delivered]
  decide

end UxNet.TcpLite
