import UxNet.TcpLite.Progress

/-!
# Pool exhaustion

A pool with no more buffers than the window has slots can come to have all of them in the queue of
unacknowledged packets. Then no datagram can be received, the ACK that would release the buffers is lost
each time it arrives, and the session is stuck (`Stuck`). With one buffer more this cannot happen:
`transient_iff_spare_buffer`.
-/

namespace UxNet.TcpLite

open TcpLiteSession

/-- The frames of a `tick` that finds no buffer. -/
def Frame.ticking : Frame → Bool
  | .tick => true
  | .resend _ _ => true
  | .resent _ _ _ => true
  | .pumpTx => true
  | .tickAck => true
  | .tickDone => true
  | .transmitting => true
  | _ => false

/-- Without a buffer `tick` changes nothing that would free one. -/
lemma Case.stuck {s s' : TcpLiteSession} {f : Frame} {new : List Frame} (c : Case s f s' new)
    (alone : s.Private)
    (none : s.pool.free = []) (tick : f.ticking = true) :
    s'.pool.free = [] ∧ s'.log.packets = s.log.packets ∧ s'.log.delivered = s.log.delivered ∧
      ∀ g ∈ new, g.ticking = true := by
  cases c with
  | pumpStop _ =>
    obtain ⟨_, _, e, _⟩ := pumpReset_frame s
    rw [e]
    exact ⟨none, rfl, rfl, nofun⟩
  | pumpFull _ full =>
    obtain ⟨_, _, e, _⟩ := pumpReset_frame { s with pool := _, tape := s.rest }
    rw [e]
    rw [alone.callerOps] at full
    obtain ⟨_, rfl⟩ := BufferPool.acquire_none full
    exact ⟨none, rfl, rfl, nofun⟩
  | pumpSend _ acq _ =>
    rw [alone.callerOps] at acq
    obtain ⟨rest, some, _⟩ := BufferPool.acquire_some acq
    rw [none] at some
    cases some
  | tick => exact ⟨none, rfl, rfl, List.forall_mem_singleton.mpr rfl⟩
  | resendNil => exact ⟨none, rfl, rfl, List.forall_mem_cons.mpr ⟨rfl, List.forall_mem_singleton.mpr rfl⟩⟩
  | resend _ =>
    exact ⟨none, packets_transmit_old s _ nofun, rfl,
      List.forall_mem_cons.mpr ⟨rfl, List.forall_mem_singleton.mpr rfl⟩⟩
  | resendSkip _ => exact ⟨none, rfl, rfl, List.forall_mem_singleton.mpr rfl⟩
  | resent => exact ⟨none, rfl, rfl, List.forall_mem_singleton.mpr rfl⟩
  | tickAck _ =>
    exact ⟨none, packets_transmit_old s _ nofun, rfl,
      List.forall_mem_cons.mpr ⟨rfl, List.forall_mem_singleton.mpr rfl⟩⟩
  | tickQuiet _ => exact ⟨none, rfl, rfl, nofun⟩
  | tickDone => exact ⟨none, rfl, rfl, nofun⟩
  | transmitting => exact ⟨none, rfl, rfl, nofun⟩
  | _ => cases tick

/-- One side has no buffer left, and nothing on the way that would give one back. -/
structure Stuck (p : Setup) (X : Host) (P : List Bytes) (w : System) : Prop where
  run : Relation.ReflTransGen (System.Net System.FreshBorn) (.fresh p) w
  alone : w.Private
  free : (w.host X).pool.free = []
  ticking : ∀ f ∈ framesOf X w.stack, f.ticking = true
  packets : (w.host X).log.packets = P
  delivered : (w.host X).log.delivered = []

namespace Stuck

variable {p : Setup} {X : Host} {P : List Bytes} {w w' : System}

/-- The peer of a side that receives nothing is not acknowledged anything. -/
lemma few (h : Stuck p X P w) (small : P.length ≤ 256) (Y : Host) : w.assigned Y ≤ 256 := by
  rcases X.eq_or_peer Y with rfl | rfl
  · rw [System.assigned, h.packets]
    exact small
  · obtain ⟨una, retained, le⟩ := (System.Net.steps_agreed h.run).1.una X.peer
    rw [Host.peer_peer] at le
    have zero : w.returned X = 0 := by
      show (w.host X).log.delivered.length - _ = 0
      rw [h.delivered]
      exact Nat.zero_sub _
    have upper := retained.upper
    exact upper.trans (by omega)

/-- A step that the side takes no part in. -/
lemma of_same (h : Stuck p X P w) (run : System.Net System.FreshBorn w w') (alone : w'.Private)
    (same : ∃ tape, w'.host X = { w.host X with tape := tape })
    (ticking : ∀ f ∈ framesOf X w'.stack, f.ticking = true) : Stuck p X P w' := by
  obtain ⟨tape, e⟩ := same
  refine ⟨h.run.tail run, alone, ?_, ticking, ?_, ?_⟩
  · rw [e]
    exact h.free
  · rw [e]
    exact h.packets
  · rw [e]
    exact h.delivered

/-- A call that runs does not help. -/
lemma exec (h : Stuck p X P w) (busy : w.stack ≠ []) : Stuck p X P w.exec := by
  have run : System.Net System.FreshBorn w w.exec := .call (.exec busy)
  obtain ⟨e, rest, st⟩ := List.exists_cons_of_ne_nil busy
  have r := w.exec_ran st
  have ticking := h.ticking
  rcases e.host.eq_or_peer X with rfl | rfl
  · rw [framesOf_self st] at ticking
    obtain ⟨top, below⟩ := List.forall_mem_cons.mp ticking
    obtain ⟨free, packets, delivered, new⟩ := r.code.stuck (h.alone e.host) h.free top
    refine ⟨h.run.tail run, h.alone.exec, ?_, ?_, ?_, ?_⟩
    · rw [r.self]
      exact free
    · rw [r.own]
      exact List.forall_mem_append.mpr ⟨new, below⟩
    · rw [r.self]
      exact packets.trans h.packets
    · rw [r.self]
      exact delivered.trans h.delivered
  · rw [framesOf_peer st] at ticking
    exact h.of_same run h.alone.exec ⟨_, r.peer⟩ (r.other ▸ ticking)

/-- No step helps. -/
lemma step (h : Stuck p X P w) (small : P.length ≤ 256) (st : System.Drain w w') : Stuck p X P w' := by
  have alone := st.private_step h.alone
  cases st with
  | exec busy => exact h.exec busy
  | tick Y idle =>
    refine h.of_same (.call (.tick Y idle)) alone ⟨_, rfl⟩ ?_
    intro f mem
    obtain ⟨e, one, _, rfl⟩ := mem_framesOf.mp mem
    obtain rfl := List.mem_singleton.mp one
    rfl
  | clock Y tsc idle =>
    refine h.of_same (.call (.program Y [] (fun i => { (w.host Y).tape i with tsc := tsc i }) idle)) alone
      ?_ h.ticking
    rcases Y.eq_or_peer X with rfl | rfl
    · exact ⟨_, w.put_self X _⟩
    · exact ⟨_, w.put_peer Y _⟩
  | @deliver c buf s idle mem arr =>
    rcases c.src.eq_or_peer X with rfl | rfl
    · have few : ∀ Y, w.assigned Y ≤ 2 ^ 30 := fun Y => (h.few small Y).trans (by decide)
      have born := System.freshBorn_of_few h.run few mem
      have r := (w.hand c.src.peer buf s (c.stamp c.src) []).exec_ran rfl
      have same := r.peer.trans (w.put_peer c.src.peer _)
      have other := r.other
      rw [Host.peer_peer] at same other
      refine h.of_same (.deliver idle mem born arr) alone ⟨_, same⟩ ?_
      rw [other]
      exact nofun
    · -- there is no buffer for a datagram that arrives here
      unfold TcpLiteSession.arrive BufferPool.acquire at arr
      rw [h.free] at arr
      cases arr

/-- No run helps. -/
lemma steps (h : Stuck p X P w) (small : P.length ≤ 256) (run : Relation.ReflTransGen System.Drain w w') :
    Stuck p X P w' := by
  induction run with
  | refl => exact h
  | tail _ st ih => exact ih.step small st

/-- The peer is given no more than what was sent before the pool was exhausted. -/
lemma delivered_le (h : Stuck p X P w) :
    (w.host X.peer).log.delivered.flatten.length ≤ P.length * maxPayload := by
  obtain ⟨_, ⟨g, core, _⟩, _⟩ := System.Net.steps_agreed h.run
  have receiver := core.receiver X.peer
  have sender := core.sender X
  rw [Host.peer_peer] at receiver
  refine (sender.flatten_length_le ?_).trans (Nat.mul_le_mul_right _ ?_)
  · intro x mem
    rw [receiver.delivered] at mem
    exact List.mem_of_mem_take mem
  · rw [← h.packets]
    exact receiver.delivered_le

end Stuck

section Reachable

variable {p : Setup} {w w' : System} {X : Host}

/-- With private pools, calls that run are steps over the network. -/
lemma System.Shared.of_runs (run : Relation.ReflTransGen System.Runs w w') (alone : w.Private) :
    Relation.ReflTransGen System.Shared w w' := by
  induction run with
  | refl => exact .refl
  | tail before st ih =>
    obtain ⟨busy, rfl⟩ := st
    exact ih.tail ⟨.call (.exec busy), (System.Private.runs before alone).exec⟩

/-- Such a run is one over the network, and the pools stay private. -/
lemma System.Shared.net (run : Relation.ReflTransGen System.Shared w w') (alone : w.Private) :
    Relation.ReflTransGen (System.Net System.FreshBorn) w w' ∧ w'.Private := by
  induction run with
  | refl => exact ⟨.refl, alone⟩
  | tail _ st ih => exact ⟨ih.1.tail st.1, st.2⟩

/-- The pools of fresh sessions are private if the program does not use them. -/
lemma System.fresh_private (alone : ∀ X i, (p.tape X i).ops = []) : (System.fresh p).Private :=
  fun X => ⟨rfl, alone X⟩

/-- A small pool has no buffer left once `pump_tx` has stopped with more bytes to send than its buffers
take. -/
lemma Retained.exhausted {size n : ℕ} {s : TcpLiteSession} (h : Retained 0 s)
    (sender : Sender size n s [])
    (alone : s.Private) (small : n ≤ window) (long : n * maxPayload < s.log.sent.length)
    (stop : s.pumpOpen = false ∨ s.pool.free = []) : s.log.packets.length ≤ n ∧ s.pool.free = [] := by
  have total := sender.bufs.owned.total
  have nobody : s.pool.caller = [] := alone.caller
  rw [nobody] at total
  have total' : s.pool.free.length + s.unacked.inUse.card + 0 + 0 = n := total
  have held := h.held_le
  have upper := h.upper
  refine ⟨by omega, ?_⟩
  rcases stop with closed | none
  · -- there are bytes left, so the window is full
    have bytes : s.txOff < s.pendingTx.length := by
      by_contra packed
      have le := sender.flatten_length_le fun _ => id
      rw [sender.all_packed (Nat.not_lt.mp packed), List.length_map] at le
      have few : s.log.packets.length * maxPayload ≤ n * maxPayload := Nat.mul_le_mul_right _ (by omega)
      omega
    have full : ¬ (s.nextSeq - s.sndUna).toNat < window := by
      intro room
      rw [pumpOpen, decide_eq_true bytes, decide_eq_true room] at closed
      cases closed
    rw [sender.nextSeq_eq rfl, h.una, Serial.dist_of_le (Nat.zero_le _),
      Nat.mod_eq_of_lt (by omega)] at full
    apply List.eq_nil_of_length_eq_zero
    have window' : window = 256 := rfl
    omega
  · exact none

/-- Two sessions over pools of their own, one of them too small: there is a state that a call of `send`
leads to and from which its bytes never get through. -/
lemma System.Shared.stuck (alone : ∀ X i, (p.tape X i).ops = []) (small : p.count X ≤ window) :
    ∃ w P, Relation.ReflTransGen System.Shared (.fresh p) w ∧ w.stack = [] ∧ Stuck p X P w ∧
      P.length ≤ p.count X ∧ (w.host X).log.sent.length = (p.count X + 1) * maxPayload := by
  obtain ⟨w, runs, called, idle⟩ := (System.fresh p).send_call X
    (List.replicate ((p.count X + 1) * maxPayload) 0)
  have start : System.Shared (.fresh p) _ :=
    ⟨.call (.send X (List.replicate ((p.count X + 1) * maxPayload) 0) rfl), System.fresh_private alone⟩
  have shared := System.Shared.of_runs runs (System.fresh_private alone)
  have priv := System.Private.runs runs (System.fresh_private alone)
  have run := (System.Shared.net (.head start shared) (System.fresh_private alone)).1
  have sent : (w.host X).log.sent.length = (p.count X + 1) * maxPayload := by
    rw [called.self, TcpLiteSession.send, pumpTx_sent]
    exact List.length_replicate
  obtain ⟨agreed, ⟨g, core, _⟩, _⟩ := System.Net.steps_agreed run
  obtain ⟨una, retained, le⟩ := agreed.una X
  have sender := core.sender X
  rw [show framesOf X w.stack = [] from congrArg (framesOf X) idle] at sender
  have zero : una = 0 := by
    apply Nat.le_zero.mp
    refine le.trans ?_
    show (w.host X.peer).log.delivered.length - _ ≤ 0
    rw [called.peer]
    exact Nat.sub_le _ _
  subst zero
  have stop := pumpTx_stop
    (((System.fresh p).host X).append (List.replicate ((p.count X + 1) * maxPayload) 0))
  rw [show (((System.fresh p).host X).append _).pumpTx = w.host X from called.self.symm] at stop
  obtain ⟨few, free⟩ := retained.exhausted sender (priv X) small (by
    rw [sent]
    exact Nat.mul_lt_mul_of_pos_right (Nat.lt_succ_self _) (by decide)) stop
  refine ⟨w, (w.host X).log.packets, .head start shared, idle, ⟨run, priv, free, ?_, rfl, ?_⟩, few, sent⟩
  · rw [idle]
    exact nofun
  · rw [called.self]
    exact congrArg Inbox.delivered (pumpTx_inbox _)

end Reachable

/-- From every reachable state, and for each side, there is a continuation with which everything that
the side was given to send gets through. -/
def Setup.Transient (p : Setup) : Prop :=
  ∀ w, Relation.ReflTransGen System.Shared (.fresh p) w → ∀ X, ∃ w',
    Relation.ReflTransGen System.Drain w w' ∧
      (w.host X).log.sent <+: (w'.host X.peer).log.delivered.flatten

/-- Pool exhaustion is transient exactly if both pools have more buffers than the window has slots. -/
theorem transient_iff_spare_buffer (p : Setup) (alone : ∀ X i, (p.tape X i).ops = []) :
    p.Transient ↔ ∀ X, window < p.count X := by
  constructor
  · intro transient X
    by_contra small
    obtain ⟨w, P, shared, _, stuck, few, sent⟩ := System.Shared.stuck alone (Nat.not_lt.mp small)
    obtain ⟨w', run, pre⟩ := transient w shared X
    have le := (stuck.steps (few.trans (Nat.not_lt.mp small)) run).delivered_le
    have long := pre.length_le
    have mono : P.length * maxPayload ≤ p.count X * maxPayload := Nat.mul_le_mul_right _ few
    rw [sent, Nat.succ_mul] at long
    have pos : 0 < maxPayload := by decide
    omega
  · intro many w shared X
    obtain ⟨net, priv⟩ := System.Shared.net shared (System.fresh_private alone)
    -- the active calls return
    obtain ⟨_, _, Y, nested⟩ := System.Net.steps_agreed net
    obtain ⟨w₁, runs, idle⟩ := System.finishes fun e mem => (nested.one e mem).1
    have priv₁ := System.Private.runs runs priv
    have net₁ := net.trans (System.Shared.net (System.Shared.of_runs runs priv) priv).1
    obtain ⟨una, lined⟩ := System.Net.lined net₁ idle X
    obtain ⟨w₂, run, pre⟩ := System.Drain.complete idle priv₁ (many X) (many X.peer) lined
    exact ⟨w₂, (System.Drain.of_runs runs).trans run, (System.Runs.sent_prefix runs X).trans pre⟩

/-- The pools of the ping-pong in `final_benchmark.cpp`, with a number of buffers to choose. -/
def Setup.pingpong (count : ℕ) : Setup where
  size := fun _ => 2048
  count := fun _ => count
  mem := fun _ _ => 0
  clock := fun _ => .unit
  rtoNs := fun _ => 1000000
  tape := fun _ => .silent
  fits := fun _ => by decide

/-- With 257 buffers exhaustion is transient, with 256 it is not. -/
theorem transient_with_257_buffers :
    (Setup.pingpong 257).Transient ∧ ¬ (Setup.pingpong 256).Transient := by
  refine ⟨(transient_iff_spare_buffer _ fun _ _ => rfl).mpr fun _ => Nat.lt_succ_self 256, ?_⟩
  rw [transient_iff_spare_buffer _ fun _ _ => rfl]
  intro many
  exact absurd (many .a) (by decide)

/-- With the 128 buffers of the benchmark one call of `send` fills the queue of unacknowledged packets
with all of them, and nothing that happens afterwards gives one back. -/
theorem pingpong_exhausted :
    ∃ w, Relation.ReflTransGen System.Shared (.fresh (.pingpong 128)) w ∧ w.stack = [] ∧
      (w.host .a).log.sent.length = 129 * 1024 ∧ (w.host .a).unacked.inUse.card = 128 ∧
      ∀ w', Relation.ReflTransGen System.Drain w w' → (w'.host .a).pool.free = [] ∧
        ¬ (w.host .a).log.sent <+: (w'.host .b).log.delivered.flatten := by
  obtain ⟨w, P, shared, idle, stuck, few, sent⟩ :=
    System.Shared.stuck (p := .pingpong 128) (X := .a) (fun _ _ => rfl) (by decide)
  have few' : P.length ≤ 128 := few
  refine ⟨w, shared, idle, sent, ?_, ?_⟩
  · obtain ⟨_, ⟨g, core, _⟩, _⟩ := System.Net.steps_agreed stuck.run
    have total := (core.sender .a).bufs.owned.total
    have caller : (w.host .a).pool.caller = [] := (stuck.alone .a).caller
    have none : held (framesOf .a w.stack) = [] := by
      rw [idle]
      rfl
    rw [none, caller, stuck.free] at total
    have total' : 0 + (w.host .a).unacked.inUse.card + 0 + 0 = 128 := total
    omega
  · intro w' run
    have after := stuck.steps (by omega) run
    refine ⟨after.free, ?_⟩
    intro pre
    have long := pre.length_le
    have le : (w'.host .b).log.delivered.flatten.length ≤ P.length * 1024 := after.delivered_le
    have sent' : (w.host .a).log.sent.length = 129 * 1024 := sent
    omega

end UxNet.TcpLite
