import UxNet.TcpLite.Progress

/-!
# Stale acknowledgements

What a network can do that measures the age of a copy from its own transmission, and not from the first
transmission of its packet. A packet keeps the ACK number it was made with, and `tick` transmits it
again as it is: the copy is fresh, its ACK number may be from any time ago. After more than `2 ^ 31`
packets of the peer it is ahead of the peer's `snd_una_` in signed 32-bit arithmetic, and the peer
releases what it has just sent.

In `Lagging n` one side has sent one packet, which was always lost, and its peer `n` packets that were
received and acknowledged, each with a call of `send`, a delivery, a `tick` and another delivery. One more
delivery, of that one packet, leads to `Wedged n`.
-/

namespace UxNet.TcpLite

open TcpLiteSession Reassembly

/-- `mark_acked` releases what is serially before its argument. -/
lemma UnackedQueue.occupied_markAcked (q : UnackedQueue) (ack : BitVec 32) (pool : BufferPool)
    (seq : BitVec 32) :
    (q.markAcked ack pool).2.1.occupied seq = (q.occupied seq && !decide ((seq - ack).toInt < 0)) := by
  have slot := q.markAcked_slots ack pool (slotIdx seq)
  generalize q.markAcked ack pool = r at slot
  unfold occupied
  rw [slot, ackedSlot]
  generalize q.slots (slotIdx seq) = x
  cases occ : x.occupied with
  | false => simp [occ]
  | true =>
    by_cases same : x.seq = seq
    · by_cases neg : (seq - ack).toInt < 0
      · simp [-BitVec.toInt_sub, same, neg, Slot.clear]
      · simp [-BitVec.toInt_sub, same, neg, occ]
    · have other : (x.seq == seq) = false := beq_eq_false_iff_ne.mpr same
      by_cases neg : (x.seq - ack).toInt < 0
      · simp [-BitVec.toInt_sub, other, neg, Slot.clear]
      · simp [-BitVec.toInt_sub, other, neg]

/-! ## A session with nothing to send -/

/-- The frames of calls that neither take an ACK nor bring new bytes to send. -/
def Frame.dry : Frame → Bool
  | .receive _ => false
  | .pumpSent _ => false
  | .sends ds => ds.isEmpty
  | _ => true

/-- The data callback sends nothing. -/
def TcpLiteSession.Mute (s : TcpLiteSession) : Prop := ∀ i, (s.tape i).sends = []

/-- Without pending bytes and new ones, the send side stays as it is. -/
lemma Case.dry {s s' : TcpLiteSession} {f : Frame} {new : List Frame} (c : Case s f s' new)
    (dry : f.dry = true)
    (empty : s.pendingTx.length ≤ s.txOff) (mute : s.Mute) :
    s'.log.packets = s.log.packets ∧ s'.sndUna = s.sndUna ∧
      (∀ seq, s'.unacked.occupied seq = s.unacked.occupied seq) ∧ s'.pendingTx.length ≤ s'.txOff ∧
      ∀ g ∈ new, g.dry = true := by
  have closed : ¬ s.pumpOpen = true := fun op => Nat.not_lt.mpr empty (pumpOpen_window op).1
  cases c with
  | sendsCons => cases dry
  | pumpStop _ =>
    unfold pumpReset
    split
    · exact ⟨rfl, rfl, fun _ => rfl, le_rfl, nofun⟩
    · exact ⟨rfl, rfl, fun _ => rfl, empty, nofun⟩
  | pumpFull op _ => exact absurd op closed
  | pumpSend op _ _ => exact absurd op closed
  | pumpSent => cases dry
  | corrupt _ => cases dry
  | ack _ _ => cases dry
  | noAck _ _ => cases dry
  | store _ =>
    obtain ⟨_, _, e⟩ := storeData_frame s _ _
    rw [e]
    exact ⟨rfl, rfl, fun _ => rfl, empty,
      List.forall_mem_cons.mpr ⟨rfl, List.forall_mem_singleton.mpr rfl⟩⟩
  | deliverCall _ =>
    refine ⟨rfl, rfl, fun _ => rfl, empty,
      List.forall_mem_cons.mpr ⟨?_, List.forall_mem_singleton.mpr rfl⟩⟩
    rw [mute 0]
    rfl
  | delivered => exact ⟨rfl, rfl, fun _ => rfl, empty, List.forall_mem_singleton.mpr rfl⟩
  | tick => exact ⟨rfl, rfl, fun _ => rfl, empty, List.forall_mem_singleton.mpr rfl⟩
  | resendNil =>
    exact ⟨rfl, rfl, fun _ => rfl, empty,
      List.forall_mem_cons.mpr ⟨rfl, List.forall_mem_singleton.mpr rfl⟩⟩
  | resend _ =>
    exact ⟨packets_transmit_old s _ nofun, rfl, fun _ => rfl, empty,
      List.forall_mem_cons.mpr ⟨rfl, List.forall_mem_singleton.mpr rfl⟩⟩
  | resendSkip _ => exact ⟨rfl, rfl, fun _ => rfl, empty, List.forall_mem_singleton.mpr rfl⟩
  | resent =>
    exact ⟨rfl, rfl, fun seq => UnackedQueue.occupied_touch _ _ seq _, empty,
      List.forall_mem_singleton.mpr rfl⟩
  | tickAck _ =>
    exact ⟨packets_transmit_old s _ nofun, rfl, fun _ => rfl, empty,
      List.forall_mem_cons.mpr ⟨rfl, List.forall_mem_singleton.mpr rfl⟩⟩
  | _ => exact ⟨rfl, rfl, fun _ => rfl, empty, nofun⟩

/-- A callback that sends nothing goes on sending nothing. -/
lemma Case.mute {s s' : TcpLiteSession} {f : Frame} {new : List Frame} (c : Case s f s' new)
    (mute : s.Mute) : s'.Mute := by
  intro i
  rcases c.tape with same | moved
  · rw [same]
    exact mute i
  · rw [moved]
    exact mute (i + 1)

/-- A session without pending bytes whose data callback sends nothing; `P` are its packets, and `held`
says which numbers are in the queue. -/
structure Dry (P : List Bytes) (una : BitVec 32) (held : BitVec 32 → Bool) (c : Config) : Prop where
  packets : c.session.log.packets = P
  una : c.session.sndUna = una
  held : ∀ seq, c.session.unacked.occupied seq = held seq
  empty : c.session.pendingTx.length ≤ c.session.txOff
  mute : c.session.Mute
  frames : ∀ f ∈ c.stack, f.dry = true

namespace Dry

variable {P : List Bytes} {una ack : BitVec 32} {held : BitVec 32 → Bool} {c c' : Config}
  {s t : TcpLiteSession} {size n : ℕ} {d : Bytes}

/-- The code between two callbacks sends nothing new. -/
lemma exec (h : Dry P una held c) (ex : Config.Exec c c') : Dry P una held c' := by
  cases ex with
  | @step s f fs =>
    have code := exec_case s f
    generalize TcpLite.exec s f = r at code
    obtain ⟨top, below⟩ := List.forall_mem_cons.mp h.frames
    obtain ⟨packets, una, held, empty, new⟩ := code.dry top h.empty h.mute
    exact ⟨packets.trans h.packets, una.trans h.una, fun seq => (held seq).trans (h.held seq), empty,
      code.mute h.mute, List.forall_mem_append.mpr ⟨new, below⟩⟩

/-- Nor does a run of it. -/
lemma execs (h : Dry P una held c) (run : Config.Execs c c') : Dry P una held c' := by
  induction run with
  | refl => exact h
  | tail _ st ih => exact ih.exec st

/-- Nor does a `tick`. -/
lemma tick (h : Dry P una held ⟨s, []⟩) : Dry P una held ⟨s.tick, []⟩ := by
  have start : Dry P una held ⟨s, [.tick]⟩ :=
    ⟨h.packets, h.una, h.held, h.empty, h.mute, List.forall_mem_singleton.mpr rfl⟩
  exact start.execs (tick_execs s [])

/-- A datagram whose ACK number is not ahead leaves the send side as it is. -/
lemma deliver (h : Dry P una held ⟨s, []⟩) (sender : Sender size n s []) (carries : CarriesAck ack d)
    (e : s.deliver d = some t) (behind : ¬ 0 < (ack - una).toInt) : Dry P una held ⟨t, []⟩ := by
  obtain ⟨u, pool, buf, plen, s', new, rfl, _, _, run, first⟩ := deliver_starts sender carries e
  obtain rfl : s.sndUna = una := h.una
  rcases first with ⟨ahead, _⟩ | ⟨_, rfl, rfl⟩
  · exact absurd ahead behind
  · refine Dry.execs ?_ run
    exact ⟨h.packets, h.una, h.held, h.empty, h.mute, List.forall_mem_singleton.mpr rfl⟩

/-- A datagram whose ACK number is ahead releases everything that is serially before it. -/
lemma deliver_ahead (h : Dry P una held ⟨s, []⟩) (sender : Sender size n s [])
    (carries : CarriesAck ack d)
    (e : s.deliver d = some t) (ahead : 0 < (ack - una).toInt) :
    Dry P ack (fun seq => held seq && !decide ((seq - ack).toInt < 0)) ⟨t, []⟩ := by
  obtain ⟨u, pool, buf, plen, s', new, same, _, code, run, first⟩ := deliver_starts sender carries e
  obtain rfl : s.sndUna = una := h.una
  rcases first with ⟨_, eq, rfl⟩ | ⟨behind, _⟩
  · refine Dry.execs ?_ run
    have mute : s'.Mute := code.mute (same ▸ h.mute)
    have queue : u.unacked = s.unacked := by rw [same]
    obtain ⟨_, _, frame⟩ := takeAck_frame u ack
    have acked := u.unacked.occupied_markAcked ack u.pool
    generalize u.unacked.markAcked ack u.pool = r at frame acked
    rw [frame] at eq
    refine ⟨?_, ?_, ?_, ?_, mute, List.forall_mem_cons.mpr ⟨rfl, List.forall_mem_singleton.mpr rfl⟩⟩
    · rw [eq, same]
      exact h.packets
    · rw [eq]
    · intro seq
      rw [eq, ← h.held seq]
      show r.2.1.occupied seq = (s.unacked.occupied seq && _)
      rw [acked, queue]
    · rw [eq, same]
      exact h.empty
  · exact absurd ahead behind

end Dry

section One

variable {size n una : ℕ} {s : TcpLiteSession}

/-- With one packet not acknowledged, the queue holds that one. -/
lemma Retained.held_one (h : Retained una s) (sender : Sender size n s [])
    (one : s.log.packets.length = una + 1) (seq : BitVec 32) :
    s.unacked.occupied seq = (seq == BitVec.ofNat 32 una) := by
  have held := h.slots una le_rfl (by omega)
  rw [Bool.eq_iff_iff, beq_iff_eq]
  constructor
  · intro occ
    obtain ⟨used, eq⟩ := UnackedQueue.occupied_iff.mp occ
    obtain ⟨j, lo, hi, slot⟩ := (h.occupied_iff sender _).mp used
    obtain rfl : j = una := by omega
    have same := (UnackedQueue.occupied_iff.mp held).2
    rw [slot] at same
    exact eq.symm.trans same
  · rintro rfl
    exact held

/-- `send` of one byte when everything before it is acknowledged makes one packet. -/
lemma send_one (h : Retained una s) (sender : Sender size n s []) (alone : s.Private) (many : window < n)
    (packets : s.log.packets.length = una) (sent : s.log.sent.length = una) (b : BitVec 8) :
    ∃ d, IsPacket (BitVec.ofNat 32 una) s.recvBitmap.cumulativeAck d ∧
      (s.send [b]).log.packets = s.log.packets ++ [d] ∧ transmitted s (s.send [b]) = [⟨.data, d⟩] ∧
      (s.send [b]).log.sent.length = una + 1 ∧ (s.send [b]).pendingTx.length ≤ (s.send [b]).txOff := by
  have done : Sender size n (s.send [b]) [] := (h.send sender [b]).sender
  have sent' : (s.send [b]).log.sent.length = una + 1 := by
    rw [TcpLiteSession.send, pumpTx_sent]
    show (s.log.sent ++ [b]).length = una + 1
    rw [List.length_append, sent]
    rfl
  have grows : s.log.packets.length < (s.send [b]).log.packets.length := by
    refine pumpTx_grows (s := s.append [b]) ?_ ?_
    · have bytes : s.txOff < (s.pendingTx ++ [b]).length := by
        have room : s.txOff + 0 ≤ s.pendingTx.length := sender.room
        rw [List.length_append]
        exact Nat.lt_succ_of_le room
      have room : (s.nextSeq - s.sndUna).toNat < window := by
        rw [sender.nextSeq_eq rfl, h.una, packets, BitVec.sub_self]
        decide
      exact Bool.and_eq_true_iff.mpr ⟨decide_eq_true bytes, decide_eq_true room⟩
    · show (s.pool.callerOps (s.tape 0).ops).free ≠ []
      rw [alone.callerOps]
      exact alone.free_ne_nil sender many
  have le := done.length_le
  obtain ⟨ds, more, wire, made⟩ := send_wire s [b]
  have len := congrArg List.length more
  rw [List.length_append] at len
  obtain ⟨d, rfl⟩ : ∃ d, ds = [d] := List.length_eq_one_iff.mp (by omega)
  obtain ⟨seq, packet⟩ := made d List.mem_cons_self
  refine ⟨d, ?_, more, wire, sent', by omega⟩
  obtain ⟨_, packet'⟩ := done.packets una d (by
    rw [more, List.getElem?_append_right (by omega), packets, Nat.sub_self]
    rfl)
  have same : seq = BitVec.ofNat 32 una := packet.header.2.2.1.symm.trans packet'.header.2.2.1
  rw [← same]
  exact packet

end One

/-! ## One side far behind -/

/-- The only packet of `a` has been lost each time; `b` has sent `n` packets of one byte, which `a` has
received and acknowledged. -/
structure Lagging (n : ℕ) (a b : TcpLiteSession) : Prop where
  late : ∃ p₀, IsPacket 0 0 p₀ ∧ Dry [p₀] 0 (fun seq => seq == 0) ⟨a, []⟩
  ack : b.recvBitmap.cumulativeAck = 0
  sent : b.log.sent.length = n
  packets : b.log.packets.length = n
  lined : ∃ first, Lined mtu 257 mtu 257 b a n first ∧ base first = n
  alone : a.Private
  alone' : b.Private

/-- `snd_una_` of `b` has gone back to the number of the first packet: `b` has made `n + 1` packets, `a`
has received `n`, and the queue of `b` is empty. -/
structure Wedged (n : ℕ) (a b : TcpLiteSession) : Prop where
  sender : Sender mtu 257 b []
  peer : Sender mtu 257 a []
  dry : ∃ P, P.length = n + 1 ∧ Dry P 0 (fun _ => false) ⟨b, []⟩
  base : a.recvBitmap.baseSeq = BitVec.ofNat 32 n
  delivered : a.log.delivered.length = n

/-- At some time `tick` transmits the only packet again. -/
lemma tick_again {size n : ℕ} {s : TcpLiteSession} {d : Bytes} (sender : Sender size n s [])
    (only : s.log.packets = [d]) (occ : s.unacked.occupied 0 = true) :
    ∃ tsc, ⟨.retransmit, d⟩ ∈ transmitted (s.atTime tsc) (s.atTime tsc).tick := by
  refine ⟨fun _ => s.dueTime 0, ?_⟩
  have due := mem_timedOut_due occ
  obtain ⟨used, _⟩ := UnackedQueue.occupied_iff.mp occ
  obtain ⟨buf, hb⟩ := sender.bufs.owned.full _ used
  have stored : s.unacked.bufferFor 0 = some buf := by
    rw [UnackedQueue.bufferFor, if_pos occ]
    exact hb
  obtain ⟨j, _, get, _⟩ := sender.bufferFor stored
  rw [only] at get
  obtain ⟨rfl, same⟩ : j = 0 ∧ d = s.pool.content buf := by
    obtain ⟨lt, eq⟩ := List.getElem?_eq_some_iff.mp get
    obtain rfl : j = 0 := Nat.lt_one_iff.mp lt
    exact ⟨rfl, eq⟩
  obtain ⟨ds, _, _, wire⟩ := tick_wire (s.atTime fun _ => s.dueTime 0)
  rw [wire, same]
  apply List.mem_append_left
  apply List.mem_append_left
  exact List.mem_filterMap.mpr ⟨0, due, Option.map_eq_some_iff.mpr ⟨buf, stored, rfl⟩⟩

namespace Lagging

variable {n : ℕ} {a b : TcpLiteSession}

/-- `b` sends one more packet. -/
lemma send (h : Lagging n a b) :
    ∃ d, IsPacket (BitVec.ofNat 32 n) 0 d ∧ transmitted b (b.send [0]) = [⟨.data, d⟩] ∧
      (b.send [0]).log.packets = b.log.packets ++ [d] ∧ (b.send [0]).log.packets.length = n + 1 ∧
      (b.send [0]).log.sent.length = n + 1 ∧ (b.send [0]).pendingTx.length ≤ (b.send [0]).txOff ∧
      Steady mtu 257 n b.log.packets ⟨b.send [0], []⟩ := by
  obtain ⟨first, lined, _⟩ := h.lined
  obtain ⟨d, packet, packets, wire, sent, empty⟩ :=
    send_one lined.retained lined.sender h.alone' (by decide) h.packets h.sent 0
  refine ⟨d, h.ack ▸ packet, wire, packets, ?_, sent, empty, lined.retained.send lined.sender [0]⟩
  rw [packets, List.length_append, h.packets]
  rfl

/-- There is a buffer for a datagram on both sides after `b` has sent. -/
lemma room (h : Lagging n a b) (d : Bytes) :
    (∃ t, a.deliver d = some t) ∧ ∃ t, (b.send [0]).deliver d = some t := by
  obtain ⟨first, lined, _⟩ := h.lined
  have many : window < 257 := by decide
  have alone : (b.send [0]).Private := Private.execs (sends_execs b [[0]] []) h.alone'
  exact ⟨deliver_of_free (h.alone.free_ne_nil lined.peer many) d,
    deliver_of_free (alone.free_ne_nil (lined.retained.send lined.sender [0]).sender many) d⟩

/-- `b` sends one more packet, which `a` receives and acknowledges. -/
lemma exchange (h : Lagging n a b) :
    ∃ d a' k b', ⟨.data, d⟩ ∈ transmitted b (b.send [0]) ∧ a.deliver d = some a' ∧
      ⟨.ack, k⟩ ∈ transmitted a' a'.tick ∧ (b.send [0]).deliver k = some b' ∧
      (b.send [0]).log.packets.length = n + 1 ∧ a'.tick.log.packets = a'.log.packets ∧
      (a'.tick.Private → b'.Private → Lagging (n + 1) a'.tick b') := by
  obtain ⟨first, lined, all⟩ := h.lined
  obtain ⟨p₀, late, dry⟩ := h.late
  obtain ⟨d, packet, wire, packets, count, sent, _, steady⟩ := h.send
  have sends := lined.send steady lined.below
  -- `a` receives the packet
  obtain ⟨a', received⟩ := (h.room d).1
  have get : (b.send [0]).log.packets[n]? = some d := by
    rw [packets, List.getElem?_append_right h.packets.le, h.packets, Nat.sub_self]
    rfl
  obtain ⟨got, _, there, pending⟩ := sends.receive get (by omega) received
  have dry' := dry.deliver lined.peer packet.carriesAck received (by decide)
  generalize Reassembly.arrive 256 first (BitVec.ofNat 32 n, payloadOf d) = first' at got there
  have full : base first' = n + 1 := by
    have below := got.below
    have le := got.base_le
    have ne : n ≠ base first' := by
      rintro eq
      exact there (eq ▸ got.inbox.base_mem.1)
    omega
  -- `a` acknowledges it
  have ticked := got.tick_peer
  have owed := transmitted_acks a'
  rw [owedAck, if_pos pending, got.peer_ack] at owed
  obtain ⟨b', acked⟩ :=
    (h.room (TcpLiteHeader.makeAck a'.tick.nextSeq (BitVec.ofNat 32 (base first'))).toBytes).2
  have taken := ticked.retained.deliver ticked.sender (carriesAck_makeAck _ _) acked ticked.below
    ticked.base_le
  have done := ticked.send taken le_rfl
  obtain ⟨inbox, _, sent'⟩ := deliver_ack sends.sender acked
  refine ⟨d, a', _, b', wire ▸ List.mem_cons_self, received,
    (List.mem_filter.mp (owed ▸ List.mem_cons_self)).1, acked, count, ?_, ?_⟩
  · rw [dry'.tick.packets, dry'.packets]
  · intro alone alone'
    refine ⟨⟨p₀, late, dry'.tick⟩, ?_, ?_, ?_, ⟨first', full ▸ done, full⟩, alone, alone'⟩
    · have same : b'.inbox = b.inbox := inbox.trans (pumpTx_inbox _)
      exact (congrArg (fun i => i.bitmap.cumulativeAck) same).trans h.ack
    · rw [sent']
      exact sent
    · have le := done.sender.length_le
      have ge := taken.pre.length_le
      rw [sent', sent] at le
      rw [count] at ge
      exact le_antisymm (by omega) ge

/-- `b` sends one more packet, which is lost; `a` transmits its only packet again, and `b` receives
that. -/
lemma wedge (h : Lagging n a b) (ahead : 0 < (0 - BitVec.ofNat 32 n).toInt)
    (behind : (BitVec.ofNat 32 n - 0).toInt < 0) (mute : (b.send [0]).Mute) :
    ∃ tsc p₀ b', ⟨.retransmit, p₀⟩ ∈ transmitted (a.atTime tsc) (a.atTime tsc).tick ∧
      (a.atTime tsc).tick.log.packets = (a.atTime tsc).log.packets ∧
      (b.send [0]).deliver p₀ = some b' ∧ Wedged n (a.atTime tsc).tick b' := by
  obtain ⟨first, lined, all⟩ := h.lined
  obtain ⟨p₀, late, dry⟩ := h.late
  obtain ⟨d, _, _, _, count, _, empty, steady⟩ := h.send
  obtain ⟨tsc, again⟩ := tick_again lined.peer dry.packets (dry.held 0)
  have dry' : Dry [p₀] 0 (fun seq => seq == 0) ⟨a.atTime tsc, []⟩ :=
    ⟨dry.packets, dry.una, dry.held, dry.empty, dry.mute, dry.frames⟩
  obtain ⟨b', received⟩ := (h.room p₀).2
  -- the ACK number of the packet is taken, and what `b` has just sent is released
  have last : Dry (b.send [0]).log.packets (BitVec.ofNat 32 n) (fun seq => seq == BitVec.ofNat 32 n)
      ⟨b.send [0], []⟩ :=
    ⟨rfl, steady.retained.una, steady.retained.held_one steady.sender count, empty, mute, nofun⟩
  have taken := last.deliver_ahead steady.sender late.carriesAck received ahead
  have released : (fun seq => (seq == BitVec.ofNat 32 n) && !decide ((seq - 0).toInt < 0))
      = fun _ => false := by
    funext seq
    by_cases same : seq = BitVec.ofNat 32 n
    · rw [same, decide_eq_true behind]
      exact Bool.and_false _
    · rw [beq_eq_false_iff_ne.mpr same]
      exact Bool.false_and _
  rw [released] at taken
  have done : Lined mtu 257 mtu 257 b (a.atTime tsc).tick n first :=
    Lined.tick_peer (lined.wait (lined.peer.program [] _) rfl)
  refine ⟨tsc, p₀, b', again, ?_, received,
    ⟨steady.sender.deliver received late.length_le, done.peer, ⟨_, count, taken⟩, ?_, ?_⟩⟩
  · rw [dry'.tick.packets, dry'.packets]
  · rw [← all]
    exact done.inbox.base
  · have delivered := congrArg List.length done.inbox.delivered
    rw [List.length_map, List.length_map, List.length_range, all] at delivered
    exact delivered

end Lagging

/-! ## Runs over the network -/

section Runs

variable {w w' : System} {X : Host}

/-- The calls of a system are part of its runs. -/
lemma System.Net.of_runs {fresh : System → Copy → Prop} (run : Relation.ReflTransGen System.Runs w w') :
    Relation.ReflTransGen (System.Net fresh) w w' := by
  induction run with
  | refl => exact .refl
  | tail _ st ih =>
    obtain ⟨busy, rfl⟩ := st
    exact ih.tail (.call (.exec busy))

/-- Callbacks that send nothing go on sending nothing. -/
lemma System.Runs.mute (run : Relation.ReflTransGen System.Runs w w') (h : ∀ X, (w.host X).Mute)
    (X : Host) : (w'.host X).Mute := by
  induction run with
  | refl => exact h X
  | @tail u u' _ st ih =>
    obtain ⟨busy, rfl⟩ := st
    obtain ⟨e, rest, st⟩ := List.exists_cons_of_ne_nil busy
    have r := u.exec_ran st
    rcases e.host.eq_or_peer X with rfl | rfl
    · rw [r.self]
      exact r.code.mute ih
    · rw [r.peer]
      exact ih

/-- A datagram arrives without a reading of the tape. -/
lemma arrive_tape {s s' : TcpLiteSession} {bytes : Bytes} {buf : ℕ}
    (arr : s.arrive bytes = some (buf, s')) : s'.tape = s.tape := by
  unfold TcpLiteSession.arrive at arr
  split at arr
  · cases arr
  · cases arr
    rfl

/-- A delivery does not make a callback send. -/
lemma System.hand_mute {bytes : Bytes} {buf stamp : ℕ} {s : TcpLiteSession} (h : ∀ X, (w.host X).Mute)
    (arr : (w.host X).arrive bytes = some (buf, s)) (Y : Host) :
    ((w.hand X buf s stamp []).host Y).Mute := by
  rcases X.eq_or_peer Y with rfl | rfl
  · show ((w.put Y (s.handOver buf)).host Y).Mute
    rw [w.put_self]
    intro i
    show (s.tape i).sends = []
    rw [arrive_tape arr]
    exact h Y i
  · show ((w.put X (s.handOver buf)).host X.peer).Mute
    rw [w.put_peer]
    exact h X.peer

end Runs

/-- Two sessions with pools of their own. -/
def Setup.lagging : Setup where
  size := fun _ => mtu
  count := fun _ => 257
  mem := fun _ _ => 0
  clock := fun _ => .unit
  rtoNs := fun _ => 1000000
  tape := fun _ => .silent
  fits := fun _ => le_refl _

/-- What a call transmits is fresh when it returns, if it made at most one packet. -/
lemma Called.fresh {X : Host} {s : TcpLiteSession} {w w' : System} {c : Copy} (h : Called X s w w')
    (few : s.log.packets.length ≤ (w.host X).log.packets.length + 1)
    (young : ∀ Y, w.assigned Y ≤ c.stamp Y) : w'.Fresh c := by
  intro Y
  have stamp := young Y
  rcases X.eq_or_peer Y with rfl | rfl
  · have own : w'.assigned Y = s.log.packets.length := by rw [System.assigned, h.self]
    have old : w.assigned Y = (w.host Y).log.packets.length := rfl
    omega
  · have other : w'.assigned X.peer = w.assigned X.peer := by
      rw [System.assigned, System.assigned, h.peer]
    omega

/-- A state between two calls of a run in which nothing happens around the two sessions. -/
structure System.Reached (w : System) : Prop where
  run : Relation.ReflTransGen (System.Net System.Fresh) (.fresh .lagging) w
  idle : w.stack = []
  alone : w.Private
  mute : ∀ X, (w.host X).Mute

namespace System.Reached

variable {w w' : System} {X : Host} {s t : TcpLiteSession}

/-- Two fresh sessions. -/
lemma fresh : (System.fresh .lagging).Reached :=
  ⟨.refl, rfl, fun _ => ⟨rfl, fun _ => rfl⟩, fun _ _ => rfl⟩

/-- A side sends. -/
lemma send (h : w.Reached) (X : Host) (data : Bytes) :
    ∃ w', w'.Reached ∧ Called X ((w.host X).send data) w w' := by
  obtain ⟨w', runs, called, idle⟩ := w.send_call X data
  exact ⟨w', ⟨(h.run.tail (.call (.send X data h.idle))).trans (System.Net.of_runs runs), idle,
    System.Private.runs runs h.alone, System.Runs.mute runs h.mute⟩, called⟩

/-- A side calls `tick`. -/
lemma tick (h : w.Reached) (X : Host) : ∃ w', w'.Reached ∧ Called X (w.host X).tick w w' := by
  obtain ⟨w', runs, called, idle⟩ := w.tick_call X
  exact ⟨w', ⟨(h.run.tail (.call (.tick X h.idle))).trans (System.Net.of_runs runs), idle,
    System.Private.runs runs h.alone, System.Runs.mute runs h.mute⟩, called⟩

/-- The clock of one side is read as given. -/
lemma clock (h : w.Reached) (X : Host) (tsc : ℕ → BitVec 64) :
    (w.put X ((w.host X).atTime tsc)).Reached := by
  refine ⟨h.run.tail (.call (.program X [] _ h.idle)), h.idle, ?_, ?_⟩
  · intro Y
    rcases X.eq_or_peer Y with rfl | rfl
    · rw [w.put_self]
      exact ⟨(h.alone Y).caller, (h.alone Y).ops⟩
    · rw [w.put_peer]
      exact h.alone X.peer
  · intro Y
    rcases X.eq_or_peer Y with rfl | rfl
    · rw [w.put_self]
      exact h.mute Y
    · rw [w.put_peer]
      exact h.mute X.peer

/-- A fresh copy is delivered. -/
lemma deliver {c : Copy} (h : w.Reached) (mem : c ∈ w.net) (young : w.Fresh c) (dest : c.src.peer = X)
    (e : (w.host X).deliver c.bytes = some t) : ∃ w', w'.Reached ∧ Called X t w w' := by
  subst dest
  obtain ⟨buf, s, w', arr, runs, called, idle⟩ := System.deliver_call e (c.stamp c.src)
  have start : Relation.ReflTransGen System.Runs (w.hand c.src.peer buf s (c.stamp c.src) []) w' :=
    .head ⟨List.cons_ne_nil _ _, rfl⟩ runs
  exact ⟨w', ⟨(h.run.tail (.deliver h.idle mem young arr)).trans (System.Net.of_runs runs), idle,
    System.Private.runs runs (h.alone.hand arr),
    System.Runs.mute start (System.hand_mute h.mute arr)⟩, called⟩

/-- What a call of one side has transmitted is delivered to the other. -/
lemma pass {x : Transmission} (h : w'.Reached) (called : Called X s w w')
    (out : x ∈ transmitted (w.host X) s) (few : s.log.packets.length ≤ (w.host X).log.packets.length + 1)
    (e : (w.host X.peer).deliver x.bytes = some t) : ∃ w'', w''.Reached ∧ Called X.peer t w' w'' := by
  obtain ⟨c, mem, src, _, bytes, stamp⟩ := called.mem_net out
  refine h.deliver mem (called.fresh few stamp) (by rw [src]) ?_
  rw [called.peer, bytes]
  exact e

end System.Reached

/-- `a` sends its only packet. -/
lemma Lagging.start : ∃ w : System, w.Reached ∧ Lagging 0 (w.host .a) (w.host .b) := by
  obtain ⟨w, reached, called⟩ := System.Reached.fresh.send .a [7]
  have sender : ∀ X, Sender mtu 257 ((System.fresh .lagging).host X) [] := fun X =>
    Sender.fresh mtu 257 _ _ _ _ le_rfl
  have retained : Retained 0 ((System.fresh .lagging).host .a) := .fresh _ _ _ _
  have steady := retained.send (sender .a) [7]
  obtain ⟨d, packet, packets, _, _, empty⟩ :=
    send_one retained (sender .a) (System.Reached.fresh.alone .a) (by decide) rfl rfl 7
  have only : (((System.fresh .lagging).host .a).send [7]).log.packets = [d] := packets
  have peer : w.host .b = (System.fresh .lagging).host .b := called.peer
  have zero : base (fun _ => (none : Option Bytes)) = 0 := base_eq (by omega) rfl
  refine ⟨w, reached, ⟨d, packet, ?_⟩, ?_, ?_, ?_, ⟨fun _ => none, ?_, zero⟩, reached.alone .a,
    reached.alone .b⟩
  · have held := steady.retained.held_one steady.sender (by rw [only]; rfl)
    rw [called.self]
    exact ⟨only, steady.retained.una, held, empty, called.self ▸ reached.mute .a, nofun⟩
  · rw [peer]
    decide +kernel
  · rw [peer]
    rfl
  · rw [peer]
    rfl
  · rw [peer, called.self]
    refine ⟨sender .b, steady.sender, .fresh _ _ _ _, ?_, fun _ _ => nofun, Nat.zero_le _⟩
    rw [zero, show (((System.fresh .lagging).host .a).send [7]).inbox
      = ((System.fresh .lagging).host .a).inbox from pumpTx_inbox _]
    exact Inbox.At.fresh _ _ _ _

/-- One more packet of `b` gets through. -/
lemma Lagging.next {n : ℕ} {w : System} (reached : w.Reached) (h : Lagging n (w.host .a) (w.host .b)) :
    ∃ w' : System, w'.Reached ∧ Lagging (n + 1) (w'.host .a) (w'.host .b) := by
  obtain ⟨d, a', k, b', data, received, ack, acked, count, same, done⟩ := h.exchange
  obtain ⟨w₁, reached₁, send₁⟩ := reached.send .b [0]
  obtain ⟨w₂, reached₂, deliver₂⟩ := reached₁.pass send₁ data (by rw [count, h.packets]) received
  have deliver₂ : Called .a a' w₁ w₂ := deliver₂
  obtain ⟨w₃, reached₃, tick₃⟩ := reached₂.tick .a
  rw [deliver₂.self] at tick₃
  have b₂ : w₂.host .b = (w.host .b).send [0] :=
    (show w₂.host .b = w₁.host .b from deliver₂.peer).trans send₁.self
  obtain ⟨w₄, reached₄, deliver₄⟩ := reached₃.pass (x := ⟨.ack, k⟩) tick₃ (deliver₂.self.symm ▸ ack)
    (by rw [deliver₂.self, same]; exact Nat.le_add_right _ _) (b₂.symm ▸ acked)
  have deliver₄ : Called .b b' w₃ w₄ := deliver₄
  have a₄ : w₄.host .a = a'.tick := (show w₄.host .a = w₃.host .a from deliver₄.peer).trans tick₃.self
  refine ⟨w₄, reached₄, ?_⟩
  rw [a₄, deliver₄.self]
  exact done (a₄ ▸ reached₄.alone .a) (deliver₄.self ▸ reached₄.alone .b)

/-- The lag grows to any number of packets. -/
lemma Lagging.reached (n : ℕ) : ∃ w : System, w.Reached ∧ Lagging n (w.host .a) (w.host .b) := by
  induction n with
  | zero => exact start
  | succ n ih =>
    obtain ⟨w, reached, h⟩ := ih
    exact h.next reached

/-- Once `n` is so large that the ACK number of the only packet of `a` is ahead. -/
lemma Wedged.reached (n : ℕ) (ahead : 0 < (0 - BitVec.ofNat 32 n).toInt)
    (behind : (BitVec.ofNat 32 n - 0).toInt < 0) :
    ∃ w : System, w.Reached ∧ Wedged n (w.host .a) (w.host .b) := by
  obtain ⟨w, reached, h⟩ := Lagging.reached n
  obtain ⟨w₁, reached₁, send₁⟩ := reached.send .b [0]
  obtain ⟨tsc, p₀, b', again, same, received, done⟩ :=
    h.wedge ahead behind (send₁.self ▸ reached₁.mute .b)
  have reached₂ := reached₁.clock .a tsc
  have self₂ := w₁.put_self .a ((w₁.host .a).atTime tsc)
  have peer₂ := w₁.put_peer .a ((w₁.host .a).atTime tsc)
  generalize w₁.put .a ((w₁.host .a).atTime tsc) = w₂ at reached₂ self₂ peer₂
  have a₂ : w₂.host .a = (w.host .a).atTime tsc :=
    self₂.trans (congrArg (TcpLiteSession.atTime tsc) send₁.peer)
  have b₂ : w₂.host .b = (w.host .b).send [0] :=
    (show w₂.host .b = w₁.host .b from peer₂).trans send₁.self
  obtain ⟨w₃, reached₃, tick₃⟩ := reached₂.tick .a
  rw [a₂] at tick₃
  obtain ⟨w₄, reached₄, deliver₄⟩ := reached₃.pass (x := ⟨.retransmit, p₀⟩) tick₃ (a₂.symm ▸ again)
    (by rw [a₂, same]; exact Nat.le_add_right _ _) (b₂.symm ▸ received)
  have deliver₄ : Called .b b' w₃ w₄ := deliver₄
  have a₄ : w₄.host .a = ((w.host .a).atTime tsc).tick :=
    (show w₄.host .a = w₃.host .a from deliver₄.peer).trans tick₃.self
  refine ⟨w₄, reached₄, ?_⟩
  rw [a₄, deliver₄.self]
  exact done

/-! ## What follows -/

/-- Pure ACKs leave the receive side as it is. -/
lemma TcpLiteSession.Delivers.acks {size n : ℕ} {s t : TcpLiteSession} {ds : List Bytes}
    (run : s.Delivers ds t)
    (sender : Sender size n s [])
    (each : ∀ d ∈ ds, ∃ seq ack, d = (TcpLiteHeader.makeAck seq ack).toBytes) :
    t.inbox = s.inbox := by
  induction run with
  | nil => rfl
  | program ops tape _ ih => exact ih (sender.program ops tape) each
  | @deliver s d ds u t e _ ih =>
    obtain ⟨⟨seq, ack, rfl⟩, each'⟩ := List.forall_mem_cons.mp each
    exact (ih (sender.deliver e (carriesAck_makeAck seq ack).1) each').trans (deliver_ack sender e).1

/-- There is a buffer for the ACK that a `tick` transmits. -/
lemma TcpLiteSession.Private.delivers {size n : ℕ} {s : TcpLiteSession} (h : s.Private)
    (sender : Sender size n s [])
    (many : window < n) (peer : TcpLiteSession) : ∃ t, s.Delivers (peer.owedAck.map (·.bytes)) t := by
  unfold owedAck
  split
  · obtain ⟨t, e⟩ := deliver_of_free (h.free_ne_nil sender many) _
    exact ⟨t, .deliver e .nil⟩
  · exact ⟨s, .nil⟩

namespace Wedged

variable {n : ℕ} {a b : TcpLiteSession}

/-- No packet of the wedged side is held. -/
lemma vacated (h : Wedged n a b) (k : Fin window) : (b.unacked.slots k).occupied = false := by
  obtain ⟨P, _, dry⟩ := h.dry
  by_contra used
  rw [Bool.not_eq_false] at used
  have own : slotIdx (b.unacked.slots k).seq = k := (h.sender.bufs.live k used).1
  have occ : b.unacked.occupied (b.unacked.slots k).seq = true := by
    apply UnackedQueue.occupied_iff.mpr
    rw [own]
    exact ⟨used, rfl⟩
  exact absurd occ (Bool.eq_false_iff.mp (dry.held _))

/-- `tick` of `b` transmits at most a pure ACK. -/
lemma tick_wire (h : Wedged n a b) :
    b.tick.log.packets.length = n + 1 ∧ transmitted b b.tick = b.owedAck := by
  obtain ⟨P, len, dry⟩ := h.dry
  obtain ⟨ds, packets, _, wire⟩ := TcpLite.tick_wire b
  have none : b.again b.timedOut = [] := by
    apply List.filterMap_eq_nil_iff.mpr
    intro seq _
    rw [UnackedQueue.bufferFor, dry.held]
    rfl
  rw [dry.packets, dry.tick.packets] at packets
  have old : ds = [] := List.self_eq_append_right.mp packets
  refine ⟨dry.tick.packets.symm ▸ len, ?_⟩
  rw [wire, none, old]
  rfl

/-- A round in which `b` sends brings nothing to `a`. -/
lemma round {a' b' : TcpLiteSession} (h : Wedged n a b) (round : b.Round a a' b') :
    a'.tick.inbox = a.inbox := by
  obtain ⟨order, perm, received⟩ := round.received
  refine (tick_inbox a').trans (received.acks h.peer ?_)
  intro d mem
  have out := perm.mem_iff.mp mem
  rw [h.tick_wire.2, owedAck] at out
  split at out
  · obtain rfl := List.mem_singleton.mp out
    exact ⟨_, _, rfl⟩
  · cases out

/-- A round can always be made. -/
lemma exists_round (h : Wedged n a b) (alone : a.Private) (alone' : b.Private) :
    ∃ a' b', b.Round a a' b' := by
  have many : window < 257 := by decide
  obtain ⟨a', received⟩ := alone.delivers h.peer many b
  obtain ⟨b', acked⟩ := alone'.tick.delivers h.sender.tick many a'
  refine ⟨a', b', ?_, ⟨_, .refl _, ?_⟩, ?_⟩
  · intro k used
    exact absurd used (Bool.eq_false_iff.mp (h.vacated k))
  · rw [h.tick_wire.2]
    exact received
  · rw [transmitted_acks]
    exact acked

end Wedged

/-- A network that measures the age of a copy from its own transmission can make a sender release a packet
that its peer has never received: `snd_una_` is no longer behind `base_seq_` of the peer. -/
theorem stale_ack_releases_packet :
    ∃ w, Relation.ReflTransGen (System.Net System.Fresh) (.fresh .lagging) w ∧ w.stack = [] ∧
      (w.host .a).log.delivered.length < (w.host .b).log.packets.length ∧
      (∀ k, ((w.host .b).unacked.slots k).occupied = false) ∧
      ¬ ∃ una base next : ℕ, (w.host .b).sndUna = BitVec.ofNat 32 una ∧
        (w.host .a).recvBitmap.baseSeq = BitVec.ofNat 32 base ∧
        (w.host .b).nextSeq = BitVec.ofNat 32 next ∧
        una ≤ base ∧ base ≤ next ∧ next ≤ una + window := by
  obtain ⟨w, reached, h⟩ := Wedged.reached (2 ^ 31 + 1) (by decide) (by decide)
  obtain ⟨P, len, dry⟩ := h.dry
  refine ⟨w, reached.run, reached.idle, ?_, h.vacated, ?_⟩
  · rw [h.delivered, dry.packets, len]
    exact Nat.lt_succ_self _
  · rintro ⟨una, base, next, una_eq, base_eq, _, le, le', upper⟩
    have zero := congrArg BitVec.toNat (una_eq.symm.trans dry.una)
    have far := congrArg BitVec.toNat (base_eq.symm.trans h.base)
    rw [BitVec.toNat_ofNat] at zero
    rw [BitVec.toNat_ofNat, BitVec.toNat_ofNat] at far
    have window' : window = 256 := rfl
    have zero' : una % 2 ^ 32 = 0 := zero
    omega

/-- Over such a network a loss-free round need not drain the window: the packet is not transmitted again,
and the peer still lacks it after the round. -/
theorem stale_ack_blocks_recovery :
    ∃ w, Relation.ReflTransGen (System.Net System.Fresh) (.fresh .lagging) w ∧ w.stack = [] ∧
      (∃ a' b', (w.host .b).Round (w.host .a) a' b') ∧
      ∀ a' b', (w.host .b).Round (w.host .a) a' b' →
        a'.tick.recvBitmap.baseSeq + 1 = (w.host .b).tick.nextSeq ∧
        a'.tick.log.delivered.length + 1 = (w.host .b).tick.log.packets.length := by
  obtain ⟨w, reached, h⟩ := Wedged.reached (2 ^ 31 + 1) (by decide) (by decide)
  refine ⟨w, reached.run, reached.idle, h.exists_round (reached.alone .a) (reached.alone .b), ?_⟩
  intro a' b' round
  have inbox := h.round round
  obtain ⟨packets, _⟩ := h.tick_wire
  refine ⟨?_, ?_⟩
  · rw [h.sender.tick.nextSeq_eq rfl, packets, BitVec.ofNat_add, ← h.base]
    exact congrArg (fun i => i.bitmap.baseSeq + 1) inbox
  · rw [packets, ← h.delivered]
    exact congrArg (fun i => i.delivered.length + 1) inbox

end UxNet.TcpLite
