import UxNet.TcpLite.Safety

/-!
# Agreement of sender and receiver

A network that measures the age of a copy from the first transmission of its packet. Then an ACK that is
taken is for packets that the peer has received, and the sender's queue holds exactly what the peer has
not acknowledged: `Retained` says so of one session, `Agreed` of both sides and the acknowledgements on
the network between them.

Without that, `tick` may send a packet again that carries an ACK number from any time ago; the copy is
fresh, but in signed 32-bit arithmetic its ACK can be ahead of `snd_una_`.
-/

namespace UxNet.TcpLite

open TcpLiteSession

/-- Neither side has assigned more than `2 ^ 30` sequence numbers since the copy was transmitted, nor
since its packet was transmitted first. -/
def System.FreshBorn (w : System) (c : Copy) : Prop :=
  w.Fresh c ∧ ∃ c₀ ∈ w.net, c₀.src = c.src ∧ c₀.kind ≠ .retransmit ∧ c₀.bytes = c.bytes ∧ w.Fresh c₀

/-- The ACK number of a datagram. -/
def ackOf (bytes : Bytes) : BitVec 32 := (TcpLiteHeader.ofBytes bytes).ackNum

/-- The `ack_num` of a packet is read from its header. -/
lemma ackOf_encode (h : TcpLiteHeader) (payload : Bytes) : ackOf (h.encode payload) = h.ackNum := by
  rw [ackOf, TcpLiteHeader.encode, TcpLiteHeader.ofBytes_toBytes]
  rfl

/-- The queue of a session holds what has been sent from number `a` on. -/
structure Retained (a : ℕ) (s : TcpLiteSession) : Prop where
  una : s.sndUna = BitVec.ofNat 32 a
  lower : a ≤ s.log.packets.length
  upper : s.log.packets.length ≤ a + 256
  slots : ∀ j, a ≤ j → j < s.log.packets.length → s.unacked.occupied (BitVec.ofNat 32 j) = true
  resent : ∀ t ∈ s.log.wire, t.kind = .retransmit → t.bytes ∈ s.log.packets

namespace UnackedQueue

/-- A number is occupied exactly if its slot is, with this number. -/
lemma occupied_iff {q : UnackedQueue} {seq : BitVec 32} :
    q.occupied seq = true ↔ (q.slots (slotIdx seq)).occupied = true ∧ (q.slots (slotIdx seq)).seq = seq := by
  simp [occupied]

/-- `touch` occupies nothing and frees nothing. -/
lemma occupied_touch (q : UnackedQueue) (seq seq' : BitVec 32) (now : BitVec 64) :
    (q.touch seq now).occupied seq' = q.occupied seq' := by
  obtain ⟨tsc, e⟩ := q.touch_slots seq now (slotIdx seq')
  unfold occupied
  rw [e]

end UnackedQueue

namespace Retained

variable {size n a : ℕ} {s s' : TcpLiteSession} {f : Frame} {new fs : List Frame}

/-- A fresh session has nothing to retain. -/
lemma fresh (pool : BufferPool) (clock : TscClock) (rtoNs : BitVec 64) (tape : Tape) :
    Retained 0 (.new pool clock rtoNs tape) := by
  refine ⟨rfl, Nat.le_refl 0, Nat.zero_le _, ?_, ?_⟩
  · intro j _ lt
    cases lt
  · intro t mem
    cases mem

/-- A step that neither sends nor takes an ACK. -/
lemma of_same (h : Retained a s) (una : s'.sndUna = s.sndUna)
    (slots : ∀ seq, s'.unacked.occupied seq = s.unacked.occupied seq)
    (wire : s'.log.wire = s.log.wire) : Retained a s' := by
  have packets : s'.log.packets = s.log.packets := by rw [Log.packets, wire, Log.packets]
  refine ⟨una.trans h.una, ?_, ?_, ?_, ?_⟩
  · rw [packets]
    exact h.lower
  · rw [packets]
    exact h.upper
  · rw [packets]
    intro j lo hi
    rw [slots]
    exact h.slots j lo hi
  · rw [wire, packets]
    exact h.resent

/-- A transmission other than of a new packet. -/
lemma transmit (h : Retained a s) {kind : TxKind} {bytes : Bytes} (old : kind ≠ .data)
    (genuine : kind = .retransmit → bytes ∈ s.log.packets) : Retained a (s.transmit kind bytes) := by
  have packets := packets_transmit_old s bytes old
  refine ⟨h.una, ?_, ?_, ?_, ?_⟩
  · rw [packets]
    exact h.lower
  · rw [packets]
    exact h.upper
  · rw [packets]
    exact h.slots
  · rw [packets]
    intro t mem kind'
    rcases List.mem_append.mp mem with mem | mem
    · exact h.resent t mem kind'
    · obtain rfl := List.mem_singleton.mp mem
      exact genuine kind'

/-- A new packet goes to the slot of its number. -/
lemma pumpSend {buf : ℕ} {tsc : BitVec 64} {pool pool' : BufferPool} {queue : UnackedQueue} {tape : Tape}
    (h : Retained a s) (next : s.nextSeq = BitVec.ofNat 32 s.log.packets.length)
    (op : s.pumpOpen = true) (marked : s.unacked.markSent s.nextSeq buf tsc pool = (queue, pool')) :
    Retained a (TcpLiteSession.transmit .data s.pumpPacket
      { s with pool := pool', unacked := queue, tape := tape }) := by
  have packets := packets_transmit { s with pool := pool', unacked := queue, tape := tape } .data
    s.pumpPacket
  rw [if_pos rfl] at packets
  have room := (pumpOpen_window op).2
  have lower := h.lower
  have upper := h.upper
  rw [next, h.una, Serial.dist_of_le lower, Nat.mod_eq_of_lt (by omega)] at room
  refine ⟨h.una, ?_, ?_, ?_, ?_⟩
  · rw [packets, List.length_append]
    exact Nat.le_add_right_of_le lower
  · rw [packets, List.length_append]
    show s.log.packets.length + 1 ≤ a + 256
    omega
  · rw [packets, List.length_append]
    intro j lo hi
    have hi' : j < s.log.packets.length + 1 := hi
    obtain ⟨rfl, _⟩ := Prod.mk.inj marked
    show (s.unacked.set (slotIdx s.nextSeq) _).occupied (BitVec.ofNat 32 j) = true
    rw [UnackedQueue.occupied_iff, next]
    rcases Nat.lt_succ_iff_lt_or_eq.mp hi' with lt | rfl
    · rw [s.unacked.set_slots_ne _ (slotIdx_ne lt (by omega))]
      exact UnackedQueue.occupied_iff.mp (h.slots j lo lt)
    · rw [s.unacked.set_slots_self]
      exact ⟨rfl, rfl⟩
  · rw [packets]
    intro t mem kind
    rcases List.mem_append.mp mem with mem | mem
    · exact List.mem_append_left _ (h.resent t mem kind)
    · obtain rfl := List.mem_singleton.mp mem
      cases kind

/-- An ACK for packets that were sent releases these and no others. -/
lemma takeAck {a' : ℕ} {ack : BitVec 32} (h : Retained a s) (eq : ack = BitVec.ofNat 32 a') (lt : a < a')
    (le : a' ≤ s.log.packets.length) : Retained a' (s.takeAck ack) := by
  obtain ⟨_, _, e⟩ := takeAck_frame s ack
  have acked := s.unacked.markAcked_slots ack s.pool
  rw [e]
  generalize s.unacked.markAcked ack s.pool = r at acked
  have upper := h.upper
  refine ⟨eq, le, ?_, ?_, h.resent⟩
  · show s.log.packets.length ≤ a' + 256
    omega
  · intro j lo hi
    have hi' : j < s.log.packets.length := hi
    obtain ⟨occ, seq⟩ := UnackedQueue.occupied_iff.mp (h.slots j (by omega) hi)
    show r.2.1.occupied (BitVec.ofNat 32 j) = true
    have stays : r.2.1.slots (slotIdx (BitVec.ofNat 32 j))
        = s.unacked.slots (slotIdx (BitVec.ofNat 32 j)) := by
      rw [acked, UnackedQueue.ackedSlot, if_neg]
      rw [seq, eq, occ, Bool.true_and, decide_eq_true_eq, BitVec.toInt_neg_iff,
        Serial.dist_of_le lo, Nat.mod_eq_of_lt (by omega)]
      omega
    rw [UnackedQueue.occupied_iff, stays]
    exact ⟨occ, seq⟩

/-- The code between two callbacks, apart from the taking of an ACK. -/
lemma exec (c : Case s f s' new) (h : Retained a s) (sender : Sender size n s (f :: fs))
    (idle : Pumping s f → pumps fs = []) (quiet : s'.sndUna = s.sndUna) : Retained a s' := by
  cases c with
  | pumpStop _ =>
    obtain ⟨_, _, e, _⟩ := pumpReset_frame s
    rw [e]
    exact h.of_same rfl (fun _ => rfl) rfl
  | pumpFull _ _ =>
    obtain ⟨_, _, e, _⟩ := pumpReset_frame { s with pool := _, tape := s.rest }
    rw [e]
    exact h.of_same rfl (fun _ => rfl) rfl
  | pumpSend op acq marked =>
    have next := sender.nextSeq_eq (idle (pumping_of_acquire op acq))
    exact h.pumpSend next op marked
  | @ack buf hd ok taken =>
    -- an ACK that is taken moves `snd_una_`
    have ahead := ackTaken_ahead taken
    rw [takeAck_una] at quiet
    rw [quiet, BitVec.sub_self] at ahead
    exact absurd ahead (by decide)
  | store _ =>
    obtain ⟨_, _, e⟩ := storeData_frame s _ _
    rw [e]
    exact h.of_same rfl (fun _ => rfl) rfl
  | resend hb =>
    obtain ⟨j, _, get, _⟩ := sender.bufferFor hb
    exact h.transmit nofun (fun _ => List.mem_of_getElem? get)
  | tickAck _ => exact h.transmit nofun nofun
  | resent => exact h.of_same rfl (fun seq => UnackedQueue.occupied_touch _ _ seq _) rfl
  | _ => exact h.of_same rfl (fun _ => rfl) rfl

/-- An acknowledgement that is not old is ahead of `snd_una_` exactly if it is later. -/
lemma ahead {a' stamp : ℕ} (h : Retained a s)
    (le : a' ≤ s.log.packets.length) (near : stamp ≤ a' + 256)
    (fresh : s.log.packets.length ≤ stamp + 2 ^ 30) :
    0 < (BitVec.ofNat 32 a' - s.sndUna).toInt ↔ a < a' := by
  have lower := h.lower
  have upper := h.upper
  rw [h.una]
  apply Serial.toInt_pos_iff
  · omega
  · omega

end Retained

/-- The ACK number that `on_packet_received` reads. -/
lemma ackOf_read {p : BufferPool} {buf : ℕ} {bytes : Bytes} {hd : TcpLiteHeader} {ok : Bool}
    (long : headerSize ≤ bytes.length) (mem : p.read buf bytes.length = bytes)
    (e : readChecked.run (p.view buf) = (hd, ok)) : hd.ackNum = ackOf bytes := by
  have head : readHeader.run (p.view buf) = hd := by
    have := congrArg Prod.fst e
    simpa [readChecked] using this
  have get : ∀ k < headerSize, bytes.getD k 0 = p.view buf k := by
    intro k lt
    have lt' : k < bytes.length := lt_of_lt_of_le lt long
    rw [← mem]
    simp [BufferPool.read, lt']
  have ack : ackOf bytes = of32 (p.view buf 4) (p.view buf 5) (p.view buf 6) (p.view buf 7) := by
    rw [← get 4 (by decide), ← get 5 (by decide), ← get 6 (by decide), ← get 7 (by decide)]
    rfl
  rw [← head, ack]
  simp [readHeader, Access.run_bytes, TcpLiteHeader.ofBytes, headerSize, List.range_succ]

/-! ## Two sessions -/

/-- What a side has released its peer has received, and the acknowledgements on the network were not old
when their packets were made. -/
structure Agreed (w : System) : Prop where
  una : ∀ X, ∃ a, Retained a (w.host X) ∧ a ≤ w.returned X.peer
  born : ∀ c ∈ w.net, c.kind ≠ .retransmit → ∃ a, ackOf c.bytes = BitVec.ofNat 32 a ∧
    a ≤ w.expected c.src ∧ c.stamp c.src.peer ≤ a + 256

namespace Agreed

variable {p : Setup} {g : Ghost} {w w' : System} {e : Entry} {rest : List Entry}

/-- Two fresh sessions have released nothing. -/
lemma fresh (p : Setup) : Agreed (.fresh p) where
  una := fun X => ⟨0, .fresh _ _ _ _, Nat.zero_le _⟩
  born := by
    intro c mem
    cases mem

/-- A side is at most a window ahead of what its peer has received. -/
lemma near (h : Agreed w) (X : Host) : w.assigned X ≤ w.expected X.peer + 256 := by
  obtain ⟨a, retained, le⟩ := h.una X
  calc w.assigned X ≤ a + 256 := retained.upper
    _ ≤ w.returned X.peer + 256 := Nat.add_le_add_right le _
    _ ≤ w.expected X.peer + 256 := Nat.add_le_add_right (Nat.le_add_right _ _) _

/-- The innermost call runs; an ACK that it takes is not old. -/
lemma exec (h : Agreed w) (core : Core p g w) (st : w.stack = e :: rest) (guard : Guard w e rest)
    (top : Active w e ∨ Arrived g w e)
    (acks : ∀ buf hd, e.frame = .receive buf →
      readChecked.run ((w.host e.host).pool.view buf) = (hd, true) → ∃ a stamp,
        hd.ackNum = BitVec.ofNat 32 a ∧ a ≤ w.returned e.host.peer ∧ stamp ≤ a + 256 ∧
        w.assigned e.host ≤ stamp + 2 ^ 30) : Agreed w.exec := by
  have r := w.exec_ran st
  have grow := (core.receiver_step st guard top r).2
  have sender := core.sender e.host
  rw [framesOf_self st] at sender
  have expected := r.expected_le st grow
  have returned := r.returned_le st
  have le : w.returned e.host.peer ≤ w.assigned e.host := by
    have := (core.receiver e.host.peer).expected_le
    rw [Host.peer_peer] at this
    exact (Nat.le_add_right _ _).trans this
  refine ⟨?_, ?_⟩
  · intro X
    rcases e.host.eq_or_peer X with rfl | rfl
    · obtain ⟨a, retained, below⟩ := h.una e.host
      rw [r.self]
      rcases r.code.numbers with ⟨_, _, una, _⟩ | ⟨_, una | ⟨buf, hd, recv, ok, taken, eq⟩⟩
      · exact ⟨a, retained.exec r.code sender guard.pump una, below.trans (returned _)⟩
      · exact ⟨a, retained.exec r.code sender guard.pump una, below.trans (returned _)⟩
      · obtain ⟨a', stamp, ack, received, young, fresh⟩ := acks buf hd recv ok
        have sent := received.trans le
        have later := ackTaken_ahead taken
        rw [ack, retained.ahead sent young fresh] at later
        rw [eq]
        exact ⟨a', retained.takeAck ack later sent, received.trans (returned _)⟩
    · obtain ⟨a, retained, below⟩ := h.una e.host.peer
      rw [r.peer]
      exact ⟨a, retained, below.trans (returned _)⟩
  · have old : ∀ c ∈ w.net, c.kind ≠ .retransmit → ∃ a, ackOf c.bytes = BitVec.ofNat 32 a ∧
        a ≤ w.exec.expected c.src ∧ c.stamp c.src.peer ≤ a + 256 := by
      intro c mem kind
      obtain ⟨a, ack, received, young⟩ := h.born c mem kind
      exact ⟨a, ack, received.trans (expected _), young⟩
    rcases r.net with ⟨_, net⟩ | ⟨c, net, src, stamp, sends, _⟩
    · rw [net]
      exact old
    · rw [net]
      intro c' mem kind
      rcases List.mem_append.mp mem with mem | mem
      · exact old c' mem kind
      · obtain rfl := List.mem_singleton.mp mem
        have near := h.near e.host.peer
        rw [Host.peer_peer] at near
        refine ⟨w.expected e.host, ?_, ?_, ?_⟩
        · have cum := (core.receiver e.host).cumulativeAck
          rcases sends.cases with ⟨_, _, eq⟩ | ⟨old, _⟩ | ⟨_, eq⟩
          · rw [eq, pumpPacket, ackOf_encode]
            exact cum
          · exact absurd old kind
          · rw [eq, ackPacket, TcpLiteHeader.makeAck_toBytes, ackOf_encode]
            exact cum
        · rw [src]
          exact grow
        · rw [stamp, src, r.assigned_peer]
          exact near

/-- What the program does outside the sessions. -/
lemma of_outside (h : Agreed w)
    (same : ∀ X, ∃ pool tape, w'.host X = { w.host X with pool := pool, tape := tape })
    (call : ∀ X, calls (framesOf X w'.stack) = calls (framesOf X w.stack)) (net : w'.net = w.net) :
    Agreed w' := by
  have expected : ∀ X, w'.expected X = w.expected X := fun X =>
    System.expected_congr (same X) (call X)
  refine ⟨?_, ?_⟩
  · intro X
    obtain ⟨a, retained, below⟩ := h.una X
    obtain ⟨_, _, e⟩ := same X
    rw [System.returned_congr (same X.peer) (call X.peer), e]
    exact ⟨a, retained.of_same rfl (fun _ => rfl) rfl, below⟩
  · rw [net]
    intro c mem kind
    rw [expected]
    exact h.born c mem kind

/-- A call is made between two calls. -/
lemma push {f : Frame} {X : Host} {stamp : ℕ} (h : Agreed w) (idle : w.stack = [])
    (call : f.calling = none) :
    Agreed { w with stack := [{ host := X, frame := f, stamp := stamp }] } := by
  refine h.of_outside (fun Y => ⟨_, _, rfl⟩) ?_ rfl
  intro Y
  show calls (framesOf Y [_]) = calls (framesOf Y w.stack)
  rw [idle, framesOf_cons]
  split
  · simp [calls, call]
  · rfl

end Agreed

/-- A copy has at least a header. -/
lemma Genuine.header_le {g : Ghost} {w : System} {c : Copy} (h : Genuine g w c) :
    headerSize ≤ c.bytes.length := by
  obtain ⟨a, _, ⟨j, _, ⟨payload, _, _, eq⟩, _⟩ | ⟨seq, eq⟩⟩ := h.carries
  · rw [eq, TcpLiteHeader.length_encode]
    exact Nat.le_add_right _ _
  · rw [eq, TcpLiteHeader.length_toBytes]

section Runs

variable {p : Setup} {w w' : System}

/-- One step over the network keeps the agreement. -/
lemma System.Net.agreed (st : System.Net System.FreshBorn w w') (h : Agreed w) (inv : Inv p w)
    (nested : ∃ X, Nested w X) : Agreed w' := by
  obtain ⟨g, core, act⟩ := inv
  obtain ⟨X, nested⟩ := nested
  cases st with
  | call st =>
    cases st with
    | exec ne =>
      obtain ⟨e, rest, st⟩ := List.exists_cons_of_ne_nil ne
      have top := act e (st ▸ List.mem_cons_self)
      exact h.exec core st (nested.guarded e rest st) (.inl top) (fun buf hd recv => absurd recv (top.1 buf))
    | send Y data idle => exact h.push idle rfl
    | tick Y idle => exact h.push idle rfl
    | program Y ops tape idle =>
      refine h.of_outside ?_ (fun Z => rfl) rfl
      intro Z
      rcases Y.eq_or_peer Z with rfl | rfl
      · exact ⟨_, _, w.put_self Z _⟩
      · exact ⟨_, _, w.put_peer Y _⟩
  | @deliver c buf s idle mem ok arr =>
    obtain ⟨young, c₀, mem₀, src, kind, bytes, young₀⟩ := ok
    have genuine := core.genuine c mem
    have content := (core.hand act arr genuine.length_le (c.stamp c.src)).2.2
    obtain ⟨core', _, arrived⟩ := core.arrived act arr genuine.length_le (c.stamp c.src)
      (.inr ⟨c, mem, c.src.peer_peer.symm, young, rfl, rfl⟩)
    have same := System.hand_same arr (c.stamp c.src) w.stack
    have call := w.hand_calls c.src.peer buf s (c.stamp c.src)
    have h' := h.of_outside same call rfl
    have done := h'.exec core' rfl ⟨nofun, nofun, nofun⟩ (.inr arrived) ?_
    · rw [idle] at done
      exact done
    · intro buf' hd recv head
      obtain rfl := Frame.receive.inj recv
      obtain ⟨a, ack, received, near⟩ := h.born c₀ mem₀ kind
      rw [src] at received near
      refine ⟨a, c₀.stamp c.src.peer, ?_, ?_, near, ?_⟩
      · rw [ackOf_read genuine.header_le content head, ← bytes]
        exact ack
      · -- between two calls the sender of the ACK has delivered what it has received
        have calm := (core.receiver c.src).expected_eq (by rw [idle]; rfl)
        rw [System.returned_congr (same _) (call _), Host.peer_peer]
        exact received.trans calm.le
      · rw [System.assigned_congr (same _)]
        exact young₀ c.src.peer
  | @corrupt buf s Y bytes idle fit arr bad =>
    obtain ⟨core', _, arrived⟩ := core.arrived act arr fit (w.assigned Y.peer) (.inl bad)
    have h' := h.of_outside (System.hand_same arr (w.assigned Y.peer) w.stack)
      (w.hand_calls Y buf s (w.assigned Y.peer)) rfl
    have done := h'.exec core' rfl ⟨nofun, nofun, nofun⟩ (.inr arrived) ?_
    · rw [idle] at done
      exact done
    · intro buf' hd recv head
      obtain rfl := Frame.receive.inj recv
      have self : (w.hand Y buf s (w.assigned Y.peer) w.stack).host Y = s.handOver buf := w.put_self Y _
      rw [self] at head
      have ok := congrArg Prod.snd head
      exact absurd (bad.symm.trans ok) Bool.false_ne_true

/-- Both invariants hold in every state of every run. -/
lemma System.Net.steps_agreed (run : Relation.ReflTransGen (System.Net System.FreshBorn) (.fresh p) w) :
    Agreed w ∧ Inv p w ∧ ∃ X, Nested w X := by
  induction run with
  | refl => exact ⟨.fresh p, .fresh p, .a, .nil rfl .a⟩
  | tail _ st ih =>
    obtain ⟨agreed, inv, nested⟩ := ih
    exact ⟨st.agreed agreed inv nested, st.inv (fun _ _ h => h.1) inv nested⟩

end Runs

section Held

variable {size n a : ℕ} {s : TcpLiteSession} {fs : List Frame}

/-- The slots in use are those of the numbers that are held. -/
lemma Retained.occupied_iff (h : Retained a s) (sender : Sender size n s fs) (k : Fin window) :
    (s.unacked.slots k).occupied = true ↔
      ∃ j, a ≤ j ∧ j < s.log.packets.length ∧ slotIdx (BitVec.ofNat 32 j) = k := by
  constructor
  · intro occ
    obtain ⟨own, below, _⟩ := sender.bufs.live k occ
    obtain ⟨i, hb⟩ := sender.bufs.owned.full k occ
    obtain ⟨j, seq, get, near⟩ := sender.stored k i occ hb
    have lt : j < s.log.packets.length := (List.getElem?_eq_some_iff.mp get).1
    refine ⟨j, ?_, lt, ?_⟩
    · -- a number before `a` would be almost a turn ahead of it
      by_contra before
      have lower := h.lower
      have upper := h.upper
      have below' : ((s.unacked.slots k).seq - s.sndUna).toNat
          < (s.nextSeq + BitVec.ofNat 32 (pumps fs).length - s.sndUna).toNat := below
      rw [sender.next, seq, h.una, Serial.dist_of_lt (by omega) (by omega), Serial.dist_of_le lower,
        Nat.mod_eq_of_lt (by omega)] at below'
      omega
    · rw [← seq]
      exact own
  · rintro ⟨j, lo, hi, rfl⟩
    exact (UnackedQueue.occupied_iff.mp (h.slots j lo hi)).1

/-- A packet that is held lies in its buffer as it was first transmitted. -/
lemma Retained.stored {j : ℕ} (h : Retained a s) (sender : Sender size n s fs) (lo : a ≤ j)
    (hi : j < s.log.packets.length) :
    ∃ buf, s.unacked.bufferFor (BitVec.ofNat 32 j) = some buf ∧
      s.log.packets[j]? = some (s.pool.content buf) := by
  have held := h.slots j lo hi
  obtain ⟨occ, seq⟩ := UnackedQueue.occupied_iff.mp held
  obtain ⟨buf, hb⟩ := sender.bufs.owned.full _ occ
  refine ⟨buf, ?_, ?_⟩
  · rw [UnackedQueue.bufferFor, if_pos held]
    exact hb
  · obtain ⟨j', seq', get, near⟩ := sender.stored _ buf occ hb
    have lt' := (List.getElem?_eq_some_iff.mp get).1
    have upper := h.upper
    have same : BitVec.ofNat 32 j = BitVec.ofNat 32 j' := seq.symm.trans seq'
    have eq : j = j' := by
      rcases Nat.le_total j j' with le | le
      · exact (Serial.ofNat_inj_of_near le (by omega) same.symm).symm
      · exact Serial.ofNat_inj_of_near le (by omega) same
    rw [eq]
    exact get

/-- The slots in use are at least as many as the packets that are held. -/
lemma Retained.held_le {una : ℕ} {s : TcpLiteSession} (h : Retained una s) :
    s.log.packets.length - una ≤ s.unacked.inUse.card := by
  have upper := h.upper
  rw [← Nat.card_Ico]
  apply Finset.card_le_card_of_injOn fun j => slotIdx (BitVec.ofNat 32 j)
  · intro j mem
    obtain ⟨lo, hi⟩ := Finset.mem_Ico.mp mem
    exact Finset.mem_filter.mpr ⟨Finset.mem_univ _, (UnackedQueue.occupied_iff.mp (h.slots j lo hi)).1⟩
  · intro i mem j mem' eq
    obtain ⟨lo, hi⟩ := Finset.mem_Ico.mp mem
    obtain ⟨lo', hi'⟩ := Finset.mem_Ico.mp mem'
    rcases Nat.lt_trichotomy i j with lt | rfl | gt
    · exact absurd eq (slotIdx_ne lt (by omega))
    · rfl
    · exact absurd eq.symm (slotIdx_ne gt (by omega))

end Held

/-- Agreement and retention. In every state of every run over a network that delivers a copy only while
neither side has assigned more than `2 ^ 30` sequence numbers since the packet it is a copy of was first
transmitted, and with the sequence numbers unwrapped: `snd_una_` of a sender is at most `base_seq_` of its
receiver, that is at most `next_seq_`, and that is at most a window above `snd_una_`; the data callback
has been given every packet below `base_seq_`; the occupied slots are those of the numbers from `snd_una_`
up to `next_seq_`, each with the packet first transmitted for its number; and every retransmission is
equal to a packet first transmitted. A packet whose first `transmit_` call is active counts as assigned,
although `pump_tx` moves `next_seq_` only after that call. -/
theorem window_agrees (p : Setup) (w : System)
    (run : Relation.ReflTransGen (System.Net System.FreshBorn) (.fresh p) w) (X : Host) :
    ∃ una base next : ℕ,
      (w.host X).sndUna = BitVec.ofNat 32 una ∧
      (w.host X.peer).recvBitmap.baseSeq = BitVec.ofNat 32 base ∧
      ((w.host X).nextSeq = BitVec.ofNat 32 next ∨
        (∃ plen, .pumpSent plen ∈ framesOf X w.stack) ∧ (w.host X).nextSeq + 1 = BitVec.ofNat 32 next) ∧
      una ≤ base ∧ base ≤ next ∧ next ≤ una + window ∧
      base ≤ (w.host X.peer).log.delivered.length ∧ next = (w.host X).log.packets.length ∧
      (∀ k, ((w.host X).unacked.slots k).occupied = true ↔
        ∃ j, una ≤ j ∧ j < next ∧ slotIdx (BitVec.ofNat 32 j) = k) ∧
      (∀ j, una ≤ j → j < next → ∃ buf,
        (w.host X).unacked.bufferFor (BitVec.ofNat 32 j) = some buf ∧
        (w.host X).log.packets[j]? = some ((w.host X).pool.content buf)) ∧
      ∀ t ∈ (w.host X).log.wire, t.kind = .retransmit → t.bytes ∈ (w.host X).log.packets := by
  obtain ⟨agreed, ⟨g, core, _⟩, Y, nested⟩ := System.Net.steps_agreed run
  obtain ⟨a, retained, below⟩ := agreed.una X
  have sender := core.sender X
  have receiver := core.receiver X.peer
  rw [Host.peer_peer] at receiver
  have nests : Nests (framesOf X w.stack) := by
    rcases Y.eq_or_peer X with rfl | rfl
    · exact nested.nests
    · rw [nested.idle_peer]
      exact List.Pairwise.nil
  have next : (w.host X).nextSeq = BitVec.ofNat 32 (w.host X).log.packets.length ∨
      (∃ plen, .pumpSent plen ∈ framesOf X w.stack) ∧
        (w.host X).nextSeq + 1 = BitVec.ofNat 32 (w.host X).log.packets.length := by
    rcases nests.pumps_le_one with none | ⟨plen, mem, one⟩
    · exact .inl (sender.nextSeq_eq none)
    · have next := sender.next
      rw [one] at next
      exact .inr ⟨⟨plen, mem⟩, next⟩
  have delivered : w.returned X.peer ≤ (w.host X.peer).log.delivered.length := Nat.sub_le _ _
  exact ⟨a, _, _, retained.una, receiver.base, next, below, delivered.trans receiver.delivered_le,
    retained.upper, delivered, rfl, retained.occupied_iff sender,
    fun j lo hi => retained.stored sender lo hi, retained.resent⟩

/-- After one byte has been delivered, the packet is still held. -/
theorem window_agrees_one_byte :
    (System.deliveredOne.host .a).log.packets.length = 1 ∧
    ∃ una base : ℕ, (System.deliveredOne.host .a).sndUna = BitVec.ofNat 32 una ∧
      (System.deliveredOne.host .b).recvBitmap.baseSeq = BitVec.ofNat 32 base ∧
      una ≤ base ∧ base ≤ 1 ∧ ∃ buf,
        (System.deliveredOne.host .a).unacked.bufferFor 0 = some buf ∧
        (System.deliveredOne.host .a).log.packets[0]?
          = some ((System.deliveredOne.host .a).pool.content buf) := by
  have idle : System.sentOne.stack = [] := List.isEmpty_iff.mp (by decide +kernel)
  have few : System.sentOne.assigned .a ≤ 1 ∧ System.sentOne.assigned .b ≤ 1 := by decide +kernel
  have data : System.sentOne.net.all (·.kind = .data) = true := by decide +kernel
  have young : ∀ c, System.sentOne.Fresh c := by
    intro c X
    cases X with
    | a => exact few.1.trans (by omega)
    | b => exact few.2.trans (by omega)
  have born : ∀ c ∈ System.sentOne.net, System.sentOne.FreshBorn c := by
    intro c mem
    have kind := of_decide_eq_true (List.all_eq_true.mp data c mem)
    refine ⟨young c, c, mem, rfl, ?_, rfl, young c⟩
    rw [kind]
    exact nofun
  have run : Relation.ReflTransGen (System.Net System.FreshBorn) (.fresh .small) System.deliveredOne :=
    (System.send_net rfl 20 .a [7]).trans (System.deliver_net idle born 20 0)
  have one : (System.deliveredOne.host .a).log.packets.length = 1 := by decide +kernel
  have una : (System.deliveredOne.host .a).sndUna = 0 := by decide +kernel
  have agrees := window_agrees .small _ run .a
  rw [show Host.a.peer = .b from rfl] at agrees
  generalize System.deliveredOne = w at one una agrees
  obtain ⟨a, b, n, ha, hb, _, le, le', upper, _, len, _, held, _⟩ := agrees
  rw [one] at len
  subst len
  have zero : a = 0 :=
    Serial.ofNat_inj_of_near (Nat.zero_le a) (by omega) (ha.symm.trans una)
  subst zero
  exact ⟨one, 0, b, ha, hb, le, le', held 0 le_rfl Nat.one_pos⟩

end UxNet.TcpLite
