import UxNet.Lib.Acks
import UxNet.TcpLite.System

/-!
# What two sessions keep

`Core` is the invariant of two sessions and everything on the network between them. Each session is in
order as a sender (`Sender`) and as a receiver of the other one's packets (`Receiver`); in each direction
the numbers follow `Acks.Flow`; every datagram is a packet of its sender, as first transmitted, or a pure
ACK (`Genuine`). The history of the acknowledgements is a `Ghost` beside the system.

`Guard` is what a step has to meet: no round of `pump_tx` inside a suspended one of the same session, no
round of `deliver_in_order` inside a data callback of the same session, and a packet whose data part is
reached is not too old by then. With a network the guard is always met; with a synchronous `transmit_` it
is not.
-/

namespace UxNet.TcpLite

open TcpLiteSession Acks

/-- What a step may be asked to meet before it is made: the conditions under which the code of a session
can be interrupted. -/
structure Guard (w : System) (e : Entry) (rest : List Entry) : Prop where
  pump : Pumping (w.host e.host) e.frame → pumps (framesOf e.host rest) = []
  call : e.frame = .deliver → (w.host e.host).deliverOpen = true → calls (framesOf e.host rest) = []
  data : ∀ buf plen, e.frame = .receiveData buf plen → 0 < plen →
    w.assigned e.host.peer ≤ e.stamp + 2 ^ 30

/-- Packet `j` of a side carries the acknowledgement `ack j` and was made when the peer had assigned
`seen j` sequence numbers. -/
structure Ghost where
  ack : Host → ℕ → ℕ
  seen : Host → ℕ → ℕ

/-- The history with packet `n` of a side. -/
def Ghost.push (g : Ghost) (X : Host) (n ack seen : ℕ) : Ghost where
  ack := Function.update g.ack X (Function.update (g.ack X) n ack)
  seen := Function.update g.seen X (Function.update (g.seen X) n seen)

/-- The packet is in the history of its side. -/
lemma Ghost.push_self (g : Ghost) (X : Host) (n ack seen : ℕ) :
    (g.push X n ack seen).ack X = Function.update (g.ack X) n ack ∧
    (g.push X n ack seen).seen X = Function.update (g.seen X) n seen :=
  ⟨Function.update_self _ _ _, Function.update_self _ _ _⟩

/-- The history of the peer is what it was. -/
lemma Ghost.push_peer (g : Ghost) (X : Host) (n ack seen : ℕ) :
    (g.push X n ack seen).ack X.peer = g.ack X.peer ∧
    (g.push X n ack seen).seen X.peer = g.seen X.peer :=
  ⟨Function.update_of_ne X.peer_ne _ _, Function.update_of_ne X.peer_ne _ _⟩

/-- A datagram on the network is a packet of its sender or a pure ACK. -/
structure Genuine (g : Ghost) (w : System) (c : Copy) : Prop where
  past : ∀ X, c.stamp X ≤ w.assigned X
  carries : ∃ a, Carried 256 (g.ack c.src) (g.seen c.src) (w.assigned c.src) (w.expected c.src) a
      (c.stamp c.src.peer) ∧
    ((∃ j, (w.host c.src).log.packets[j]? = some c.bytes ∧
        IsPacket (BitVec.ofNat 32 j) (BitVec.ofNat 32 a) c.bytes ∧ c.stamp c.src ≤ j + 256) ∨
      ∃ seq, c.bytes = (TcpLiteHeader.makeAck seq (BitVec.ofNat 32 a)).toBytes)

/-- The numbers of the direction from a side to its peer. -/
def FlowOf (g : Ghost) (w : System) (X : Host) : Prop :=
  ∃ a, (w.host X).sndUna = BitVec.ofNat 32 a ∧
    Flow 256 (2 ^ 32) (2 ^ 30) (g.ack X.peer) (g.seen X.peer) (w.assigned X.peer) (w.assigned X)
      (w.expected X.peer) a

/-- The invariant of two sessions. -/
structure Core (p : Setup) (g : Ghost) (w : System) : Prop where
  sender : ∀ X, Sender (p.size X) (p.count X) (w.host X) (framesOf X w.stack)
  receiver : ∀ X, Receiver (w.host X.peer).log.packets (w.host X) (framesOf X w.stack)
  numbered : ∀ X j bs, (w.host X).log.packets[j]? = some bs →
    IsPacket (BitVec.ofNat 32 j) (BitVec.ofNat 32 (g.ack X j)) bs
  flow : ∀ X, FlowOf g w X
  genuine : ∀ c ∈ w.net, Genuine g w c

/-- The packet of a call that has not reached its data part yet is still in its buffer. -/
def Active (w : System) (e : Entry) : Prop :=
  (∀ buf, e.frame ≠ .receive buf) ∧
  ∀ buf plen, e.frame = .receiveData buf plen → 0 < plen →
    ∃ j, HoldsPacket (w.host e.host.peer).log.packets (w.host e.host).pool buf plen j ∧
      e.stamp ≤ j + 256

/-- A datagram has arrived: one that fails the check, or a fresh copy of what is on the network. -/
def Arrived (g : Ghost) (w : System) (e : Entry) : Prop :=
  ∃ buf, e.frame = .receive buf ∧
    ((readChecked.run ((w.host e.host).pool.view buf)).2 = false ∨
      ∃ c, Genuine g w c ∧ c.src = e.host.peer ∧ w.Fresh c ∧ e.stamp = c.stamp c.src ∧
        (w.host e.host).pool.read buf c.bytes.length = c.bytes)

/-! ## What a step does to the numbers -/

section Case

variable {s s' : TcpLiteSession} {f : Frame} {new : List Frame}

/-- A step makes a new packet, or takes an ACK, or leaves the numbers of the sender as they are. -/
lemma Case.numbers (c : Case s f s' new) :
    (Pumping s f ∧ s'.log.packets = s.log.packets ++ [s.pumpPacket] ∧ s'.sndUna = s.sndUna ∧
      ∀ fs, expected s' (new ++ fs) = expected s (f :: fs)) ∨
    (s'.log.packets = s.log.packets ∧ (s'.sndUna = s.sndUna ∨
      ∃ buf hd, f = .receive buf ∧ readChecked.run (s.pool.view buf) = (hd, true) ∧
        s.ackTaken hd = true ∧ s' = s.takeAck hd.ackNum)) := by
  cases c with
  | pumpStop _ =>
    obtain ⟨_, _, e, _⟩ := pumpReset_frame s
    rw [e]
    exact .inr ⟨rfl, .inl rfl⟩
  | pumpFull _ _ =>
    obtain ⟨_, _, e, _⟩ := pumpReset_frame { s with pool := _, tape := s.rest }
    rw [e]
    exact .inr ⟨rfl, .inl rfl⟩
  | pumpSend op acq _ =>
    exact .inl ⟨pumping_of_acquire op acq, packets_transmit _ _ _, rfl, fun fs => rfl⟩
  | @ack buf hd ok taken =>
    obtain ⟨_, _, e⟩ := takeAck_frame s hd.ackNum
    exact .inr ⟨by rw [e], .inr ⟨buf, hd, rfl, ok, taken, rfl⟩⟩
  | store _ =>
    obtain ⟨_, _, e⟩ := storeData_frame s _ _
    rw [e]
    exact .inr ⟨rfl, .inl rfl⟩
  | resend _ => exact .inr ⟨packets_transmit_old _ _ nofun, .inl rfl⟩
  | tickAck _ => exact .inr ⟨packets_transmit_old _ _ nofun, .inl rfl⟩
  | _ => exact .inr ⟨rfl, .inl rfl⟩

/-- The data callbacks that have returned are only added to. -/
lemma Case.returned_le (c : Case s f s' new) (fs : List Frame) :
    returned s (f :: fs) ≤ returned s' (new ++ fs) := by
  cases c with
  | pumpStop _ =>
    obtain ⟨_, _, e, _⟩ := pumpReset_frame s
    rw [e]
    exact le_refl _
  | pumpFull _ _ =>
    obtain ⟨_, _, e, _⟩ := pumpReset_frame { s with pool := _, tape := s.rest }
    rw [e]
    exact le_refl _
  | @ack buf hd _ _ =>
    obtain ⟨_, _, e⟩ := takeAck_frame s hd.ackNum
    rw [e]
    exact le_refl _
  | store _ =>
    obtain ⟨_, _, e⟩ := storeData_frame s _ _
    rw [e]
    exact le_refl _
  | deliverCall _ =>
    show s.log.delivered.length - (calls fs).length
      ≤ (s.log.delivered ++ [_]).length - ((calls fs).length + 1)
    rw [List.length_append, List.length_singleton, Nat.add_sub_add_right]
  | delivered =>
    exact Nat.sub_le_sub_left (Nat.le_succ _) _
  | _ => exact le_refl _

/-- Whether a frame is not before the data part of `on_packet_received`. -/
def Frame.past : Frame → Bool
  | .receive _ => false
  | .receiveData _ _ => false
  | _ => true

/-- A data part is reached only from the start of its call. -/
lemma Case.calls_data (c : Case s f s' new) {g : Frame} (mem : g ∈ new) :
    (∀ buf, g ≠ .receive buf) ∧
    ∀ buf plen, g = .receiveData buf plen → ∃ hd, f = .receive buf ∧
      readChecked.run (s.pool.view buf) = (hd, true) ∧ plen = hd.payloadLen.toNat := by
  have past : new.all Frame.past = true → (∀ buf, g ≠ .receive buf) ∧
      ∀ buf plen, g = .receiveData buf plen → ∃ hd, f = .receive buf ∧
        readChecked.run (s.pool.view buf) = (hd, true) ∧ plen = hd.payloadLen.toNat := by
    intro all
    have one := List.all_eq_true.mp all g mem
    constructor
    · rintro buf rfl
      cases one
    · rintro buf plen rfl
      cases one
  cases c with
  | @ack buf hd ok _ =>
    rcases List.mem_cons.mp mem with rfl | mem
    · exact ⟨nofun, nofun⟩
    · obtain rfl := List.mem_singleton.mp mem
      refine ⟨nofun, ?_⟩
      rintro _ _ ⟨rfl, rfl⟩
      exact ⟨hd, rfl, ok, rfl⟩
  | @noAck buf hd ok _ =>
    obtain rfl := List.mem_singleton.mp mem
    refine ⟨nofun, ?_⟩
    rintro _ _ ⟨rfl, rfl⟩
    exact ⟨hd, rfl, ok, rfl⟩
  | _ => exact past rfl

end Case

/-! ## Packets in buffers -/

/-- A packet is still in its buffer if the bytes of the buffer have not changed. -/
lemma HoldsPacket.of_untouched {P P' : List Bytes} {p p' : BufferPool} {buf plen j : ℕ}
    (h : HoldsPacket P p buf plen j) (pre : P <+: P') (fits : mtu ≤ p.bufferSize)
    (same : Untouched p p' buf) : HoldsPacket P' p' buf plen j := by
  obtain ⟨bs, ack, get, pkt, mem, len⟩ := h
  refine ⟨bs, ack, ?_, pkt, ?_, len⟩
  · obtain ⟨Q, rfl⟩ := pre
    rw [List.getElem?_append_left (List.getElem?_eq_some_iff.mp get).1]
    exact get
  · rw [same.read (pkt.length_le.trans fits)]
    exact mem

/-- What `on_packet_received` reads off a datagram of the network. -/
lemma Genuine.read {g : Ghost} {w : System} {c : Copy} {p : BufferPool} {buf : ℕ} {hd : TcpLiteHeader}
    (h : Genuine g w c) (mem : p.read buf c.bytes.length = c.bytes)
    (ok : readChecked.run (p.view buf) = (hd, true)) :
    ∃ a, Carried 256 (g.ack c.src) (g.seen c.src) (w.assigned c.src) (w.expected c.src) a
        (c.stamp c.src.peer) ∧ hd.ackNum = BitVec.ofNat 32 a ∧
      (0 < hd.payloadLen.toNat → ∃ j, HoldsPacket (w.host c.src).log.packets p buf
        hd.payloadLen.toNat j ∧ c.stamp c.src ≤ j + 256) := by
  obtain ⟨a, carried, ⟨j, get, pkt, near⟩ | ⟨seq, eq⟩⟩ := h.carries
  · obtain ⟨hd', head, ack, _, len, _⟩ := pkt.read mem
    obtain ⟨rfl, _⟩ := Prod.mk.inj (ok.symm.trans head)
    exact ⟨a, carried, ack, fun _ => ⟨j, ⟨c.bytes, _, get, pkt, mem, len⟩, near⟩⟩
  · rw [eq] at mem
    obtain ⟨hd', head, ack, _, none⟩ := makeAck_read mem
    obtain ⟨rfl, _⟩ := Prod.mk.inj (ok.symm.trans head)
    exact ⟨a, carried, ack, fun pos => absurd none pos.ne'⟩

/-- A copy is at most `TCP_LITE_MTU` bytes long. -/
lemma Genuine.length_le {g : Ghost} {w : System} {c : Copy} (h : Genuine g w c) :
    c.bytes.length ≤ mtu := by
  obtain ⟨a, _, ⟨j, _, pkt, _⟩ | ⟨seq, eq⟩⟩ := h.carries
  · exact pkt.length_le
  · rw [eq, TcpLiteHeader.length_toBytes]
    decide

/-- A datagram that arrives changes the pool of the session only. -/
lemma arrive_frame {s s' : TcpLiteSession} {bytes : Bytes} {buf : ℕ}
    (arr : s.arrive bytes = some (buf, s')) :
    ∃ pool tape, s'.handOver buf = { s with pool := pool, tape := tape } := by
  unfold TcpLiteSession.arrive at arr
  split at arr
  · cases arr
  · cases arr
    exact ⟨_, _, rfl⟩

/-- What the program does outside the sessions leaves their numbers alone. -/
lemma System.assigned_congr {w w' : System} {X : Host}
    (same : ∃ pool tape, w'.host X = { w.host X with pool := pool, tape := tape }) :
    w'.assigned X = w.assigned X := by
  obtain ⟨_, _, e⟩ := same
  rw [System.assigned, e]
  rfl

/-- Nor does it change what they expect. -/
lemma System.expected_congr {w w' : System} {X : Host}
    (same : ∃ pool tape, w'.host X = { w.host X with pool := pool, tape := tape })
    (call : calls (framesOf X w'.stack) = calls (framesOf X w.stack)) :
    w'.expected X = w.expected X := by
  obtain ⟨_, _, e⟩ := same
  rw [System.expected, e, TcpLite.expected, TcpLite.returned, call]
  rfl

/-- Nor what they have returned. -/
lemma System.returned_congr {w w' : System} {X : Host}
    (same : ∃ pool tape, w'.host X = { w.host X with pool := pool, tape := tape })
    (call : calls (framesOf X w'.stack) = calls (framesOf X w.stack)) :
    w'.returned X = w.returned X := by
  obtain ⟨_, _, e⟩ := same
  show (w'.host X).log.delivered.length - (calls (framesOf X w'.stack)).length = _
  rw [e, call]
  rfl

/-- A delivery only changes the pool and the tape, until it runs. -/
lemma System.hand_same {w : System} {X : Host} {bytes : Bytes} {buf : ℕ} {s : TcpLiteSession}
    (arr : (w.host X).arrive bytes = some (buf, s)) (stamp : ℕ) (rest : List Entry) (Y : Host) :
    ∃ pool tape, (w.hand X buf s stamp rest).host Y = { w.host Y with pool := pool, tape := tape } := by
  rcases X.eq_or_peer Y with rfl | rfl
  · obtain ⟨pool, tape, e⟩ := arrive_frame arr
    exact ⟨pool, tape, (w.put_self Y _).trans e⟩
  · exact ⟨_, _, w.put_peer X _⟩

/-- A delivery is not a call of the data callback. -/
lemma System.hand_calls (w : System) (X : Host) (buf : ℕ) (s : TcpLiteSession) (stamp : ℕ) (Y : Host) :
    calls (framesOf Y (w.hand X buf s stamp w.stack).stack) = calls (framesOf Y w.stack) := by
  show calls (framesOf Y (_ :: w.stack)) = _
  rw [framesOf_cons]
  split
  · rfl
  · rfl

/-! ## A step of the innermost call -/

section Exec

variable {p : Setup} {g : Ghost} {w w' : System} {e : Entry} {rest : List Entry} {s' : TcpLiteSession}
  {new : List Frame}

/-- The innermost call is one of its side. -/
lemma framesOf_self (st : w.stack = e :: rest) :
    framesOf e.host w.stack = e.frame :: framesOf e.host rest := by
  rw [st, framesOf_cons, if_pos rfl]

/-- It is none of the peer. -/
lemma framesOf_peer (st : w.stack = e :: rest) :
    framesOf e.host.peer w.stack = framesOf e.host.peer rest := by
  rw [st, framesOf_cons, if_neg e.host.peer_ne.symm]

/-- The peer assigns no number. -/
lemma Ran.assigned_peer (r : Ran w e rest s' new w') :
    w'.assigned e.host.peer = w.assigned e.host.peer := by
  rw [System.assigned, System.assigned, r.peer]

/-- The peer expects what it did. -/
lemma Ran.expected_peer (r : Ran w e rest s' new w') (st : w.stack = e :: rest) :
    w'.expected e.host.peer = w.expected e.host.peer := by
  rw [System.expected, System.expected, r.peer, r.other, framesOf_peer st]

/-- What is returned only grows. -/
lemma Ran.returned_le (r : Ran w e rest s' new w') (st : w.stack = e :: rest) (X : Host) :
    w.returned X ≤ w'.returned X := by
  rcases e.host.eq_or_peer X with rfl | rfl
  · rw [System.returned, System.returned, r.self, r.own, framesOf_self st]
    exact r.code.returned_le _
  · rw [System.returned, System.returned, r.peer, r.other, framesOf_peer st]

/-- What the side that runs expects. -/
lemma Ran.expected_self (r : Ran w e rest s' new w') :
    w'.expected e.host = expected s' (new ++ framesOf e.host rest) := by
  rw [System.expected, r.self, r.own]

/-- Packets are only added. -/
lemma Ran.packets_prefix (r : Ran w e rest s' new w') (X : Host) :
    (w.host X).log.packets <+: (w'.host X).log.packets := by
  rcases e.host.eq_or_peer X with rfl | rfl
  · rw [r.self]
    rcases r.code.numbers with ⟨_, grow, _⟩ | ⟨same, _⟩
    · exact ⟨_, grow.symm⟩
    · rw [same]
  · rw [r.peer]

/-- A datagram of the network is still one after a step that keeps the history. -/
lemma Genuine.step {c : Copy} {g' : Ghost} (h : Genuine g w c)
    (pre : ∀ X, (w.host X).log.packets <+: (w'.host X).log.packets)
    (carried : ∀ a, Carried 256 (g.ack c.src) (g.seen c.src) (w.assigned c.src) (w.expected c.src) a
        (c.stamp c.src.peer) →
      Carried 256 (g'.ack c.src) (g'.seen c.src) (w'.assigned c.src) (w'.expected c.src) a
        (c.stamp c.src.peer)) : Genuine g' w' c := by
  refine ⟨fun X => (h.past X).trans (pre X).length_le, ?_⟩
  obtain ⟨a, carries, shape⟩ := h.carries
  refine ⟨a, carried a carries, shape.imp_left ?_⟩
  rintro ⟨j, get, pkt, near⟩
  refine ⟨j, ?_, pkt, near⟩
  obtain ⟨Q, eq⟩ := pre c.src
  rw [← eq, List.getElem?_append_left (List.getElem?_eq_some_iff.mp get).1]
  exact get

/-- A call that starts on a datagram which passes the check has it from the network. -/
lemma Arrived.copy {buf : ℕ} {hd : TcpLiteHeader} (top : Active w e ∨ Arrived g w e)
    (recv : e.frame = .receive buf)
    (ok : readChecked.run ((w.host e.host).pool.view buf) = (hd, true)) :
    ∃ c, Genuine g w c ∧ c.src = e.host.peer ∧ w.Fresh c ∧ e.stamp = c.stamp c.src ∧
      (w.host e.host).pool.read buf c.bytes.length = c.bytes := by
  rcases top with act | ⟨buf', recv', bad | copy⟩
  · exact absurd recv (act.1 buf)
  · rw [recv, Frame.receive.injEq] at recv'
    rw [← recv', ok] at bad
    cases bad
  · rw [recv, Frame.receive.injEq] at recv'
    exact recv' ▸ copy

/-- What is on the network after a step: what was there, and what the step has transmitted. -/
lemma Ran.genuine {g' : Ghost} (r : Ran w e rest s' new w') (old : ∀ c ∈ w.net, Genuine g' w' c)
    (sent : ∀ c : Copy, c.src = e.host → (∀ X, c.stamp X = w'.assigned X) →
      Sends (w.host e.host) e.frame c.kind c.bytes →
      s'.log.packets = (w.host e.host).log.packets ++ (if c.kind = .data then [c.bytes] else []) →
      Genuine g' w' c) : ∀ c ∈ w'.net, Genuine g' w' c := by
  rcases r.net with ⟨_, net⟩ | ⟨c, net, src, stamp, sends, _, wire⟩
  · rw [net]
    exact old
  · rw [net]
    exact List.forall_mem_append.mpr
      ⟨old, List.forall_mem_singleton.mpr (sent c src stamp sends (packets_concat wire))⟩

/-- Without a new packet the packets are what they were. -/
lemma Ran.packets_same (r : Ran w e rest s' new w')
    (same : s'.log.packets = (w.host e.host).log.packets) (X : Host) :
    (w'.host X).log.packets = (w.host X).log.packets := by
  rcases e.host.eq_or_peer X with rfl | rfl
  · rw [r.self, same]
  · rw [r.peer]

/-- What is expected only grows. -/
lemma Ran.expected_le (r : Ran w e rest s' new w') (st : w.stack = e :: rest)
    (grow : w.expected e.host ≤ w'.expected e.host) (X : Host) : w.expected X ≤ w'.expected X := by
  rcases e.host.eq_or_peer X with rfl | rfl
  · exact grow
  · rw [r.expected_peer st]

namespace Core

/-- The sides are as far apart as the window and what slipped through it. -/
lemma near (h : Core p g w) (X : Host) : w.assigned X ≤ w.expected X.peer + slack 256 := by
  obtain ⟨_, _, flow⟩ := h.flow X
  exact flow.near (by decide)

/-- A packet whose data part is reached lies where the window test can be trusted. -/
lemma data_near (h : Core p g w) (st : w.stack = e :: rest) (guard : Guard w e rest)
    (top : Active w e ∨ Arrived g w e) (buf plen : ℕ) (eq : e.frame = .receiveData buf plen)
    (pos : 0 < plen) :
    ∃ j, HoldsPacket (w.host e.host.peer).log.packets (w.host e.host).pool buf plen j ∧
      j < returned (w.host e.host) (e.frame :: framesOf e.host rest) + 2 ^ 32 ∧
      returned (w.host e.host) (e.frame :: framesOf e.host rest) + 256 ≤ j + 2 ^ 32 := by
  rcases top with act | ⟨buf', recv, _⟩
  · obtain ⟨j, holds, stamp⟩ := act.2 buf plen eq pos
    refine ⟨j, holds, ?_⟩
    -- what the peer has assigned is near the packet, and near what is expected of it
    have old := guard.data buf plen eq pos
    have gap := h.near e.host.peer
    rw [Host.peer_peer] at gap
    obtain ⟨bs, _, get, _⟩ := holds
    have lt : j < w.assigned e.host.peer := (List.getElem?_eq_some_iff.mp get).1
    have le : w.expected e.host ≤ w.assigned e.host.peer := (h.receiver e.host).expected_le
    have split : w.expected e.host = returned (w.host e.host) (e.frame :: framesOf e.host rest)
        + contig (w.host e.host).recvBitmap.received := by
      rw [System.expected, framesOf_self st]
      rfl
    have few : contig (w.host e.host).recvBitmap.received ≤ 256 := contig_le _
    have sl : slack 256 = 65792 := rfl
    constructor
    · omega
    · omega
  · rw [recv] at eq
    cases eq

/-- A step keeps the sending sides in order. -/
lemma sender_step (h : Core p g w) (st : w.stack = e :: rest) (guard : Guard w e rest)
    (r : Ran w e rest s' new w') (X : Host) :
    Sender (p.size X) (p.count X) (w'.host X) (framesOf X w'.stack) := by
  rcases e.host.eq_or_peer X with rfl | rfl
  · have old := h.sender e.host
    rw [framesOf_self st] at old
    rw [r.self, r.own]
    exact old.exec r.code guard.pump
  · have old := h.sender e.host.peer
    rw [framesOf_peer st] at old
    rw [r.peer, r.other]
    exact old

/-- A step keeps the receiving sides in order, and they expect no less. -/
lemma receiver_step (h : Core p g w) (st : w.stack = e :: rest) (guard : Guard w e rest)
    (top : Active w e ∨ Arrived g w e) (r : Ran w e rest s' new w') :
    (∀ X, Receiver (w'.host X.peer).log.packets (w'.host X) (framesOf X w'.stack)) ∧
      w.expected e.host ≤ w'.expected e.host := by
  have old := h.receiver e.host
  have data := h.data_near st guard top
  rw [framesOf_self st] at old
  obtain ⟨self, grow⟩ := old.exec r.code guard.call data
  constructor
  · intro X
    rcases e.host.eq_or_peer X with rfl | rfl
    · rw [r.self, r.own, r.peer]
      exact self
    · rw [r.peer, r.other, ← framesOf_peer st]
      exact (h.receiver e.host.peer).mono (r.packets_prefix _)
  · rw [r.expected_self, System.expected, framesOf_self st]
    exact grow

/-- A buffer that an active call of `on_packet_received` holds is left alone by the others. -/
lemma untouched_step (h : Core p g w) (st : w.stack = e :: rest) (guard : Guard w e rest)
    (r : Ran w e rest s' new w') {buf : ℕ} (before : buf ∈ held (e.frame :: framesOf e.host rest))
    (after : buf ∈ held (new ++ framesOf e.host rest)) :
    Untouched (w.host e.host).pool (w'.host e.host).pool buf := by
  have old := h.sender e.host
  rw [framesOf_self st] at old
  rw [r.self]
  exact old.untouched r.code guard.pump before after

/-- The calls that wait keep their packets, and a call that starts finds its own. -/
lemma active_step (h : Core p g w) (st : w.stack = e :: rest) (guard : Guard w e rest)
    (act : ∀ e' ∈ rest, Active w e') (top : Active w e ∨ Arrived g w e)
    (r : Ran w e rest s' new w') : ∀ e' ∈ w'.stack, Active w' e' := by
  intro e' mem
  rw [r.stack] at mem
  rcases List.mem_append.mp mem with mem | mem
  · obtain ⟨f, hf, rfl⟩ := List.mem_map.mp mem
    obtain ⟨start, data⟩ := r.code.calls_data hf
    refine ⟨start, ?_⟩
    intro buf plen eq pos
    obtain ⟨hd, recv, ok, rfl⟩ := data buf plen eq
    -- the call has just started: its datagram is the one that arrived
    obtain ⟨c, genuine, src, _, stamp, mem'⟩ := Arrived.copy top recv ok
    obtain ⟨_, _, _, packet⟩ := genuine.read mem' ok
    obtain ⟨j, holds, near⟩ := packet pos
    refine ⟨j, ?_, stamp ▸ near⟩
    rw [src] at holds
    apply holds.of_untouched (r.packets_prefix _) (h.sender _).mtu_le
    apply h.untouched_step st guard r
    · rw [recv]
      exact List.mem_cons_self
    · dsimp only at eq
      subst eq
      unfold held
      rw [List.filterMap_append]
      exact List.mem_append_left _ (List.mem_filterMap.mpr ⟨_, hf, rfl⟩)
  · obtain ⟨start, data⟩ := act e' mem
    refine ⟨start, ?_⟩
    intro buf plen eq pos
    obtain ⟨j, holds, near⟩ := data buf plen eq pos
    refine ⟨j, holds.of_untouched (r.packets_prefix _) (h.sender _).mtu_le ?_, near⟩
    rcases e.host.eq_or_peer e'.host with same | other
    · have waiting : buf ∈ held (framesOf e.host rest) :=
        List.mem_filterMap.mpr ⟨_, mem_framesOf.mpr ⟨e', mem, same, eq⟩, rfl⟩
      rw [same]
      apply h.untouched_step st guard r
      · unfold held at waiting ⊢
        rw [List.filterMap_cons]
        split
        · exact waiting
        · exact List.mem_cons_of_mem _ waiting
      · unfold held at waiting ⊢
        rw [List.filterMap_append]
        exact List.mem_append_right _ waiting
    · rw [other, r.peer]
      exact .refl _ _

/-- The numbers after a step that makes no packet: an ACK that is taken is one of a fresh datagram. -/
lemma quiet_flow (h : Core p g w) (st : w.stack = e :: rest) (guard : Guard w e rest)
    (top : Active w e ∨ Arrived g w e) (r : Ran w e rest s' new w')
    (same : s'.log.packets = (w.host e.host).log.packets)
    (una : s'.sndUna = (w.host e.host).sndUna ∨ ∃ buf hd, e.frame = .receive buf ∧
      readChecked.run ((w.host e.host).pool.view buf) = (hd, true) ∧
      (w.host e.host).ackTaken hd = true ∧ s' = (w.host e.host).takeAck hd.ackNum) (X : Host) :
    FlowOf g w' X := by
  obtain ⟨receiver, grow⟩ := h.receiver_step st guard top r
  have assigned : ∀ X, w'.assigned X = w.assigned X := fun X => congrArg List.length (r.packets_same same X)
  unfold FlowOf
  rcases e.host.eq_or_peer X with rfl | rfl
  · obtain ⟨a, ha, old⟩ := h.flow e.host
    rw [assigned, assigned, r.expected_peer st, r.self]
    rcases una with una | ⟨buf, hd, recv, ok, _, una⟩
    · exact ⟨a, una.trans ha, old⟩
    · obtain ⟨c, genuine, src, fresh, _, mem⟩ := Arrived.copy top recv ok
      obtain ⟨a', carried, ack, _⟩ := genuine.read mem ok
      rw [src, Host.peer_peer] at carried
      refine ⟨a', ?_, old.take carried (genuine.past _) (fresh _)⟩
      rw [una, takeAck_una]
      exact ack
  · obtain ⟨a, ha, old⟩ := h.flow e.host.peer
    rw [assigned, assigned, r.peer]
    refine ⟨a, ha, old.advance (r.expected_le st grow _) ?_⟩
    have le := (receiver e.host.peer.peer).expected_le
    rw [r.packets_same same, Host.peer_peer e.host.peer] at le
    exact le

/-- A retransmission or a pure ACK that a step has just transmitted. -/
lemma quiet_sent (h : Core p g w) (r : Ran w e rest s' new w')
    (same : s'.log.packets = (w.host e.host).log.packets)
    (grow : w.expected e.host ≤ w'.expected e.host) (flow : ∀ X, FlowOf g w' X) {c : Copy}
    (src : c.src = e.host) (stamp : ∀ X, c.stamp X = w'.assigned X)
    (sends : Sends (w.host e.host) e.frame c.kind c.bytes) (old : c.kind ≠ .data) : Genuine g w' c := by
  have assigned : ∀ X, w'.assigned X = w.assigned X := fun X => congrArg List.length (r.packets_same same X)
  refine ⟨fun X => (stamp X).le, ?_⟩
  rw [stamp, stamp, src]
  rcases sends.cases with ⟨kind, _⟩ | ⟨_, seq, b, hb, eq⟩ | ⟨_, eq⟩
  · exact absurd kind old
  · -- a retransmission has the ACK number with which the packet was made
    obtain ⟨j, _, get, late⟩ := (h.sender e.host).bufferFor hb
    have lt : j < w.assigned e.host := (List.getElem?_eq_some_iff.mp get).1
    obtain ⟨_, _, back⟩ := flow e.host.peer
    rw [Host.peer_peer, assigned e.host] at back
    refine ⟨g.ack e.host j, ⟨back.ack_le j lt, .inr ⟨j, ?_, rfl, ?_⟩⟩, .inl ⟨j, ?_, ?_, ?_⟩⟩
    · rw [assigned]
      exact lt
    · intro gone
      rw [assigned] at gone
      exact absurd gone (Nat.not_lt.mpr late)
    · rw [r.packets_same same, eq]
      exact get
    · rw [eq]
      exact h.numbered e.host j _ get
    · rw [assigned]
      exact late
  · -- a pure ACK has the number that is expected now
    refine ⟨w.expected e.host, ⟨grow, .inl ?_⟩, .inr ⟨(w.host e.host).nextSeq, ?_⟩⟩
    · rw [assigned]
      have gap := h.near e.host.peer
      rw [Host.peer_peer] at gap
      exact gap
    · rw [eq, ackPacket, (h.receiver e.host).cumulativeAck]
      rfl

/-- A step that makes no packet keeps the history as it is. -/
lemma quiet_step (h : Core p g w) (st : w.stack = e :: rest) (guard : Guard w e rest)
    (top : Active w e ∨ Arrived g w e) (r : Ran w e rest s' new w')
    (same : s'.log.packets = (w.host e.host).log.packets)
    (una : s'.sndUna = (w.host e.host).sndUna ∨ ∃ buf hd, e.frame = .receive buf ∧
      readChecked.run ((w.host e.host).pool.view buf) = (hd, true) ∧
      (w.host e.host).ackTaken hd = true ∧ s' = (w.host e.host).takeAck hd.ackNum) :
    Core p g w' := by
  obtain ⟨receiver, grow⟩ := h.receiver_step st guard top r
  have flow := h.quiet_flow st guard top r same una
  refine ⟨h.sender_step st guard r, receiver, ?_, flow, r.genuine ?_ ?_⟩
  · intro X j bs get
    rw [r.packets_same same] at get
    exact h.numbered X j bs get
  · intro c mem
    apply (h.genuine c mem).step r.packets_prefix
    intro a carried
    rw [System.assigned, r.packets_same same]
    exact carried.mono (r.expected_le st grow _)
  · intro c src stamp sends wire
    refine h.quiet_sent r same grow flow src stamp sends ?_
    intro kind
    rw [same, if_pos kind] at wire
    simp at wire

/-- The packet that a step makes, with its number and its ACK number. -/
lemma pump_packet (h : Core p g w) (st : w.stack = e :: rest) (guard : Guard w e rest)
    (pumping : Pumping (w.host e.host) e.frame) :
    (w.host e.host).nextSeq = BitVec.ofNat 32 (w.assigned e.host) ∧
      IsPacket (BitVec.ofNat 32 (w.assigned e.host)) (BitVec.ofNat 32 (w.expected e.host))
        (w.host e.host).pumpPacket := by
  have idle : pumps (framesOf e.host w.stack) = [] := by
    rw [framesOf_self st, pumping.1]
    exact guard.pump pumping
  have next : (w.host e.host).nextSeq = BitVec.ofNat 32 (w.assigned e.host) :=
    (h.sender e.host).nextSeq_eq idle
  have made := isPacket_pumpPacket pumping.2.1
  rw [(h.receiver e.host).cumulativeAck, next] at made
  exact ⟨next, made⟩

/-- A packet takes one number. -/
lemma pump_assigned (r : Ran w e rest s' new w')
    (grown : s'.log.packets = (w.host e.host).log.packets ++ [(w.host e.host).pumpPacket]) :
    w'.assigned e.host = w.assigned e.host + 1 := by
  rw [System.assigned, r.self, grown, List.length_append]
  rfl

/-- The numbers after a step that makes a packet. -/
lemma pump_flow (h : Core p g w) (st : w.stack = e :: rest) (guard : Guard w e rest)
    (r : Ran w e rest s' new w') (pumping : Pumping (w.host e.host) e.frame)
    (grown : s'.log.packets = (w.host e.host).log.packets ++ [(w.host e.host).pumpPacket])
    (una : s'.sndUna = (w.host e.host).sndUna) (still : w'.expected e.host = w.expected e.host)
    (X : Host) :
    FlowOf (g.push e.host (w.assigned e.host) (w.expected e.host) (w.assigned e.host.peer)) w' X := by
  have more := pump_assigned r grown
  obtain ⟨ackSelf, seenSelf⟩ := g.push_self e.host (w.assigned e.host) (w.expected e.host)
    (w.assigned e.host.peer)
  obtain ⟨ackPeer, seenPeer⟩ := g.push_peer e.host (w.assigned e.host) (w.expected e.host)
    (w.assigned e.host.peer)
  unfold FlowOf
  rcases e.host.eq_or_peer X with rfl | rfl
  · obtain ⟨a, ha, old⟩ := h.flow e.host
    obtain ⟨d, _, lo, hi, _⟩ := old.taken
    have room := (pumpOpen_window pumping.2.1).2
    rw [(h.pump_packet st guard pumping).1, ha, Serial.dist_of_le (lo.trans hi)] at room
    rw [ackPeer, seenPeer, r.assigned_peer, r.expected_peer st, r.self, more]
    exact ⟨a, una.trans ha, old.send (by decide) room⟩
  · obtain ⟨a, ha, old⟩ := h.flow e.host.peer
    rw [Host.peer_peer] at old ⊢
    rw [ackSelf, seenSelf, r.assigned_peer, r.peer, more, still]
    exact ⟨a, ha, old.peerSend (by decide)⟩

/-- A step that makes a packet adds it to the history. -/
lemma pump_step (h : Core p g w) (st : w.stack = e :: rest) (guard : Guard w e rest)
    (top : Active w e ∨ Arrived g w e) (r : Ran w e rest s' new w')
    (pumping : Pumping (w.host e.host) e.frame)
    (grown : s'.log.packets = (w.host e.host).log.packets ++ [(w.host e.host).pumpPacket])
    (una : s'.sndUna = (w.host e.host).sndUna) (still : w'.expected e.host = w.expected e.host) :
    Core p (g.push e.host (w.assigned e.host) (w.expected e.host) (w.assigned e.host.peer)) w' := by
  obtain ⟨receiver, _⟩ := h.receiver_step st guard top r
  obtain ⟨_, pkt⟩ := h.pump_packet st guard pumping
  have more := pump_assigned r grown
  have flow := h.pump_flow st guard r pumping grown una still
  obtain ⟨ackSelf, seenSelf⟩ := g.push_self e.host (w.assigned e.host) (w.expected e.host)
    (w.assigned e.host.peer)
  obtain ⟨ackPeer, seenPeer⟩ := g.push_peer e.host (w.assigned e.host) (w.expected e.host)
    (w.assigned e.host.peer)
  generalize g.push e.host (w.assigned e.host) (w.expected e.host) (w.assigned e.host.peer) = g'
    at ackSelf ackPeer seenSelf seenPeer flow
  refine ⟨h.sender_step st guard r, receiver, ?_, flow, r.genuine ?_ ?_⟩
  · intro X j bs get
    rcases e.host.eq_or_peer X with rfl | rfl
    · rw [r.self, grown] at get
      rw [ackSelf]
      rcases Ring.getElem?_concat_cases get with ⟨lt, get⟩ | ⟨rfl, rfl⟩
      · have ne : j ≠ w.assigned e.host := Nat.ne_of_lt lt
        rw [Function.update_of_ne ne]
        exact h.numbered e.host j bs get
      · rw [show (w.host e.host).log.packets.length = w.assigned e.host from rfl,
          Function.update_self]
        exact pkt
    · rw [r.peer] at get
      rw [ackPeer]
      exact h.numbered e.host.peer j bs get
  · intro c mem
    have genuine := h.genuine c mem
    apply genuine.step r.packets_prefix
    intro a carried
    rcases e.host.eq_or_peer c.src with src | src
    · rw [src] at carried ⊢
      rw [ackSelf, seenSelf, more, still]
      exact carried.peerSend (genuine.past _) _
    · rw [src] at carried ⊢
      rw [ackPeer, seenPeer, r.assigned_peer, r.expected_peer st]
      exact carried
  · intro c src stamp _ wire
    -- the step has transmitted the packet that it has made
    have eq : c.bytes = (w.host e.host).pumpPacket := by
      rw [grown, List.append_cancel_left_eq] at wire
      split at wire
      · exact (List.cons.inj wire).1.symm
      · cases wire
    refine ⟨fun X => (stamp X).le, ?_⟩
    rw [stamp, stamp, src]
    refine ⟨w.expected e.host, ⟨still.ge, .inr ⟨w.assigned e.host, ?_, ?_, ?_⟩⟩, .inl
      ⟨w.assigned e.host, ?_, ?_, ?_⟩⟩
    · rw [more]
      exact Nat.lt_succ_self _
    · rw [ackSelf, Function.update_self]
    · intro gone
      rw [more] at gone
      omega
    · rw [r.self, grown, eq]
      exact List.getElem?_concat_length
    · rw [eq]
      exact pkt
    · rw [more]
      omega

/-- The innermost call runs: the invariant is kept, with the history as it is by then. -/
lemma exec (h : Core p g w) (st : w.stack = e :: rest) (act : ∀ e' ∈ rest, Active w e')
    (top : Active w e ∨ Arrived g w e) (guard : Guard w e rest) :
    ∃ g', Core p g' w.exec ∧ ∀ e' ∈ w.exec.stack, Active w.exec e' := by
  have r := w.exec_ran st
  have active := h.active_step st guard act top r
  rcases r.code.numbers with ⟨pumping, grown, una, still⟩ | ⟨same, una⟩
  · refine ⟨_, h.pump_step st guard top r pumping grown una ?_, active⟩
    rw [r.expected_self, still, System.expected, framesOf_self st]
  · exact ⟨g, h.quiet_step st guard top r same una, active⟩

/-- What the program does outside the sessions: it makes or drops calls and uses the pools. -/
lemma of_outside (h : Core p g w)
    (sender : ∀ X, Sender (p.size X) (p.count X) (w'.host X) (framesOf X w'.stack))
    (same : ∀ X, ∃ pool tape, w'.host X = { w.host X with pool := pool, tape := tape })
    (call : ∀ X, calls (framesOf X w'.stack) = calls (framesOf X w.stack))
    (calm : ∀ X, (framesOf X w.stack).any Frame.delivering = true →
      (framesOf X w'.stack).any Frame.delivering = true)
    (net : w'.net = w.net) : Core p g w' := by
  have packets : ∀ X, (w'.host X).log.packets = (w.host X).log.packets := by
    intro X
    obtain ⟨_, _, e⟩ := same X
    rw [e]
  have assigned : ∀ X, w'.assigned X = w.assigned X := fun X => System.assigned_congr (same X)
  have expected : ∀ X, w'.expected X = w.expected X := fun X =>
    System.expected_congr (same X) (call X)
  refine ⟨sender, ?_, ?_, ?_, ?_⟩
  · intro X
    have old := h.receiver X
    rw [← packets X.peer] at old
    obtain ⟨_, _, e⟩ := same X
    exact (old.of_same (call X) (calm X) (by rw [e]) (by rw [e]) (by rw [e]) (by rw [e])).1
  · intro X
    rw [packets]
    exact h.numbered X
  · intro X
    obtain ⟨a, ha, flow⟩ := h.flow X
    obtain ⟨_, _, e⟩ := same X
    refine ⟨a, ?_, ?_⟩
    · rw [e]
      exact ha
    · rw [assigned, assigned, expected]
      exact flow
  · rw [net]
    intro c mem
    refine (h.genuine c mem).step (fun X => (packets X).symm ▸ List.prefix_rfl) ?_
    intro a carried
    rw [assigned, expected]
    exact carried

/-- Two fresh sessions have no history. -/
lemma fresh (p : Setup) : Core p { ack := fun _ _ => 0, seen := fun _ _ => 0 } (.fresh p) where
  sender := fun X => .fresh _ _ _ _ _ _ (p.fits X)
  receiver := fun X => .fresh _ _ _ _ _
  numbered := by
    intro X j bs get
    cases get
  flow := by
    intro X
    have none : System.expected (.fresh p) X.peer = 0 :=
      (Nat.zero_add _).trans (contig_eq (fun k lt => absurd lt (Nat.not_lt_zero k))
        BitVec.getLsbD_zero)
    unfold FlowOf
    rw [none]
    refine ⟨0, rfl, ⟨Nat.le_refl 0, ?_, ?_, ?_, ?_, ?_, ?_⟩⟩
    · exact fun _ _ => Nat.le_refl 0
    · exact fun _ _ => Nat.le_refl 0
    · exact fun _ _ => Nat.zero_le _
    · exact fun _ _ _ _ => Nat.le_refl 0
    · exact ⟨0, 0, Nat.le_refl 0, Nat.le_refl 0, Nat.le_refl 0, Nat.zero_le _,
        ⟨Nat.le_refl 0, .inl (Nat.zero_le _)⟩, .inl rfl⟩
    · exact ⟨0, Nat.zero_le _, fun n _ lt => absurd lt (Nat.not_lt_zero n)⟩
  genuine := by
    intro c mem
    cases mem

/-- A datagram is copied to a buffer and handed to a session, over the calls that are active. -/
lemma hand {X : Host} {bytes : Bytes} {buf : ℕ} {s : TcpLiteSession} (h : Core p g w)
    (act : ∀ e ∈ w.stack, Active w e) (arr : (w.host X).arrive bytes = some (buf, s))
    (fit : bytes.length ≤ mtu) (stamp : ℕ) :
    Core p g (w.hand X buf s stamp w.stack) ∧
      (∀ e ∈ w.stack, Active (w.hand X buf s stamp w.stack) e) ∧
      ((w.hand X buf s stamp w.stack).host X).pool.read buf bytes.length = bytes := by
  obtain ⟨sender, content, kept⟩ := (h.sender X).arrive arr (fit.trans (p.fits X))
  have self : (w.hand X buf s stamp w.stack).host X = s.handOver buf := w.put_self X _
  have peer : (w.hand X buf s stamp w.stack).host X.peer = w.host X.peer := w.put_peer X _
  have stack : (w.hand X buf s stamp w.stack).stack
      = { host := X, frame := .receive buf, stamp := stamp } :: w.stack := rfl
  have net : (w.hand X buf s stamp w.stack).net = w.net := rfl
  have same := System.hand_same arr stamp w.stack
  have call := w.hand_calls X buf s stamp
  generalize w.hand X buf s stamp w.stack = w' at self peer stack net same call
  refine ⟨h.of_outside ?_ same call ?_ net, ?_, ?_⟩
  · intro Y
    rcases X.eq_or_peer Y with rfl | rfl
    · rw [self, stack, framesOf_cons, if_pos rfl]
      exact sender
    · rw [peer, stack, framesOf_cons, if_neg X.peer_ne.symm]
      exact h.sender X.peer
  · intro Y
    rw [stack, framesOf_cons]
    split
    · exact id
    · exact id
  · intro e mem
    obtain ⟨start, data⟩ := act e mem
    refine ⟨start, ?_⟩
    intro buf' plen eq pos
    obtain ⟨j, holds, near⟩ := data buf' plen eq pos
    refine ⟨j, holds.of_untouched ?_ (h.sender _).mtu_le ?_, near⟩
    · obtain ⟨_, _, e'⟩ := same e.host.peer
      rw [e']
    · rcases X.eq_or_peer e.host with own | other
      · rw [own, self]
        apply kept
        apply Nat.add_pos_right
        apply List.count_pos_iff.mpr
        exact List.mem_filterMap.mpr ⟨_, mem_framesOf.mpr ⟨e, mem, own, eq⟩, rfl⟩
      · rw [other, peer]
        exact .refl _ _
  · rw [self]
    exact content

/-- The datagram that is handed over fails the check, or is a fresh copy of what is on the network. -/
lemma arrived {X : Host} {bytes : Bytes} {buf : ℕ} {s : TcpLiteSession} (h : Core p g w)
    (act : ∀ e ∈ w.stack, Active w e) (arr : (w.host X).arrive bytes = some (buf, s))
    (fit : bytes.length ≤ mtu) (stamp : ℕ)
    (what : (readChecked.run (s.pool.view buf)).2 = false ∨
      ∃ c ∈ w.net, c.src = X.peer ∧ w.Fresh c ∧ stamp = c.stamp c.src ∧ c.bytes = bytes) :
    Core p g (w.hand X buf s stamp w.stack) ∧
      (∀ e ∈ w.stack, Active (w.hand X buf s stamp w.stack) e) ∧
      Arrived g (w.hand X buf s stamp w.stack)
        { host := X, frame := .receive buf, stamp := stamp } := by
  obtain ⟨core, active, content⟩ := h.hand act arr fit stamp
  refine ⟨core, active, buf, rfl, ?_⟩
  rcases what with bad | ⟨c, mem, src, fresh, rfl, rfl⟩
  · left
    have self : (w.hand X buf s stamp w.stack).host X = s.handOver buf := w.put_self X _
    rw [self]
    exact bad
  · refine .inr ⟨c, core.genuine c mem, src, ?_, rfl, content⟩
    intro Y
    rw [System.assigned_congr (System.hand_same arr _ _ Y)]
    exact fresh Y

end Core

end Exec

/-! ## Runs -/

/-- The invariant, for some history. -/
def Inv (p : Setup) (w : System) : Prop := ∃ g, Core p g w ∧ ∀ e ∈ w.stack, Active w e

/-- The next step meets its guard. -/
def System.Guarded (w : System) : Prop := ∀ e rest, w.stack = e :: rest → Guard w e rest

namespace Inv

variable {p : Setup} {w w' : System}

/-- Two fresh sessions have nothing on the network. -/
lemma fresh (p : Setup) : Inv p (.fresh p) := ⟨_, .fresh p, fun _ mem => absurd mem List.not_mem_nil⟩

/-- A call is made. -/
lemma push {f : Frame} (h : Inv p w) (idle : w.stack = []) (X : Host) (stamp : ℕ)
    (pump : f.pumping = none) (hold : f.holding = none) (call : f.calling = none) :
    Inv p { w with stack := [{ host := X, frame := f, stamp := stamp }] } := by
  obtain ⟨g, core, _⟩ := h
  refine ⟨g, core.of_outside ?_ (fun Y => ⟨_, _, rfl⟩) ?_ ?_ rfl, ?_⟩
  · intro Y
    have s := core.sender Y
    rw [idle] at s
    show Sender _ _ (w.host Y) (framesOf Y [_])
    rw [framesOf_cons]
    split
    · exact s.push pump hold
    · exact s
  · intro Y
    show calls (framesOf Y [_]) = calls (framesOf Y w.stack)
    rw [idle, framesOf_cons]
    split
    · simp [calls, call]
    · rfl
  · intro Y none
    rw [idle] at none
    cases none
  · intro e mem
    obtain rfl := List.mem_singleton.mp mem
    constructor
    · rintro buf rfl
      cases hold
    · rintro buf plen rfl
      cases hold

/-- The sessions and the program around them keep the invariant, if the guard is met. -/
lemma local_step (h : Inv p w) (guard : w.Guarded) (st : System.Local w w') : Inv p w' := by
  obtain ⟨g, core, act⟩ := h
  cases st with
  | exec ne =>
    obtain ⟨e, rest, st⟩ := List.exists_cons_of_ne_nil ne
    rw [st] at act
    exact core.exec st (fun e' mem => act e' (List.mem_cons_of_mem e mem))
      (.inl (act e List.mem_cons_self)) (guard e rest st)
  | send X data idle => exact push ⟨g, core, act⟩ idle X _ rfl rfl rfl
  | tick X idle => exact push ⟨g, core, act⟩ idle X _ rfl rfl rfl
  | program X ops tape idle =>
    refine ⟨g, core.of_outside ?_ ?_ (fun Y => rfl) (fun Y => id) rfl, ?_⟩
    · intro Y
      rcases X.eq_or_peer Y with rfl | rfl
      · rw [w.put_self]
        exact (core.sender Y).program ops tape
      · rw [w.put_peer]
        exact core.sender X.peer
    · intro Y
      rcases X.eq_or_peer Y with rfl | rfl
      · exact ⟨_, _, w.put_self Y _⟩
      · exact ⟨_, _, w.put_peer X _⟩
    · intro e mem
      have mem' : e ∈ w.stack := mem
      rw [idle] at mem'
      cases mem'

/-- A datagram arrives, over the calls that are active, and `on_packet_received` starts on it. -/
lemma arrive {X : Host} {bytes : Bytes} {buf : ℕ} {s : TcpLiteSession} (h : Inv p w)
    (arr : (w.host X).arrive bytes = some (buf, s)) (fit : bytes.length ≤ mtu) (stamp : ℕ)
    (what : (readChecked.run (s.pool.view buf)).2 = false ∨
      ∃ c ∈ w.net, c.src = X.peer ∧ w.Fresh c ∧ stamp = c.stamp c.src ∧ c.bytes = bytes) :
    Inv p (w.hand X buf s stamp w.stack).exec := by
  obtain ⟨g, core, act⟩ := h
  obtain ⟨core', act', arrived⟩ := core.arrived act arr fit stamp what
  exact core'.exec rfl act' (.inr arrived) ⟨nofun, nofun, nofun⟩

end Inv

end UxNet.TcpLite
