import UxNet.TcpLite.Calls

/-!
# Recovery

Whatever the network has done so far, one round without loss drains the window of a sender: `tick`
transmits everything that is unacknowledged, the peer receives it and acknowledges it with its own
`tick`.

`Lined` is what a round needs of a sender and its receiver, in one direction only: the queue of the
sender holds what has been sent from number `una` on (`Retained`), and the receiver has everything below
`una`, and of the rest only packets of the sender. It holds between two calls over a network that
measures the age of a copy from the first transmission of its packet (`System.Net.lined`), and a round
keeps it (`Lined.round`).
-/

namespace UxNet.TcpLite

open TcpLiteSession Reassembly

/-! ## Slots without a packet -/

/-- A slot whose bit is clear holds nothing. -/
def Inbox.Vacant (b : Inbox) : Prop :=
  ∀ k < 256, b.bitmap.received.getLsbD k = false →
    b.reasm (slotIdx (b.bitmap.baseSeq + BitVec.ofNat 32 k)) = []

/-- Numbers of one window have different slots. -/
lemma slotIdx_add_ne (seq : BitVec 32) {i j : ℕ} (lt : i < j) (near : j < i + 256) :
    slotIdx (seq + BitVec.ofNat 32 i) ≠ slotIdx (seq + BitVec.ofNat 32 j) := by
  have sum : ∀ k, seq + BitVec.ofNat 32 k = BitVec.ofNat 32 (seq.toNat + k) := by
    intro k
    rw [BitVec.ofNat_add, BitVec.ofNat_toNat, BitVec.setWidth_eq]
  rw [sum, sum]
  exact slotIdx_ne (by omega) (by omega)

namespace Inbox.Vacant

variable {b : Inbox}

/-- Storing a packet fills the slot whose bit it sets. -/
lemma store (h : b.Vacant) (seq : BitVec 32) (payload : Bytes) : (b.store seq payload).Vacant := by
  have mark := b.bitmap.markReceived_eq seq
  unfold Inbox.store
  split
  · rename_i fresh
    split at mark
    · rename_i new
      rw [mark]
      -- the payload goes to the slot of its own number, and the bit of that one is set
      intro k lt clear
      have at' : seq = b.bitmap.baseSeq + BitVec.ofNat 32 (seq - b.bitmap.baseSeq).toNat := by
        rw [BitVec.ofNat_toNat, BitVec.setWidth_eq, BitVec.add_comm, BitVec.sub_add_cancel]
      generalize (seq - b.bitmap.baseSeq).toNat = off at new at' clear
      have ne : off ≠ k := by
        rintro rfl
        simp [new.1] at clear
      have old : b.bitmap.received.getLsbD k = false := by
        simp only [BitVec.getLsbD_or, Bool.or_eq_false_iff] at clear
        exact clear.1
      rw [at']
      have apart : slotIdx (b.bitmap.baseSeq + BitVec.ofNat 32 k)
          ≠ slotIdx (b.bitmap.baseSeq + BitVec.ofNat 32 off) := by
        rcases Nat.lt_or_gt_of_ne ne with less | more
        · exact (slotIdx_add_ne _ less (by omega)).symm
        · exact slotIdx_add_ne _ more (by omega)
      exact (Function.update_of_ne apart _ _).trans (h k lt old)
    · rw [mark] at fresh
      cases fresh
  · exact h

/-- Delivering a packet empties the slot whose bit it clears. -/
lemma pass (h : b.Vacant) : b.pass.Vacant := by
  have bitmap := b.bitmap.advance_one
  intro k lt clear
  rw [Inbox.pass, bitmap] at clear ⊢
  dsimp only at clear ⊢
  rw [BitVec.getLsbD_ushiftRight] at clear
  have next : b.bitmap.baseSeq + 1 + BitVec.ofNat 32 k = b.bitmap.baseSeq + BitVec.ofNat 32 (1 + k) := by
    rw [BitVec.ofNat_add, ← BitVec.add_assoc]
    rfl
  rw [next]
  rcases Nat.lt_or_ge (1 + k) 256 with inside | last
  · have apart := slotIdx_add_ne b.bitmap.baseSeq (i := 0) (j := 1 + k) (by omega) (by omega)
    rw [show b.bitmap.baseSeq + BitVec.ofNat 32 0 = b.bitmap.baseSeq from BitVec.add_zero _] at apart
    rw [Function.update_of_ne apart.symm]
    exact h _ inside clear
  · -- the slot of the last number of the new window is the one that was just cleared
    have same : slotIdx (b.bitmap.baseSeq + BitVec.ofNat 32 (1 + k)) = slotIdx b.bitmap.baseSeq := by
      obtain rfl : k = 255 := by omega
      apply Fin.ext
      rw [slotIdx_val, slotIdx_val, BitVec.toNat_add]
      show (b.bitmap.baseSeq.toNat + 256) % 2 ^ 32 % 256 = _
      omega
    rw [same, Function.update_self]

end Inbox.Vacant

/-- The code between two callbacks keeps the slots without a packet empty. -/
lemma Case.vacant {s s' : TcpLiteSession} {f : Frame} {new : List Frame} (c : Case s f s' new)
    (h : s.inbox.Vacant) (top : ∀ seq, f = .delivered seq → seq = s.recvBitmap.baseSeq) :
    s'.inbox.Vacant := by
  cases c with
  | pumpStop _ =>
    obtain ⟨_, _, e, _⟩ := pumpReset_frame s
    rw [e]
    exact h
  | pumpFull _ _ =>
    obtain ⟨_, _, e, _⟩ := pumpReset_frame { s with pool := _, tape := s.rest }
    rw [e]
    exact h
  | ack _ _ =>
    rw [takeAck_inbox]
    exact h
  | store _ =>
    rw [storeData_inbox rfl rfl]
    exact h.store _ _
  | delivered =>
    obtain rfl := top _ rfl
    exact h.pass
  | _ => exact h

/-! ## Runs of a session that take no ACK -/

/-- A session none of whose calls is before the ACK part of `on_packet_received`. -/
structure Steady (size n una : ℕ) (P : List Bytes) (c : Config) : Prop where
  sender : Sender size n c.session c.stack
  quiet : Quiet c.stack
  retained : Retained una c.session
  past : ∀ f ∈ c.stack, ∀ buf, f ≠ .receive buf
  pre : P <+: c.session.log.packets

namespace Steady

variable {size n una : ℕ} {P : List Bytes} {c c' : Config}

/-- The code between two callbacks takes no ACK. -/
lemma exec (h : Steady size n una P c) (ex : Config.Exec c c') : Steady size n una P c' := by
  cases ex with
  | @step s f fs =>
    have code := exec_case s f
    generalize TcpLite.exec s f = r at code
    have here : ∀ buf, f ≠ .receive buf := h.past f List.mem_cons_self
    obtain ⟨packets, una⟩ : s.log.packets <+: r.1.log.packets ∧ r.1.sndUna = s.sndUna := by
      rcases code.numbers with ⟨_, more, una, _⟩ | ⟨same, una | ⟨buf, _, eq, _⟩⟩
      · exact ⟨⟨_, more.symm⟩, una⟩
      · exact ⟨⟨[], by rw [same, List.append_nil]⟩, una⟩
      · exact absurd eq (here buf)
    refine ⟨h.sender.exec code h.quiet.guard, h.quiet.exec code,
      h.retained.exec code h.sender h.quiet.guard una, ?_, h.pre.trans packets⟩
    intro g mem
    rcases List.mem_append.mp mem with mem | mem
    · exact (code.calls_data mem).1
    · exact h.past g (List.mem_cons_of_mem f mem)

/-- Nor does a run of it. -/
lemma execs (h : Steady size n una P c) (run : Config.Execs c c') : Steady size n una P c' := by
  induction run with
  | refl => exact h
  | tail _ st ih => exact ih.exec st

end Steady

section Calls

variable {size n una m : ℕ} {s t : TcpLiteSession} {seq : BitVec 32}

/-- `tick` takes no ACK. -/
lemma Retained.tick (h : Retained una s) (sender : Sender size n s []) :
    Steady size n una s.log.packets ⟨s.tick, []⟩ := by
  have start : Steady size n una s.log.packets ⟨s, [.tick]⟩ := by
    refine ⟨sender.push rfl rfl, .inl rfl, h, ?_, List.prefix_rfl⟩
    intro f mem buf
    obtain rfl := List.mem_singleton.mp mem
    exact nofun
  exact start.execs (tick_execs s [])

/-- `send` takes no ACK. -/
lemma Retained.send (h : Retained una s) (sender : Sender size n s []) (data : Bytes) :
    Steady size n una s.log.packets ⟨s.send data, []⟩ := by
  have start : Steady size n una s.log.packets ⟨s, [.sends [data]]⟩ := by
    refine ⟨sender.push rfl rfl, .inl rfl, h, ?_, List.prefix_rfl⟩
    intro f mem buf
    obtain rfl := List.mem_singleton.mp mem
    exact nofun
  exact start.execs (sends_execs s [data] [])

/-- A datagram is delivered whose ACK number is not behind. -/
lemma Retained.deliver {d : Bytes} (h : Retained una s) (sender : Sender size n s [])
    (carries : CarriesAck (BitVec.ofNat 32 m) d) (e : s.deliver d = some t) (le : una ≤ m)
    (sent : m ≤ s.log.packets.length) : Steady size n m s.log.packets ⟨t, []⟩ := by
  have upper := h.upper
  have ahead : 0 < (BitVec.ofNat 32 m - s.sndUna).toInt ↔ una < m := by
    rw [h.una]
    exact Serial.toInt_pos_iff (by omega) (by omega)
  obtain ⟨u, pool, buf, plen, s', new, same, call, code, run, first⟩ := deliver_starts sender carries e
  have alone : Quiet [.receive buf] := .inl rfl
  have called := call.exec code alone.guard
  have quiet := alone.exec code
  rw [List.append_nil] at called quiet
  rw [ahead] at first
  have start : Retained una u := by
    rw [same]
    exact h.of_same rfl (fun _ => rfl) rfl
  have packets : u.log.packets = s.log.packets := by rw [same]
  -- The first step takes the ACK or not; none is taken after it.
  refine Steady.execs ⟨called, quiet, ?_, fun g mem => (code.calls_data mem).1, ?_⟩ run
  · rcases first with ⟨later, rfl, _⟩ | ⟨not, rfl, _⟩
    · exact start.takeAck rfl later (packets ▸ sent)
    · obtain rfl : una = m := by omega
      exact start
  · rcases code.numbers with ⟨⟨eq, _⟩, _⟩ | ⟨more, _⟩
    · cases eq
    · exact ⟨[], (List.append_nil _).trans (packets.symm.trans more.symm)⟩

end Calls

/-! ## A sender and its receiver -/

/-- Datagrams are delivered one after another, each to a buffer that is available by then. -/
inductive TcpLiteSession.Delivers : TcpLiteSession → List Bytes → TcpLiteSession → Prop where
  | nil {s} :
    Delivers s [] s
  | program {s ds t} (ops : List CallerOp) (tape : Tape) :
    Delivers (s.program ops tape) ds t →
    Delivers s ds t
  | deliver {s d ds u t} :
    s.deliver d = some u →
    Delivers u ds t →
    Delivers s (d :: ds) t

/-- What a sender `a` keeps and what its receiver `b` has. -/
structure Lined (size n size' n' : ℕ) (a b : TcpLiteSession) (una : ℕ) (first : ℕ → Option Bytes) :
    Prop where
  sender : Sender size n a []
  peer : Sender size' n' b []
  retained : Retained una a
  inbox : b.inbox.At first (base first)
  sub : ∀ i x, first i = some x → ∃ bs, a.log.packets[i]? = some bs ∧ payloadOf bs = x
  below : una ≤ base first

/-- What a round may bring to the receiver: a packet of the last windows, or a pure ACK. -/
def Comes (a : TcpLiteSession) (d : Bytes) : Prop :=
  (∃ j, a.log.packets[j]? = some d ∧ a.log.packets.length ≤ j + 512) ∨
    ∃ seq ack, d = (TcpLiteHeader.makeAck seq ack).toBytes

namespace Lined

variable {size n size' n' una : ℕ} {a a' b t : TcpLiteSession} {first : ℕ → Option Bytes} {d : Bytes}

/-- No more is expected than was sent. -/
lemma base_le (h : Lined size n size' n' a b una first) : base first ≤ a.log.packets.length := by
  by_contra lt
  obtain ⟨x, hx⟩ := Option.ne_none_iff_exists'.mp (h.inbox.below a.log.packets.length (by omega))
  obtain ⟨bs, get, _⟩ := h.sub _ x hx
  exact absurd (List.getElem?_eq_some_iff.mp get).1 (lt_irrefl _)

/-- What the receiver has delivered. -/
lemma delivered (h : Lined size n size' n' a b una first) :
    b.log.delivered = (a.log.packets.map payloadOf).take (base first) := by
  have le := h.base_le
  have all : b.log.delivered.map some = ((a.log.packets.map payloadOf).take (base first)).map some := by
    refine h.inbox.delivered.trans (List.ext_getElem ?_ ?_)
    · simp only [List.length_map, List.length_range, List.length_take]
      omega
    · intro i lt lt'
      rw [List.length_map, List.length_range] at lt
      obtain ⟨x, there⟩ := Option.ne_none_iff_exists'.mp (h.inbox.below i lt)
      obtain ⟨bs, get, rfl⟩ := h.sub i x there
      obtain ⟨_, rfl⟩ := List.getElem?_eq_some_iff.mp get
      rw [List.getElem_map, List.getElem_range, there, List.getElem_map, List.getElem_take,
        List.getElem_map]
  exact List.map_injective_iff.mpr (Option.some_injective _) all

/-- The sender goes on and takes no ACK behind what the receiver has. -/
lemma send {una' : ℕ} (h : Lined size n size' n' a b una first)
    (run : Steady size n una' a.log.packets ⟨a', []⟩) (le : una' ≤ base first) :
    Lined size n size' n' a' b una' first where
  sender := run.sender
  peer := h.peer
  retained := run.retained
  inbox := h.inbox
  sub := by
    intro i x hx
    obtain ⟨bs, get, eq⟩ := h.sub i x hx
    obtain ⟨more, pre⟩ := run.pre
    refine ⟨bs, ?_, eq⟩
    show a'.log.packets[i]? = some bs
    rw [← pre, List.getElem?_append_left (List.getElem?_eq_some_iff.mp get).1]
    exact get
  below := le

/-- A `tick` of the sender keeps the two in line. -/
lemma tick (h : Lined size n size' n' a b una first) : Lined size n size' n' a.tick b una first :=
  h.send (h.retained.tick h.sender) h.below

/-- So does the program. -/
lemma program (h : Lined size n size' n' a b una first) (ops : List CallerOp) (tape : Tape) :
    Lined size n size' n' (a.program ops tape) b una first where
  sender := h.sender.program ops tape
  peer := h.peer
  retained := h.retained.of_same rfl (fun _ => rfl) rfl
  inbox := h.inbox
  sub := h.sub
  below := h.below

/-- The receiver goes on and receives nothing. -/
lemma wait (h : Lined size n size' n' a b una first) (peer : Sender size' n' t [])
    (same : t.inbox = b.inbox) : Lined size n size' n' a t una first where
  sender := h.sender
  peer := peer
  retained := h.retained
  inbox := same ▸ h.inbox
  sub := h.sub
  below := h.below

/-- So does a `tick` of the receiver. -/
lemma tick_peer (h : Lined size n size' n' a b una first) : Lined size n size' n' a b.tick una first :=
  h.wait h.peer.tick (tick_inbox b)

/-- The ACK number that the receiver sends. -/
lemma peer_ack (h : Lined size n size' n' a b una first) :
    b.recvBitmap.cumulativeAck = BitVec.ofNat 32 (base first) :=
  h.inbox.cumulativeAck.trans h.inbox.base

/-- The receiver gets a packet of the last windows. -/
lemma receive {j : ℕ} (h : Lined size n size' n' a b una first) (get : a.log.packets[j]? = some d)
    (near : a.log.packets.length ≤ j + 512) (e : b.deliver d = some t) :
    Lined size n size' n' a t una (arrive 256 first (BitVec.ofNat 32 j, payloadOf d)) ∧
      (∀ i, first i ≠ none → arrive 256 first (BitVec.ofNat 32 j, payloadOf d) i ≠ none) ∧
      arrive 256 first (BitVec.ofNat 32 j, payloadOf d) j ≠ none ∧ t.pendingAck = true := by
  obtain ⟨ack, pkt⟩ := h.sender.packets j d get
  obtain ⟨inbox, pending⟩ := deliver_packet h.peer e pkt
  have peer := h.peer.deliver e pkt.length_le
  have lt := (List.getElem?_eq_some_iff.mp get).1
  have le := h.base_le
  have upper := h.retained.upper
  have below := h.below
  have arrived : arrive 256 first (BitVec.ofNat 32 j, payloadOf d)
      = fun i => (first i).or (if j = i ∧ base first ≤ j then some (payloadOf d) else none) :=
    arrive_ofNat (by decide) (by decide) (by omega) (by omega) _
  have now := (h.inbox.store h.inbox.base_mem.1 (BitVec.ofNat 32 j) (payloadOf d)).deliver
  rw [← inbox] at now
  rw [arrived] at now ⊢
  have keep : ∀ i, first i ≠ none →
      (first i).or (if j = i ∧ base first ≤ j then some (payloadOf d) else none) ≠ none := by
    intro i there
    obtain ⟨x, hx⟩ := Option.ne_none_iff_exists'.mp there
    rw [hx]
    exact Option.some_ne_none x
  refine ⟨⟨h.sender, peer, h.retained, now, ?_, ?_⟩, keep, ?_, pending⟩
  · intro i x hx
    rcases Option.or_eq_some_iff.mp hx with old | ⟨_, new⟩
    · exact h.sub i x old
    · split at new
      · rename_i here
        obtain ⟨rfl, _⟩ := here
        exact ⟨d, get, Option.some.inj new⟩
      · cases new
  · refine h.below.trans ?_
    by_contra more
    exact keep _ (h.inbox.below _ (by omega)) now.base_mem.1
  · rcases Nat.lt_or_ge j (base first) with behind | ahead
    · exact keep j (h.inbox.below j behind)
    · show (first j).or (if j = j ∧ base first ≤ j then some (payloadOf d) else none) ≠ none
      rw [if_pos ⟨rfl, ahead⟩]
      cases first j with
      | none => exact Option.some_ne_none _
      | some x => exact Option.some_ne_none x

/-- The receiver gets packets of the last windows and pure ACKs. -/
lemma delivers {ds : List Bytes} (h : Lined size n size' n' a b una first) (run : b.Delivers ds t)
    (each : ∀ d ∈ ds, Comes a d) :
    ∃ first', Lined size n size' n' a t una first' ∧ (∀ i, first i ≠ none → first' i ≠ none) ∧
      (b.pendingAck = true → t.pendingAck = true) ∧
      ∀ d ∈ ds, ∀ j, a.log.packets[j]? = some d → a.log.packets.length ≤ j + 512 →
        first' j ≠ none ∧ t.pendingAck = true := by
  induction run generalizing first with
  | nil => exact ⟨first, h, fun _ => id, id, fun d mem => absurd mem List.not_mem_nil⟩
  | program ops tape _ ih => exact ih (h.wait (h.peer.program ops tape) rfl) each
  | @deliver s d ds u t e _ ih =>
    have each' : ∀ d ∈ ds, Comes a d := fun d mem => each d (List.mem_cons_of_mem _ mem)
    rcases each d List.mem_cons_self with ⟨j, get, near⟩ | ⟨seq, ack, rfl⟩
    · obtain ⟨h', keep, there, pending⟩ := h.receive get near e
      obtain ⟨first', done, keep', pending', rest⟩ := ih h' each'
      refine ⟨first', done, fun i hi => keep' i (keep i hi), fun _ => pending' pending, ?_⟩
      intro d' mem j' get' near'
      rcases List.mem_cons.mp mem with rfl | mem
      · -- the bytes of a packet give its number
        obtain ⟨_, pkt⟩ := h.sender.packets j d' get
        obtain ⟨_, pkt'⟩ := h.sender.packets j' d' get'
        have lt := (List.getElem?_eq_some_iff.mp get).1
        have lt' := (List.getElem?_eq_some_iff.mp get').1
        have same : BitVec.ofNat 32 j = BitVec.ofNat 32 j' :=
          pkt.header.2.2.1.symm.trans pkt'.header.2.2.1
        obtain rfl : j = j' := by
          rcases Nat.le_total j j' with le | le
          · exact (Serial.ofNat_inj_of_near le (by omega) same.symm).symm
          · exact Serial.ofNat_inj_of_near le (by omega) same
        exact ⟨keep' j there, pending' pending⟩
      · exact rest d' mem j' get' near'
    · obtain ⟨inbox, pending, _⟩ := deliver_ack h.peer e
      have peer := h.peer.deliver e (carriesAck_makeAck seq ack).1
      obtain ⟨first', done, keep', pending', rest⟩ := ih (h.wait peer inbox) each'
      refine ⟨first', done, keep', fun p => pending' (pending.trans p), ?_⟩
      intro d' mem j' get' near'
      rcases List.mem_cons.mp mem with rfl | mem
      · obtain ⟨_, pkt⟩ := h.sender.packets j' _ get'
        obtain ⟨payload, pos, _, eq⟩ := pkt
        have len := congrArg List.length eq
        rw [TcpLiteHeader.length_toBytes, TcpLiteHeader.length_encode] at len
        omega
      · exact rest d' mem j' get' near'

end Lined

/-! ## A round without loss -/

/-- The clock is at least the timeout past every time at which a packet that is held was last sent. -/
def TcpLiteSession.Expired (s : TcpLiteSession) : Prop :=
  ∀ k, (s.unacked.slots k).occupied = true →
    (s.unacked.slots k).sentTsc.toNat + (s.clock.nsToCycles s.rtoNs).toNat ≤ (s.tape 0).tsc.toNat

/-- A loss-free round: `tick` once everything has timed out, the peer receives all it transmits, in any
order, and the ACK of the peer's `tick` is delivered. -/
structure TcpLiteSession.Round (a b b' a' : TcpLiteSession) : Prop where
  expired : a.Expired
  received : ∃ order : List Bytes, order.Perm ((transmitted a a.tick).map (·.bytes)) ∧ b.Delivers order b'
  acked : a.tick.Delivers (((transmitted b' b'.tick).filter (·.kind = .ack)).map (·.bytes)) a'

/-- What has expired is sent again. -/
lemma TcpLiteSession.Expired.mem_timedOut {s : TcpLiteSession} {seq : BitVec 32} (h : s.Expired)
    (occ : s.unacked.occupied seq = true) : seq ∈ s.timedOut := by
  obtain ⟨occ, eq⟩ := UnackedQueue.occupied_iff.mp occ
  have late := h _ occ
  refine List.mem_map.mpr ⟨slotIdx seq, List.mem_filter.mpr ⟨List.mem_finRange _, ?_⟩, eq⟩
  rw [occ, Bool.true_and, decide_eq_true_eq, BitVec.le_def,
    BitVec.toNat_sub_of_le (BitVec.le_def.mpr (by omega))]
  omega

/-- The ACKs that `tick` transmits. -/
lemma transmitted_acks (s : TcpLiteSession) :
    (transmitted s s.tick).filter (·.kind = .ack) = s.owedAck := by
  obtain ⟨ds, _, _, wire⟩ := tick_wire s
  have again := s.again_filter s.timedOut (show TxKind.ack ≠ .retransmit from nofun)
  have data : (ds.map (Transmission.mk .data)).filter (·.kind = .ack) = [] := by
    apply List.filter_eq_nil_iff.mpr
    intro x mem
    obtain ⟨_, _, rfl⟩ := List.mem_map.mp mem
    simp
  rw [wire, List.filter_append, List.filter_append, again, data, owedAck]
  split
  · rfl
  · rfl

section Tick

variable {size n una : ℕ} {s : TcpLiteSession}

/-- `tick` transmits packets of the last windows and pure ACKs. -/
lemma Retained.tick_comes (h : Retained una s) (sender : Sender size n s []) {d : Bytes}
    (mem : d ∈ (transmitted s s.tick).map (·.bytes)) : Comes s.tick d := by
  have upper := (h.tick sender).retained.upper
  have lower := h.lower
  obtain ⟨ds, packets, _, wire⟩ := tick_wire s
  rw [wire] at mem
  obtain ⟨x, mem', rfl⟩ := List.mem_map.mp mem
  rcases List.mem_append.mp mem' with mem | mem
  · left
    rcases List.mem_append.mp mem with mem | mem
    · obtain ⟨seq, _, hx⟩ := List.mem_filterMap.mp mem
      obtain ⟨buf, hb, rfl⟩ := Option.map_eq_some_iff.mp hx
      obtain ⟨j, _, get, near⟩ := sender.bufferFor hb
      refine ⟨j, ?_, ?_⟩
      · rw [packets, List.getElem?_append_left (List.getElem?_eq_some_iff.mp get).1]
        exact get
      · exact Nat.le_trans upper (by omega)
    · obtain ⟨d, new, rfl⟩ := List.mem_map.mp mem
      obtain ⟨i, get⟩ := List.mem_iff_getElem?.mp new
      refine ⟨s.log.packets.length + i, ?_, ?_⟩
      · rw [packets, List.getElem?_append_right (Nat.le_add_right _ _), Nat.add_sub_cancel_left]
        exact get
      · exact Nat.le_trans upper (by omega)
  · right
    unfold owedAck at mem
    split at mem
    · obtain rfl := List.mem_singleton.mp mem
      exact ⟨_, _, rfl⟩
    · cases mem

/-- `tick` transmits what has timed out and what is new. -/
lemma Retained.tick_covers {j : ℕ} (h : Retained una s) (sender : Sender size n s [])
    (due : j < s.log.packets.length → BitVec.ofNat 32 j ∈ s.timedOut) (lo : una ≤ j)
    (hi : j < s.tick.log.packets.length) :
    ∃ d ∈ (transmitted s s.tick).map (·.bytes), s.tick.log.packets[j]? = some d := by
  obtain ⟨ds, packets, _, wire⟩ := tick_wire s
  rw [wire]
  rcases Nat.lt_or_ge j s.log.packets.length with old | new
  · obtain ⟨buf, hb, get⟩ := h.stored sender lo old
    refine ⟨_, List.mem_map.mpr ⟨⟨.retransmit, s.pool.content buf⟩, ?_, rfl⟩, ?_⟩
    · apply List.mem_append_left
      apply List.mem_append_left
      exact List.mem_filterMap.mpr ⟨BitVec.ofNat 32 j, due old, Option.map_eq_some_iff.mpr ⟨buf, hb, rfl⟩⟩
    · rw [packets, List.getElem?_append_left old]
      exact get
  · obtain ⟨d, get⟩ : ∃ d, s.tick.log.packets[j]? = some d := ⟨_, List.getElem?_eq_getElem hi⟩
    refine ⟨d, List.mem_map.mpr ⟨⟨.data, d⟩, ?_, rfl⟩, get⟩
    rw [packets, List.getElem?_append_right new] at get
    apply List.mem_append_left
    apply List.mem_append_right
    exact List.mem_map_of_mem (List.mem_of_getElem? get)

end Tick

namespace Lined

variable {size n size' n' una : ℕ} {a a' b b' : TcpLiteSession} {first : ℕ → Option Bytes}

/-- The sender receives nothing, or a pure ACK that is not behind. -/
lemma acked {acks : List Bytes} {m : ℕ} (h : Lined size n size' n' a b una first)
    (run : a.Delivers acks a')
    (each : ∀ d ∈ acks, ∃ seq, d = (TcpLiteHeader.makeAck seq (BitVec.ofNat 32 m)).toBytes)
    (le : una ≤ m) (below : m ≤ base first) :
    Lined size n size' n' a' b (if acks = [] then una else m) first ∧
      a.log.packets <+: a'.log.packets := by
  induction run generalizing una with
  | nil => exact ⟨h, List.prefix_rfl⟩
  | program ops tape _ ih => exact ih (h.program ops tape) each le
  | @deliver s d ds u t e _ ih =>
    obtain ⟨seq, rfl⟩ := each _ List.mem_cons_self
    have run := h.retained.deliver h.sender (carriesAck_makeAck _ _) e le (below.trans h.base_le)
    obtain ⟨done, pre⟩ := ih (h.send run below) (fun d mem => each d (List.mem_cons_of_mem _ mem)) le_rfl
    rw [ite_self] at done
    exact ⟨done, run.pre.trans pre⟩

/-- A loss-free round drains the window of the sender. -/
lemma round (h : Lined size n size' n' a b una first) (round : a.Round b b' a') :
    ∃ first', Lined size n size' n' a' b'.tick a.tick.log.packets.length first' ∧
      base first' = a.tick.log.packets.length ∧ a.tick.log.packets <+: a'.log.packets := by
  obtain ⟨order, perm, received⟩ := round.received
  have ticked := h.tick
  obtain ⟨first', got, keep, _, each⟩ := ticked.delivers received fun d mem =>
    h.retained.tick_comes h.sender (perm.mem_iff.mp mem)
  -- everything unacknowledged has timed out, so that `tick` sends it and the peer gets it
  have all : ∀ j, una ≤ j → j < a.tick.log.packets.length → first' j ≠ none ∧ b'.pendingAck = true := by
    intro j lo hi
    have upper := ticked.retained.upper
    obtain ⟨d, mem, get⟩ := h.retained.tick_covers h.sender
      (fun old => round.expired.mem_timedOut (h.retained.slots j lo old)) lo hi
    exact each d (perm.mem_iff.mpr mem) j get (by omega)
  have full : base first' = a.tick.log.packets.length := by
    apply le_antisymm got.base_le
    by_contra less
    refine (all (base first') ?_ (by omega)).1 got.inbox.base_mem.1
    exact got.below
  have acks := transmitted_acks b'
  obtain ⟨done, pre⟩ := got.tick_peer.acked round.acked (m := a.tick.log.packets.length) (by
    rw [acks, owedAck, got.peer_ack, full]
    intro d mem
    split at mem
    · obtain rfl := List.mem_singleton.mp mem
      exact ⟨_, rfl⟩
    · cases mem) ticked.retained.lower full.ge
  refine ⟨first', ?_, full, pre⟩
  -- without an ACK there was nothing to acknowledge
  split at done
  · rename_i none
    obtain rfl : una = a.tick.log.packets.length := by
      apply le_antisymm ticked.retained.lower
      by_contra less
      obtain ⟨_, pending⟩ := all una le_rfl (by omega)
      rw [acks, owedAck, if_pos pending] at none
      cases none
    exact done
  · exact done

end Lined

/-! ## Over the network -/

section Network

variable {p : Setup} {w w' : System} {fresh : System → Copy → Prop}

/-- A call that runs keeps the slots without a bit empty. -/
lemma System.exec_vacant {e : Entry} {rest : List Entry} (h : ∀ X, (w.host X).inbox.Vacant)
    (st : w.stack = e :: rest)
    (top : ∀ seq, e.frame = .delivered seq → seq = (w.host e.host).recvBitmap.baseSeq) (X : Host) :
    (w.exec.host X).inbox.Vacant := by
  have r := w.exec_ran st
  rcases e.host.eq_or_peer X with rfl | rfl
  · rw [r.self]
    exact r.code.vacant (h e.host) top
  · rw [r.peer]
    exact h e.host.peer

/-- A datagram that is handed to a session is not in its slots yet. -/
lemma System.hand_vacant {Y : Host} {bytes : Bytes} {buf stamp : ℕ} {s : TcpLiteSession}
    (h : ∀ X, (w.host X).inbox.Vacant) (arr : (w.host Y).arrive bytes = some (buf, s)) (X : Host) :
    ((w.hand Y buf s stamp []).exec.host X).inbox.Vacant := by
  refine System.exec_vacant ?_ rfl (fun seq eq => by cases eq) X
  intro Z
  obtain ⟨_, _, e⟩ := System.hand_same arr stamp [] Z
  rw [e]
  exact h Z

/-- So does every run. -/
lemma System.Net.vacant (le : ∀ w c, fresh w c → w.Fresh c)
    (run : Relation.ReflTransGen (System.Net fresh) (.fresh p) w) (X : Host) :
    (w.host X).inbox.Vacant := by
  induction run generalizing X with
  | refl => exact fun _ _ _ => rfl
  | @tail w w' before st ih =>
    cases st with
    | call st =>
      cases st with
      | exec ne =>
        obtain ⟨⟨g, core, _⟩, _⟩ := System.Net.steps_inv le before
        obtain ⟨e, rest, st⟩ := List.exists_cons_of_ne_nil ne
        refine System.exec_vacant ih st ?_ X
        intro seq eq
        have called := (core.receiver e.host).called
        rw [framesOf_self st, eq] at called
        rcases called with none | ⟨one, _⟩
        · cases none
        · exact (List.cons.inj one).1
      | send Y data idle => exact ih X
      | tick Y idle => exact ih X
      | program Y ops tape idle =>
        rcases Y.eq_or_peer X with rfl | rfl
        · rw [w.put_self]
          exact ih X
        · rw [w.put_peer]
          exact ih Y.peer
    | deliver idle mem ok arr => exact System.hand_vacant ih arr X
    | corrupt Y bytes idle fit arr bad => exact System.hand_vacant ih arr X

end Network

section Pieces

/-- The payloads that a receiver of the packets `P` has, by number: those it has delivered, and those
whose bits are set. -/
def pieces (P : List Bytes) (s : TcpLiteSession) (i : ℕ) : Option Bytes :=
  if i < s.log.delivered.length ∨ s.recvBitmap.received.getLsbD (i - s.log.delivered.length) = true then
    P[i]?.map payloadOf
  else none

variable {P : List Bytes} {s : TcpLiteSession}

/-- Ahead of what is delivered, the bits tell which pieces are there. -/
lemma pieces_ahead (P : List Bytes) (s : TcpLiteSession) (k : ℕ) :
    pieces P s (s.log.delivered.length + k)
      = if s.recvBitmap.received.getLsbD k = true then P[s.log.delivered.length + k]?.map payloadOf
        else none := by
  unfold pieces
  rw [Nat.add_sub_cancel_left]
  exact if_congr (or_iff_right (by omega)) rfl rfl

/-- A piece is the payload of its packet. -/
lemma pieces_sub {i : ℕ} {x : Bytes} (there : pieces P s i = some x) :
    ∃ bs, P[i]? = some bs ∧ payloadOf bs = x := by
  unfold pieces at there
  split at there
  · exact Option.map_eq_some_iff.mp there
  · cases there

/-- What is delivered is what has come without a gap. -/
lemma Receiver.base_pieces (h : Receiver P s []) :
    Reassembly.base (pieces P s) = s.log.delivered.length := by
  apply base_eq
  · intro i lt
    have in_range := lt_of_lt_of_le lt h.delivered_le
    rw [pieces, if_pos (.inl lt), List.getElem?_eq_getElem in_range]
    exact Option.some_ne_none _
  · have clear : ¬ s.recvBitmap.received.getLsbD 0 = true := by
      intro set
      cases h.calm set
    exact (pieces_ahead P s 0).trans (if_neg clear)

/-- The receive side between two calls holds packets of the peer, and nothing else. -/
lemma Receiver.inbox_at (h : Receiver P s []) (vacant : s.inbox.Vacant) :
    s.inbox.At (pieces P s) (Reassembly.base (pieces P s)) := by
  have none : returned s [] = s.log.delivered.length := Nat.sub_zero _
  have le := h.delivered_le
  have start := h.base
  have bits := h.bits
  have counted := h.counted
  rw [none] at start bits counted
  rw [List.take_length] at counted
  have slot : ∀ k, s.recvBitmap.received.getLsbD k = true →
      P[s.log.delivered.length + k]?.map payloadOf
        = some (s.reasm (slotIdx (BitVec.ofNat 32 (s.log.delivered.length + k)))) := by
    intro k set
    obtain ⟨bs, get, eq⟩ := bits k set
    rw [get, eq]
    rfl
  have below : ∀ i < s.log.delivered.length, pieces P s i = P[i]?.map payloadOf :=
    fun i lt => if_pos (.inl lt)
  rw [h.base_pieces]
  refine ⟨⟨?_, ?_⟩, start, ?_, ?_, ?_, counted⟩
  · intro i lt
    rw [below i lt, List.getElem?_eq_getElem (by omega)]
    exact Option.some_ne_none _
  · intro i ge
    obtain ⟨k, rfl⟩ := Nat.exists_eq_add_of_le ge
    rw [Nat.add_assoc, pieces_ahead, BitVec.getLsbD_of_ge _ _ (Nat.le_add_right _ _)]
    rfl
  · show s.log.delivered.map some = _
    refine List.ext_getElem (by simp) ?_
    intro i lt lt'
    rw [List.length_map] at lt
    have get : s.log.delivered[i]? = P[i]?.map payloadOf := by
      rw [h.delivered, List.getElem?_take_of_lt lt, List.getElem?_map]
    rw [List.getElem_map, List.getElem_map, List.getElem_range, below i lt, ← get,
      List.getElem?_eq_getElem lt]
  · intro k lt
    rw [pieces_ahead]
    split
    · rename_i set
      rw [slot k set]
      exact set
    · rename_i unset
      exact Bool.eq_false_iff.mpr unset
  · intro k lt
    rw [pieces_ahead]
    split
    · rename_i set
      rw [slot k set]
      rfl
    · rename_i unset
      have empty := vacant k lt (Bool.eq_false_iff.mpr unset)
      rw [show s.inbox.bitmap.baseSeq = _ from start, ← BitVec.ofNat_add] at empty
      exact empty

end Pieces

/-- Between two calls each side and its peer are in line. -/
lemma System.Net.lined {p : Setup} {w : System}
    (run : Relation.ReflTransGen (System.Net System.FreshBorn) (.fresh p) w) (idle : w.stack = [])
    (X : Host) :
    ∃ una, Lined (p.size X) (p.count X) (p.size X.peer) (p.count X.peer) (w.host X) (w.host X.peer) una
      (pieces (w.host X).log.packets (w.host X.peer)) := by
  obtain ⟨agreed, ⟨g, core, _⟩, _⟩ := System.Net.steps_agreed run
  obtain ⟨una, retained, below⟩ := agreed.una X
  have none : ∀ Y, framesOf Y w.stack = [] := fun Y => congrArg (framesOf Y) idle
  have sender := core.sender
  have receiver := core.receiver X.peer
  rw [Host.peer_peer] at receiver
  simp only [none] at sender receiver
  refine ⟨una, sender X, sender X.peer, retained, ?_, fun i x => pieces_sub, ?_⟩
  · exact receiver.inbox_at (System.Net.vacant (fun _ _ h => h.1) run X.peer)
  · rw [receiver.base_pieces]
    exact below.trans (Nat.sub_le _ _)

/-- Recovery. From every state between two calls of every run over a network that delivers a copy only
while neither side has assigned more than `2 ^ 30` sequence numbers since the packet it is a copy of was
first transmitted, one loss-free round drains the window of a side: `base_seq_` of the peer and
`snd_una_` are `next_seq_` as `tick` left it, and the data callback of the peer has been given all
packets made by then. -/
theorem round_drains (p : Setup) (w : System)
    (run : Relation.ReflTransGen (System.Net System.FreshBorn) (.fresh p) w) (idle : w.stack = [])
    (X : Host)
    (b' a' : TcpLiteSession) (round : (w.host X).Round (w.host X.peer) b' a') :
    b'.tick.recvBitmap.baseSeq = (w.host X).tick.nextSeq ∧
    a'.sndUna = (w.host X).tick.nextSeq ∧
    (w.host X).tick.nextSeq = BitVec.ofNat 32 (w.host X).tick.log.packets.length ∧
    b'.tick.log.delivered = (w.host X).tick.log.packets.map payloadOf := by
  obtain ⟨una, lined⟩ := System.Net.lined run idle X
  obtain ⟨first, done, full, more, pre⟩ := lined.round round
  have next := lined.tick.sender.nextSeq_eq rfl
  refine ⟨?_, ?_, next, ?_⟩
  · rw [next, ← full]
    exact done.inbox.base
  · rw [next]
    exact done.retained.una
  · rw [done.delivered, full, ← pre, List.map_append]
    exact List.take_left' (List.length_map _)

/-- The only packet of the side that has sent one byte. -/
def oneByte : Bytes := (System.sentOne.host .a).log.packets.headD []

/-- Its peer with that packet. -/
def gotOne : TcpLiteSession := ((System.sentOne.host .b).deliver oneByte).getD (System.sentOne.host .b)

/-- One round delivers one byte and gets it acknowledged. -/
theorem round_drains_one_byte :
    ∃ b' a', (System.sentOne.host .a).Round (System.sentOne.host .b) b' a' ∧
      b'.tick.log.delivered = [[7]] ∧ a'.sndUna = (System.sentOne.host .a).tick.nextSeq := by
  have idle : System.sentOne.stack = [] := List.isEmpty_iff.mp (by decide +kernel)
  have data : (transmitted (System.sentOne.host .a) (System.sentOne.host .a).tick).map (·.bytes)
      = [oneByte] := by decide +kernel
  have room : ((System.sentOne.host .b).deliver oneByte).isSome = true := by decide +kernel
  have ack : ((transmitted gotOne gotOne.tick).filter (·.kind = .ack)).map (·.bytes)
      = [(TcpLiteHeader.makeAck 0 1).toBytes] := by decide +kernel
  have room' :
      ((System.sentOne.host .a).tick.deliver (TcpLiteHeader.makeAck 0 1).toBytes).isSome = true := by
    decide +kernel
  have expired : (System.sentOne.host .a).Expired := by
    unfold Expired
    decide +kernel
  have got : (System.sentOne.host .b).deliver oneByte = some gotOne := by
    obtain ⟨t, e⟩ := Option.isSome_iff_exists.mp room
    rw [gotOne, e]
    rfl
  obtain ⟨a', acked⟩ := Option.isSome_iff_exists.mp room'
  have round : (System.sentOne.host .a).Round (System.sentOne.host .b) gotOne a' := by
    refine ⟨expired, ⟨[oneByte], by rw [data], .deliver got .nil⟩, ?_⟩
    rw [ack]
    exact .deliver acked .nil
  have drained := round_drains .small _ (System.send_net rfl 20 .a [7]) idle .a gotOne a' round
  exact ⟨gotOne, a', round, by decide +kernel, drained.2.1⟩

end UxNet.TcpLite
