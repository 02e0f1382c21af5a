import UxNet.TcpLite.Course

/-!
# Eventual delivery

Runs that never end and put nothing off forever. The network may still lose, repeat, reorder and delay, but
it is not against one datagram forever: what is transmitted again and again is delivered again and again.
Each side calls `tick` again and again, at some of these calls a packet that stays unacknowledged has timed
out, and at some of them a side without unacknowledged packets finds a free buffer (`System.Fair`). Then
everything that was passed to `send` gets to the data callback of the peer.

Two premises are not to be had from the network. A datagram is delivered to a buffer of the receiver's pool,
so that what is delivered again and again finds a free buffer there again and again; two sides whose pools
are all held for retransmission meet no such run. And as in `Agreement`, a copy is delivered only while
neither side has assigned more than `2 ^ 30` numbers since its packet was first transmitted (`FreshBorn`).

A packet that the peer lacks is held by the sender, so it is sent again until it arrives (`Course.rises`).
A packet that the peer has and that is not acknowledged is also sent again, each time it arrives the peer
owes an ACK, and since the ACKs that it then sends are finitely many byte strings, one of them gets through
(`Course.una_rises`). Once everything is acknowledged, `tick` makes a packet of what is pending
(`Course.packs`).
-/

namespace UxNet.TcpLite

open TcpLiteSession Reassembly Filter Endless

namespace System

/-- Nothing is put off forever: neither a `tick`, nor a timeout, nor a free buffer for a side that has none
in use, nor the delivery of a datagram, for which the receiver has a free buffer at that time. -/
structure Fair (w : ℕ → System) : Prop where
  ticks : ∀ X, ∃ᶠ i in atTop, Ticks X (w i) (w (i + 1))
  timeouts : ∀ X seq, (∀ᶠ i in atTop, ((w i).host X).unacked.occupied seq = true) →
    ∃ᶠ i in atTop, Ticks X (w i) (w (i + 1)) ∧ seq ∈ ((w i).host X).timedOut
  -- the second reading of the tape is the one that `pump_tx` makes
  buffers : ∀ X, (∀ᶠ i in atTop, ∀ k, (((w i).host X).unacked.slots k).occupied = false) →
    ∃ᶠ i in atTop, Ticks X (w i) (w (i + 1)) ∧
      (((w i).host X).pool.callerOps (((w i).host X).tape 1).ops).free ≠ []
  -- `Gets` takes a buffer from the pool of the receiver
  network : ∀ X d, (∃ᶠ i in atTop, Transmits X d (w i) (w (i + 1))) →
    ∃ᶠ i in atTop, Gets X.peer d (w i) (w (i + 1))

namespace Course

variable {p : Setup} {w : ℕ → System} {X : Host} {i j u : ℕ} {d : Bytes}

/-! ## A packet that is held gets through -/

/-- A packet that stays unacknowledged is delivered again and again. -/
lemma gets_again (run : Course p w) (fair : Fair w) (held : ∀ j ≥ i, ∃ a ≤ u, Retained a ((w j).host X))
    (get : ((w i).host X).log.packets[u]? = some d) :
    ∃ᶠ j in atTop, Gets X.peer d (w j) (w (j + 1)) := by
  have there : ∀ j ≥ i, u < ((w j).host X).log.packets.length := fun j ge =>
    (List.getElem?_eq_some_iff.mp (run.getElem ge get)).1
  have kept : ∀ᶠ j in atTop, ((w j).host X).unacked.occupied (BitVec.ofNat 32 u) = true := by
    filter_upwards [eventually_ge_atTop i] with j ge
    obtain ⟨a, le, retained⟩ := held j ge
    exact retained.slots u le (there j ge)
  apply fair.network
  have due := fair.timeouts X _ kept
  rw [frequently_atTop] at due ⊢
  intro n
  obtain ⟨j, ge, tick, mem⟩ := due (max n i)
  have ge' : i ≤ j := le_trans (le_max_right n i) ge
  obtain ⟨k, gt, _, called⟩ := run.tick_returns tick
  obtain ⟨a, le, retained⟩ := held j ge'
  obtain ⟨_, lined⟩ := System.Net.lined (run.reached j) tick.1 X
  have longer := ((run.later (Nat.le_of_lt gt)).packets X).length_le
  rw [called.self] at longer
  obtain ⟨d', out, get'⟩ := retained.tick_covers lined.sender (fun _ => mem) le
    (lt_of_lt_of_le (there j ge') longer)
  obtain ⟨x, sent, rfl⟩ := List.mem_map.mp out
  obtain ⟨m, c, lo, _, net, src, _, bytes⟩ := run.sends_at (Nat.le_of_lt gt) called sent
  have same := run.getElem (le_trans ge' (Nat.le_of_lt gt)) get
  rw [called.self, get'] at same
  exact ⟨m, le_trans (le_trans (le_max_left n i) ge) lo, c, net, src, bytes.trans (Option.some.inj same)⟩

/-- Between calls all that was delivered is returned. -/
lemma returned_idle (idle : (w i).stack = []) (Y : Host) :
    (w i).returned Y = ((w i).host Y).log.delivered.length := by
  rw [System.returned, idle]
  exact Nat.sub_zero _

/-- A packet that arrives is acknowledged, and if it is the one the peer waits for it is handed on. -/
lemma received (run : Course p w) (gets : Gets X.peer d (w j) (w (j + 1)))
    (get : ((w j).host X).log.packets[u]? = some d) (near : (w j).assigned X ≤ u + 512) :
    ∃ k > j, (w k).stack = [] ∧ ((w k).host X.peer).pendingAck = true ∧
      ((w j).returned X.peer = u → u < (w k).returned X.peer) := by
  obtain ⟨k, gt, t, e, idle, called⟩ := run.gets_returns gets
  have idle' : (w j).stack = [] := by
    obtain ⟨_, _, _, idle', _⟩ := gets
    exact idle'
  obtain ⟨a, lined⟩ := System.Net.lined (run.reached j) idle' X
  obtain ⟨now, keep, there, pending⟩ := lined.receive get near e
  have before := congrArg List.length lined.delivered
  have after := congrArg List.length now.delivered
  have le := lined.base_le
  have le' := now.base_le
  rw [List.length_take, List.length_map, Nat.min_eq_left le] at before
  rw [List.length_take, List.length_map, Nat.min_eq_left le'] at after
  refine ⟨k, gt, idle, called.self ▸ pending, ?_⟩
  intro waits
  rw [returned_idle idle, called.self, after]
  rw [returned_idle idle', before] at waits
  -- the first number that is missing is above `u`
  by_contra low
  refine absurd now.inbox.base_mem.1 ?_
  rcases Nat.lt_or_eq_of_le (Nat.not_lt.mp low) with less | here
  · exact keep _ (lined.inbox.below _ (by omega))
  · rw [here]
    exact there

/-- What the peer has been given rises as long as there is a packet that it has not been given. -/
lemma rises (run : Course p w) (fair : Fair w) (less : (w i).returned X.peer < (w i).assigned X) :
    ∃ j ≥ i, (w i).returned X.peer < (w j).returned X.peer := by
  by_contra stuck
  push Not at stuck
  have same : ∀ j ≥ i, (w j).returned X.peer = (w i).returned X.peer := fun j ge =>
    le_antisymm (stuck j ge) ((run.later ge).returned X.peer)
  have held : ∀ j ≥ i, ∃ a ≤ (w i).returned X.peer, Retained a ((w j).host X) := by
    intro j ge
    obtain ⟨a, retained, le⟩ := run.una j X
    exact ⟨a, le.trans (same j ge).le, retained⟩
  have get := List.getElem?_eq_getElem less
  obtain ⟨j, ge, gets⟩ := frequently_atTop.mp (run.gets_again fair held get) i
  obtain ⟨a, le, retained⟩ := held j ge
  have upper := retained.upper
  obtain ⟨k, gt, _, _, up⟩ := run.received gets (run.getElem ge get) (by unfold System.assigned; omega)
  exact absurd (up (same j ge)) (Nat.not_lt.mpr (stuck k (by omega)))

/-- The peer is given every packet. -/
lemma all_returned (run : Course p w) (fair : Fair w) (i : ℕ) (X : Host) :
    ∃ j ≥ i, (w i).assigned X ≤ (w j).returned X.peer := by
  refine climbs (f := fun j => (w j).returned X.peer) i ?_
  intro j ge less
  exact run.rises fair (lt_of_lt_of_le less (run.assigned_le ge X))

/-! ## ACKs get through -/

/-- A side transmits a pure ACK. -/
def Acks (Y : Host) (w w' : System) : Prop :=
  ∃ c : Copy, w'.net = w.net ++ [c] ∧ c.src = Y ∧ c.kind = .ack

/-- An ACK is owed, and `tick` is not about to take note that it has been sent. -/
def Owes (Y : Host) (w : System) : Prop :=
  (w.host Y).pendingAck = true ∧ .tickDone ∉ framesOf Y w.stack

end Course

end System

/-- The code between two callbacks keeps an ACK pending, or sends it. -/
lemma Case.owes {s s' : TcpLiteSession} {f : Frame} {new : List Frame} (c : Case s f s' new)
    (pending : s.pendingAck = true) (other : f ≠ .tickDone) :
    (s'.pendingAck = true ∧ .tickDone ∉ new) ∨
      s'.log.wire = s.log.wire ++ [{ kind := .ack, bytes := s.ackPacket }] := by
  cases c with
  | pumpStop _ =>
    obtain ⟨_, _, e, _⟩ := pumpReset_frame s
    rw [e]
    exact .inl ⟨pending, List.not_mem_nil⟩
  | pumpFull _ _ =>
    obtain ⟨_, _, e, _⟩ := pumpReset_frame { s with pool := _, tape := s.rest }
    rw [e]
    exact .inl ⟨pending, List.not_mem_nil⟩
  | ack _ _ =>
    obtain ⟨_, _, e⟩ := takeAck_frame s _
    rw [e]
    exact .inl ⟨pending, by simp⟩
  | store _ =>
    obtain ⟨_, _, e⟩ := storeData_frame s _ _
    rw [e]
    exact .inl ⟨pending, by simp⟩
  | received => exact .inl ⟨rfl, List.not_mem_nil⟩
  | tickDone => exact absurd rfl other
  | tickAck _ => exact .inr rfl
  | _ => exact .inl ⟨pending, by simp⟩

namespace System.Course

variable {p : Setup} {w : ℕ → System} {X Y : Host} {i j u : ℕ} {d : Bytes}

/-- An ACK is owed until it is sent. -/
lemma owes_step {fresh : System → Copy → Prop} {w w' : System} (st : Net fresh w w') (h : Owes Y w)
    (none : ¬ Acks Y w w') : Owes Y w' := by
  have outside : ∀ {w₁}, Outside w w₁ → Owes Y w₁ := by
    intro w₁ out
    obtain ⟨_, _, e⟩ := out.same Y
    refine ⟨?_, fun mem => h.2 (out.done Y mem)⟩
    rw [e]
    exact h.1
  rcases st.cases_exec with out | ⟨w₁, e, rest, out, stack, rfl⟩
  · exact outside out
  · have r := w₁.exec_ran stack
    obtain ⟨pending, done⟩ := outside out
    rcases e.host.eq_or_peer Y with rfl | rfl
    · rw [framesOf_self stack] at done
      rcases r.code.owes pending (Ne.symm (List.ne_of_not_mem_cons done)) with ⟨still, new⟩ | sent
      · refine ⟨r.self ▸ still, ?_⟩
        rw [r.own]
        intro mem
        rcases List.mem_append.mp mem with mem | mem
        · exact new mem
        · exact done (List.mem_cons_of_mem _ mem)
      · exfalso
        rcases r.net with ⟨wire, _⟩ | ⟨c, net, src, _, _, _, wire⟩
        · exact List.cons_ne_nil _ _ (List.append_right_eq_self.mp (sent.symm.trans wire))
        · rw [out.net] at net
          have same := List.singleton_inj.mp (List.append_cancel_left (sent.symm.trans wire))
          exact none ⟨c, net, src, (congrArg Transmission.kind same).symm⟩
    · refine ⟨r.peer ▸ pending, ?_⟩
      rw [r.other]
      rw [framesOf_peer stack] at done
      exact done

/-- A side that owes an ACK again and again sends one again and again. -/
lemma acks_again (run : Course p w) (fair : Fair w)
    (owed : ∃ᶠ j in atTop, (w j).stack = [] ∧ ((w j).host Y).pendingAck = true) :
    ∃ᶠ k in atTop, Acks Y (w k) (w (k + 1)) := by
  by_contra never
  rw [not_frequently, eventually_atTop] at never
  obtain ⟨n, never⟩ := never
  obtain ⟨j, ge, idle, pending⟩ := frequently_atTop.mp owed n
  have owes : ∀ k ≥ j, Owes Y (w k) := by
    intro k le
    induction k, le using Nat.le_induction with
    | base => exact ⟨pending, by rw [idle]; exact List.not_mem_nil⟩
    | succ k le ih => exact owes_step (run.steps k) ih (never k (by omega))
  obtain ⟨k, ge', tick⟩ := frequently_atTop.mp (fair.ticks Y) j
  obtain ⟨m, gt, _, called⟩ := run.tick_returns tick
  have out := transmitted_acks ((w k).host Y)
  rw [owedAck, if_pos (owes k ge').1] at out
  have mem := (List.mem_filter.mp (out ▸ List.mem_cons_self)).1
  obtain ⟨k', c, lo, _, net, src, kind, _⟩ := run.sends_at (Nat.le_of_lt gt) called mem
  exact never k' (by omega) ⟨c, net, src, kind⟩

/-- What a pure ACK says. -/
lemma ack_bytes (run : Course p w) (ack : Acks Y (w i) (w (i + 1))) :
    ∃ seq, Transmits Y (TcpLiteHeader.makeAck seq (BitVec.ofNat 32 ((w i).expected Y))).toBytes
      (w i) (w (i + 1)) := by
  obtain ⟨c, net, src, kind⟩ := ack
  obtain ⟨_, ⟨g, core, _⟩, _⟩ := System.Net.steps_agreed (run.reached i)
  have cum := (core.receiver Y).cumulativeAck
  rcases (run.steps i).cases_exec with out | ⟨w₁, e, rest, out, stack, next⟩
  · rw [out.net] at net
    exact absurd (List.self_eq_append_right.mp net) (List.cons_ne_nil _ _)
  · have r := w₁.exec_ran stack
    rw [← next] at r
    rcases r.net with ⟨_, same⟩ | ⟨c', more, src', _, sends, _⟩
    · rw [same, out.net] at net
      exact absurd (List.self_eq_append_right.mp net) (List.cons_ne_nil _ _)
    · rw [out.net] at more
      obtain rfl : c = c' := List.singleton_inj.mp (List.append_cancel_left (net.symm.trans more))
      rcases sends.cases with ⟨data, _⟩ | ⟨again, _⟩ | ⟨_, bytes⟩
      · rw [kind] at data
        cases data
      · rw [kind] at again
        cases again
      · obtain rfl : e.host = Y := src'.symm.trans src
        obtain ⟨_, _, same⟩ := out.same e.host
        refine ⟨(w₁.host e.host).nextSeq, c, net, src, bytes.trans ?_⟩
        rw [ackPacket, same]
        exact congrArg (fun a => (TcpLiteHeader.makeAck _ a).toBytes) cum

/-- `snd_una_` rises as long as there is a packet that is not acknowledged. -/
lemma una_rises (run : Course p w) (fair : Fair w) {a : ℕ} (h : Retained a ((w i).host X))
    (less : a < (w i).assigned X) : ∃ j ≥ i, ∃ a' > a, Retained a' ((w j).host X) := by
  by_contra stuck
  push Not at stuck
  have still : ∀ j ≥ i, Retained a ((w j).host X) := by
    intro j ge
    obtain ⟨b, here, _⟩ := run.una j X
    rcases Nat.lt_or_eq_of_le (run.una_le ge h here) with more | rfl
    · exact absurd here (stuck j ge b more)
    · exact here
  have get := List.getElem?_eq_getElem less
  have owed : ∃ᶠ j in atTop, (w j).stack = [] ∧ ((w j).host X.peer).pendingAck = true := by
    have often := run.gets_again fair (fun j ge => ⟨a, le_rfl, still j ge⟩) get
    rw [frequently_atTop] at often ⊢
    intro n
    obtain ⟨j, ge, gets⟩ := often (max n i)
    have upper := (still j (by omega)).upper
    obtain ⟨k, gt, idle, pending, _⟩ := run.received gets (run.getElem (by omega) get)
      (by unfold System.assigned; omega)
    exact ⟨k, by omega, idle, pending⟩
  -- the peer has the packet by now, and the ACKs that say so are finitely many
  obtain ⟨i₁, ge₁, got⟩ := run.all_returned fair i X
  have finite : ∃ᶠ k in atTop, ∃ x : BitVec 32 × Fin 257, 0 < x.2.val ∧ a + x.2.val ≤ (w k).assigned X ∧
      Transmits X.peer (TcpLiteHeader.makeAck x.1 (BitVec.ofNat 32 (a + x.2.val))).toBytes
        (w k) (w (k + 1)) := by
    have acks := run.acks_again fair owed
    rw [frequently_atTop] at acks ⊢
    intro n
    obtain ⟨k, ge, ack⟩ := acks (max n i₁)
    obtain ⟨seq, sent⟩ := run.ack_bytes ack
    have upper := (still k (by omega)).upper
    have here := (run.later (show i₁ ≤ k by omega)).returned X.peer
    have below : (w k).returned X.peer ≤ (w k).expected X.peer := Nat.le_add_right _ _
    have above := run.expected_le k X
    have last : (w k).assigned X ≤ a + 256 := upper
    refine ⟨k, by omega, (seq, ⟨(w k).expected X.peer - a, by omega⟩), ?_, ?_, ?_⟩
    · show 0 < (w k).expected X.peer - a
      omega
    · show a + ((w k).expected X.peer - a) ≤ (w k).assigned X
      omega
    · rw [show a + ((w k).expected X.peer - a) = (w k).expected X.peer by omega]
      exact sent
  have : Finite (BitVec 32) := Finite.of_injective BitVec.toFin fun _ _ => BitVec.eq_of_toFin_eq
  obtain ⟨⟨seq, m⟩, again⟩ := often_of_finite finite
  obtain ⟨k, _, pos, sent, _⟩ := frequently_atTop.mp again 0
  have back := fair.network X.peer _ (again.mono fun _ h => h.2.2)
  rw [Host.peer_peer] at back
  obtain ⟨j, ge, gets⟩ := frequently_atTop.mp back (max k i)
  obtain ⟨j', gt, t, e, _, called⟩ := run.gets_returns gets
  have idle : (w j).stack = [] := by
    obtain ⟨_, _, _, idle, _⟩ := gets
    exact idle
  obtain ⟨_, lined⟩ := System.Net.lined (run.reached j) idle X
  have taken := (still j (by omega)).deliver lined.sender (carriesAck_makeAck _ _) e (Nat.le_add_right _ _)
    (sent.trans (run.assigned_le (by omega) X))
  exact stuck j' (by omega) (a + m.val) (Nat.lt_add_of_pos_right pos) (called.self ▸ taken.retained)

/-- Every packet is acknowledged. -/
lemma all_acked (run : Course p w) (fair : Fair w) (i : ℕ) (X : Host) :
    ∃ j ≥ i, ∃ a, (w i).assigned X ≤ a ∧ Retained a ((w j).host X) := by
  obtain ⟨j, ge, done⟩ := climbs (f := fun j => (run.una j X).choose) (n := (w i).assigned X) i (by
    intro j ge less
    have here := (run.una j X).choose_spec.1
    obtain ⟨k, ge', a, more, there⟩ := run.una_rises fair here (lt_of_lt_of_le less (run.assigned_le ge X))
    exact ⟨k, ge', lt_of_lt_of_le more (run.una_le le_rfl there (run.una k X).choose_spec.1)⟩)
  exact ⟨j, ge, _, done, (run.una j X).choose_spec.1⟩

/-! ## What is pending is sent -/

/-- The sending side is in order at all times. -/
lemma sender (run : Course p w) (i : ℕ) (X : Host) :
    Sender (p.size X) (p.count X) ((w i).host X) (framesOf X (w i).stack) := by
  obtain ⟨_, ⟨g, core, _⟩, _⟩ := System.Net.steps_agreed (run.reached i)
  exact core.sender X

/-- A packet is made of what is pending. -/
lemma packs (run : Course p w) (fair : Fair w)
    (left : (((w i).host X).log.packets.map payloadOf).flatten.length < ((w i).host X).log.sent.length) :
    ∃ j ≥ i, (w i).assigned X < (w j).assigned X := by
  by_contra stuck
  push Not at stuck
  have same : ∀ j ≥ i, ((w j).host X).log.packets = ((w i).host X).log.packets := fun j ge =>
    (((run.later ge).packets X).eq_of_length_le (stuck j ge)).symm
  obtain ⟨i₁, ge₁, a, full, retained⟩ := run.all_acked fair i X
  have acked : ∀ j ≥ i₁, ∃ b, (w j).assigned X ≤ b ∧ Retained b ((w j).host X) := by
    intro j ge
    obtain ⟨b, here, _⟩ := run.una j X
    have up := run.una_le ge retained here
    have few := stuck j (by omega)
    exact ⟨b, by omega, here⟩
  obtain ⟨j, ge, tick, room⟩ := frequently_atTop.mp (fair.buffers X (by
    filter_upwards [eventually_ge_atTop i₁] with j ge k
    obtain ⟨b, all, here⟩ := acked j ge
    rw [← Bool.not_eq_true]
    intro occ
    obtain ⟨m, lo, hi, _⟩ := (here.occupied_iff (run.sender j X) k).mp occ
    exact absurd (lt_of_le_of_lt (all.trans lo) hi) (lt_irrefl _))) i₁
  obtain ⟨b, all, here⟩ := acked j ge
  have eq : b = ((w j).host X).log.packets.length := le_antisymm here.lower all
  have sender := run.sender j X
  rw [tick.1] at sender
  have op : ((w j).host X).pumpOpen = true := by
    have chunks := congrArg List.length sender.chunks
    have more := ((run.later (show i ≤ j by omega)).sent X).length_le
    rw [same j (by omega), List.length_append, List.length_drop] at chunks
    have bytes : ((w j).host X).txOff < ((w j).host X).pendingTx.length := by
      have none : (pumps (framesOf X [])).sum = 0 := rfl
      omega
    have place : (((w j).host X).nextSeq - ((w j).host X).sndUna).toNat < window := by
      rw [sender.nextSeq_eq rfl, here.una, ← eq, BitVec.sub_self]
      decide
    exact Bool.and_eq_true_iff.mpr ⟨decide_eq_true bytes, decide_eq_true place⟩
  have made := tick_makes op room
  obtain ⟨k, gt, _, called⟩ := run.tick_returns tick
  have few := stuck k (by omega)
  rw [System.assigned, System.assigned, called.self, ← same j (by omega)] at few
  omega

/-- Everything that was passed to `send` is in packets at some time. -/
lemma packed (run : Course p w) (fair : Fair w) (i : ℕ) (X : Host) :
    ∃ j ≥ i, ((w i).host X).log.sent <+: (((w j).host X).log.packets.map payloadOf).flatten := by
  obtain ⟨j, ge, long⟩ : ∃ j ≥ i, ((w i).host X).log.sent.length
      ≤ (((w j).host X).log.packets.map payloadOf).flatten.length := by
    by_contra short
    push Not at short
    -- each packet has a byte, so there cannot be more and more of them
    obtain ⟨j, ge, many⟩ := climbs (f := fun j => (w j).assigned X)
      (n := ((w i).host X).log.sent.length) i (by
        intro j ge _
        exact run.packs fair (lt_of_lt_of_le (short j ge) ((run.later ge).sent X).length_le))
    have le := (run.sender j X).packets_le
    have less := short j ge
    exact absurd (many.trans le) (Nat.not_le.mpr less)
  refine ⟨j, ge, List.prefix_of_prefix_length_le ((run.later ge).sent X) ?_ long⟩
  exact ⟨_, (run.sender j X).chunks⟩

/-- Everything that was passed to `send` is delivered at some time. -/
lemma delivers (run : Course p w) (fair : Fair w) (i : ℕ) (X : Host) :
    ∃ j ≥ i, ((w i).host X).log.sent <+: ((w j).host X.peer).log.delivered.flatten := by
  obtain ⟨k, ge, pre⟩ := run.packed fair i X
  obtain ⟨j, ge', got⟩ := run.all_returned fair k X
  obtain ⟨_, ⟨g, core, _⟩, _⟩ := System.Net.steps_agreed (run.reached j)
  have receiver := core.receiver X.peer
  rw [Host.peer_peer] at receiver
  have long : ((w k).host X).log.packets.length ≤ ((w j).host X.peer).log.delivered.length :=
    got.trans (Nat.sub_le _ _)
  refine ⟨j, by omega, pre.trans ?_⟩
  obtain ⟨more, eq⟩ := (run.later ge').packets X
  rw [receiver.delivered, ← eq, List.map_append, List.take_append, List.flatten_append,
    List.take_of_length_le (by rw [List.length_map]; exact long)]
  exact List.prefix_append _ _

end System.Course

/-- Eventual delivery. Let a run of two fresh sessions never end and put nothing off forever, over a network
that loses, repeats, reorders, delays and corrupts datagrams. A copy is delivered only while neither side has
assigned more than `2 ^ 30` numbers since its packet was first transmitted; and a datagram that is transmitted
again and again is delivered again and again, to free buffers of the receiver. Whatever a side has been given
to send at some time, there is a later time at which the data callback of the peer has been handed all of it,
and at which none of the packets made by the first time is held for retransmission any more. -/
theorem eventually_delivered (p : Setup) (w : ℕ → System) (run : System.Course p w) (fair : System.Fair w)
    (X : Host) (i : ℕ) :
    ∃ j ≥ i, ((w i).host X).log.sent <+: ((w j).host X.peer).log.delivered.flatten ∧
      ∀ k, (((w j).host X).unacked.slots k).occupied = true →
        ∃ m, (w i).assigned X ≤ m ∧ m < (w j).assigned X ∧ slotIdx (BitVec.ofNat 32 m) = k := by
  obtain ⟨i₁, ge, a, all, held⟩ := run.all_acked fair i X
  obtain ⟨j, ge', pre⟩ := run.delivers fair i₁ X
  refine ⟨j, by omega, ((run.later ge).sent X).trans pre, ?_⟩
  intro k occ
  obtain ⟨b, here, _⟩ := run.una j X
  obtain ⟨m, lo, hi, slot⟩ := (here.occupied_iff (run.sender j X) k).mp occ
  exact ⟨m, all.trans ((run.una_le ge' held here).trans lo), hi, slot⟩

/-! ## A run -/

/-- Nothing is left to do, and time stands still. -/
structure TcpLiteSession.Resting (s : TcpLiteSession) : Prop where
  none : ∀ k, (s.unacked.slots k).occupied = false
  bytes : s.pendingTx.length = 0
  start : s.txOff = 0
  pending : s.pendingAck = false
  free : s.pool.free ≠ []
  tape : s.tape = .silent

namespace TcpLiteSession.Resting

variable {s : TcpLiteSession}

/-- The program lets the time stand still. -/
lemma program (none : s.unacked.inUse = ∅) (bytes : s.pendingTx.length = 0) (start : s.txOff = 0)
    (pending : s.pendingAck = false) (free : s.pool.free ≠ []) : (s.program [] .silent).Resting := by
  refine ⟨?_, bytes, start, pending, free, rfl⟩
  intro k
  rw [← Bool.not_eq_true]
  intro occ
  have mem : k ∈ s.unacked.inUse := Finset.mem_filter.mpr ⟨Finset.mem_univ k, occ⟩
  rw [none] at mem
  cases mem

/-- A `tick` with nothing to do. -/
lemma exec_tick (h : s.Resting) : TcpLite.exec s .tick = (s, [.resend 0 []]) := by
  have none : s.timedOut = [] := by
    unfold TcpLiteSession.timedOut UnackedQueue.checkTimeouts
    rw [List.map_eq_nil_iff, List.filter_eq_nil_iff]
    intro k _
    simp [h.none k]
  have still : s.rest = s.tape := by
    unfold TcpLiteSession.rest
    rw [h.tape]
    rfl
  simp only [TcpLite.exec]
  rw [still, none, h.tape]
  exact Prod.ext (by rw [← h.tape]) rfl

/-- A `pump_tx` with nothing to do. -/
lemma exec_pumpTx (h : s.Resting) : TcpLite.exec s .pumpTx = (s, []) := by
  have closed : s.pumpOpen = false := by simp [TcpLiteSession.pumpOpen, h.bytes]
  have same : s.pumpReset = s := by simp [pumpReset, h.start]
  simp [TcpLite.exec, closed, same]

/-- An ACK part with nothing to do. -/
lemma exec_tickAck (h : s.Resting) : TcpLite.exec s .tickAck = (s, []) := by
  simp [TcpLite.exec, h.pending]

end TcpLiteSession.Resting

namespace System

variable {w : System}

/-- A step that leaves the session as it is. -/
lemma exec_same {e : Entry} {rest : List Entry} {new : List Frame} (st : w.stack = e :: rest)
    (same : TcpLite.exec (w.host e.host) e.frame = (w.host e.host, new)) :
    w.exec = { w with
      stack := new.map (fun f => { host := e.host, frame := f, stamp := e.stamp }) ++ rest } := by
  unfold System.exec
  rw [st]
  show w.run e rest = _
  unfold System.run
  simp only [same, Function.update_eq_self, List.drop_length, List.map_nil, List.append_nil]

/-- The calls of a `tick` that has nothing to do. -/
def tickFrames : ℕ → List Frame
  | 0 => []
  | 1 => [.tick]
  | 2 => [.resend 0 []]
  | 3 => [.pumpTx, .tickAck]
  | _ => [.tickAck]

/-- A side is in a `tick` that has nothing to do. -/
def ticking (w : System) (X : Host) (r : ℕ) : System :=
  { w with stack := (tickFrames r).map fun f => { host := X, frame := f, stamp := w.assigned X.peer } }

/-- The sides call `tick` in turn, forever. -/
def idling (w : System) (i : ℕ) : System :=
  w.ticking (if i / 5 % 2 = 0 then .a else .b) (i % 5)

/-- Five states to a `tick`. -/
lemma idling_at (w : System) (q : ℕ) {r : ℕ} (lt : r < 5) :
    w.idling (5 * q + r) = w.ticking (if q % 2 = 0 then .a else .b) r := by
  rw [idling, Nat.mul_add_mod, Nat.mod_eq_of_lt lt, Nat.mul_add_div (by decide), Nat.div_eq_of_lt lt,
    Nat.add_zero]

/-- A `tick` goes from each of them to the next. -/
lemma ticking_step {fresh : System → Copy → Prop} (rest : ∀ X, (w.host X).Resting) (X : Host) {r : ℕ}
    (lt : r < 5) : Net fresh (w.ticking X r) (w.ticking X ((r + 1) % 5)) := by
  have runs : ∀ {r r' f fs new}, tickFrames r = f :: fs → TcpLite.exec (w.host X) f = (w.host X, new) →
      tickFrames r' = new ++ fs → Net fresh (w.ticking X r) (w.ticking X r') := by
    intro r r' f fs new here same there
    have st : (w.ticking X r).stack = { host := X, frame := f, stamp := w.assigned X.peer } ::
        fs.map fun f => { host := X, frame := f, stamp := w.assigned X.peer } := by
      rw [ticking, here]
      rfl
    have next := exec_same st same
    have step : Net fresh (w.ticking X r) (w.ticking X r).exec := .call (.exec (by simp [st]))
    rw [next, ← List.map_append, ← there] at step
    exact step
  have resend : TcpLite.exec (w.host X) (.resend 0 []) = (w.host X, [.pumpTx, .tickAck]) := rfl
  match r, lt with
  | 0, _ => exact .call (.tick X rfl)
  | 1, _ => exact runs rfl (rest X).exec_tick rfl
  | 2, _ => exact runs rfl resend rfl
  | 3, _ => exact runs rfl (rest X).exec_pumpTx rfl
  | 4, _ => exact runs rfl (rest X).exec_tickAck rfl

/-- Idling is a run. -/
lemma idling_run {fresh : System → Copy → Prop} (rest : ∀ X, (w.host X).Resting) :
    IsRun (Net fresh) w.idling := by
  intro i
  have split := Nat.div_add_mod i 5
  have lt := Nat.mod_lt i (show 0 < 5 by decide)
  generalize i / 5 = q at split
  generalize i % 5 = r at split lt
  subst split
  rw [idling_at w q lt]
  have step : Net fresh _ _ := ticking_step rest (if q % 2 = 0 then .a else .b) lt
  rcases Nat.lt_or_ge (r + 1) 5 with more | last
  · rw [Nat.mod_eq_of_lt more] at step
    rw [Nat.add_assoc, idling_at w q more]
    exact step
  · obtain rfl : r = 4 := by omega
    rw [show 5 * q + 4 + 1 = 5 * (q + 1) + 0 by omega, idling_at w (q + 1) (by decide)]
    exact step

/-- Each side calls `tick` again and again. -/
lemma idling_ticks (w : System) (X : Host) : ∃ᶠ i in atTop, Ticks X (w.idling i) (w.idling (i + 1)) := by
  rw [frequently_atTop]
  intro n
  obtain ⟨q, ge, turn⟩ : ∃ q ≥ n, (if q % 2 = 0 then Host.a else .b) = X := by
    cases X with
    | a => exact ⟨2 * n, by omega, if_pos (by omega)⟩
    | b => exact ⟨2 * n + 1, by omega, if_neg (by omega)⟩
  refine ⟨5 * q + 0, by omega, ?_⟩
  rw [idling_at w q (by decide), idling_at w q (show 0 + 1 < 5 by decide), turn]
  exact ⟨rfl, rfl⟩

/-- After some time nothing is left to do. -/
lemma fair_of_idling {f : ℕ → System} {k : ℕ} (rest : ∀ X, (w.host X).Resting)
    (tail : ∀ i, f (k + i) = w.idling i) : Fair f := by
  have host : ∀ i ≥ k, (f i).host = w.host ∧ (f i).net = w.net := by
    intro i ge
    obtain ⟨j, rfl⟩ := Nat.exists_eq_add_of_le ge
    rw [tail]
    exact ⟨rfl, rfl⟩
  have ticks : ∀ X, ∃ᶠ i in atTop, k ≤ i ∧ Ticks X (f i) (f (i + 1)) := by
    intro X
    apply often_shift k
    refine (w.idling_ticks X).mono fun i tick => ⟨Nat.le_add_right _ _, ?_⟩
    rw [Nat.add_assoc, tail, tail]
    exact tick
  refine ⟨fun X => (ticks X).mono fun _ h => h.2, ?_, ?_, ?_⟩
  · intro X seq held
    exfalso
    obtain ⟨n, held⟩ := eventually_atTop.mp held
    have occ := held (max n k) (le_max_left n k)
    rw [(host _ (le_max_right n k)).1, UnackedQueue.occupied_iff, (rest X).none] at occ
    cases occ.1
  · intro X _
    refine (ticks X).mono fun i h => ⟨h.2, ?_⟩
    rw [(host i h.1).1, (rest X).tape]
    exact (rest X).free
  · intro X d often
    exfalso
    obtain ⟨i, ge, c, net, _⟩ := frequently_atTop.mp often k
    rw [(host i ge).2, (host (i + 1) (by omega)).2] at net
    exact List.cons_ne_nil _ _ (List.self_eq_append_right.mp net)

/-- A side calls `tick`. -/
lemma tick_net {fresh : System → Copy → Prop} (idle : w.stack = []) (n : ℕ) (X : Host) :
    Relation.ReflTransGen (Net fresh) w (w.tick false n X) :=
  .head (.call (.tick X idle)) (settle_steps (fun w busy => .call (advance_local w busy)) n _)

/-- Idling begins between two calls. -/
lemma idling_zero (idle : w.stack = []) : w.idling 0 = w := by
  obtain ⟨host, stack, net⟩ := w
  dsimp only at idle
  subst idle
  rfl

/-- Time stands still from now on. -/
def frozen (w : System) : System :=
  (w.put .a ((w.host .a).program [] .silent)).put .b ((w.host .b).program [] .silent)

/-- The time stands still for both sides. -/
lemma frozen_host (w : System) (X : Host) : w.frozen.host X = (w.host X).program [] .silent := by
  cases X with
  | a => rfl
  | b => rfl

/-- It does so between calls. -/
lemma frozen_stack (w : System) : w.frozen.stack = w.stack := rfl

/-- Nothing is logged. -/
lemma frozen_log (w : System) (X : Host) : (w.frozen.host X).log = (w.host X).log := by
  rw [frozen_host]
  rfl

/-- It is a run. -/
lemma frozen_reached {fresh : System → Copy → Prop} (idle : w.stack = []) :
    Relation.ReflTransGen (Net fresh) w w.frozen := by
  have first : Net fresh w (w.put .a ((w.host .a).program [] .silent)) :=
    .call (.program .a [] .silent idle)
  have second : Net fresh (w.put .a ((w.host .a).program [] .silent)) w.frozen :=
    .call (.program .b [] .silent idle)
  exact (Relation.ReflTransGen.single first).tail second

/-- The packet has been acknowledged. -/
def ackedOne : System := (deliveredOne.tick false 20 .b).deliver 20 1

/-- The state in which the byte is acknowledged is reached. -/
lemma ackedOne_reached : Relation.ReflTransGen (Net FreshBorn) (.fresh .small) ackedOne := by
  have sent : Relation.ReflTransGen (Net FreshBorn) (.fresh .small) sentOne := send_net rfl 20 .a [7]
  have young : ∀ w : System, Relation.ReflTransGen (Net FreshBorn) (.fresh .small) w →
      w.assigned .a ≤ 1 ∧ w.assigned .b ≤ 1 → ∀ c ∈ w.net, w.FreshBorn c := by
    intro w run few c mem
    refine freshBorn_of_few run ?_ mem
    intro X
    cases X with
    | a => exact few.1.trans (by decide)
    | b => exact few.2.trans (by decide)
  have got : Relation.ReflTransGen (Net FreshBorn) (.fresh .small) deliveredOne :=
    sent.trans (deliver_net (List.isEmpty_iff.mp (by decide +kernel))
      (young _ sent (by decide +kernel)) 20 0)
  have ticked := got.trans (tick_net (List.isEmpty_iff.mp (by decide +kernel)) 20 .b)
  exact ticked.trans (deliver_net (List.isEmpty_iff.mp (by decide +kernel))
    (young _ ticked (by decide +kernel)) 20 1)

/-- In it there is nothing left to do. -/
lemma ackedOne_rests (X : Host) : (ackedOne.frozen.host X).Resting := by
  rw [frozen_host]
  cases X with
  | a =>
    exact .program (by decide +kernel) (by decide +kernel) (by decide +kernel) (by decide +kernel)
      (by decide +kernel)
  | b =>
    exact .program (by decide +kernel) (by decide +kernel) (by decide +kernel) (by decide +kernel)
      (by decide +kernel)

end System

/-- One byte is delivered. -/
theorem eventually_delivered_one_byte :
    ∃ w : ℕ → System, System.Course .small w ∧ System.Fair w ∧ ∃ i, ((w i).host .a).log.sent = [7] ∧
      ∃ j, [7] <+: ((w j).host .b).log.delivered.flatten := by
  have idle : System.ackedOne.stack = [] := List.isEmpty_iff.mp (by decide +kernel)
  have sent : (System.ackedOne.host .a).log.sent = [7] := by decide +kernel
  have rests := System.ackedOne_rests
  have reached := System.ackedOne_reached.trans (System.frozen_reached idle)
  have idle' := System.ackedOne.frozen_stack.trans idle
  have sent' : (System.ackedOne.frozen.host .a).log.sent = [7] := by
    rw [System.frozen_log]
    exact sent
  generalize System.ackedOne.frozen = v at rests reached idle' sent'
  obtain ⟨w, k, start, run, tail⟩ := splice reached (System.idling_zero idle') (System.idling_run rests)
  have course : System.Course .small w := ⟨start, run⟩
  have fair := System.fair_of_idling rests tail
  obtain ⟨j, _, pre, _⟩ := eventually_delivered .small w course fair .a (k + 0)
  have here : ((w (k + 0)).host .a).log.sent = [7] := by
    rw [tail]
    exact sent'
  exact ⟨w, course, fair, k + 0, here, j, here ▸ pre⟩

end UxNet.TcpLite
