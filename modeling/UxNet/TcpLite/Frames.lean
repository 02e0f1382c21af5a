import UxNet.TcpLite.Session

/-!
# Session methods as frames

The methods of a session, run step by step on a stack of frames. A frame is a point of the source at
which control can rest because a `transmit_` or `data_cb_` call is about to be made or has just
returned, and `exec` runs the session's own code from one such point to the next. The stack is where
other calls can be put in between: nothing here forbids that `transmit_` calls back into the session.

`Case` lists what a step can do, with the conditions under which it does so; every invariant is
proved over it. The last part shows that the methods of `Session.lean` are what the frames compute
when nothing is put in between.
-/

namespace UxNet.TcpLite

/-- A point at which control rests. -/
inductive Frame where
  /-- the data callback (or the program) still has these byte strings to pass to `send` -/
  | sends (ds : List Bytes)
  /-- the loop test of `pump_tx` -/
  | pumpTx
  /-- `transmit_` has returned in `pump_tx` -/
  | pumpSent (plen : ℕ)
  /-- the start of `on_packet_received` -/
  | receive (buf : ℕ)
  /-- `on_packet_received` after its ACK part -/
  | receiveData (buf plen : ℕ)
  /-- the loop test of `deliver_in_order` -/
  | deliver
  /-- `data_cb_` has returned in `deliver_in_order` -/
  | delivered (seq : BitVec 32)
  /-- `deliver_in_order` has returned in `on_packet_received` -/
  | received (buf : ℕ)
  /-- the start of `tick` -/
  | tick
  /-- the retransmission loop of `tick` -/
  | resend (now : BitVec 64) (seqs : List (BitVec 32))
  /-- `transmit_` has returned in the retransmission loop -/
  | resent (now : BitVec 64) (seq : BitVec 32) (seqs : List (BitVec 32))
  /-- `pump_tx` has returned in `tick` -/
  | tickAck
  /-- `transmit_` has returned at the end of `tick` -/
  | tickDone
  /-- the `transmit_` callback runs -/
  | transmitting

open TcpLiteSession

/-- Run the session's own code from a frame to the next points at which control rests. -/
def exec (s : TcpLiteSession) : Frame → TcpLiteSession × List Frame
  | .sends [] => (s, [])
  | .sends (d :: ds) => (s.append d, [.pumpTx, .sends ds])
  | .pumpTx =>
    if s.pumpOpen then
      match s.pumpSend with
      | (t, none) => (t.pumpReset, [])
      | (t, some plen) => (t, [.transmitting, .pumpSent plen])
    else (s.pumpReset, [])
  | .pumpSent plen => (s.pumpAdvance plen, [.pumpTx])
  | .receive buf =>
    let r := readChecked.run (s.pool.view buf)
    if r.2 then
      if s.ackTaken r.1 then
        (s.takeAck r.1.ackNum, [.pumpTx, .receiveData buf r.1.payloadLen.toNat])
      else (s, [.receiveData buf r.1.payloadLen.toNat])
    else (s.release .corrupt buf, [])
  | .receiveData buf plen =>
    if plen > 0 then (s.storeData buf plen, [.deliver, .received buf])
    else (s.release .received buf, [])
  | .deliver =>
    if s.deliverOpen then
      (s.deliverCall, [.sends (s.tape 0).sends, .delivered s.recvBitmap.baseSeq])
    else (s, [])
  | .delivered seq => (s.deliverAdvance seq, [.deliver])
  | .received buf => (release .received buf { s with pendingAck := true }, [])
  | .tick => ({ s with tape := s.rest }, [.resend (s.tape 0).tsc s.timedOut])
  | .resend _ [] => (s, [.pumpTx, .tickAck])
  | .resend now (seq :: seqs) =>
    match s.unacked.bufferFor seq with
    | some b =>
      (s.transmit .retransmit (s.pool.content b), [.transmitting, .resent now seq seqs])
    | none => (s, [.resend now seqs])
  | .resent now seq seqs => (s.resent now seq, [.resend now seqs])
  | .tickAck =>
    if s.pendingAck then (s.transmit .ack s.ackPacket, [.transmitting, .tickDone]) else (s, [])
  | .tickDone => ({ s with pendingAck := false }, [])
  | .transmitting => (s, [])

/-- Everything one step can do. -/
inductive Case (s : TcpLiteSession) : Frame → TcpLiteSession → List Frame → Prop where
  | sendsNil :
    Case s (.sends []) s []
  | sendsCons {d ds} :
    Case s (.sends (d :: ds)) (s.append d) [.pumpTx, .sends ds]
  | pumpStop :
    s.pumpOpen = false →
    Case s .pumpTx s.pumpReset []
  | pumpFull {pool} :
    s.pumpOpen = true →
    (s.pool.callerOps (s.tape 0).ops).acquire = (none, pool) →
    Case s .pumpTx (pumpReset { s with pool := pool, tape := s.rest }) []
  | pumpSend {buf pool queue pool'} :
    s.pumpOpen = true →
    (s.pool.callerOps (s.tape 0).ops).acquire = (some buf, pool) →
    s.unacked.markSent s.nextSeq buf (s.tape 0).tsc (pool.store buf s.pumpPacket)
      = (queue, pool') →
    Case s .pumpTx
      (transmit .data s.pumpPacket { s with pool := pool', unacked := queue, tape := s.rest })
      [.transmitting, .pumpSent s.pumpLen]
  | pumpSent {plen} :
    Case s (.pumpSent plen) (s.pumpAdvance plen) [.pumpTx]
  | corrupt {buf} :
    (readChecked.run (s.pool.view buf)).2 = false →
    Case s (.receive buf) (s.release .corrupt buf) []
  | ack {buf h} :
    readChecked.run (s.pool.view buf) = (h, true) →
    s.ackTaken h = true →
    Case s (.receive buf) (s.takeAck h.ackNum) [.pumpTx, .receiveData buf h.payloadLen.toNat]
  | noAck {buf h} :
    readChecked.run (s.pool.view buf) = (h, true) →
    s.ackTaken h = false →
    Case s (.receive buf) s [.receiveData buf h.payloadLen.toNat]
  | store {buf plen} :
    0 < plen →
    Case s (.receiveData buf plen) (s.storeData buf plen) [.deliver, .received buf]
  | noData {buf} :
    Case s (.receiveData buf 0) (s.release .received buf) []
  | deliverStop :
    s.deliverOpen = false →
    Case s .deliver s []
  | deliverCall :
    s.deliverOpen = true →
    Case s .deliver s.deliverCall [.sends (s.tape 0).sends, .delivered s.recvBitmap.baseSeq]
  | delivered {seq} :
    Case s (.delivered seq) (s.deliverAdvance seq) [.deliver]
  | received {buf} :
    Case s (.received buf) (release .received buf { s with pendingAck := true }) []
  | tick :
    Case s .tick { s with tape := s.rest } [.resend (s.tape 0).tsc s.timedOut]
  | resendNil {now} :
    Case s (.resend now []) s [.pumpTx, .tickAck]
  | resend {now seq seqs b} :
    s.unacked.bufferFor seq = some b →
    Case s (.resend now (seq :: seqs)) (s.transmit .retransmit (s.pool.content b))
      [.transmitting, .resent now seq seqs]
  | resendSkip {now seq seqs} :
    s.unacked.bufferFor seq = none →
    Case s (.resend now (seq :: seqs)) s [.resend now seqs]
  | resent {now seq seqs} :
    Case s (.resent now seq seqs) (s.resent now seq) [.resend now seqs]
  | tickAck :
    s.pendingAck = true →
    Case s .tickAck (s.transmit .ack s.ackPacket) [.transmitting, .tickDone]
  | tickQuiet :
    s.pendingAck = false →
    Case s .tickAck s []
  | tickDone :
    Case s .tickDone { s with pendingAck := false } []
  | transmitting :
    Case s .transmitting s []

/-- A step does one of the listed things. -/
lemma exec_case (s : TcpLiteSession) (f : Frame) : Case s f (exec s f).1 (exec s f).2 := by
  cases f with
  | sends ds =>
    cases ds with
    | nil => exact .sendsNil
    | cons d ds => exact .sendsCons
  | pumpTx =>
    simp only [exec]
    cases ho : s.pumpOpen with
    | false => exact .pumpStop ho
    | true =>
      simp only [if_true, TcpLiteSession.pumpSend]
      rcases ha : (s.pool.callerOps (s.tape 0).ops).acquire with ⟨_ | buf, pool⟩
      · exact .pumpFull ho ha
      · exact .pumpSend ho ha rfl
  | pumpSent plen => exact .pumpSent
  | receive buf =>
    simp only [exec]
    rcases hr : readChecked.run (s.pool.view buf) with ⟨h, ok⟩
    cases ok with
    | false => exact .corrupt (by rw [hr])
    | true =>
      cases ha : s.ackTaken h with
      | false => simpa [ha] using Case.noAck hr ha
      | true => simpa [ha] using Case.ack hr ha
  | receiveData buf plen =>
    cases plen with
    | zero => exact .noData
    | succ n => exact .store (Nat.succ_pos n)
  | deliver =>
    simp only [exec]
    cases ho : s.deliverOpen with
    | false => exact .deliverStop ho
    | true => exact .deliverCall ho
  | delivered seq => exact .delivered
  | received buf => exact .received
  | tick => exact .tick
  | resend now seqs =>
    cases seqs with
    | nil => exact .resendNil
    | cons seq seqs =>
      simp only [exec]
      cases hb : s.unacked.bufferFor seq with
      | none => exact .resendSkip hb
      | some b => exact .resend hb
  | resent now seq seqs => exact .resent
  | tickAck =>
    simp only [exec]
    cases hp : s.pendingAck with
    | false => exact .tickQuiet hp
    | true => exact .tickAck hp
  | tickDone => exact .tickDone
  | transmitting => exact .transmitting

/-- A session with the stack of its active calls, the innermost first. -/
structure Config where
  session : TcpLiteSession
  stack : List Frame

/-- One step of the innermost call. -/
inductive Config.Exec : Config → Config → Prop where
  | step {s f fs} :
    Config.Exec ⟨s, f :: fs⟩ ⟨(exec s f).1, (exec s f).2 ++ fs⟩

/-- Steps of the active calls. -/
abbrev Config.Execs : Config → Config → Prop := Relation.ReflTransGen Config.Exec

/-! ## The methods are runs of their frames -/

/-- The innermost call runs first. -/
lemma Config.Execs.step {s f fs c} (h : Config.Execs ⟨(exec s f).1, (exec s f).2 ++ fs⟩ c) :
    Config.Execs ⟨s, f :: fs⟩ c :=
  Relation.ReflTransGen.head Config.Exec.step h

/-- A round of `pump_tx` ends the loop if there is nothing to send or no buffer. -/
lemma pumpRound_done {s r : TcpLiteSession} (e : s.pumpRound = .done r) :
    (s.pumpOpen = false ∧ r = s) ∨ (s.pumpOpen = true ∧ s.pumpSend = (r, none)) := by
  unfold TcpLiteSession.pumpRound at e
  cases ho : s.pumpOpen with
  | false =>
    simp [ho] at e
    exact .inl ⟨rfl, e.symm⟩
  | true =>
    rcases hs : s.pumpSend with ⟨u, _ | plen⟩
    · simp [ho, hs] at e
      subst e
      exact .inr ⟨rfl, rfl⟩
    · simp [ho, hs] at e

/-- A round of `pump_tx` that goes on has sent one packet. -/
lemma pumpRound_yield {s t : TcpLiteSession} (e : s.pumpRound = .yield t) :
    ∃ u plen, s.pumpOpen = true ∧ s.pumpSend = (u, some plen) ∧ t = u.pumpAdvance plen := by
  unfold TcpLiteSession.pumpRound at e
  cases ho : s.pumpOpen with
  | false => simp [ho] at e
  | true =>
    rcases hs : s.pumpSend with ⟨u, _ | plen⟩
    · simp [ho, hs] at e
    · simp [ho, hs] at e
      exact ⟨u, plen, rfl, rfl, e.symm⟩

/-- What `pump_tx` sends it sends from its own queue: the rest of the session is left alone. -/
lemma pumpSend_frame {s u : TcpLiteSession} {r} (e : s.pumpSend = (u, r)) :
    ∃ pool queue tape log, u = { s with pool := pool, unacked := queue, tape := tape, log := log } ∧
      log.sent = s.log.sent ∧ log.delivered = s.log.delivered := by
  unfold TcpLiteSession.pumpSend at e
  rcases ha : (s.pool.callerOps (s.tape 0).ops).acquire with ⟨_ | buf, pool⟩
  · simp only [ha, Prod.mk.injEq] at e
    obtain ⟨rfl, _⟩ := e
    exact ⟨_, _, _, _, rfl, rfl, rfl⟩
  · simp only [ha, Prod.mk.injEq] at e
    obtain ⟨rfl, _⟩ := e
    exact ⟨_, _, _, _, rfl, rfl, rfl⟩

/-- A round of `pump_tx` has bytes, and room in the window. -/
lemma pumpOpen_window {s : TcpLiteSession} (h : s.pumpOpen = true) :
    s.txOff < s.pendingTx.length ∧ (s.nextSeq - s.sndUna).toNat < 256 := by
  simpa [TcpLiteSession.pumpOpen] using h

/-- The window bounds the rounds of `pump_tx`. -/
lemma pumpTx_runs (s : TcpLiteSession) :
    Loop.Runs pumpRound s (Loop.loop pumpRound (window + 1) s) := by
  apply Loop.loop_runs fun s => 256 - (s.nextSeq - s.sndUna).toNat
  · intro s t e
    obtain ⟨u, plen, ho, hs, rfl⟩ := pumpRound_yield e
    obtain ⟨pool, queue, tape, log, rfl, _⟩ := pumpSend_frame hs
    have win := (pumpOpen_window ho).2
    have next : (s.nextSeq + 1 - s.sndUna).toNat = (s.nextSeq - s.sndUna).toNat + 1 := by
      bv_omega
    simp only [pumpAdvance, next]
    omega
  · show 256 - (s.nextSeq - s.sndUna).toNat < 257
    omega

/-- A property that survives each piece of `pump_tx` survives `pump_tx`. -/
lemma pumpTx_ind {R : TcpLiteSession → Prop}
    (hsend : ∀ s u r, R s → s.pumpOpen = true → s.pumpSend = (u, r) → R u)
    (hadv : ∀ s plen, R s → R (s.pumpAdvance plen)) (hreset : ∀ s, R s → R s.pumpReset)
    {s : TcpLiteSession} (h : R s) : R s.pumpTx := by
  apply hreset
  apply (pumpTx_runs s).inv (I := R) _ _ h
  · intro t r ht e
    rcases pumpRound_done e with ⟨_, rfl⟩ | ⟨ho, hs⟩
    · exact ht
    · exact hsend t r none ht ho hs
  · intro t r ht e
    obtain ⟨u, plen, ho, hs, rfl⟩ := pumpRound_yield e
    exact hadv u plen (hsend t u _ ht ho hs)

/-- `pump_tx` works on the send side only. -/
lemma pumpTx_frame (s : TcpLiteSession) : ∃ pool queue pending off next sent tape wire, s.pumpTx = { s with
      pool := pool
      unacked := queue
      pendingTx := pending
      txOff := off
      nextSeq := next
      bytesSent := sent
      tape := tape
      log := { s.log with wire := wire } } := by
  apply pumpTx_ind (R := fun t => ∃ pool queue pending off next sent tape wire, t = { s with
    pool := pool
    unacked := queue
    pendingTx := pending
    txOff := off
    nextSeq := next
    bytesSent := sent
    tape := tape
    log := { s.log with wire := wire } })
  · rintro t u r ⟨_, _, _, _, _, _, _, _, rfl⟩ _ hs
    obtain ⟨_, _, _, ⟨_, wire, _⟩, rfl, sent, delivered⟩ := pumpSend_frame hs
    cases sent
    cases delivered
    exact ⟨_, _, _, _, _, _, _, wire, rfl⟩
  · rintro t plen ⟨_, _, _, _, _, _, _, _, rfl⟩
    exact ⟨_, _, _, _, _, _, _, _, rfl⟩
  · rintro t ⟨_, _, _, _, _, _, _, _, rfl⟩
    obtain ⟨_, _, e, _⟩ := pumpReset_frame _
    exact ⟨_, _, _, _, _, _, _, _, e⟩
  · exact ⟨_, _, _, _, _, _, _, _, rfl⟩

/-- The last part of `tick` transmits at most a pure ACK. -/
lemma flushAck_frame (s : TcpLiteSession) : ∃ pending wire, s.flushAck = { s with
      pendingAck := pending
      log := { s.log with wire := wire } } := by
  unfold flushAck
  split
  · exact ⟨_, _, rfl⟩
  · exact ⟨_, _, rfl⟩

/-- `pump_tx` is what its frame computes. -/
theorem pumpTx_execs (s : TcpLiteSession) (fs : List Frame) :
    Config.Execs ⟨s, .pumpTx :: fs⟩ ⟨s.pumpTx, fs⟩ := by
  unfold TcpLiteSession.pumpTx
  have run := pumpTx_runs s
  generalize Loop.loop pumpRound (window + 1) s = r at run
  induction run with
  | @done s r e =>
    apply Config.Execs.step
    rcases pumpRound_done e with ⟨ho, rfl⟩ | ⟨ho, hs⟩
    · simp only [exec, ho, Bool.false_eq_true, if_false]
      exact Relation.ReflTransGen.refl
    · simp only [exec, ho, hs, if_true]
      exact Relation.ReflTransGen.refl
  | @yield s t r e _ ih =>
    obtain ⟨u, plen, ho, hs, rfl⟩ := pumpRound_yield e
    -- three steps: to `transmit_`, back from it, and to the next loop test
    apply Config.Execs.step
    simp only [exec, ho, hs, if_true]
    apply Config.Execs.step
    apply Config.Execs.step
    exact ih

/-- Passing byte strings to `send` one after another is what the `sends` frame computes. -/
theorem sends_execs (s : TcpLiteSession) (ds : List Bytes) (fs : List Frame) :
    Config.Execs ⟨s, .sends ds :: fs⟩ ⟨ds.foldl (fun t data => t.send data) s, fs⟩ := by
  induction ds generalizing s with
  | nil => exact Config.Execs.step Relation.ReflTransGen.refl
  | cons d ds ih =>
    apply Config.Execs.step
    exact (pumpTx_execs (s.append d) _).trans (ih (s.send d))

/-- What appending and `pump_tx` keep, the calls of `send` keep. -/
lemma sends_ind {R : TcpLiteSession → Prop} (happ : ∀ s d, R s → R (s.append d))
    (hpump : ∀ s, R s → R s.pumpTx) (ds : List Bytes) {s : TcpLiteSession} (h : R s) :
    R (ds.foldl (fun t data => t.send data) s) := by
  induction ds generalizing s with
  | nil => exact h
  | cons d ds ih => exact ih (hpump _ (happ s d h))

/-- The receive side of a session. -/
@[ext] structure Inbox where
  bitmap : RecvBitmap
  reasm : Fin window → Bytes
  bytes : BitVec 64
  delivered : List Bytes

/-- The receive side. -/
def TcpLiteSession.inbox (s : TcpLiteSession) : Inbox where
  bitmap := s.recvBitmap
  reasm := s.reasm
  bytes := s.bytesReceived
  delivered := s.log.delivered

/-- `pump_tx` leaves the receive side alone. -/
lemma pumpTx_inbox (s : TcpLiteSession) : s.pumpTx.inbox = s.inbox := by
  obtain ⟨_, _, _, _, _, _, _, _, e⟩ := pumpTx_frame s
  rw [e]
  rfl

/-- The calls of `send` leave the receive side alone. -/
lemma sends_inbox (ds : List Bytes) (s : TcpLiteSession) :
    (ds.foldl (fun t data => t.send data) s).inbox = s.inbox := by
  apply sends_ind (R := fun t => t.inbox = s.inbox)
  · exact fun t d ht => ht
  · exact fun t ht => (pumpTx_inbox t).trans ht
  · rfl

/-- A round of `deliver_in_order` hands one packet over. -/
lemma deliverRound_yield {s t : TcpLiteSession} (e : s.deliverRound = .yield t) :
    s.deliverOpen = true ∧
    t = ((s.tape 0).sends.foldl (fun t data => t.send data) s.deliverCall).deliverAdvance
      s.recvBitmap.baseSeq := by
  unfold TcpLiteSession.deliverRound at e
  cases ho : s.deliverOpen with
  | false => simp [ho] at e
  | true =>
    simp [ho] at e
    exact ⟨rfl, e.symm⟩

/-- The loop ends at the first packet that is missing. -/
lemma deliverRound_done {s r : TcpLiteSession} (e : s.deliverRound = .done r) :
    s.deliverOpen = false ∧ r = s := by
  unfold TcpLiteSession.deliverRound at e
  cases ho : s.deliverOpen with
  | false =>
    simp [ho] at e
    exact ⟨rfl, e.symm⟩
  | true => simp [ho] at e

/-- The packet at the base is deliverable exactly if its bit is set. -/
lemma deliverOpen_iff (s : TcpLiteSession) :
    s.deliverOpen = s.recvBitmap.received.getLsbD 0 := by
  simp [TcpLiteSession.deliverOpen, RecvBitmap.has]

/-- The contiguous part bounds the rounds of `deliver_in_order`. -/
lemma deliverInOrder_runs (s : TcpLiteSession) :
    Loop.Runs deliverRound s s.deliverInOrder := by
  apply Loop.loop_runs fun s => contig s.recvBitmap.received
  · intro s t e
    obtain ⟨ho, rfl⟩ := deliverRound_yield e
    rw [deliverOpen_iff] at ho
    -- the sends of the callback leave the bitmap alone, so that the round shifts it by one
    have same : ((s.tape 0).sends.foldl (fun t data => t.send data) s.deliverCall).recvBitmap
        = s.recvBitmap := congrArg Inbox.bitmap (sends_inbox _ _)
    have shift := contig_shift ho
    rw [deliverAdvance]
    dsimp only
    rw [same]
    show contig (s.recvBitmap.advance (s.recvBitmap.baseSeq + 1)).received < _
    rw [RecvBitmap.advance_one]
    dsimp only
    omega
  · exact Nat.lt_succ_of_le (contig_le _)

/-- `deliver_in_order` is what its frame computes. -/
theorem deliverInOrder_execs (s : TcpLiteSession) (fs : List Frame) :
    Config.Execs ⟨s, .deliver :: fs⟩ ⟨s.deliverInOrder, fs⟩ := by
  have run := deliverInOrder_runs s
  generalize s.deliverInOrder = r at run
  induction run with
  | done e =>
    obtain ⟨ho, rfl⟩ := deliverRound_done e
    apply Config.Execs.step
    simp only [exec, ho, Bool.false_eq_true, if_false]
    exact Relation.ReflTransGen.refl
  | @yield s t r e _ ih =>
    obtain ⟨ho, rfl⟩ := deliverRound_yield e
    apply Config.Execs.step
    simp only [exec, ho, if_true]
    refine (sends_execs _ _ _).trans ?_
    apply Config.Execs.step
    exact ih

/-- After `deliver_in_order` the packet at the base has not been received. -/
lemma deliverInOrder_stop (s : TcpLiteSession) : s.deliverInOrder.deliverOpen = false := by
  obtain ⟨t, e⟩ := (deliverInOrder_runs s).last
  obtain ⟨ho, h⟩ := deliverRound_done e
  rw [h]
  exact ho

/-- `on_packet_received`, from the hand-over of its buffer on, is what its frame computes. -/
theorem onPacketReceived_execs (buf : ℕ) (s : TcpLiteSession) (fs : List Frame) :
    Config.Execs ⟨s.handOver buf, .receive buf :: fs⟩ ⟨s.onPacketReceived buf, fs⟩ := by
  have data : ∀ (t : TcpLiteSession) (plen : ℕ),
      Config.Execs ⟨t, .receiveData buf plen :: fs⟩
        ⟨(t.receiveData buf plen).release .received buf, fs⟩ := by
    intro t plen
    apply Config.Execs.step
    cases plen with
    | zero => exact Relation.ReflTransGen.refl
    | succ n =>
      refine (deliverInOrder_execs (t.storeData buf (n + 1)) _).trans ?_
      exact Config.Execs.step Relation.ReflTransGen.refl
  unfold TcpLiteSession.onPacketReceived
  generalize s.handOver buf = u
  apply Config.Execs.step
  simp only [exec]
  rcases readChecked.run (u.pool.view buf) with ⟨h, ok⟩
  cases ok with
  | false => exact Relation.ReflTransGen.refl
  | true =>
    cases ht : u.ackTaken h with
    | false =>
      simp only [receiveAck, ht, if_true, Bool.false_eq_true, if_false]
      exact data u _
    | true =>
      simp only [receiveAck, ht, if_true]
      exact (pumpTx_execs (u.takeAck h.ackNum) _).trans (data _ _)

/-- `tick` is what its frame computes. -/
theorem tick_execs (s : TcpLiteSession) (fs : List Frame) :
    Config.Execs ⟨s, .tick :: fs⟩ ⟨s.tick, fs⟩ := by
  have loop : ∀ (now : BitVec 64) (seqs : List (BitVec 32)) (t : TcpLiteSession),
      Config.Execs ⟨t, .resend now seqs :: fs⟩
        ⟨seqs.foldl (TcpLiteSession.resend now) t, .pumpTx :: .tickAck :: fs⟩ := by
    intro now seqs
    induction seqs with
    | nil => exact fun t => Config.Execs.step Relation.ReflTransGen.refl
    | cons seq seqs ih =>
      intro t
      apply Config.Execs.step
      simp only [exec, List.foldl_cons, TcpLiteSession.resend]
      cases hb : t.unacked.bufferFor seq with
      | none => exact ih t
      | some b =>
        apply Config.Execs.step
        apply Config.Execs.step
        exact ih _
  have flush : ∀ t : TcpLiteSession, Config.Execs ⟨t, .tickAck :: fs⟩ ⟨t.flushAck, fs⟩ := by
    intro t
    apply Config.Execs.step
    simp only [exec, flushAck]
    cases hp : t.pendingAck with
    | false => exact Relation.ReflTransGen.refl
    | true =>
      apply Config.Execs.step
      apply Config.Execs.step
      exact Relation.ReflTransGen.refl
  apply Config.Execs.step
  exact (loop _ _ _).trans ((pumpTx_execs _ _).trans (flush _))

end UxNet.TcpLite
