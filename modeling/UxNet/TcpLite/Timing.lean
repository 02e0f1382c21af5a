import UxNet.TcpLite.Calls
import UxNet.TcpLite.Entries

/-!
# Times of transmission

The times that a session records for its packets, and with them the retransmissions. `Timed` is a session
with the last reading of the clock and the history of its recorded times: `mark_sent`, `touch` and
`mark_acked` each leave a `TimeEvent`. `Timed.Step` is a step of the session in which the clock, if it is
read, has not gone back. `recorded` is what the history says about the packets that are not acknowledged;
it knows nothing of slots. `OnTime` says that the slots agree with it, that nothing is recorded for the
future, and that a retransmission loop in progress has only packets that are due.
-/

namespace UxNet.TcpLite

open TcpLiteSession

/-- What happens to the recorded times. -/
inductive TimeEvent where
  | sent (seq : BitVec 32) (tsc : BitVec 64)
  | resent (seq : BitVec 32) (tsc : BitVec 64)
  | acked (upToSeq : BitVec 32)
deriving DecidableEq

/-- The packets that are not acknowledged, each with the time recorded last. -/
abbrev Times := BitVec 32 → Option (BitVec 64)

namespace TimeEvent

/-- What an event leaves recorded. -/
def record (m : Times) : TimeEvent → Times
  | .sent seq tsc => Function.update m seq (some tsc)
  | .resent seq tsc => Function.update m seq (some tsc)
  | .acked upToSeq => fun seq => if (seq - upToSeq).toInt < 0 then none else m seq

/-- The transmission that a time is recorded for. -/
def kind : TimeEvent → Option TxKind
  | .sent _ _ => some .data
  | .resent _ _ => some .retransmit
  | .acked _ => none

end TimeEvent

/-- What is recorded after some events. -/
def recorded (es : List TimeEvent) : Times := es.foldl TimeEvent.record fun _ => none

/-- A transmission of a packet, that is of anything but a pure ACK. -/
def Transmission.packet (x : Transmission) : Option TxKind := if x.kind = .ack then none else some x.kind

/-- The timeout of a session in cycles. -/
def TcpLiteSession.timeout (s : TcpLiteSession) : BitVec 64 := s.clock.nsToCycles s.rtoNs

/-- What the next step does to the recorded times. -/
def event (s : TcpLiteSession) : Frame → Option TimeEvent
  | .pumpTx =>
    if s.pumpOpen then
      (s.pool.callerOps (s.tape 0).ops).acquire.1.map fun _ => .sent s.nextSeq (s.tape 0).tsc
    else none
  | .receive buf =>
    let r := readChecked.run (s.pool.view buf)
    if r.2 && s.ackTaken r.1 then some (.acked r.1.ackNum) else none
  | .resent now seq _ => some (.resent seq now)
  | _ => none

/-- The reading of `rdtsc` that the next step makes. -/
def reading (s : TcpLiteSession) : Frame → Option (BitVec 64)
  | .pumpTx =>
    if s.pumpOpen then (s.pool.callerOps (s.tape 0).ops).acquire.1.map fun _ => (s.tape 0).tsc else none
  | .receive buf =>
    let r := readChecked.run (s.pool.view buf)
    -- a sample of the RTT
    if r.2 && s.ackTaken r.1 && (s.unacked.markAcked r.1.ackNum s.pool).1 ≠ 0 then some (s.tape 0).tsc
    else none
  | .tick => some (s.tape 0).tsc
  | _ => none

/-- A session with the last reading of the clock and the history of its recorded times. -/
structure Timed where
  config : Config
  last : BitVec 64
  events : List TimeEvent

namespace Timed

/-- A fresh session, before the first reading. -/
def fresh (pool : BufferPool) (clock : TscClock) (rtoNs : BitVec 64) (tape : Tape) : Timed where
  config := .fresh pool clock rtoNs tape
  last := 0
  events := []

/-- One step, in which the clock does not go back. -/
inductive Step : Timed → Timed → Prop where
  | exec {s f fs last es} :
    (∀ tsc, reading s f = some tsc → last ≤ tsc) →
    Step ⟨⟨s, f :: fs⟩, last, es⟩
      ⟨⟨(exec s f).1, (exec s f).2 ++ fs⟩, (reading s f).getD last, es ++ (event s f).toList⟩
  | call {c c' last es} :
    Outside c.stack →
    Config.Step c c' →
    Step ⟨c, last, es⟩ ⟨c', last, es⟩

/-- Any number of steps. -/
abbrev Steps : Timed → Timed → Prop := Relation.ReflTransGen Step

end Timed

/-! ## The times in the slots -/

/-- The times in the slots are the ones recorded. -/
structure Keeps (q : UnackedQueue) (m : Times) : Prop where
  holds : Holds q q.entries
  times : ∀ seq, (q.entries seq).map Prod.snd = m seq

/-- The packets of a session are in the window that starts at `snd_una_`. -/
lemma Live.fitsAt {q : UnackedQueue} {una next : BitVec 32} {m : Entries} (live : Live q una next)
    (h : Holds q m) : FitsAt una m := by
  intro seq ne
  obtain ⟨occ, here, _⟩ := h.found ne
  obtain ⟨_, lt, le⟩ := live _ occ
  rw [here] at lt
  omega

namespace Keeps

variable {q : UnackedQueue} {m : Times} {una next seq : BitVec 32}

/-- A queue that holds a map keeps its times. -/
lemma of_holds {es : Entries} (h : Holds q es) (times : ∀ seq, (es seq).map Prod.snd = m seq) :
    Keeps q m := by
  have same : q.entries = es := h.map
  subst same
  exact ⟨h, times⟩

/-- A time is recorded exactly for the packets that are held. -/
lemma ne_none_iff (h : Keeps q m) : m seq ≠ none ↔ q.entries seq ≠ none := by
  rw [← h.times seq, Ne, Option.map_eq_none_iff]

/-- A new queue keeps no times. -/
lemma new : Keeps .new fun _ => none :=
  .of_holds .new fun _ => rfl

/-- `mark_sent` records a time. -/
lemma markSent (h : Keeps q m) (live : Live q una next) (room : (next - una).toNat < 256) (buf : ℕ)
    (tsc : BitVec 64) (pool : BufferPool) :
    Keeps (q.markSent next buf tsc pool).1 (TimeEvent.record m (.sent next tsc)) := by
  have fits := (live.fitsAt h.holds).put room buf tsc
  apply of_holds (h.holds.markSent fits pool)
  intro seq
  by_cases same : seq = next
  · rw [same, Entries.put, TimeEvent.record, Function.update_self, Function.update_self]
    rfl
  · rw [Entries.put, TimeEvent.record, Function.update_of_ne same, Function.update_of_ne same]
    exact h.times seq

/-- `mark_acked` forgets the times of what it takes. -/
lemma markAcked (h : Keeps q m) (live : Live q una next) {ack : BitVec 32}
    (ahead : 0 < (ack - una).toInt) (pool : BufferPool) :
    Keeps (q.markAcked ack pool).2.1 (TimeEvent.record m (.acked ack)) := by
  have fits := live.fitsAt h.holds
  have near : Near una ack := by
    unfold Near
    omega
  apply of_holds (h.holds.markAcked fits near pool)
  intro seq
  show (if Before una ack seq then none else q.entries seq).map Prod.snd
    = if (seq - ack).toInt < 0 then none else m seq
  rw [← h.times seq]
  by_cases there : q.entries seq = none
  · rw [there]
    simp
  · have iff := toInt_neg_iff_before (fits seq there) near
    by_cases before : Before una ack seq
    · rw [if_pos before, if_pos (iff.mpr before)]
      rfl
    · rw [if_neg before, if_neg fun neg => before (iff.mp neg)]

/-- `touch` records the time of a retransmission. -/
lemma touch (h : Keeps q m) (there : m seq ≠ none) (now : BitVec 64) :
    Keeps (q.touch seq now) (TimeEvent.record m (.resent seq now)) := by
  apply of_holds (h.holds.touch seq now)
  intro seq'
  by_cases same : seq' = seq
  · obtain ⟨e, entry⟩ := Option.ne_none_iff_exists'.mp (h.ne_none_iff.mp there)
    rw [same, Entries.touch, TimeEvent.record, Function.update_self, Function.update_self, entry]
    rfl
  · rw [Entries.touch, TimeEvent.record, Function.update_of_ne same, Function.update_of_ne same]
    exact h.times seq'

/-- The next packet is not among those recorded. -/
lemma fresh (h : Keeps q m) (live : Live q una next) : m next = none := by
  by_contra ne
  obtain ⟨occ, here, _⟩ := h.holds.found (h.ne_none_iff.mp ne)
  have lt := (live _ occ).2.1
  rw [here] at lt
  exact absurd lt (lt_irrefl _)

/-- The time of a slot is the one recorded. -/
lemma slot (h : Keeps q m) {k : Fin window} (occ : (q.slots k).occupied = true) :
    m (q.slots k).seq = some (q.slots k).sentTsc := by
  obtain ⟨_, b, _, entry⟩ := h.holds.slot occ
  rw [← h.times, entry]
  rfl

/-- What is recorded is what is in the slots. -/
lemma recorded_iff (h : Keeps q m) {t : BitVec 64} :
    m seq = some t ↔ q.occupied seq = true ∧ (q.slots (slotIdx seq)).sentTsc = t := by
  rw [h.holds.occupied_iff, ← h.times seq, Option.map_eq_some_iff]
  constructor
  · rintro ⟨⟨b, t'⟩, entry, rfl⟩
    obtain ⟨_, _, _, time⟩ := h.holds.eq_some_iff.mp entry
    rw [entry]
    exact ⟨Option.some_ne_none _, time⟩
  · rintro ⟨ne, time⟩
    obtain ⟨_, _, b, _, entry⟩ := h.holds.found ne
    exact ⟨_, entry, time⟩

/-- A packet with a time has a buffer. -/
lemma buffer (h : Keeps q m) (there : m seq ≠ none) : ∃ b, q.bufferFor seq = some b := by
  obtain ⟨_, _, b, _, entry⟩ := h.holds.found (h.ne_none_iff.mp there)
  refine ⟨b, ?_⟩
  rw [h.holds.bufferFor_eq, entry]
  rfl

/-- The packets that have timed out, by a clock that has not gone back. -/
lemma mem_timedOut {s : TcpLiteSession} (h : Keeps s.unacked m)
    (past : ∀ seq t, m seq = some t → t.toNat ≤ (s.tape 0).tsc.toNat) :
    seq ∈ s.timedOut ↔ ∃ t, m seq = some t ∧ t.toNat + s.timeout.toNat ≤ (s.tape 0).tsc.toNat := by
  have late : ∀ t, m seq = some t →
      (s.timeout ≤ (s.tape 0).tsc - t ↔ t.toNat + s.timeout.toNat ≤ (s.tape 0).tsc.toNat) := by
    intro t there
    have le := past seq t there
    rw [BitVec.le_def, BitVec.toNat_sub_of_le (BitVec.le_def.mpr le)]
    omega
  rw [timedOut, h.holds.mem_checkTimeouts]
  constructor
  · rintro ⟨b, t, entry, old⟩
    have there : m seq = some t := by
      rw [← h.times, entry]
      rfl
    exact ⟨t, there, (late t there).mp old⟩
  · rintro ⟨t, there, old⟩
    have entry := h.times seq
    rw [there, Option.map_eq_some_iff] at entry
    obtain ⟨⟨b, t'⟩, entry, rfl⟩ := entry
    exact ⟨b, t', entry, (late t' there).mpr old⟩

end Keeps

/-! ## What a step does -/

/-- A retransmission loop in progress: its time, and what it has still to send again. -/
def Frame.retrying : Frame → Option (BitVec 64 × List (BitVec 32))
  | .resend now seqs => some (now, seqs)
  | .resent now seq seqs => some (now, seq :: seqs)
  | _ => none

/-- A retransmission whose time is not recorded yet. -/
def Frame.sending : Frame → Option TxKind
  | .resent _ _ _ => some .retransmit
  | _ => none

/-- What waits for something else is no retransmission loop. -/
lemma Frame.Waiting.retrying {g : Frame} (waiting : g.Waiting) : g.retrying = none := by
  cases g with
  | resend => exact waiting.elim
  | resent => exact waiting.elim
  | _ => rfl

/-- Without a loop nothing is being sent again. -/
lemma sending_nil {fs : List Frame} (nil : fs.filterMap Frame.retrying = []) :
    fs.filterMap Frame.sending = [] := by
  rw [List.filterMap_eq_nil_iff] at nil ⊢
  intro f mem
  have none := nil f mem
  cases f with
  | resent => cases none
  | _ => rfl

/-- Everything a step can do to the times and to the retransmissions. -/
inductive Timing (s : TcpLiteSession) :
    Frame → TcpLiteSession → List Frame → Option TimeEvent → Option (BitVec 64) → Prop where
  | sent {buf pool queue pool'} :
    s.pumpOpen = true →
    (s.pool.callerOps (s.tape 0).ops).acquire = (some buf, pool) →
    s.unacked.markSent s.nextSeq buf (s.tape 0).tsc (pool.store buf s.pumpPacket) = (queue, pool') →
    Timing s .pumpTx
      (transmit .data s.pumpPacket { s with pool := pool', unacked := queue, tape := s.rest })
      [.transmitting, .pumpSent s.pumpLen] (some (.sent s.nextSeq (s.tape 0).tsc)) (some (s.tape 0).tsc)
  | acked {buf h r} :
    s.ackTaken h = true →
    Timing s (.receive buf) (s.takeAck h.ackNum) [.pumpTx, .receiveData buf h.payloadLen.toNat]
      (some (.acked h.ackNum)) r
  | tick :
    Timing s .tick { s with tape := s.rest } [.resend (s.tape 0).tsc s.timedOut] none
      (some (s.tape 0).tsc)
  | resend {now seq seqs b} :
    s.unacked.bufferFor seq = some b →
    Timing s (.resend now (seq :: seqs)) (s.transmit .retransmit (s.pool.content b))
      [.transmitting, .resent now seq seqs] none none
  | skip {now seq seqs} :
    s.unacked.bufferFor seq = none →
    Timing s (.resend now (seq :: seqs)) s [.resend now seqs] none none
  | resent {now seq seqs} :
    Timing s (.resent now seq seqs) (s.resent now seq) [.resend now seqs] (some (.resent seq now)) none
  | other {f s' new} :
    s'.unacked = s.unacked →
    s'.retransmits = s.retransmits →
    s'.log.wire.filterMap Transmission.packet = s.log.wire.filterMap Transmission.packet →
    f.sending = none →
    new.filterMap Frame.retrying = [] →
    Timing s f s' new none none

section Steps

variable {s s' : TcpLiteSession} {f : Frame} {new fs : List Frame} {T last : BitVec 64}
  {es : List TimeEvent}

/-- What a step does to the times is what its code does. -/
lemma Case.timing (c : Case s f s' new) : Timing s f s' new (event s f) (reading s f) := by
  cases c with
  | pumpSend op got marked =>
    have e : event s .pumpTx = some (.sent s.nextSeq (s.tape 0).tsc) := by simp [event, op, got]
    have r : reading s .pumpTx = some (s.tape 0).tsc := by simp [reading, op, got]
    rw [e, r]
    exact .sent op got marked
  | @ack buf hd ok taken =>
    have e : event s (.receive buf) = some (.acked hd.ackNum) := by simp [event, ok, taken]
    rw [e]
    exact .acked taken
  | tick => exact .tick
  | resend found => exact .resend found
  | resendSkip none => exact .skip none
  | resent => exact .resent
  | pumpStop closed =>
    have e : event s .pumpTx = none := by simp [event, closed]
    have r : reading s .pumpTx = none := by simp [reading, closed]
    obtain ⟨_, _, frame, _⟩ := pumpReset_frame s
    rw [e, r, frame]
    exact .other rfl rfl rfl rfl rfl
  | pumpFull op empty =>
    have e : event s .pumpTx = none := by simp [event, op, empty]
    have r : reading s .pumpTx = none := by simp [reading, op, empty]
    obtain ⟨_, _, frame, _⟩ := pumpReset_frame { s with pool := _, tape := s.rest }
    rw [e, r, frame]
    exact .other rfl rfl rfl rfl rfl
  | @corrupt buf bad =>
    have e : event s (.receive buf) = none := by simp [event, bad]
    have r : reading s (.receive buf) = none := by simp [reading, bad]
    rw [e, r]
    exact .other rfl rfl rfl rfl rfl
  | @noAck buf hd ok refused =>
    have e : event s (.receive buf) = none := by simp [event, ok, refused]
    have r : reading s (.receive buf) = none := by simp [reading, ok, refused]
    rw [e, r]
    exact .other rfl rfl rfl rfl rfl
  | store _ =>
    obtain ⟨_, _, frame⟩ := storeData_frame s _ _
    rw [frame]
    exact .other rfl rfl rfl rfl rfl
  | tickAck _ =>
    refine .other rfl rfl ?_ rfl rfl
    show (s.log.wire ++ [_]).filterMap Transmission.packet = _
    rw [List.filterMap_append]
    exact List.append_nil _
  | _ => exact .other rfl rfl rfl rfl rfl

/-- The timeout is constant. -/
lemma Case.timeout (c : Case s f s' new) : s'.timeout = s.timeout := by
  cases c with
  | pumpStop _ =>
    obtain ⟨_, _, frame, _⟩ := pumpReset_frame s
    rw [frame]
    rfl
  | pumpFull _ _ =>
    obtain ⟨_, _, frame, _⟩ := pumpReset_frame { s with pool := _, tape := s.rest }
    rw [frame]
    rfl
  | ack _ _ =>
    obtain ⟨_, _, frame⟩ := takeAck_frame s _
    rw [frame]
    rfl
  | store _ =>
    obtain ⟨_, _, frame⟩ := storeData_frame s _ _
    rw [frame]
    rfl
  | _ => rfl

end Steps

/-! ## Runs -/

/-- A time is recorded when it may be: a packet is new, or its timeout has passed since the last time. -/
def TimeEvent.Fair (T : BitVec 64) (pre : List TimeEvent) : TimeEvent → Prop
  | .sent seq _ => recorded pre seq = none
  | .resent seq now => ∃ t, recorded pre seq = some t ∧ t.toNat + T.toNat ≤ now.toNat
  | .acked _ => True

/-- What holds between any two steps, with a timeout of `T` cycles. -/
structure OnTime (T : BitVec 64) (x : Timed) : Prop where
  timeout : x.config.session.timeout = T
  quiet : Quiet x.config.stack
  top : AtTop Frame.retrying x.config.stack
  live : Live x.config.session.unacked x.config.session.sndUna
    (x.config.session.nextSeq + BitVec.ofNat 32 (pumps x.config.stack).length)
  keeps : Keeps x.config.session.unacked (recorded x.events)
  past : ∀ seq t, recorded x.events seq = some t → t.toNat ≤ x.last.toNat
  due : ∀ now seqs, (now, seqs) ∈ x.config.stack.filterMap Frame.retrying →
    now.toNat ≤ x.last.toNat ∧ seqs.Nodup ∧
      ∀ seq ∈ seqs, ∃ t, recorded x.events seq = some t ∧ t.toNat + T.toNat ≤ now.toNat
  fair : ∀ pre e post, x.events = pre ++ e :: post → e.Fair T pre
  count : x.config.session.retransmits
    = BitVec.ofNat 64 (x.events.countP fun e => e.kind = some .retransmit)
  wire : x.config.session.log.wire.filterMap Transmission.packet
    = x.events.filterMap TimeEvent.kind ++ x.config.stack.filterMap Frame.sending

/-- The last event counts last. -/
lemma recorded_concat (es : List TimeEvent) (e : TimeEvent) :
    recorded (es ++ [e]) = TimeEvent.record (recorded es) e := by
  rw [recorded, List.foldl_append]
  rfl

/-- What a new event records is either old, or the time of the event. -/
lemma recorded_cases {es : List TimeEvent} {e : TimeEvent} {seq : BitVec 32} {t : BitVec 64}
    (there : recorded (es ++ [e]) seq = some t) :
    recorded es seq = some t ∨ e = .sent seq t ∨ e = .resent seq t := by
  rw [recorded_concat] at there
  cases e with
  | sent seq' tsc =>
    by_cases same : seq = seq'
    · rw [same, TimeEvent.record, Function.update_self] at there
      cases there
      exact .inr (.inl (by rw [same]))
    · rw [TimeEvent.record, Function.update_of_ne same] at there
      exact .inl there
  | resent seq' tsc =>
    by_cases same : seq = seq'
    · rw [same, TimeEvent.record, Function.update_self] at there
      cases there
      exact .inr (.inr (by rw [same]))
    · rw [TimeEvent.record, Function.update_of_ne same] at there
      exact .inl there
  | acked upToSeq =>
    have there : (if (seq - upToSeq).toInt < 0 then none else recorded es seq) = some t := there
    split at there
    · cases there
    · exact .inl there

/-- A retransmission leaves the other times alone. -/
lemma recorded_resent_ne {es : List TimeEvent} {seq seq' : BitVec 32} (ne : seq' ≠ seq) (now : BitVec 64) :
    recorded (es ++ [.resent seq now]) seq' = recorded es seq' := by
  rw [recorded_concat, TimeEvent.record, Function.update_of_ne ne]

/-- The events are fair one by one. -/
lemma fair_concat {T : BitVec 64} {es : List TimeEvent} {e : TimeEvent}
    (old : ∀ pre e' post, es = pre ++ e' :: post → e'.Fair T pre) (new : e.Fair T es) :
    ∀ pre e' post, es ++ [e] = pre ++ e' :: post → e'.Fair T pre := by
  intro pre e' post split
  rcases List.eq_nil_or_concat post with rfl | ⟨post, last, rfl⟩
  · obtain ⟨rfl, e⟩ := List.append_inj' split rfl
    cases e
    exact new
  · rw [List.concat_eq_append, ← List.cons_append, ← List.append_assoc] at split
    exact old pre e' post (List.append_inj' split rfl).1

namespace OnTime

variable {s s' : TcpLiteSession} {f : Frame} {new fs : List Frame} {T last : BitVec 64}
  {es : List TimeEvent} {e : Option TimeEvent} {r : Option (BitVec 64)}

/-- Nothing is recorded. -/
lemma fresh (pool : BufferPool) (clock : TscClock) (rtoNs : BitVec 64) (tape : Tape) :
    OnTime (clock.nsToCycles rtoNs) (.fresh pool clock rtoNs tape) where
  timeout := rfl
  quiet := trivial
  top := trivial
  live := .new _ _
  keeps := .new
  past := nofun
  due := nofun
  fair := by
    intro pre e post split
    simp [Timed.fresh] at split
  count := rfl
  wire := rfl

/-- A packet of the loop in progress has a time. -/
lemma pending (h : OnTime T ⟨⟨s, f :: fs⟩, last, es⟩) {now : BitVec 64} {seqs : List (BitVec 32)}
    (loop : f.retrying = some (now, seqs)) :
    now.toNat ≤ last.toNat ∧ seqs.Nodup ∧
      ∀ seq ∈ seqs, ∃ t, recorded es seq = some t ∧ t.toNat + T.toNat ≤ now.toNat := by
  apply h.due now seqs
  show (now, seqs) ∈ (f :: fs).filterMap Frame.retrying
  rw [List.filterMap_cons_some loop]
  exact List.mem_cons_self

/-- A step records what it sends and forgets what is acknowledged. -/
lemma keeps_step (h : OnTime T ⟨⟨s, f :: fs⟩, last, es⟩) (tm : Timing s f s' new e r) :
    Keeps s'.unacked (recorded (es ++ e.toList)) := by
  have keeps : Keeps s.unacked (recorded es) := h.keeps
  cases tm with
  | @sent buf pool queue pool' op got marked =>
    have kept := keeps.markSent (h.live.resting (h.quiet.tail nofun)) (pumpOpen_window op).2 buf
      (s.tape 0).tsc (pool.store buf s.pumpPacket)
    rw [marked] at kept
    show Keeps queue (recorded (es ++ [_]))
    rw [recorded_concat]
    exact kept
  | @acked buf hd r taken =>
    have kept := keeps.markAcked h.live (ackTaken_ahead taken) s.pool
    obtain ⟨_, _, frame⟩ := takeAck_frame s hd.ackNum
    rw [frame]
    show Keeps _ (recorded (es ++ [_]))
    rw [recorded_concat]
    exact kept
  | tick => rwa [Option.toList_none, List.append_nil]
  | resend _ => rwa [Option.toList_none, List.append_nil]
  | skip _ => rwa [Option.toList_none, List.append_nil]
  | @resent now seq seqs =>
    obtain ⟨_, _, late⟩ := h.pending rfl
    obtain ⟨t, there, _⟩ := late seq List.mem_cons_self
    show Keeps (s.unacked.touch seq now) (recorded (es ++ [_]))
    rw [recorded_concat]
    exact keeps.touch (by rw [there]; exact Option.some_ne_none t) now
  | other same _ _ _ _ =>
    rw [same, Option.toList_none, List.append_nil]
    exact keeps

/-- No recorded time is in the future. -/
lemma past_step (h : OnTime T ⟨⟨s, f :: fs⟩, last, es⟩) (tm : Timing s f s' new e r)
    (up : ∀ tsc, r = some tsc → last ≤ tsc) (seq : BitVec 32) (t : BitVec 64)
    (there : recorded (es ++ e.toList) seq = some t) : t.toNat ≤ (r.getD last).toNat := by
  have later : last.toNat ≤ (r.getD last).toNat := by
    cases r with
    | none => exact le_rfl
    | some tsc => exact up tsc rfl
  have old : recorded es seq = some t → t.toNat ≤ (r.getD last).toNat :=
    fun there => (h.past seq t there).trans later
  cases tm with
  | sent op got marked =>
    rcases recorded_cases there with there | e | e
    · exact old there
    · cases e
      exact le_rfl
    · cases e
  | acked taken =>
    rcases recorded_cases there with there | e | e
    · exact old there
    · cases e
    · cases e
  | resent =>
    rcases recorded_cases there with there | e | e
    · exact old there
    · cases e
    · cases e
      exact (h.pending rfl).1
  | _ =>
    rw [Option.toList_none, List.append_nil] at there
    exact old there

/-- What the loop has still to send again is due. -/
lemma due_step (h : OnTime T ⟨⟨s, f :: fs⟩, last, es⟩) (tm : Timing s f s' new e r)
    (up : ∀ tsc, r = some tsc → last ≤ tsc) (now : BitVec 64) (seqs : List (BitVec 32))
    (mem : (now, seqs) ∈ (new ++ fs).filterMap Frame.retrying) :
    now.toNat ≤ (r.getD last).toNat ∧ seqs.Nodup ∧
      ∀ seq ∈ seqs, ∃ t, recorded (es ++ e.toList) seq = some t ∧ t.toNat + T.toNat ≤ now.toNat := by
  have below : f ≠ .transmitting → (now, seqs) ∉ fs.filterMap Frame.retrying := by
    intro busy
    rw [h.top.tail busy]
    exact List.not_mem_nil
  -- the loop of `tick` on the stack, if any, is the one that makes this step
  have top : f ≠ .transmitting → ∀ p, (now, seqs) ∈ p :: fs.filterMap Frame.retrying → (now, seqs) = p :=
    fun busy p mem => (List.mem_cons.mp mem).resolve_right (below busy)
  cases tm with
  | sent op got marked => exact absurd mem (below nofun)
  | acked taken => exact absurd mem (below nofun)
  | tick =>
    cases top nofun ((s.tape 0).tsc, s.timedOut) mem
    have le : last ≤ (s.tape 0).tsc := up _ rfl
    refine ⟨le_rfl, h.keeps.holds.nodup_checkTimeouts _ _, ?_⟩
    intro seq due
    have timeout : s.timeout = T := h.timeout
    rw [Option.toList_none, List.append_nil, ← timeout]
    exact (h.keeps.mem_timedOut fun seq t there => (h.past seq t there).trans le).mp due
  | @resend now' seq' seqs' b found =>
    cases top nofun (now', seq' :: seqs') mem
    rw [Option.toList_none, List.append_nil]
    exact h.pending rfl
  | @skip now' seq' seqs' missing =>
    cases top nofun (now', seqs') mem
    obtain ⟨le, nodup, late⟩ := h.pending rfl
    rw [Option.toList_none, List.append_nil]
    exact ⟨le, nodup.of_cons, fun seq mem => late seq (List.mem_cons_of_mem _ mem)⟩
  | @resent now' seq' seqs' =>
    cases top nofun (now', seqs') mem
    obtain ⟨le, nodup, late⟩ := h.pending rfl
    refine ⟨le, nodup.of_cons, ?_⟩
    intro seq mem
    -- the packets that are still to be sent again are others
    have ne : seq ≠ seq' := fun same => (List.nodup_cons.mp nodup).1 (same ▸ mem)
    show ∃ t, recorded (es ++ [_]) seq = some t ∧ _
    rw [recorded_resent_ne ne]
    exact late seq (List.mem_cons_of_mem _ mem)
  | other _ _ _ _ quiet =>
    rw [List.filterMap_append, quiet, List.nil_append] at mem
    rw [Option.toList_none, List.append_nil]
    apply h.due now seqs
    show (now, seqs) ∈ ([f] ++ fs).filterMap Frame.retrying
    rw [List.filterMap_append]
    exact List.mem_append_right _ mem

/-- Every event is fair. -/
lemma fair_step (h : OnTime T ⟨⟨s, f :: fs⟩, last, es⟩) (tm : Timing s f s' new e r) :
    ∀ pre e' post, es ++ e.toList = pre ++ e' :: post → e'.Fair T pre := by
  cases tm with
  | sent op got marked =>
    exact fair_concat h.fair (h.keeps.fresh (h.live.resting (h.quiet.tail nofun)))
  | acked taken => exact fair_concat h.fair trivial
  | resent => exact fair_concat h.fair ((h.pending rfl).2.2 _ List.mem_cons_self)
  | _ =>
    rw [Option.toList_none, List.append_nil]
    exact h.fair

/-- `retransmits_` counts the retransmissions. -/
lemma count_step (h : OnTime T ⟨⟨s, f :: fs⟩, last, es⟩) (tm : Timing s f s' new e r) :
    s'.retransmits = BitVec.ofNat 64 ((es ++ e.toList).countP fun e => e.kind = some .retransmit) := by
  have count : s.retransmits = BitVec.ofNat 64 (es.countP fun e => e.kind = some .retransmit) := h.count
  rw [List.countP_append]
  cases tm with
  | @acked buf hd r taken =>
    obtain ⟨_, _, frame⟩ := takeAck_frame s hd.ackNum
    rw [frame]
    exact count
  | resent =>
    show s.retransmits + 1 = _
    rw [count, BitVec.ofNat_add]
    rfl
  | other _ same _ _ _ => exact same.trans count
  | _ => exact count

/-- Every packet on the wire has its event, but for the one being sent again. -/
lemma wire_step (h : OnTime T ⟨⟨s, f :: fs⟩, last, es⟩) (tm : Timing s f s' new e r) :
    s'.log.wire.filterMap Transmission.packet
      = (es ++ e.toList).filterMap TimeEvent.kind ++ (new ++ fs).filterMap Frame.sending := by
  have wire : s.log.wire.filterMap Transmission.packet
      = es.filterMap TimeEvent.kind ++ (f :: fs).filterMap Frame.sending := h.wire
  have none : f ≠ .transmitting → fs.filterMap Frame.sending = [] := fun ne => sending_nil (h.top.tail ne)
  rw [List.filterMap_append]
  cases tm with
  | sent op got marked =>
    have wire : s.log.wire.filterMap Transmission.packet
        = es.filterMap TimeEvent.kind ++ fs.filterMap Frame.sending := wire
    show (s.log.wire ++ [_]).filterMap Transmission.packet
      = _ ++ [TxKind.data] ++ fs.filterMap Frame.sending
    rw [List.filterMap_append, wire, none nofun, List.append_nil, List.append_nil]
    rfl
  | @acked buf hd r taken =>
    obtain ⟨_, _, frame⟩ := takeAck_frame s hd.ackNum
    rw [frame]
    show _ = _ ++ [] ++ fs.filterMap Frame.sending
    rw [List.append_nil]
    exact wire
  | resend found =>
    have wire : s.log.wire.filterMap Transmission.packet
        = es.filterMap TimeEvent.kind ++ fs.filterMap Frame.sending := wire
    show (s.log.wire ++ [_]).filterMap Transmission.packet
      = _ ++ [] ++ (TxKind.retransmit :: fs.filterMap Frame.sending)
    rw [List.filterMap_append, wire, none nofun, List.append_nil]
    rfl
  | resent =>
    have wire : s.log.wire.filterMap Transmission.packet
        = es.filterMap TimeEvent.kind ++ (TxKind.retransmit :: fs.filterMap Frame.sending) := wire
    show s.log.wire.filterMap Transmission.packet
      = _ ++ [TxKind.retransmit] ++ fs.filterMap Frame.sending
    rw [wire, List.append_assoc]
    rfl
  | other _ _ same idle quiet =>
    rw [same, wire, List.filterMap_cons_none idle, List.filterMap_append, sending_nil quiet]
    exact congrArg (· ++ _) (List.append_nil _).symm
  | _ => exact wire.trans (congrArg (· ++ _) (List.append_nil _).symm)

/-- The code between two callbacks keeps the times in order. -/
lemma exec (h : OnTime T ⟨⟨s, f :: fs⟩, last, es⟩) (c : Case s f s' new)
    (up : ∀ tsc, reading s f = some tsc → last ≤ tsc) :
    OnTime T ⟨⟨s', new ++ fs⟩, (reading s f).getD last, es ++ (event s f).toList⟩ where
  timeout := c.timeout.trans h.timeout
  quiet := h.quiet.exec c
  top := h.top.exec (fun _ => Frame.Waiting.retrying) c
  live := h.live.exec c h.quiet.guard
  keeps := h.keeps_step c.timing
  past := h.past_step c.timing up
  due := h.due_step c.timing up
  fair := h.fair_step c.timing
  count := h.count_step c.timing
  wire := h.wire_step c.timing

/-- A step outside of the session's own code. -/
lemma call {c c' : Config} (h : OnTime T ⟨c, last, es⟩) (out : Outside c.stack) (st : Config.Step c c') :
    OnTime T ⟨c', last, es⟩ := by
  have quiet := h.quiet.step st
  have top := h.top.step (fun _ => Frame.Waiting.retrying) st
  cases st with
  | exec ex =>
    cases ex with
    | @step s f fs =>
      cases f with
      | sends ds =>
        have next := h.exec (exec_case s (.sends ds)) nofun
        rwa [show event s (.sends ds) = none from rfl, Option.toList_none, List.append_nil] at next
      | _ => cases out
  | send data _ => exact ⟨h.timeout, quiet, top, h.live, h.keeps, h.past, h.due, h.fair, h.count, h.wire⟩
  | tick _ => exact ⟨h.timeout, quiet, top, h.live, h.keeps, h.past, h.due, h.fair, h.count, h.wire⟩
  | receive _ _ => exact ⟨h.timeout, quiet, top, h.live, h.keeps, h.past, h.due, h.fair, h.count, h.wire⟩
  | program _ _ _ => exact ⟨h.timeout, quiet, top, h.live, h.keeps, h.past, h.due, h.fair, h.count, h.wire⟩

/-- Every step is on time. -/
lemma step {x y : Timed} (h : OnTime T x) (st : Timed.Step x y) : OnTime T y := by
  cases st with
  | exec up => exact h.exec (exec_case _ _) up
  | call out st => exact h.call out st

/-- So is every run. -/
lemma steps {x y : Timed} (h : OnTime T x) (run : Timed.Steps x y) : OnTime T y := by
  induction run with
  | refl => exact h
  | tail _ st ih => exact ih.step st

/-- No time is recorded that is still to come. -/
lemma no_wrap {x : Timed} (h : OnTime T x) {now : BitVec 64} (le : x.last ≤ now) {k : Fin window}
    (occ : (x.config.session.unacked.slots k).occupied = true) :
    (x.config.session.unacked.slots k).sentTsc ≤ now := by
  have past := h.past _ _ (h.keeps.slot occ)
  exact BitVec.le_def.mpr (past.trans le)

/-- What is timed out was recorded a timeout ago. -/
lemma mem_timedOut {x : Timed} (h : OnTime T x) (le : x.last ≤ (x.config.session.tape 0).tsc)
    {seq : BitVec 32} :
    seq ∈ x.config.session.timedOut ↔ ∃ t, recorded x.events seq = some t ∧
      t.toNat + T.toNat ≤ (x.config.session.tape 0).tsc.toNat := by
  rw [← h.timeout]
  exact h.keeps.mem_timedOut fun seq t there => (h.past seq t there).trans le

end OnTime

/-! ## One tick -/

/-- `pump_tx` retransmits nothing. -/
lemma pumpTx_retransmits (s : TcpLiteSession) : s.pumpTx.retransmits = s.retransmits := by
  obtain ⟨_, _, _, _, _, _, _, _, e⟩ := pumpTx_frame s
  rw [e]

/-- `tick` counts what it sends again. -/
lemma tick_retransmits (s : TcpLiteSession) :
    s.tick.retransmits = s.retransmits + BitVec.ofNat 64 (s.again s.timedOut).length := by
  have flush : ∀ t : TcpLiteSession, t.flushAck.retransmits = t.retransmits := by
    intro t
    obtain ⟨_, _, e⟩ := flushAck_frame t
    rw [e]
  obtain ⟨queue, e⟩ := resend_foldl (s.tape 0).tsc s.timedOut { s with tape := s.rest }
  rw [tick, flush, pumpTx_retransmits, e]
  rfl

/-- The retransmissions of a tick are those of its first loop. -/
lemma transmitted_tick (s : TcpLiteSession) :
    (transmitted s s.tick).filter (·.kind = .retransmit) = s.again s.timedOut := by
  obtain ⟨ds, _, _, wire⟩ := tick_wire s
  have again : (s.again s.timedOut).filter (·.kind = .retransmit) = s.again s.timedOut := by
    apply List.filter_eq_self.mpr
    intro x mem
    obtain ⟨_, _, hx⟩ := List.mem_filterMap.mp mem
    obtain ⟨_, _, rfl⟩ := Option.map_eq_some_iff.mp hx
    rfl
  have new : (ds.map (Transmission.mk .data)).filter (·.kind = .retransmit) = [] := by
    apply List.filter_eq_nil_iff.mpr
    intro x mem
    obtain ⟨_, _, rfl⟩ := List.mem_map.mp mem
    simp
  have ack : s.owedAck.filter (·.kind = .retransmit) = [] := by
    unfold owedAck
    split
    · rfl
    · rfl
  rw [wire, List.filter_append, List.filter_append, again, new, ack, List.append_nil, List.append_nil]

/-- What is sent again, one by one. -/
lemma again_forall₂ {s : TcpLiteSession} {seqs : List (BitVec 32)}
    (found : ∀ seq ∈ seqs, ∃ b, s.unacked.bufferFor seq = some b) :
    List.Forall₂ (fun seq x => ∃ b, s.unacked.bufferFor seq = some b ∧
      x = { kind := .retransmit, bytes := s.pool.content b }) seqs (s.again seqs) := by
  induction seqs with
  | nil => exact .nil
  | cons seq seqs ih =>
    obtain ⟨b, first⟩ := found seq List.mem_cons_self
    have cons : s.again (seq :: seqs)
        = { kind := .retransmit, bytes := s.pool.content b } :: s.again seqs := by
      simp [again, first]
    rw [cons]
    exact .cons ⟨b, first, rfl⟩ (ih fun seq mem => found seq (List.mem_cons_of_mem _ mem))

/-- Along every run of a session in which the clock does not go back: the subtraction in `check_timeouts`
does not wrap; the times in the slots are the ones recorded; a packet is sent again only when the timeout
has passed since the time recorded last, and is sent as new only when it is not waiting for an ACK; the
history has a time for every transmission of a packet, and `retransmits_` counts the retransmissions; and a
`tick` sends again exactly the packets whose timeout has passed, each once. -/
theorem retransmissions_on_time (pool : BufferPool) (clock : TscClock) (rtoNs : BitVec 64) (tape : Tape)
    {x : Timed} (run : Timed.Steps (.fresh pool clock rtoNs tape) x) :
    (∀ now, x.last ≤ now → ∀ k, (x.config.session.unacked.slots k).occupied = true →
      (x.config.session.unacked.slots k).sentTsc ≤ now ∧
      (now - (x.config.session.unacked.slots k).sentTsc).toNat
        = now.toNat - (x.config.session.unacked.slots k).sentTsc.toNat) ∧
    (∀ seq t, recorded x.events seq = some t ↔ x.config.session.unacked.occupied seq = true ∧
      (x.config.session.unacked.slots (slotIdx seq)).sentTsc = t) ∧
    (∀ pre seq now post, x.events = pre ++ .resent seq now :: post →
      ∃ t, recorded pre seq = some t ∧ t.toNat + (clock.nsToCycles rtoNs).toNat ≤ now.toNat) ∧
    (∀ pre seq tsc post, x.events = pre ++ .sent seq tsc :: post → recorded pre seq = none) ∧
    (Outside x.config.stack →
      x.config.session.log.wire.filterMap Transmission.packet = x.events.filterMap TimeEvent.kind) ∧
    x.config.session.retransmits
      = BitVec.ofNat 64 (x.events.countP fun e => e.kind = some .retransmit) ∧
    (x.last ≤ (x.config.session.tape 0).tsc →
      x.config.session.timedOut.Nodup ∧
      (∀ seq, seq ∈ x.config.session.timedOut ↔ ∃ t, recorded x.events seq = some t ∧
        t.toNat + (clock.nsToCycles rtoNs).toNat ≤ (x.config.session.tape 0).tsc.toNat) ∧
      List.Forall₂ (fun seq packet => ∃ b, x.config.session.unacked.bufferFor seq = some b ∧
          packet = { kind := .retransmit, bytes := x.config.session.pool.content b })
        x.config.session.timedOut
        ((transmitted x.config.session x.config.session.tick).filter (·.kind = .retransmit)) ∧
      x.config.session.tick.retransmits
        = x.config.session.retransmits + BitVec.ofNat 64 x.config.session.timedOut.length) := by
  have h := (OnTime.fresh pool clock rtoNs tape).steps run
  refine ⟨?_, fun seq t => h.keeps.recorded_iff, ?_, ?_, ?_, h.count, ?_⟩
  · intro now le k occ
    exact ⟨h.no_wrap le occ, BitVec.toNat_sub_of_le (h.no_wrap le occ)⟩
  · exact fun pre seq now post split => h.fair pre _ post split
  · exact fun pre seq tsc post split => h.fair pre _ post split
  · intro out
    rw [h.wire, sending_nil (h.top.outside (fun _ => Frame.Waiting.retrying) out), List.append_nil]
  · intro le
    have found : ∀ seq ∈ x.config.session.timedOut,
        ∃ b, x.config.session.unacked.bufferFor seq = some b := by
      intro seq due
      obtain ⟨t, there, _⟩ := (h.mem_timedOut le).mp due
      exact h.keeps.buffer (by rw [there]; exact Option.some_ne_none t)
    have sent := again_forall₂ found
    refine ⟨h.keeps.holds.nodup_checkTimeouts _ _, fun seq => h.mem_timedOut le, ?_, ?_⟩
    · rw [transmitted_tick]
      exact sent
    · rw [tick_retransmits, sent.length_eq]

/-- A packet sent at 7, and a `tick` at 12 with a timeout of 5. -/
theorem retransmissions_on_time_one :
    ∃ x, Timed.Steps (.fresh (.new 2048 4 fun _ => 0) .unit 5
        fun i => { tsc := 7 + 5 * BitVec.ofNat 64 i, ops := [], sends := [] }) x ∧
      x.events = [.sent 0 7] ∧ x.last ≤ (x.config.session.tape 0).tsc ∧
      0 ∈ x.config.session.timedOut := by
  have start : Timed.Steps (.fresh (.new 2048 4 fun _ => 0) .unit 5
      fun i => { tsc := 7 + 5 * BitVec.ofNat 64 i, ops := [], sends := [] }) _ :=
    .single (.call trivial (.send [1] trivial))
  have send := (start.tail (.exec nofun)).tail (.exec (f := .pumpTx) fun tsc _ => Nat.zero_le _)
  have back := (send.tail (.exec (f := .transmitting) nofun)).tail (.exec (f := .pumpSent 1) nofun)
  have le : (7 : BitVec 64) ≤ 12 := by decide
  exact ⟨_, back, rfl, le, ((retransmissions_on_time _ _ _ _ back).2.2.2.2.2.2 le).2.1 0 |>.mpr
    ⟨7, rfl, by decide⟩⟩

end UxNet.TcpLite
