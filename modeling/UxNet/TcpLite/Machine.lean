import UxNet.Lib.Serial
import UxNet.TcpLite.Frames

/-!
# One session under arbitrary input

A session whose `transmit_` does not call back into it, driven by a program that calls `send`, `tick`
and `on_packet_received` in any order and also from inside the data callback. Packets are whatever
the program has written to a buffer it holds, so every header field is arbitrary. `Config.Step` is one
step of such a run, `Quiet` the shape of the stack that a non-reentrant `transmit_` gives: a round of
`pump_tx` is suspended only while `transmit_` runs.

The second part is about the send window. `on_packet_received` takes every ACK number that is ahead
of `snd_una_` in signed 32-bit arithmetic, without comparing it with `next_seq_`.
-/

namespace UxNet.TcpLite

open TcpLiteSession

/-- The payload length of a round of `pump_tx` that is suspended in `transmit_`. -/
def Frame.pumping : Frame → Option ℕ
  | .pumpSent plen => some plen
  | _ => none

/-- The buffer of an active call of `on_packet_received`. -/
def Frame.holding : Frame → Option ℕ
  | .receive buf => some buf
  | .receiveData buf _ => some buf
  | .received buf => some buf
  | _ => none

/-- The rounds of `pump_tx` suspended in `transmit_`, the innermost first. -/
def pumps (fs : List Frame) : List ℕ := fs.filterMap Frame.pumping

/-- The buffers of the active calls of `on_packet_received`, the innermost first. -/
def held (fs : List Frame) : List ℕ := fs.filterMap Frame.holding

/-- No session code runs: nothing is active, or the innermost call is a data callback. -/
def Outside : List Frame → Prop
  | [] => True
  | .sends _ :: _ => True
  | _ => False

/-- A round of `pump_tx` is suspended only while `transmit_` runs. -/
def Quiet : List Frame → Prop
  | [] => True
  | f :: fs => pumps fs = [] ∨ (f = .transmitting ∧ pumps fs.tail = [])

/-- The next step takes a buffer and transmits a new packet. -/
def Pumping (s : TcpLiteSession) (f : Frame) : Prop :=
  f = .pumpTx ∧ s.pumpOpen = true ∧ (s.pool.callerOps (s.tape 0).ops).free ≠ []

/-- A session as constructed, with no call active. -/
def Config.fresh (pool : BufferPool) (clock : TscClock) (rtoNs : BitVec 64) (tape : Tape) : Config where
  session := .new pool clock rtoNs tape
  stack := []

/-- One step of a session and the program around it. -/
inductive Config.Step : Config → Config → Prop where
  | exec {c c'} :
    Config.Exec c c' →
    Config.Step c c'
  | send {s fs} (data : Bytes) :
    Outside fs →
    Config.Step ⟨s, fs⟩ ⟨s, .sends [data] :: fs⟩
  | tick {s fs} :
    Outside fs →
    Config.Step ⟨s, fs⟩ ⟨s, .tick :: fs⟩
  | receive {s fs buf} :
    Outside fs →
    buf ∈ s.pool.caller →
    Config.Step ⟨s, fs⟩ ⟨s.handOver buf, .receive buf :: fs⟩
  | program {s fs} (ops : List CallerOp) (tape : Tape) :
    Outside fs →
    Config.Step ⟨s, fs⟩ ⟨{ s with pool := s.pool.callerOps ops, tape := tape }, fs⟩

/-- The innermost call goes on, if there is one. -/
def Config.next (c : Config) : Config :=
  match c.stack with
  | [] => c
  | f :: fs => ⟨(exec c.session f).1, (exec c.session f).2 ++ fs⟩

/-- The innermost call can always go on. -/
lemma Config.step_next {c : Config} (busy : c.stack.isEmpty = false) : Config.Step c c.next := by
  obtain ⟨s, stack⟩ := c
  cases stack with
  | nil => cases busy
  | cons f fs => exact .exec .step

/-- Any number of steps. -/
abbrev Config.Steps : Config → Config → Prop := Relation.ReflTransGen Config.Step

/-- A call that runs to its end is a run. -/
lemma Config.Execs.steps {c c' : Config} (h : Config.Execs c c') : Config.Steps c c' :=
  Relation.ReflTransGen.mono (fun _ _ => Config.Step.exec) _ _ h

/-- With a buffer a round of `pump_tx` transmits. -/
lemma pumping_of_acquire {s : TcpLiteSession} {buf : ℕ} {pool : BufferPool} (op : s.pumpOpen = true)
    (e : (s.pool.callerOps (s.tape 0).ops).acquire = (some buf, pool)) : Pumping s .pumpTx := by
  obtain ⟨rest, hf, _⟩ := BufferPool.acquire_some e
  exact ⟨rfl, op, by simp [hf]⟩

/-! ## Shape of the stack -/

/-- Frames of a kind are suspended only while `transmit_` runs. -/
def AtTop {α : Type} (p : Frame → Option α) : List Frame → Prop
  | [] => True
  | f :: fs => fs.filterMap p = [] ∨ (f = .transmitting ∧ fs.tail.filterMap p = [])

/-- A frame that waits for something else than `transmit_`. -/
def Frame.Waiting : Frame → Prop
  | .sends _ | .receiveData _ _ | .delivered _ | .received _ | .tickAck => True
  | _ => False

namespace AtTop

variable {α : Type} {p : Frame → Option α} {fs : List Frame}

/-- Where there are none, none is suspended. -/
lemma of_nil (h : fs.filterMap p = []) : AtTop p fs := by
  cases fs with
  | nil => trivial
  | cons f fs =>
    left
    rw [List.filterMap_eq_nil_iff] at h ⊢
    intro g mem
    exact h g (List.mem_cons_of_mem f mem)

/-- Below a frame that is not `transmit_` there are none. -/
lemma tail {f : Frame} (h : AtTop p (f :: fs)) (ne : f ≠ .transmitting) : fs.filterMap p = [] := by
  rcases h with h | ⟨e, _⟩
  · exact h
  · exact absurd e ne

/-- While the program runs there are none. -/
lemma outside (h : AtTop p fs) (other : ∀ g : Frame, g.Waiting → p g = none) (out : Outside fs) :
    fs.filterMap p = [] := by
  cases fs with
  | nil => rfl
  | cons f fs =>
    cases f with
    | sends ds =>
      rw [List.filterMap_cons_none (other (.sends ds) trivial)]
      exact h.tail nofun
    | _ => cases out

/-- The code between two callbacks keeps the shape of the stack. -/
lemma exec {s s' : TcpLiteSession} {f : Frame} {new : List Frame} (h : AtTop p (f :: fs))
    (other : ∀ g : Frame, g.Waiting → p g = none) (c : Case s f s' new) : AtTop p (new ++ fs) := by
  -- a frame under the new top one waits
  have under : ∀ g g' : Frame, f ≠ .transmitting → g'.Waiting → AtTop p (g :: g' :: fs) := by
    intro g g' ne waiting
    left
    rw [List.filterMap_cons_none (other g' waiting)]
    exact h.tail ne
  cases c with
  | transmitting =>
    rcases h with h | ⟨_, h⟩
    · exact .of_nil h
    · cases fs with
      | nil => trivial
      | cons g fs => exact .inl h
  | pumpSend _ _ _ => exact .inr ⟨rfl, h.tail nofun⟩
  | resend _ => exact .inr ⟨rfl, h.tail nofun⟩
  | tickAck _ => exact .inr ⟨rfl, h.tail nofun⟩
  | sendsCons => exact under _ _ nofun trivial
  | ack _ _ => exact under _ _ nofun trivial
  | store _ => exact under _ _ nofun trivial
  | deliverCall _ => exact under _ _ nofun trivial
  | resendNil => exact under _ _ nofun trivial
  | pumpSent => exact .inl (h.tail nofun)
  | noAck _ _ => exact .inl (h.tail nofun)
  | delivered => exact .inl (h.tail nofun)
  | tick => exact .inl (h.tail nofun)
  | resendSkip _ => exact .inl (h.tail nofun)
  | resent => exact .inl (h.tail nofun)
  | _ => exact .of_nil (h.tail nofun)

/-- Every step keeps them at the top. -/
lemma step {c c' : Config} (h : AtTop p c.stack) (other : ∀ g : Frame, g.Waiting → p g = none)
    (st : Config.Step c c') : AtTop p c'.stack := by
  cases st with
  | exec ex =>
    cases ex with
    | @step s f fs => exact h.exec other (exec_case s f)
  | send data out => exact .inl (h.outside other out)
  | tick out => exact .inl (h.outside other out)
  | receive out _ => exact .inl (h.outside other out)
  | program _ _ _ => exact h

end AtTop

/-- The rounds of `pump_tx` are such frames. -/
lemma quiet_iff (fs : List Frame) : Quiet fs ↔ AtTop Frame.pumping fs := by
  cases fs with
  | nil => exact Iff.rfl
  | cons f fs => exact Iff.rfl

/-- What waits for something else is not such a round. -/
lemma Frame.Waiting.pumping {g : Frame} (waiting : g.Waiting) : g.pumping = none := by
  cases g with
  | pumpSent => exact waiting.elim
  | _ => rfl

/-- Below a frame that is not `transmit_` no round is suspended. -/
lemma Quiet.tail {f : Frame} {fs : List Frame} (h : Quiet (f :: fs)) (ne : f ≠ .transmitting) :
    pumps fs = [] :=
  ((quiet_iff _).mp h).tail ne

/-- While the program runs no round is suspended. -/
lemma Outside.pumps_nil {fs : List Frame} (out : Outside fs) (h : Quiet fs) : pumps fs = [] :=
  ((quiet_iff _).mp h).outside (fun _ => Frame.Waiting.pumping) out

/-- The code between two callbacks suspends no further round. -/
lemma Quiet.exec {s s' : TcpLiteSession} {f : Frame} {new fs : List Frame} (c : Case s f s' new)
    (h : Quiet (f :: fs)) : Quiet (new ++ fs) :=
  (quiet_iff _).mpr (((quiet_iff _).mp h).exec (fun _ => Frame.Waiting.pumping) c)

/-- No round of `pump_tx` starts inside another one. -/
lemma Quiet.guard {s : TcpLiteSession} {f : Frame} {fs : List Frame} (h : Quiet (f :: fs)) :
    Pumping s f → pumps fs = [] := by
  rintro ⟨rfl, _⟩
  exact h.tail (by simp)

/-- Nor does any step. -/
lemma Quiet.step {c c' : Config} (h : Quiet c.stack) (st : Config.Step c c') : Quiet c'.stack :=
  (quiet_iff _).mpr (((quiet_iff _).mp h).step (fun _ => Frame.Waiting.pumping) st)

/-! ## The send window -/

/-- At most a window of sequence numbers is unacknowledged. -/
def Config.InWindow (c : Config) : Prop :=
  (c.session.nextSeq - c.session.sndUna).toNat ≤ window

instance (c : Config) : Decidable c.InWindow := inferInstanceAs (Decidable (_ ≤ _))

/-- The ACK that the next step takes, if it takes one, is for a packet that has been sent. -/
def Config.AcksSent (c : Config) : Prop :=
  ∀ buf fs h, c.stack = .receive buf :: fs →
    readChecked.run (c.session.pool.view buf) = (h, true) → c.session.ackTaken h = true →
    (h.ackNum - c.session.sndUna).toNat ≤ (c.session.nextSeq - c.session.sndUna).toNat

/-- The window has room for the round of `pump_tx` that is suspended, if there is one. -/
structure Room (c : Config) : Prop where
  quiet : Quiet c.stack
  room : (c.session.nextSeq - c.session.sndUna).toNat + (pumps c.stack).length ≤ 256

/-- Outside the window nothing is sent any more. -/
lemma pumpOpen_eq_false {c : Config} (out : ¬ c.InWindow) (data : Bytes) :
    (c.session.append data).pumpOpen = false := by
  rw [← Bool.not_eq_true]
  intro op
  exact out (le_of_lt (pumpOpen_window op).2)

/-- An ACK that is taken is ahead of `snd_una_`. -/
lemma ackTaken_ahead {s : TcpLiteSession} {h : TcpLiteHeader} (taken : s.ackTaken h = true) :
    0 < (h.ackNum - s.sndUna).toInt := by
  simp only [ackTaken, Bool.and_eq_true, decide_eq_true_eq] at taken
  exact taken.2

namespace Room

variable {s s' : TcpLiteSession} {f : Frame} {new fs : List Frame}

/-- With room for the rounds, the window is kept. -/
lemma inWindow {c : Config} (h : Room c) : c.InWindow := by
  have := h.room
  show (c.session.nextSeq - c.session.sndUna).toNat ≤ 256
  omega

/-- The code between two callbacks keeps the window, if the ACK it takes is for a packet sent. -/
lemma exec (c : Case s f s' new) (h : Room ⟨s, f :: fs⟩)
    (sent : Config.AcksSent ⟨s, f :: fs⟩) : Room ⟨s', new ++ fs⟩ := by
  refine ⟨h.quiet.exec c, ?_⟩
  have room := h.room
  have nil : f ≠ .transmitting → pumps fs = [] := h.quiet.tail
  cases c with
  | pumpStop _ =>
    obtain ⟨_, _, e, _⟩ := pumpReset_frame s
    rw [e]
    exact room
  | pumpFull _ _ =>
    obtain ⟨_, _, e, _⟩ := pumpReset_frame { s with pool := _, tape := s.rest }
    rw [e]
    exact room
  | pumpSend open' _ _ =>
    -- the round is counted from here on, `next_seq_` moves only after `transmit_`
    have win := (pumpOpen_window open').2
    show (s.nextSeq - s.sndUna).toNat + (pumps fs).length + 1 ≤ 256
    rw [nil (by simp)]
    exact win
  | pumpSent =>
    have next : (s.nextSeq + 1 - s.sndUna).toNat = (s.nextSeq - s.sndUna).toNat + 1 := by
      have lt : (s.nextSeq - s.sndUna).toNat + (pumps fs).length + 1 ≤ 256 := room
      bv_omega
    show (s.nextSeq + 1 - s.sndUna).toNat + (pumps fs).length ≤ 256
    rw [next, Nat.add_right_comm]
    exact room
  | @ack buf hd ok taken =>
    obtain ⟨_, _, e⟩ := takeAck_frame s hd.ackNum
    rw [e]
    have le : (hd.ackNum - s.sndUna).toNat ≤ (s.nextSeq - s.sndUna).toNat :=
      sent buf fs hd rfl ok taken
    have split := Serial.toNat_sub_add le
    have room' : (s.nextSeq - s.sndUna).toNat + (pumps fs).length ≤ 256 := room
    show (s.nextSeq - hd.ackNum).toNat + (pumps fs).length ≤ 256
    omega
  | store _ =>
    obtain ⟨_, _, e⟩ := storeData_frame s _ _
    rw [e]
    exact room
  | _ => exact room

/-- An ACK for a packet never sent leaves the window. -/
lemma exec_iff (c : Case s f s' new) (h : Room ⟨s, f :: fs⟩) (fin : Config.InWindow ⟨s', new ++ fs⟩) :
    Config.AcksSent ⟨s, f :: fs⟩ := by
  intro buf fs' hd e ok taken
  obtain ⟨rfl, rfl⟩ := List.cons.inj e
  by_contra gt
  replace gt : (s.nextSeq - s.sndUna).toNat < (hd.ackNum - s.sndUna).toNat := Nat.lt_of_not_le gt
  have win : (s.nextSeq - s.sndUna).toNat ≤ 256 := h.inWindow
  cases c with
  | corrupt bad =>
    rw [ok] at bad
    cases bad
  | noAck ok' free =>
    obtain ⟨rfl, _⟩ := Prod.mk.inj (ok.symm.trans ok')
    rw [taken] at free
    cases free
  | ack ok' _ =>
    obtain ⟨rfl, _⟩ := Prod.mk.inj (ok.symm.trans ok')
    obtain ⟨_, _, e⟩ := takeAck_frame s hd.ackNum
    rw [e] at fin
    have fin' : (s.nextSeq - hd.ackNum).toNat ≤ 256 := fin
    -- an ACK is taken up to `2 ^ 31` ahead, and then `next_seq_` is far ahead of it again
    have ahead : 0 < (hd.ackNum - s.sndUna).toNat ∧ 2 * (hd.ackNum - s.sndUna).toNat < 2 ^ 32 :=
      Serial.toNat_of_toInt_pos (ackTaken_ahead taken)
    have split := Serial.toNat_sub_of_lt gt
    omega

/-- A call is made. -/
lemma push {g : Frame} (h : Room ⟨s, fs⟩) (out : Outside fs) (idle : g.pumping = none) :
    Room ⟨s, g :: fs⟩ := by
  have nil := out.pumps_nil h.quiet
  refine ⟨.inl nil, ?_⟩
  have room := h.room
  simpa [pumps, List.filterMap_cons, idle] using room

/-- A step keeps the window exactly if the ACK it takes is for a packet sent. -/
lemma step {c c' : Config} (h : Room c) (st : Config.Step c c') :
    (c.AcksSent → Room c') ∧ (c'.InWindow → c.AcksSent) := by
  have vacuous : ∀ {s fs}, Outside fs → Config.AcksSent ⟨s, fs⟩ := by
    intro s fs out buf fs' hd e
    dsimp only at e
    subst e
    cases out
  cases st with
  | exec ex =>
    cases ex with
    | @step s f fs =>
      have cs := exec_case s f
      exact ⟨h.exec cs, h.exec_iff cs⟩
  | send data out => exact ⟨fun _ => h.push out rfl, fun _ => vacuous out⟩
  | tick out => exact ⟨fun _ => h.push out rfl, fun _ => vacuous out⟩
  | @receive s fs buf out _ =>
    have h' : Room ⟨s.handOver buf, fs⟩ := ⟨h.quiet, h.room⟩
    exact ⟨fun _ => h'.push out rfl, fun _ => vacuous out⟩
  | program ops tape out => exact ⟨fun _ => ⟨h.quiet, h.room⟩, fun _ => vacuous out⟩

/-- Along a run, the window is kept exactly as long as the ACKs taken are for packets sent. -/
lemma run_iff {c : Config} (h : Room c) {cs : List Config} (run : List.IsChain Config.Step (c :: cs)) :
    (∀ d ∈ cs, d.InWindow) ↔ ∀ d ∈ (c :: cs).dropLast, d.AcksSent := by
  induction cs generalizing c with
  | nil => simp
  | cons d cs ih =>
    obtain ⟨st, run'⟩ := List.isChain_cons_cons.mp run
    obtain ⟨keep, back⟩ := h.step st
    rw [List.dropLast_cons_cons, List.forall_mem_cons, List.forall_mem_cons]
    constructor
    · rintro ⟨win, wins⟩
      have sent := back win
      exact ⟨sent, (ih (keep sent) run').mp wins⟩
    · rintro ⟨sent, sents⟩
      have room := keep sent
      exact ⟨room.inWindow, (ih room run').mpr sents⟩

end Room

/-- Along every run of a fresh session, under arbitrary packets, the send window is kept in every
state exactly if no ACK is taken that is beyond `next_seq_`. -/
theorem window_kept_iff_acks_sent (pool : BufferPool) (clock : TscClock) (rtoNs : BitVec 64)
    (tape : Tape) (cs : List Config)
    (run : List.IsChain Config.Step (Config.fresh pool clock rtoNs tape :: cs)) :
    (∀ c ∈ cs, c.InWindow) ↔
      ∀ c ∈ (Config.fresh pool clock rtoNs tape :: cs).dropLast, c.AcksSent := by
  have start : Room (Config.fresh pool clock rtoNs tape) := by
    refine ⟨trivial, ?_⟩
    show (0#32 - 0#32).toNat + 0 ≤ 256
    decide
  exact start.run_iff run

/-- A session with two buffers is about to send one byte. -/
def Config.sending : Config where
  session := .new (.new 17 2 fun _ => 0) .unit 0 .silent
  stack := [.sends [[1]]]

/-- The program takes a buffer and fills it. -/
def Config.fill (c : Config) (buf : ℕ) (bytes : Bytes) : Config where
  session := { c.session with
    pool := c.session.pool.callerOps [.acquire, .fill buf bytes]
    tape := .silent }
  stack := c.stack

/-- The program gives a buffer to `on_packet_received`. -/
def Config.give (c : Config) (buf : ℕ) : Config where
  session := c.session.handOver buf
  stack := .receive buf :: c.stack

/-- The packet is sent, and the program has an ACK of it in the other buffer. -/
def Config.ackHeld : Config :=
  (Config.next^[6] .sending).fill 0
    (TcpLiteHeader.encode { seqNum := 0, ackNum := 1, flags := tcpAck, payloadLen := 0, checksum := 0 } [])

/-- The ACK is given to `on_packet_received`. -/
def Config.ackGiven : Config := Config.ackHeld.give 0

/-- The run up to the point where the ACK has been taken. -/
def Config.ackRun : List Config :=
  List.iterate Config.next .sending 7 ++ [.ackHeld, .ackGiven, Config.ackGiven.next]

/-- Every step of it is one of the session or of the program. -/
lemma Config.ackRun_chain :
    List.IsChain Config.Step (Config.fresh (.new 17 2 fun _ => 0) .unit 0 .silent :: Config.ackRun) := by
  have fill : ∀ (c : Config) buf bytes, c.stack = [] → Config.Step c (c.fill buf bytes) :=
    fun c buf bytes idle => .program _ _ (by rw [idle]; trivial)
  have give : ∀ (c : Config) buf, c.stack = [] → buf ∈ c.session.pool.caller → Config.Step c (c.give buf) :=
    fun c buf idle mem => .receive (by rw [idle]; trivial) mem
  have idle : (Config.next^[6] Config.sending).stack = [] := List.isEmpty_iff.mp (by decide +kernel)
  refine .cons_cons (.send [1] trivial) ?_
  refine .cons_cons (Config.step_next (by decide +kernel)) ?_
  refine .cons_cons (Config.step_next (by decide +kernel)) ?_
  refine .cons_cons (Config.step_next (by decide +kernel)) ?_
  refine .cons_cons (Config.step_next (by decide +kernel)) ?_
  refine .cons_cons (Config.step_next (by decide +kernel)) ?_
  refine .cons_cons (Config.step_next (by decide +kernel)) ?_
  refine .cons_cons (fill _ _ _ idle) (.cons_cons (give _ _ idle (by decide +kernel)) ?_)
  exact .cons_cons (Config.step_next (by decide)) (.singleton _)

/-- The states of the run are reached from the first one. -/
lemma Config.ackRun_reached {c : Config} (mem : c ∈ Config.ackRun) :
    Config.Steps (Config.fresh (.new 17 2 fun _ => 0) .unit 0 .silent) c := by
  have steps := Config.ackRun_chain.imp fun _ _ st => Relation.ReflTransGen.single st
  exact (List.pairwise_cons.mp (List.isChain_iff_pairwise.mp steps)).1 c mem

/-- One packet is sent, and an ACK of it is taken. -/
theorem window_kept_by_taken_ack :
    Config.ackGiven.AcksSent ∧ Config.ackGiven.session.nextSeq = 1 ∧
      Config.ackGiven.next.session.sndUna = 1 ∧ ∀ c ∈ Config.ackRun, c.InWindow := by
  have kept : ∀ c ∈ Config.ackRun, c.InWindow := by decide +kernel
  have sent := (window_kept_iff_acks_sent _ _ _ _ _ Config.ackRun_chain).mp kept
  exact ⟨sent _ (List.mem_of_getElem? (i := 9) rfl), by decide +kernel, by decide +kernel, kept⟩

/-- A fresh session given a pure ACK of packet 0: `snd_una_` passes `next_seq_`, and the loop of
`pump_tx` is closed to everything that may be sent later. -/
theorem window_left_by_stray_ack :
    ∃ c, Config.Steps (Config.fresh (.new 16 1 fun _ => 0) .unit 0 .silent) c ∧ ¬ c.InWindow ∧
      ∀ data, (c.session.append data).pumpOpen = false := by
  let header : TcpLiteHeader :=
    { seqNum := 0, ackNum := 1, flags := tcpAck, payloadLen := 0, checksum := 0 }
  let pool := (BufferPool.new 16 1 fun _ => 0).callerOps [.acquire, .fill 0 (header.encode [])]
  let fresh := TcpLiteSession.new (.new 16 1 fun _ => 0) .unit 0 .silent
  let s := handOver 0 { fresh with pool := pool }
  have start : Room ⟨s, [.receive 0]⟩ := by
    refine ⟨.inl rfl, ?_⟩
    show (0#32 - 0#32).toNat + 0 ≤ 256
    decide
  have ok : readChecked.run (s.pool.view 0) = (header.computeChecksum [], true) := by
    apply readChecked_encode _ rfl
    have stored := BufferPool.read_store (p := { (BufferPool.new 16 1 fun _ => 0).acquire.2 with
      caller := [0] }) 0 (header.encode [])
    rw [TcpLiteHeader.length_encode] at stored
    exact stored
  have stray : ¬ Config.AcksSent ⟨s, [.receive 0]⟩ := by
    intro sent
    have le : (1#32 - 0#32).toNat ≤ (0#32 - 0#32).toNat :=
      sent 0 [] _ rfl ok (by decide)
    exact absurd le (by decide)
  have prep : Config.Step (Config.fresh (.new 16 1 fun _ => 0) .unit 0 .silent)
      ⟨{ fresh with pool := pool }, []⟩ := .program _ .silent trivial
  have call : Config.Step ⟨{ fresh with pool := pool }, []⟩ ⟨s, [.receive 0]⟩ :=
    .receive trivial (by decide)
  have run : Config.Step ⟨s, [.receive 0]⟩ _ := .exec .step
  have out := fun win => stray ((start.step run).2 win)
  exact ⟨_, ((Relation.ReflTransGen.single prep).tail call).tail run, out, pumpOpen_eq_false out⟩

end UxNet.TcpLite
