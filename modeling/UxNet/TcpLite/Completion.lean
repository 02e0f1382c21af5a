import UxNet.TcpLite.Calls

/-!
# Every call returns

Whatever calls are active, the session's own code brings them to their end (`Config.finishes`), so a
state of two sessions in the middle of a call can always be continued to one between two calls. `Called`
is what a finished call of one side leaves of the system: the other side is as it was, and the network
has got what the call transmitted.
-/

namespace UxNet.TcpLite

open TcpLiteSession

/-! ## One session -/

/-- A call that rests at this frame returns. -/
def Frame.Finishes (f : Frame) : Prop := ∀ s fs, ∃ t, Config.Execs ⟨s, f :: fs⟩ ⟨t, fs⟩

/-- Calls that return one after another return together. -/
lemma finishes_append {new : List Frame} (each : ∀ g ∈ new, g.Finishes) (s : TcpLiteSession)
    (fs : List Frame) : ∃ t, Config.Execs ⟨s, new ++ fs⟩ ⟨t, fs⟩ := by
  induction new generalizing s with
  | nil => exact ⟨s, .refl⟩
  | cons g new ih =>
    obtain ⟨one, rest⟩ := List.forall_mem_cons.mp each
    obtain ⟨u, first⟩ := one s (new ++ fs)
    obtain ⟨t, then'⟩ := ih rest u
    exact ⟨t, first.trans then'⟩

namespace Frame.Finishes

variable {f : Frame}

/-- A call returns if everything it goes on to does. -/
lemma of_step (next : ∀ s s' new, Case s f s' new → ∀ g ∈ new, g.Finishes) : f.Finishes := by
  intro s fs
  obtain ⟨t, run⟩ := finishes_append (next s _ _ (exec_case s f)) (exec s f).1 fs
  exact ⟨t, run.step⟩

/-- `transmit_` returns. -/
lemma transmitting : Frame.transmitting.Finishes := by
  apply of_step
  intro s s' new c
  cases c with
  | transmitting => exact fun g mem => absurd mem List.not_mem_nil

/-- A `tick` that has sent its ACK returns. -/
lemma tickDone : Frame.tickDone.Finishes := by
  apply of_step
  intro s s' new c
  cases c with
  | tickDone => exact fun g mem => absurd mem List.not_mem_nil

/-- A call that has delivered returns. -/
lemma received (buf : ℕ) : (Frame.received buf).Finishes := by
  apply of_step
  intro s s' new c
  cases c with
  | received => exact fun g mem => absurd mem List.not_mem_nil

/-- `pump_tx` returns. -/
lemma pumpTx : Frame.pumpTx.Finishes := fun s fs => ⟨_, pumpTx_execs s fs⟩

/-- `deliver_in_order` returns. -/
lemma deliver : Frame.deliver.Finishes := fun s fs => ⟨_, deliverInOrder_execs s fs⟩

/-- The data part of `on_packet_received` returns. -/
lemma receiveData (buf plen : ℕ) : (Frame.receiveData buf plen).Finishes := by
  apply of_step
  intro s s' new c
  cases c with
  | store _ => exact List.forall_mem_cons.mpr ⟨deliver, List.forall_mem_singleton.mpr (received buf)⟩
  | noData => exact fun g mem => absurd mem List.not_mem_nil

/-- The ACK part of `tick` returns. -/
lemma tickAck : Frame.tickAck.Finishes := by
  apply of_step
  intro s s' new c
  cases c with
  | tickAck _ => exact List.forall_mem_cons.mpr ⟨transmitting, List.forall_mem_singleton.mpr tickDone⟩
  | tickQuiet _ => exact fun g mem => absurd mem List.not_mem_nil

/-- The retransmission loop returns. -/
lemma resend (now : BitVec 64) (seqs : List (BitVec 32)) : (Frame.resend now seqs).Finishes := by
  induction seqs with
  | nil =>
    apply of_step
    intro s s' new c
    cases c with
    | resendNil => exact List.forall_mem_cons.mpr ⟨pumpTx, List.forall_mem_singleton.mpr tickAck⟩
  | cons seq seqs ih =>
    have resent : (Frame.resent now seq seqs).Finishes := by
      apply of_step
      intro s s' new c
      cases c with
      | resent => exact List.forall_mem_singleton.mpr ih
    apply of_step
    intro s s' new c
    cases c with
    | resend _ => exact List.forall_mem_cons.mpr ⟨transmitting, List.forall_mem_singleton.mpr resent⟩
    | resendSkip _ => exact List.forall_mem_singleton.mpr ih

end Frame.Finishes

/-- Every call returns. -/
lemma Frame.finishes (f : Frame) : f.Finishes := by
  cases f with
  | sends ds => exact fun s fs => ⟨_, sends_execs s ds fs⟩
  | pumpTx => exact .pumpTx
  | pumpSent plen =>
    apply Finishes.of_step
    intro s s' new c
    cases c with
    | pumpSent => exact List.forall_mem_singleton.mpr .pumpTx
  | receive buf =>
    apply Finishes.of_step
    intro s s' new c
    cases c with
    | corrupt _ => exact fun g mem => absurd mem List.not_mem_nil
    | ack _ _ =>
      exact List.forall_mem_cons.mpr ⟨.pumpTx, List.forall_mem_singleton.mpr (.receiveData buf _)⟩
    | noAck _ _ => exact List.forall_mem_singleton.mpr (.receiveData buf _)
  | receiveData buf plen => exact .receiveData buf plen
  | deliver => exact .deliver
  | delivered seq =>
    apply Finishes.of_step
    intro s s' new c
    cases c with
    | delivered => exact List.forall_mem_singleton.mpr .deliver
  | received buf => exact .received buf
  | tick => exact fun s fs => ⟨_, tick_execs s fs⟩
  | resend now seqs => exact .resend now seqs
  | resent now seq seqs =>
    apply Finishes.of_step
    intro s s' new c
    cases c with
    | resent => exact List.forall_mem_singleton.mpr (.resend now seqs)
  | tickAck => exact .tickAck
  | tickDone => exact .tickDone
  | transmitting => exact .transmitting

/-- All active calls of a session return. -/
lemma Config.finishes (c : Config) : ∃ t, Config.Execs c ⟨t, []⟩ := by
  obtain ⟨t, run⟩ := finishes_append (fun g (_ : g ∈ c.stack) => g.finishes) c.session []
  rw [List.append_nil] at run
  exact ⟨t, run⟩

/-! ## Two sessions -/

/-- The innermost call of a system runs. -/
def System.Runs (w w' : System) : Prop := w.stack ≠ [] ∧ w' = w.exec

/-- From one state to another only the side `X` has run, and its state is `s` by then. -/
structure Called (X : Host) (s : TcpLiteSession) (w w' : System) : Prop where
  self : w'.host X = s
  peer : w'.host X.peer = w.host X.peer
  net : ∃ cs : List Copy, w'.net = w.net ++ cs ∧
    (∀ c ∈ cs, c.src = X ∧ ∀ Y, w.assigned Y ≤ c.stamp Y) ∧
    s.log.wire = (w.host X).log.wire ++ cs.map fun c => { kind := c.kind, bytes := c.bytes }

namespace Called

variable {X : Host} {s t : TcpLiteSession} {w w' w'' : System}

/-- A side that has not run has not changed. -/
lemma refl (w : System) (X : Host) : Called X (w.host X) w w :=
  ⟨rfl, rfl, [], (List.append_nil _).symm, nofun, (List.append_nil _).symm⟩

/-- What a call transmits is on the network. -/
lemma assigned_le (h : Called X s w w') (Y : Host) : w.assigned Y ≤ w'.assigned Y := by
  rcases X.eq_or_peer Y with rfl | rfl
  · obtain ⟨cs, _, _, wire⟩ := h.net
    rw [System.assigned, System.assigned, h.self, Log.packets, Log.packets, wire, List.filter_append,
      List.map_append, List.length_append]
    exact Nat.le_add_right _ _
  · rw [System.assigned, System.assigned, h.peer]

/-- A side runs on. -/
lemma trans (h : Called X s w w') (h' : Called X t w' w'') : Called X t w w'' := by
  obtain ⟨cs, net, each, wire⟩ := h.net
  obtain ⟨cs', net', each', wire'⟩ := h'.net
  refine ⟨h'.self, h'.peer.trans h.peer, cs ++ cs', ?_, ?_, ?_⟩
  · rw [net', net, List.append_assoc]
  · intro c mem
    rcases List.mem_append.mp mem with mem | mem
    · exact each c mem
    · obtain ⟨src, stamp⟩ := each' c mem
      exact ⟨src, fun Y => (h.assigned_le Y).trans (stamp Y)⟩
  · rw [wire', h.self, wire, List.map_append, List.append_assoc]

end Called

/-- What is on the network was transmitted. -/
lemma Called.mem_net {X : Host} {s : TcpLiteSession} {w w' : System} {x : Transmission}
    (h : Called X s w w') (mem : x ∈ transmitted (w.host X) s) :
    ∃ c ∈ w'.net, c.src = X ∧ c.kind = x.kind ∧ c.bytes = x.bytes ∧ ∀ Y, w.assigned Y ≤ c.stamp Y := by
  obtain ⟨cs, net, each, wire⟩ := h.net
  rw [transmitted, wire, List.drop_left] at mem
  obtain ⟨c, sent, rfl⟩ := List.mem_map.mp mem
  obtain ⟨src, stamp⟩ := each c sent
  exact ⟨c, net ▸ List.mem_append_right _ sent, src, rfl, rfl, stamp⟩

section Lift

variable {X : Host} {w : System}

/-- A run of one session is a run of the system, if the active calls are that session's. -/
lemma System.lift {c c' : Config} (run : Config.Execs c c') (self : w.host X = c.session)
    (own : ∀ e ∈ w.stack, e.host = X) (frames : w.stack.map (·.frame) = c.stack) :
    ∃ w', Relation.ReflTransGen System.Runs w w' ∧ Called X c'.session w w' ∧
      (∀ e ∈ w'.stack, e.host = X) ∧ w'.stack.map (·.frame) = c'.stack := by
  induction run using Relation.ReflTransGen.head_induction_on generalizing w with
  | refl => exact ⟨w, .refl, self ▸ .refl w X, own, frames⟩
  | head st _ ih =>
    cases st with
    | @step s f fs =>
      obtain ⟨e, rest, stack, rfl, restFrames⟩ := List.map_eq_cons_iff.mp frames
      obtain rfl : e.host = X := own e (stack ▸ List.mem_cons_self)
      have r := w.exec_ran stack
      obtain rfl : w.host e.host = s := self
      obtain ⟨w', run, called, own', frames'⟩ := ih r.self (by
          rw [r.stack]
          intro e' mem
          rcases List.mem_append.mp mem with mem | mem
          · obtain ⟨_, _, rfl⟩ := List.mem_map.mp mem
            rfl
          · exact own e' (stack ▸ List.mem_cons_of_mem _ mem)) (by
          rw [r.stack, List.map_append, List.map_map, restFrames]
          exact congrArg (· ++ fs) (List.map_id _))
      have one : Called e.host (TcpLite.exec (w.host e.host) e.frame).1 w w.exec := by
        refine ⟨r.self, r.peer, ?_⟩
        rcases r.net with ⟨wire, net⟩ | ⟨c, net, src, stamp, _, _, wire⟩
        · exact ⟨[], by rw [net, List.append_nil], nofun, by rw [wire, List.map_nil, List.append_nil]⟩
        · refine ⟨[c], net, ?_, wire⟩
          intro c' mem
          obtain rfl := List.mem_singleton.mp mem
          refine ⟨src, fun Y => ?_⟩
          rw [stamp]
          exact (r.packets_prefix Y).length_le
      have busy : w.stack ≠ [] := stack ▸ List.cons_ne_nil _ _
      exact ⟨w', .head ⟨busy, rfl⟩ run, one.trans called, own', frames'⟩

/-- The active calls of a system return, if they are those of one side. -/
lemma System.finishes (own : ∀ e ∈ w.stack, e.host = X) :
    ∃ w', Relation.ReflTransGen System.Runs w w' ∧ w'.stack = [] := by
  obtain ⟨t, run⟩ := Config.finishes ⟨w.host X, w.stack.map (·.frame)⟩
  obtain ⟨w', runs, _, _, frames⟩ := System.lift run rfl own rfl
  exact ⟨w', runs, List.map_eq_nil_iff.mp frames⟩

/-- A call that is made between two calls returns. -/
lemma System.call (w : System) {f : Frame} {s t : TcpLiteSession} {stamp : ℕ} (self : w.host X = s)
    (stack : w.stack = [{ host := X, frame := f, stamp := stamp }])
    (run : Config.Execs ⟨s, [f]⟩ ⟨t, []⟩) :
    ∃ w', Relation.ReflTransGen System.Runs w w' ∧ Called X t w w' ∧ w'.stack = [] := by
  obtain ⟨w', runs, called, _, frames⟩ := System.lift run self (by
    rw [stack]
    intro e mem
    obtain rfl := List.mem_singleton.mp mem
    rfl) (by rw [stack]; rfl)
  exact ⟨w', runs, called, List.map_eq_nil_iff.mp frames⟩

/-- `tick` is called and returns. -/
lemma System.tick_call (w : System) (X : Host) :
    ∃ w', Relation.ReflTransGen System.Runs
        { w with stack := [{ host := X, frame := .tick, stamp := w.assigned X.peer }] } w' ∧
      Called X (w.host X).tick w w' ∧ w'.stack = [] := by
  obtain ⟨w', runs, called, idle⟩ := System.call { w with stack := _ } rfl rfl (tick_execs (w.host X) [])
  exact ⟨w', runs, ⟨called.self, called.peer, called.net⟩, idle⟩

/-- `send` is called and returns. -/
lemma System.send_call (w : System) (X : Host) (data : Bytes) :
    ∃ w', Relation.ReflTransGen System.Runs
        { w with stack := [{ host := X, frame := .sends [data], stamp := w.assigned X.peer }] } w' ∧
      Called X ((w.host X).send data) w w' ∧ w'.stack = [] := by
  obtain ⟨w', runs, called, idle⟩ := System.call { w with stack := _ } rfl rfl
    (sends_execs (w.host X) [data] [])
  exact ⟨w', runs, ⟨called.self, called.peer, called.net⟩, idle⟩

/-- A datagram is handed to a side, and `on_packet_received` returns. -/
lemma System.deliver_call {d : Bytes} {t : TcpLiteSession} (e : (w.host X).deliver d = some t)
    (stamp : ℕ) :
    ∃ buf s w', (w.host X).arrive d = some (buf, s) ∧
      Relation.ReflTransGen System.Runs (w.hand X buf s stamp []).exec w' ∧ Called X t w w' ∧
      w'.stack = [] := by
  obtain ⟨⟨buf, s⟩, arr, received⟩ := Option.map_eq_some_iff.mp e
  have run := onPacketReceived_execs buf s []
  rw [show s.onPacketReceived buf = t from received] at run
  obtain ⟨w', runs, called, idle⟩ := System.call (w.hand X buf s stamp []) (w.put_self X _) rfl run
  have same := System.hand_same arr stamp []
  refine ⟨buf, s, w', arr, ?_, ⟨called.self, called.peer.trans (w.put_peer X _), ?_⟩, idle⟩
  · rcases runs.cases_head with eq | ⟨u, ⟨_, rfl⟩, rest⟩
    · rw [← eq] at idle
      cases idle
    · exact rest
  · obtain ⟨cs, net, each, wire⟩ := called.net
    refine ⟨cs, net, ?_, ?_⟩
    · intro c mem
      obtain ⟨src, stamp⟩ := each c mem
      refine ⟨src, fun Y => ?_⟩
      rw [← System.assigned_congr (same Y)]
      exact stamp Y
    · obtain ⟨_, _, log⟩ := same X
      rw [wire, log]

end Lift

section Sent

variable {w w' : System}

/-- What was to be sent only grows. -/
lemma Case.sent_prefix {s s' : TcpLiteSession} {f : Frame} {new : List Frame} (c : Case s f s' new) :
    s.log.sent <+: s'.log.sent := by
  cases c with
  | sendsCons => exact List.prefix_append _ _
  | pumpStop _ => rw [pumpReset_log]
  | pumpFull _ _ => rw [pumpReset_log]
  | ack _ _ =>
    obtain ⟨_, _, e⟩ := takeAck_frame s _
    rw [e]
  | store _ =>
    obtain ⟨_, _, e⟩ := storeData_frame s _ _
    rw [e]
  | _ => exact List.prefix_rfl

/-- What a side was given to send only grows. -/
lemma System.Runs.sent_prefix (run : Relation.ReflTransGen System.Runs w w') (X : Host) :
    (w.host X).log.sent <+: (w'.host X).log.sent := by
  induction run with
  | refl => exact List.prefix_rfl
  | @tail u u' _ st ih =>
    obtain ⟨busy, rfl⟩ := st
    refine ih.trans ?_
    obtain ⟨e, rest, st⟩ := List.exists_cons_of_ne_nil busy
    have r := u.exec_ran st
    rcases e.host.eq_or_peer X with rfl | rfl
    · rw [r.self]
      exact r.code.sent_prefix
    · rw [r.peer]

end Sent

/-! ## What is on the network -/

/-- The network has what was transmitted. -/
def System.Recorded (w : System) : Prop :=
  ∀ X x, x ∈ (w.host X).log.wire ↔ ∃ c ∈ w.net, c.src = X ∧ c.kind = x.kind ∧ c.bytes = x.bytes

namespace System.Recorded

variable {p : Setup} {w w' : System} {fresh : System → Copy → Prop}

/-- A call that runs has its transmissions on the network. -/
lemma exec {e : Entry} {rest : List Entry} (h : w.Recorded) (st : w.stack = e :: rest) :
    w.exec.Recorded := by
  have r := w.exec_ran st
  intro X x
  rcases r.net with ⟨wire, net⟩ | ⟨c, net, src, _, _, _, wire⟩
  · have same : (w.exec.host X).log.wire = (w.host X).log.wire := by
      rcases e.host.eq_or_peer X with rfl | rfl
      · rw [r.self, wire]
      · rw [r.peer]
    rw [same, net]
    exact h X x
  · have one : x ∈ (w.exec.host X).log.wire ↔ x ∈ (w.host X).log.wire ∨
        c.src = X ∧ c.kind = x.kind ∧ c.bytes = x.bytes := by
      rcases e.host.eq_or_peer X with rfl | rfl
      · obtain ⟨kind, bytes⟩ := x
        rw [r.self, wire, List.mem_append, List.mem_singleton, Transmission.mk.injEq]
        simp [src, eq_comm]
      · rw [r.peer]
        have other : c.src ≠ e.host.peer := fun eq => e.host.peer_ne (eq.symm.trans src)
        simp [other]
    rw [one, h X x, net]
    simp only [List.mem_append, List.mem_singleton, or_and_right, exists_or, exists_eq_left]

/-- What changes neither logs nor network keeps the record. -/
lemma of_same (h : w.Recorded) (log : ∀ X, (w'.host X).log = (w.host X).log) (net : w'.net = w.net) :
    w'.Recorded := by
  intro X x
  rw [log, net]
  exact h X x

/-- So does a delivery. -/
lemma hand {X : Host} {bytes : Bytes} {buf stamp : ℕ} {s : TcpLiteSession} (h : w.Recorded)
    (arr : (w.host X).arrive bytes = some (buf, s)) : (w.hand X buf s stamp []).exec.Recorded := by
  refine System.Recorded.exec (h.of_same ?_ rfl) rfl
  intro Y
  obtain ⟨_, _, e⟩ := System.hand_same arr stamp [] Y
  rw [e]

/-- Every step keeps the record. -/
lemma step (st : System.Net fresh w w') (h : w.Recorded) : w'.Recorded := by
  cases st with
  | call st =>
    cases st with
    | exec ne =>
      obtain ⟨e, rest, st⟩ := List.exists_cons_of_ne_nil ne
      exact h.exec st
    | send Y data idle => exact h.of_same (fun _ => rfl) rfl
    | tick Y idle => exact h.of_same (fun _ => rfl) rfl
    | program Y ops tape idle =>
      refine h.of_same ?_ rfl
      intro X
      rcases Y.eq_or_peer X with rfl | rfl
      · rw [w.put_self]
        rfl
      · rw [w.put_peer]
  | deliver idle mem ok arr => exact h.hand arr
  | corrupt Y bytes idle fit arr bad => exact h.hand arr

/-- So does every run. -/
lemma steps (run : Relation.ReflTransGen (System.Net fresh) (.fresh p) w) : w.Recorded := by
  induction run with
  | refl =>
    intro X x
    simp [System.fresh, TcpLiteSession.new]
  | tail _ st ih => exact ih.step st

end System.Recorded

/-- As long as few sequence numbers have been assigned, everything on the network is fresh. -/
lemma System.freshBorn_of_few {p : Setup} {w : System} {c : Copy}
    (run : Relation.ReflTransGen (System.Net System.FreshBorn) (.fresh p) w)
    (few : ∀ X, w.assigned X ≤ 2 ^ 30)
    (mem : c ∈ w.net) : w.FreshBorn c := by
  have young : ∀ c, w.Fresh c := fun c X => Nat.le_add_left_of_le (few X)
  have recorded := System.Recorded.steps run
  refine ⟨young c, ?_⟩
  by_cases old : c.kind = .retransmit
  · obtain ⟨una, retained, _⟩ := (System.Net.steps_agreed run).1.una c.src
    have again := retained.resent ⟨c.kind, c.bytes⟩ ((recorded c.src _).mpr ⟨c, mem, rfl, rfl, rfl⟩) old
    obtain ⟨x, mem', bytes⟩ := List.mem_map.mp again
    obtain ⟨sent, kind⟩ := List.mem_filter.mp mem'
    obtain ⟨c₀, mem₀, src, kind₀, bytes₀⟩ := (recorded c.src x).mp sent
    refine ⟨c₀, mem₀, src, ?_, bytes₀.trans bytes, young c₀⟩
    rw [kind₀, of_decide_eq_true kind]
    exact nofun
  · exact ⟨c, mem, rfl, old, rfl, young c⟩

end UxNet.TcpLite
