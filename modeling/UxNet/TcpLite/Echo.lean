import UxNet.TcpLite.Fair

/-!
# An echo server

`tcplite_pingpong` of `final_benchmark.cpp` makes one session a server: its data callback passes what it is
handed back to `send` of the same session. The callback runs inside `deliver_in_order`, before that method
has moved its window past the packet, so `send` transmits packets from a session that is in the middle of
receiving one.

The server has sent what it has been handed, up to what its callback is about to pass on (`Echoed`). With
the stream of each direction safe and delivered in the end, so is the way there and back. Both rest on copies
that are young when they are delivered (`FreshBorn`), and the second on runs in which the receiver of a
datagram again and again has a free buffer for it (`Fair`): the benchmark's pools of 128 buffers are smaller
than the window, and not every run of theirs is such a run.
-/

namespace UxNet.TcpLite

open TcpLiteSession Filter Endless

/-- If the data callback of side `b` is called next, it will pass what it is handed to `send`. -/
def System.Answers (w : System) : Prop :=
  ∀ e rest, w.stack = e :: rest → e.host = .b → e.frame = .deliver → (w.host .b).deliverOpen = true →
    ((w.host .b).tape 0).sends = [(w.host .b).reasm (slotIdx (w.host .b).recvBitmap.baseSeq)]

/-- Side `b` is an echo server: it answers, and `send` is not called otherwise. -/
structure System.Echoes (w w' : System) : Prop where
  answers : w.Answers
  only : w.stack = [] → ∀ e ∈ w'.stack, e.host = .b → ∀ ds, e.frame ≠ .sends ds

/-- One step of a client and an echo server; a copy is delivered only while neither side has assigned more
than `2 ^ 30` numbers since its packet was first transmitted. -/
def System.Echo (w w' : System) : Prop := System.Net System.FreshBorn w w' ∧ System.Echoes w w'

/-- What the data callbacks have yet to pass to `send`. -/
def Frame.toSend : Frame → List Bytes
  | .sends ds => ds
  | _ => []

/-- The server has sent what it was handed, up to what its data callback is about to pass on. -/
def System.Echoed (w : System) : Prop :=
  (w.host .b).log.sent ++ ((framesOf .b w.stack).flatMap Frame.toSend).flatten
    = (w.host .b).log.delivered.flatten

/-- The code between two callbacks passes on what it is given. -/
lemma Case.echoed {s s' : TcpLiteSession} {f : Frame} {new fs : List Frame} (c : Case s f s' new)
    (nests : Nests (f :: fs))
    (answers : f = .deliver → s.deliverOpen = true →
      (s.tape 0).sends = [s.reasm (slotIdx s.recvBitmap.baseSeq)])
    (h : s.log.sent ++ ((f :: fs).flatMap Frame.toSend).flatten = s.log.delivered.flatten) :
    s'.log.sent ++ ((new ++ fs).flatMap Frame.toSend).flatten = s'.log.delivered.flatten := by
  cases c with
  | sendsCons =>
    simpa [append, Frame.toSend] using h
  | deliverCall op =>
    -- no other data callback is active
    have below : fs.flatMap Frame.toSend = [] := by
      rw [List.flatMap_eq_nil_iff]
      intro g mem
      have lt := (List.pairwise_cons.mp nests).1 g mem
      cases g with
      | sends ds => exact absurd lt (by simp [Frame.level])
      | _ => rfl
    simp only [List.flatMap_cons, below, Frame.toSend, List.flatten_nil, List.append_nil] at h
    simp [TcpLiteSession.deliverCall, Frame.toSend, below, answers rfl op, h]
  | pumpStop _ =>
    rw [pumpReset_log]
    exact h
  | pumpFull _ _ =>
    rw [pumpReset_log]
    exact h
  | ack _ _ =>
    obtain ⟨_, _, e⟩ := takeAck_frame s _
    rw [e]
    exact h
  | store _ =>
    obtain ⟨_, _, e⟩ := storeData_frame s _ _
    rw [e]
    exact h
  | _ => exact h

namespace System.Echoed

variable {w w' : System} {p : Setup}

/-- A call that runs keeps the echo. -/
lemma exec {e : Entry} {rest : List Entry} (h : w.Echoed) (st : w.stack = e :: rest)
    (nests : Nests (framesOf e.host w.stack)) (answers : w.Answers) : w.exec.Echoed := by
  have r := w.exec_ran st
  rw [framesOf_self st] at nests
  unfold System.Echoed at h ⊢
  rcases e.host.eq_or_peer .b with host | host
  · have answers := answers e rest st host.symm
    rw [host] at h answers ⊢
    rw [framesOf_self st] at h
    rw [r.self, r.own]
    exact r.code.echoed nests answers h
  · rw [host] at h ⊢
    rw [framesOf_peer st] at h
    rw [r.peer, r.other]
    exact h

/-- What the program does outside the sessions, other than `send` of the server. -/
lemma outside (h : w.Echoed) (idle : w.stack = []) (out : System.Outside w w')
    (only : ∀ e ∈ w'.stack, e.host = .b → ∀ ds, e.frame ≠ .sends ds) : w'.Echoed := by
  have none : (framesOf .b w'.stack).flatMap Frame.toSend = [] := by
    rw [List.flatMap_eq_nil_iff]
    intro f mem
    obtain ⟨e, mem', host, rfl⟩ := mem_framesOf.mp mem
    have other := only e mem' host
    generalize e.frame = f at other
    cases f with
    | sends ds => exact absurd rfl (other ds)
    | _ => rfl
  obtain ⟨_, _, same⟩ := out.same .b
  unfold System.Echoed at h ⊢
  rw [idle] at h
  rw [none, same]
  exact h

/-- A datagram is handed to a side. -/
lemma hand {X : Host} {bytes : Bytes} {buf stamp : ℕ} {s : TcpLiteSession} (h : w.Echoed)
    (idle : w.stack = []) (arr : (w.host X).arrive bytes = some (buf, s)) :
    (w.hand X buf s stamp []).exec.Echoed := by
  have top : (w.hand X buf s stamp []).stack = [{ host := X, frame := .receive buf, stamp := stamp }] := rfl
  refine exec (h.outside idle (.hand idle arr stamp) ?_) top ?_ ?_
  · rw [top]
    intro e mem _ ds
    rw [List.mem_singleton.mp mem]
    exact nofun
  · rw [framesOf_self top]
    exact List.pairwise_singleton _ _
  · intro e rest st _ frame
    rw [top] at st
    obtain ⟨rfl, _⟩ := List.cons.inj st
    cases frame

/-- Every step keeps the echo. -/
lemma step (st : System.Echo w w') (h : w.Echoed) (nested : ∃ X, Nested w X) : w'.Echoed := by
  obtain ⟨st, echo⟩ := st
  obtain ⟨X, nested⟩ := nested
  cases st with
  | call st =>
    cases st with
    | exec ne =>
      obtain ⟨e, rest, st⟩ := List.exists_cons_of_ne_nil ne
      obtain ⟨rfl, _⟩ := nested.one e (st ▸ List.mem_cons_self)
      exact h.exec st nested.nests echo.answers
    | send Y data idle => exact h.outside idle (.push idle rfl nofun) (echo.only idle)
    | tick Y idle => exact h.outside idle (.push idle rfl nofun) (echo.only idle)
    | program Y ops tape idle => exact h.outside idle (.program Y ops tape) (echo.only idle)
  | deliver idle mem ok arr => exact h.hand idle arr
  | corrupt Y bytes idle fit arr bad => exact h.hand idle arr

/-- So does every run. -/
lemma steps (run : Relation.ReflTransGen System.Echo (.fresh p) w) :
    Relation.ReflTransGen (System.Net System.FreshBorn) (.fresh p) w ∧ w.Echoed := by
  induction run with
  | refl => exact ⟨.refl, rfl⟩
  | tail _ st ih =>
    obtain ⟨run, h⟩ := ih
    exact ⟨run.tail st.1, step st h (System.Net.steps_agreed run).2.2⟩

/-- Between two calls the server has sent what it was handed. -/
lemma idle (h : w.Echoed) (idle : w.stack = []) :
    (w.host .b).log.sent = (w.host .b).log.delivered.flatten := by
  unfold System.Echoed at h
  rw [idle] at h
  rw [← h]
  exact (List.append_nil _).symm

end System.Echoed

/-- The echo. In every state of every run of a client and an echo server over a network that loses, repeats,
reorders, delays and corrupts datagrams, and that delivers a copy only while neither side has assigned more
than `2 ^ 30` numbers since its packet was first transmitted, what has come back to the client is a prefix of
what it was given to send. And if the run never ends and puts nothing off forever, with a free buffer of the
receiver for what is delivered again and again, everything that the client has been given to send at some
time has come back to it at a later time. -/
theorem echo_comes_back (p : Setup) :
    (∀ w, Relation.ReflTransGen System.Echo (.fresh p) w →
      (w.host .a).log.delivered.flatten <+: (w.host .a).log.sent) ∧
    ∀ w : ℕ → System, System.Course p w → (∀ i, System.Echoes (w i) (w (i + 1))) → System.Fair w →
      ∀ i, ∃ j ≥ i, ((w i).host .a).log.sent <+: ((w j).host .a).log.delivered.flatten := by
  constructor
  · intro w run
    obtain ⟨net, echoed⟩ := System.Echoed.steps run
    obtain ⟨_, ⟨g, core, _⟩, _⟩ := System.Net.steps_agreed net
    -- there, over in the server, and back
    have there := (core.receiver .b).prefix_sent (core.sender .a)
    have back := (core.receiver .a).prefix_sent (core.sender .b)
    exact back.trans (.trans ⟨_, echoed⟩ there)
  · intro w run echoes fair i
    obtain ⟨i₁, ge₁, there⟩ := run.delivers fair i .a
    obtain ⟨i₂, ge₂, tick⟩ := frequently_atTop.mp (fair.ticks .a) i₁
    have reached : Relation.ReflTransGen System.Echo (.fresh p) (w i₂) := by
      have echo : IsRun System.Echo w := fun i => ⟨run.steps i, echoes i⟩
      exact run.start ▸ echo.reaches (Nat.zero_le i₂)
    have passed := (System.Echoed.steps reached).2.idle tick.1
    obtain ⟨j, ge, back⟩ := run.delivers fair i₂ .b
    obtain ⟨more, eq⟩ := (run.later ge₂).delivered .b
    refine ⟨j, by omega, there.trans (.trans ?_ back)⟩
    rw [passed, ← eq, List.flatten_append]
    exact List.prefix_append _ _

/-! ## A run -/

namespace System

variable {w : System}

/-- `on_packet_received` goes on in `pump_tx` or after its ACK part. -/
lemma exec_receive {e : Entry} {buf : ℕ} (st : w.stack = [e]) (receive : e.frame = .receive buf) :
    ∀ e' ∈ w.exec.stack, ∀ ds, e'.frame ≠ .sends ds := by
  have r := w.exec_ran st
  have code := r.code
  have stack := r.stack
  rw [receive] at code stack
  generalize TcpLite.exec (w.host e.host) (.receive buf) = q at code stack
  obtain ⟨s, new⟩ := q
  intro e' mem ds
  rw [stack, List.append_nil] at mem
  obtain ⟨f, mem', rfl⟩ := List.mem_map.mp mem
  rintro rfl
  cases code with
  | corrupt _ => cases mem'
  | ack _ _ => simp at mem'
  | noAck _ _ => simp at mem'

/-- A step between two calls that is not `send` of the server. -/
lemma echoes_of_idle {w' : System} (idle : w.stack = [])
    (only : ∀ e ∈ w'.stack, e.host = .b → ∀ ds, e.frame ≠ .sends ds) : Echoes w w' := by
  refine ⟨?_, fun _ => only⟩
  intro e rest st
  rw [idle] at st
  cases st

/-- Whether the data callback of the server will answer, as a test. -/
def answersTest (w : System) : Bool :=
  match w.stack with
  | { host := .b, frame := .deliver, .. } :: _ =>
    !(w.host .b).deliverOpen ||
      ((w.host .b).tape 0).sends == [(w.host .b).reasm (slotIdx (w.host .b).recvBitmap.baseSeq)]
  | _ => true

/-- The test tells that the callbacks answer. -/
lemma answers_of_test (ok : w.answersTest = true) : w.Answers := by
  rintro ⟨host, frame, stamp⟩ rest st rfl rfl op
  unfold answersTest at ok
  rw [st] at ok
  simpa [op] using ok

/-- The tests of the next `n` steps. -/
def settleAnswers : ℕ → System → Bool
  | 0, _ => true
  | n + 1, w => w.answersTest && settleAnswers n (w.advance false)

/-- A call runs to its end. -/
lemma settle_echo {n : ℕ} (ok : w.settleAnswers n = true) :
    Relation.ReflTransGen Echo w (w.settle false n) := by
  induction n generalizing w with
  | zero => exact .refl
  | succ n ih =>
    rw [settleAnswers, Bool.and_eq_true] at ok
    rw [settle]
    by_cases idle : w.stack = []
    · have stay : w.advance false = w := by
        unfold advance
        rw [idle]
      rw [stay] at ok ⊢
      exact ih ok.2
    · refine .head ⟨.call (advance_local w idle), answers_of_test ok.1, ?_⟩ (ih ok.2)
      exact fun none => absurd none idle

/-- The client sends. -/
lemma send_echo {n : ℕ} {data : Bytes} (idle : w.stack = [])
    (ok : settleAnswers n { w with stack := [{ host := .a, frame := .sends [data], stamp := w.assigned .b }] }
      = true) : Relation.ReflTransGen Echo w (w.send false n .a data) := by
  refine .head ⟨.call (.send .a data idle), echoes_of_idle idle ?_⟩ (settle_echo ok)
  intro e mem host
  rw [List.mem_singleton.mp mem] at host
  cases host

/-- A side calls `tick`. -/
lemma tick_echo {n : ℕ} {X : Host} (idle : w.stack = [])
    (ok : settleAnswers n { w with stack := [{ host := X, frame := .tick, stamp := w.assigned X.peer }] }
      = true) : Relation.ReflTransGen Echo w (w.tick false n X) := by
  refine .head ⟨.call (.tick X idle), echoes_of_idle idle ?_⟩ (settle_echo ok)
  intro e mem _ ds
  rw [List.mem_singleton.mp mem]
  exact nofun

/-- The tests of the steps of a delivery. -/
def deliverAnswers (n i : ℕ) (w : System) : Bool :=
  match w.net[i]? with
  | some c =>
    match (w.host c.src.peer).arrive c.bytes with
    | some (buf, s) => settleAnswers n (w.hand c.src.peer buf s (c.stamp c.src) []).exec
    | none => true
  | none => true

/-- A copy is delivered. -/
lemma deliver_echo {n i : ℕ} (idle : w.stack = []) (young : ∀ c ∈ w.net, w.FreshBorn c)
    (ok : w.deliverAnswers n i = true) : Relation.ReflTransGen Echo w (w.deliver n i) := by
  unfold deliverAnswers at ok
  unfold deliver
  split
  · rename_i c get
    rw [get] at ok
    dsimp only at ok
    split
    · rename_i buf s arr
      rw [arr] at ok
      have mem := List.mem_of_getElem? get
      refine .head ⟨.deliver idle mem (young c mem) arr, echoes_of_idle idle ?_⟩ (settle_echo ok)
      intro e mem _
      exact exec_receive rfl rfl e mem
    · exact .refl
  · exact .refl

/-- The program lets the time stand still. -/
lemma frozen_echo (idle : w.stack = []) : Relation.ReflTransGen Echo w w.frozen := by
  have none : ∀ {v : System}, v.stack = [] → ∀ e ∈ v.stack, e.host = .b → ∀ ds, e.frame ≠ .sends ds := by
    intro v idle e mem
    rw [idle] at mem
    cases mem
  have first : Echo w (w.put .a ((w.host .a).program [] .silent)) :=
    ⟨.call (.program .a [] .silent idle), echoes_of_idle idle (none idle)⟩
  have second : Echo (w.put .a ((w.host .a).program [] .silent)) w.frozen :=
    ⟨.call (.program .b [] .silent idle), echoes_of_idle idle (none idle)⟩
  exact (Relation.ReflTransGen.single first).tail second

/-- The calls of a `tick` that has nothing to do are not those of a data callback. -/
lemma mem_tickFrames {f : Frame} {r : ℕ} (mem : f ∈ tickFrames r) : f ≠ .deliver ∧ ∀ ds, f ≠ .sends ds := by
  unfold tickFrames at mem
  split at mem
  · cases mem
  · rw [List.mem_singleton.mp mem]
    exact ⟨nofun, nofun⟩
  · rw [List.mem_singleton.mp mem]
    exact ⟨nofun, nofun⟩
  · rcases List.mem_pair.mp mem with rfl | rfl
    · exact ⟨nofun, nofun⟩
    · exact ⟨nofun, nofun⟩
  · rw [List.mem_singleton.mp mem]
    exact ⟨nofun, nofun⟩

/-- A server that is left alone has nothing to answer. -/
lemma idling_echo (rest : ∀ X, (w.host X).Resting) : IsRun Echo w.idling := by
  intro i
  have frames : ∀ i, ∀ e ∈ (w.idling i).stack, e.frame ≠ .deliver ∧ ∀ ds, e.frame ≠ .sends ds := by
    intro i e mem
    obtain ⟨f, mem', rfl⟩ := List.mem_map.mp mem
    exact mem_tickFrames mem'
  refine ⟨idling_run rest i, ?_, fun _ e mem _ => (frames (i + 1) e mem).2⟩
  intro e es st _ frame
  exact absurd frame (frames i e (st ▸ List.mem_cons_self)).1

end System

/-- Two sessions, and what the data callback of the second is to send when it is called first. -/
def Setup.echo : Setup where
  size := fun _ => mtu
  count := fun _ => 4
  mem := fun _ _ => 0
  clock := fun _ => .unit
  rtoNs := fun _ => 0
  tape := fun X n => if X = .b ∧ n = 0 then { tsc := 0, ops := [], sends := [[7]] } else Tape.silent n
  fits := fun _ => le_refl _

namespace System

/-- The client has sent one byte. -/
def pinged : System := (System.fresh .echo).send false 20 .a [7]

/-- The byte is back. -/
def ponged : System := (pinged.deliver 40 0).deliver 40 1

/-- Both sides have acknowledged it. -/
def pingAcked : System := (((ponged.tick false 20 .a).deliver 20 2).tick false 20 .b).deliver 20 3

/-- The state in which the ping is acknowledged is reached. -/
lemma pingAcked_reached : Relation.ReflTransGen Echo (.fresh .echo) pingAcked := by
  have young : ∀ w : System, Relation.ReflTransGen Echo (.fresh .echo) w →
      w.assigned .a ≤ 1 ∧ w.assigned .b ≤ 1 → ∀ c ∈ w.net, w.FreshBorn c := by
    intro w run few c mem
    refine freshBorn_of_few (System.Echoed.steps run).1 ?_ mem
    intro X
    cases X with
    | a => exact few.1.trans (by decide)
    | b => exact few.2.trans (by decide)
  have sent : Relation.ReflTransGen Echo (.fresh .echo) pinged := send_echo rfl (by decide +kernel)
  have got := sent.trans (deliver_echo (n := 40) (i := 0) (List.isEmpty_iff.mp (by decide +kernel))
    (young _ sent (by decide +kernel)) (by decide +kernel))
  have back : Relation.ReflTransGen Echo (.fresh .echo) ponged :=
    got.trans (deliver_echo (List.isEmpty_iff.mp (by decide +kernel))
      (young _ got (by decide +kernel)) (by decide +kernel))
  have ticked := back.trans (tick_echo (n := 20) (X := .a) (List.isEmpty_iff.mp (by decide +kernel))
    (by decide +kernel))
  have acked := ticked.trans (deliver_echo (n := 20) (i := 2) (List.isEmpty_iff.mp (by decide +kernel))
    (young _ ticked (by decide +kernel)) (by decide +kernel))
  have ticked' := acked.trans (tick_echo (n := 20) (X := .b) (List.isEmpty_iff.mp (by decide +kernel))
    (by decide +kernel))
  exact ticked'.trans (deliver_echo (List.isEmpty_iff.mp (by decide +kernel))
    (young _ ticked' (by decide +kernel)) (by decide +kernel))

/-- In it there is nothing left to do. -/
lemma pingAcked_rests (X : Host) : (pingAcked.frozen.host X).Resting := by
  rw [frozen_host]
  cases X with
  | a =>
    exact .program (by decide +kernel) (by decide +kernel) (by decide +kernel) (by decide +kernel)
      (by decide +kernel)
  | b =>
    exact .program (by decide +kernel) (by decide +kernel) (by decide +kernel) (by decide +kernel)
      (by decide +kernel)

end System

/-- One byte comes back. -/
theorem echo_comes_back_one_byte :
    ∃ w : ℕ → System, System.Course .echo w ∧ (∀ i, System.Echoes (w i) (w (i + 1))) ∧ System.Fair w ∧
      ∃ i, ((w i).host .a).log.sent = [7] ∧ ((w i).host .a).log.delivered.flatten <+: [7] ∧
        ∃ j, [7] <+: ((w j).host .a).log.delivered.flatten := by
  have idle : System.pingAcked.stack = [] := List.isEmpty_iff.mp (by decide +kernel)
  have sent : (System.pingAcked.host .a).log.sent = [7] := by decide +kernel
  have rests := System.pingAcked_rests
  have reached := System.pingAcked_reached.trans (System.frozen_echo idle)
  have idle' := System.pingAcked.frozen_stack.trans idle
  have sent' : (System.pingAcked.frozen.host .a).log.sent = [7] := by
    rw [System.frozen_log]
    exact sent
  generalize System.pingAcked.frozen = v at rests reached idle' sent'
  obtain ⟨w, k, start, run, tail⟩ := splice reached (System.idling_zero idle') (System.idling_echo rests)
  have course : System.Course .echo w := ⟨start, fun i => (run i).1⟩
  have fair := System.fair_of_idling rests tail
  obtain ⟨safe, live⟩ := echo_comes_back .echo
  have here : w (k + 0) = v := (tail 0).trans (System.idling_zero idle')
  rw [← here] at sent' reached
  obtain ⟨j, _, back⟩ := live w course (fun i => (run i).2) fair (k + 0)
  have safe' := safe _ reached
  rw [sent'] at safe' back
  exact ⟨w, course, fun i => (run i).2, fair, k + 0, sent', safe', j, back⟩

end UxNet.TcpLite
