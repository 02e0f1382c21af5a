import UxNet.Lib.Endless
import UxNet.TcpLite.Progress

/-!
# Runs that never end

Runs of two sessions over the network that never end, and what they do at a point: a side calls `tick`, a
datagram is transmitted, a copy of a datagram is delivered to a buffer that the receiver has free. The network
is the one of `Agreement`: a copy is delivered only while neither side has assigned more than `2 ^ 30` numbers
since its packet was first transmitted. Logs only grow and `snd_una_` does not go back.
While a call is active nothing else can happen, so every call returns in such a run, and what it transmits
it transmits at some point.
-/

namespace UxNet.TcpLite

open TcpLiteSession Endless

namespace System

/-- `tick` of a side is called. -/
def Ticks (X : Host) (w w' : System) : Prop :=
  w.stack = [] ∧ w' = { w with stack := [{ host := X, frame := .tick, stamp := w.assigned X.peer }] }

/-- A side transmits a datagram. -/
def Transmits (X : Host) (d : Bytes) (w w' : System) : Prop :=
  ∃ c : Copy, w'.net = w.net ++ [c] ∧ c.src = X ∧ c.bytes = d

/-- A copy of a datagram is delivered to a side, in a buffer that its pool has free. -/
def Gets (Y : Host) (d : Bytes) (w w' : System) : Prop :=
  ∃ c buf s, w.stack = [] ∧ c ∈ w.net ∧ c.src.peer = Y ∧ c.bytes = d ∧
    (w.host Y).arrive d = some (buf, s) ∧ w' = (w.hand Y buf s (c.stamp c.src) []).exec

/-- A run of two fresh sessions that never ends; copies are delivered while they are young (`FreshBorn`). -/
structure Course (p : Setup) (w : ℕ → System) : Prop where
  start : w 0 = .fresh p
  steps : IsRun (Net FreshBorn) w

end System

/-! ## What a step keeps -/

section Step

variable {w w₁ w' : System} {e : Entry} {rest : List Entry} {fresh : System → Copy → Prop}

/-- What was delivered only grows. -/
lemma Case.delivered_prefix {s s' : TcpLiteSession} {f : Frame} {new : List Frame} (c : Case s f s' new) :
    s.log.delivered <+: s'.log.delivered := by
  cases c with
  | deliverCall _ => exact List.prefix_append _ _
  | pumpStop _ => rw [pumpReset_log]
  | pumpFull _ _ => rw [pumpReset_log]
  | ack _ _ =>
    obtain ⟨_, _, e⟩ := takeAck_frame s _
    rw [e]
  | store _ =>
    obtain ⟨_, _, e⟩ := storeData_frame s _ _
    rw [e]
  | _ => exact List.prefix_rfl

/-- What only grows. -/
structure System.Later (w w' : System) : Prop where
  packets : ∀ X, (w.host X).log.packets <+: (w'.host X).log.packets
  sent : ∀ X, (w.host X).log.sent <+: (w'.host X).log.sent
  delivered : ∀ X, (w.host X).log.delivered <+: (w'.host X).log.delivered
  returned : ∀ X, w.returned X ≤ w'.returned X

/-- Nothing has happened. -/
lemma System.Later.refl (w : System) : System.Later w w :=
  ⟨fun _ => List.prefix_rfl, fun _ => List.prefix_rfl, fun _ => List.prefix_rfl, fun _ => le_rfl⟩

/-- What only grows goes on growing. -/
lemma System.Later.trans (h : System.Later w w₁) (h' : System.Later w₁ w') : System.Later w w' :=
  ⟨fun X => (h.packets X).trans (h'.packets X), fun X => (h.sent X).trans (h'.sent X),
    fun X => (h.delivered X).trans (h'.delivered X), fun X => (h.returned X).trans (h'.returned X)⟩

/-- The innermost call runs. -/
lemma System.exec_later (st : w.stack = e :: rest) : System.Later w w.exec := by
  have r := w.exec_ran st
  refine ⟨r.packets_prefix, ?_, ?_, r.returned_le st⟩
  · intro X
    rcases e.host.eq_or_peer X with rfl | rfl
    · rw [r.self]
      exact r.code.sent_prefix
    · rw [r.peer]
  · intro X
    rcases e.host.eq_or_peer X with rfl | rfl
    · rw [r.self]
      exact r.code.delivered_prefix
    · rw [r.peer]

/-- What the program does outside the sessions. -/
structure System.Outside (w w' : System) : Prop where
  same : ∀ X, ∃ pool tape, w'.host X = { w.host X with pool := pool, tape := tape }
  call : ∀ X, calls (framesOf X w'.stack) = calls (framesOf X w.stack)
  done : ∀ X, .tickDone ∈ framesOf X w'.stack → .tickDone ∈ framesOf X w.stack
  net : w'.net = w.net

/-- The program has done nothing. -/
lemma System.Outside.refl (w : System) : System.Outside w w :=
  ⟨fun _ => ⟨_, _, rfl⟩, fun _ => rfl, fun _ => id, rfl⟩

/-- What the program does outside only leaves things as they were. -/
lemma System.Outside.later (h : System.Outside w w') : System.Later w w' := by
  have log : ∀ X, (w'.host X).log = (w.host X).log := by
    intro X
    obtain ⟨_, _, e⟩ := h.same X
    rw [e]
  refine ⟨fun X => ?_, fun X => ?_, fun X => ?_, fun X => ?_⟩
  · rw [log]
  · rw [log]
  · rw [log]
  · exact (System.returned_congr (h.same X) (h.call X)).ge

/-- A call is made between two calls. -/
lemma System.Outside.push {f : Frame} {X : Host} {stamp : ℕ} (idle : w.stack = []) (call : f.calling = none)
    (other : f ≠ .tickDone) :
    System.Outside w { w with stack := [{ host := X, frame := f, stamp := stamp }] } := by
  refine ⟨fun _ => ⟨_, _, rfl⟩, ?_, ?_, rfl⟩
  · intro Y
    show calls (framesOf Y [_]) = calls (framesOf Y w.stack)
    rw [idle, framesOf_cons]
    split
    · simp [calls, call]
    · rfl
  · intro Y mem
    obtain ⟨e, mem', _, frame⟩ := mem_framesOf.mp mem
    rw [List.mem_singleton.mp mem'] at frame
    exact absurd frame other

/-- The program works on its buffers. -/
lemma System.Outside.program (X : Host) (ops : List CallerOp) (tape : Tape) :
    System.Outside w (w.put X ((w.host X).program ops tape)) := by
  refine ⟨?_, fun _ => rfl, fun _ => id, rfl⟩
  intro Y
  rcases X.eq_or_peer Y with rfl | rfl
  · exact ⟨_, _, w.put_self Y _⟩
  · exact ⟨_, _, w.put_peer X _⟩

/-- A datagram is handed to a side between two calls. -/
lemma System.Outside.hand {X : Host} {bytes : Bytes} {buf : ℕ} {s : TcpLiteSession} (idle : w.stack = [])
    (arr : (w.host X).arrive bytes = some (buf, s)) (stamp : ℕ) :
    System.Outside w (w.hand X buf s stamp []) := by
  have call := w.hand_calls X buf s stamp
  rw [idle] at call
  refine ⟨System.hand_same arr stamp [], ?_, ?_, rfl⟩
  · intro Y
    rw [idle]
    exact call Y
  · intro Y mem
    obtain ⟨e, mem', _, frame⟩ := mem_framesOf.mp mem
    rw [List.mem_singleton.mp mem'] at frame
    cases frame

/-- A step is one of the program, or the program does something and a call runs. -/
lemma System.Net.cases_exec (st : System.Net fresh w w') :
    System.Outside w w' ∨ ∃ w₁ e rest, System.Outside w w₁ ∧ w₁.stack = e :: rest ∧ w' = w₁.exec := by
  cases st with
  | call st =>
    cases st with
    | exec ne =>
      obtain ⟨e, rest, st⟩ := List.exists_cons_of_ne_nil ne
      exact .inr ⟨w, e, rest, .refl w, st, rfl⟩
    | send X data idle => exact .inl (.push idle rfl nofun)
    | tick X idle => exact .inl (.push idle rfl nofun)
    | program X ops tape idle => exact .inl (.program X ops tape)
  | deliver idle mem ok arr => exact .inr ⟨_, _, _, .hand idle arr _, rfl, rfl⟩
  | corrupt X bytes idle fit arr bad => exact .inr ⟨_, _, _, .hand idle arr _, rfl, rfl⟩

/-- Every step only adds. -/
lemma System.Net.later (st : System.Net fresh w w') : System.Later w w' := by
  rcases st.cases_exec with outside | ⟨w₁, e, rest, outside, stack, rfl⟩
  · exact outside.later
  · exact outside.later.trans (System.exec_later stack)

/-- A step transmits at most one datagram. -/
lemma System.Net.net_cases (st : System.Net fresh w w') : w'.net = w.net ∨ ∃ c, w'.net = w.net ++ [c] := by
  rcases st.cases_exec with outside | ⟨w₁, e, rest, outside, stack, rfl⟩
  · exact .inl outside.net
  · rw [← outside.net]
    rcases (w₁.exec_ran stack).net with ⟨_, same⟩ | ⟨c, more, _⟩
    · exact .inl same
    · exact .inr ⟨c, more⟩

/-- While a call is active it runs. -/
lemma System.Net.eq_of_runs {w'' : System} (runs : System.Runs w w') (st : System.Net fresh w w'') :
    w'' = w' := by
  obtain ⟨busy, rfl⟩ := runs
  cases st with
  | call st =>
    cases st with
    | exec _ => rfl
    | send X data idle => exact absurd idle busy
    | tick X idle => exact absurd idle busy
    | program X ops tape idle => exact absurd idle busy
  | deliver idle mem ok arr => exact absurd idle busy
  | corrupt X bytes idle fit arr bad => exact absurd idle busy

end Step

section Una

variable {a a' : ℕ} {s s' : TcpLiteSession} {f : Frame} {new : List Frame}

/-- `snd_una_` does not go back. -/
lemma Case.una_le (c : Case s f s' new) (h : Retained a s) (h' : Retained a' s') : a ≤ a' := by
  have lower := h.lower
  have upper := h.upper
  have lower' := h'.lower
  have upper' := h'.upper
  have still : s'.sndUna = s.sndUna → s.log.packets.length ≤ s'.log.packets.length → a ≤ a' := by
    intro una more
    rw [h.una, h'.una] at una
    by_contra less
    have same := Serial.ofNat_inj_of_near (show a' ≤ a by omega) (by omega) una.symm
    omega
  rcases c.numbers with ⟨_, more, una, _⟩ | ⟨same, una | ⟨buf, hd, _, _, taken, rfl⟩⟩
  · apply still una
    rw [more, List.length_append]
    exact Nat.le_add_right _ _
  · exact still una (by rw [same])
  · have ahead := ackTaken_ahead taken
    have una := h'.una
    rw [takeAck_una] at una
    rw [same] at lower' upper'
    rw [una, h.una, Serial.toInt_pos_iff (by omega) (by omega)] at ahead
    omega

/-- What is acknowledged stays so in a step. -/
lemma System.Net.una_le {fresh : System → Copy → Prop} {w w' : System} {X : Host}
    (st : System.Net fresh w w') (h : Retained a (w.host X)) (h' : Retained a' (w'.host X)) : a ≤ a' := by
  have outside : ∀ {w₁ : System}, System.Outside w w₁ → Retained a (w₁.host X) := by
    intro w₁ out
    obtain ⟨_, _, e⟩ := out.same X
    rw [e]
    exact h.of_same rfl (fun _ => rfl) rfl
  have unique : ∀ {s}, Retained a s → Retained a' s → a ≤ a' := fun r r' => Case.una_le .transmitting r r'
  rcases st.cases_exec with out | ⟨w₁, e, rest, out, stack, rfl⟩
  · exact unique (outside out) h'
  · have r := w₁.exec_ran stack
    have before := outside out
    rcases e.host.eq_or_peer X with rfl | rfl
    · rw [r.self] at h'
      exact r.code.una_le before h'
    · rw [r.peer] at h'
      exact unique before h'

end Una

/-! ## Runs that never end -/

namespace System.Course

variable {p : Setup} {w : ℕ → System} {X Y : Host} {i j u : ℕ} {d : Bytes} {s : TcpLiteSession}

/-- Every state of the run is reached. -/
lemma reached (run : Course p w) (i : ℕ) :
    Relation.ReflTransGen (System.Net System.FreshBorn) (.fresh p) (w i) :=
  run.start ▸ run.steps.reaches (Nat.zero_le i)

/-- Later states only have more. -/
lemma later (run : Course p w) (le : i ≤ j) : Later (w i) (w j) := by
  induction j, le using Nat.le_induction with
  | base => exact .refl _
  | succ j _ ih => exact ih.trans (run.steps j).later

/-- Numbers that are assigned stay so. -/
lemma assigned_le (run : Course p w) (le : i ≤ j) (X : Host) : (w i).assigned X ≤ (w j).assigned X :=
  ((run.later le).packets X).length_le

/-- A packet stays where it is in the log. -/
lemma getElem (run : Course p w) (le : i ≤ j) (get : ((w i).host X).log.packets[u]? = some d) :
    ((w j).host X).log.packets[u]? = some d := by
  obtain ⟨more, eq⟩ := (run.later le).packets X
  rw [← eq, List.getElem?_append_left (List.getElem?_eq_some_iff.mp get).1]
  exact get

/-- What a side holds. -/
lemma una (run : Course p w) (i : ℕ) (X : Host) :
    ∃ a, Retained a ((w i).host X) ∧ a ≤ (w i).returned X.peer :=
  (System.Net.steps_agreed (run.reached i)).1.una X

/-- What is acknowledged stays so. -/
lemma una_le (run : Course p w) (le : i ≤ j) {a a' : ℕ} (h : Retained a ((w i).host X))
    (h' : Retained a' ((w j).host X)) : a ≤ a' := by
  induction j, le using Nat.le_induction generalizing a' with
  | base => exact Case.una_le .transmitting h h'
  | succ j _ ih =>
    obtain ⟨b, here, _⟩ := run.una j X
    exact (ih here).trans ((run.steps j).una_le here h')

/-- What a side has received was sent. -/
lemma expected_le (run : Course p w) (i : ℕ) (X : Host) : (w i).expected X.peer ≤ (w i).assigned X := by
  obtain ⟨_, ⟨g, core, _⟩, _⟩ := System.Net.steps_agreed (run.reached i)
  have le := (core.receiver X.peer).expected_le
  rw [Host.peer_peer] at le
  exact le

/-- `tick` returns. -/
lemma tick_returns (run : Course p w) (tick : Ticks X (w i) (w (i + 1))) :
    ∃ j > i, (w j).stack = [] ∧ Called X ((w i).host X).tick (w i) (w j) := by
  obtain ⟨w', runs, called, idle⟩ := (w i).tick_call X
  rw [← tick.2] at runs
  obtain ⟨j, ge, rfl⟩ := run.steps.follows System.Net.eq_of_runs runs
  exact ⟨j, ge, idle, called⟩

/-- `on_packet_received` returns. -/
lemma gets_returns (run : Course p w) (gets : Gets Y d (w i) (w (i + 1))) :
    ∃ j > i, ∃ t, ((w i).host Y).deliver d = some t ∧ (w j).stack = [] ∧ Called Y t (w i) (w j) := by
  obtain ⟨c, buf, s, _, _, _, _, arr, next⟩ := gets
  have e : ((w i).host Y).deliver d = some (s.onPacketReceived buf) := by
    rw [TcpLiteSession.deliver, arr]
    rfl
  obtain ⟨buf', s', w', arr', runs, called, idle⟩ := System.deliver_call e (c.stamp c.src)
  obtain ⟨rfl, rfl⟩ := Prod.mk.inj (Option.some.inj (arr.symm.trans arr'))
  rw [← next] at runs
  obtain ⟨j, ge, rfl⟩ := run.steps.follows System.Net.eq_of_runs runs
  exact ⟨j, ge, _, e, idle, called⟩

/-- What a call transmits it transmits at some point. -/
lemma sends_at (run : Course p w) (le : i ≤ j) (called : Called X s (w i) (w j)) {x : Transmission}
    (mem : x ∈ transmitted ((w i).host X) s) :
    ∃ k c, i ≤ k ∧ k < j ∧ (w (k + 1)).net = (w k).net ++ [c] ∧ c.src = X ∧ c.kind = x.kind ∧
      c.bytes = x.bytes := by
  obtain ⟨cs, net, each, wire⟩ := called.net
  rw [transmitted, wire, List.drop_left] at mem
  obtain ⟨c, sent, rfl⟩ := List.mem_map.mp mem
  obtain ⟨k, ge, lt, here⟩ := added_at (f := fun k => (w k).net) (fun k => (run.steps k).net_cases) le net sent
  exact ⟨k, c, ge, lt, here, (each c sent).1, rfl, rfl⟩

end System.Course

end UxNet.TcpLite
