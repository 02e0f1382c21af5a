import UxNet.TcpLite.Stream

/-!
# Stream safety over a network

Two sessions over a network that loses, repeats, reorders and delays. Calls are made one after another
and `transmit_` does not call back, so the active calls are those of one session, nested as in the source:
`level` says what can be interrupted by what. That is enough for the guard of every step
(`Nested.guarded`), and with it the invariant of `Stream.lean` holds in every state of every run.
-/

namespace UxNet.TcpLite

open TcpLiteSession

/-- How deep a call is nested: each calls only what has a smaller level. -/
def Frame.level : Frame → ℕ
  | .transmitting => 0
  | .pumpTx => 1
  | .pumpSent _ => 1
  | .sends _ => 2
  | .deliver => 3
  | .delivered _ => 3
  | _ => 4

/-- The active calls of a session whose `transmit_` does not call back. -/
def Nests (fs : List Frame) : Prop := fs.Pairwise fun f g => f.level < g.level

namespace Nests

variable {s s' : TcpLiteSession} {f : Frame} {new fs : List Frame}

/-- The code between two callbacks nests its calls. -/
lemma exec (c : Case s f s' new) (h : Nests (f :: fs)) : Nests (new ++ fs) := by
  have step : Nests new ∧ ∀ g ∈ new, g.level ≤ f.level := by
    cases c with
    | _ => simp [Nests, Frame.level]
  obtain ⟨above, rest⟩ := List.pairwise_cons.mp h
  refine List.pairwise_append.mpr ⟨step.1, rest, ?_⟩
  intro g mem g' mem'
  exact lt_of_le_of_lt (step.2 g mem) (above g' mem')

/-- Under a round of `pump_tx` no other one is suspended. -/
lemma pumps_nil (h : Nests (f :: fs)) (pump : f.level = 1) : pumps fs = [] := by
  obtain ⟨above, _⟩ := List.pairwise_cons.mp h
  apply List.filterMap_eq_nil_iff.mpr
  intro g mem
  have lt := above g mem
  rw [pump] at lt
  cases g with
  | pumpSent plen => exact absurd lt (Nat.lt_irrefl 1)
  | _ => rfl

/-- Under the loop test of `deliver_in_order` no data callback runs. -/
lemma calls_nil (h : Nests (.deliver :: fs)) : calls fs = [] := by
  obtain ⟨above, _⟩ := List.pairwise_cons.mp h
  apply List.filterMap_eq_nil_iff.mpr
  intro g mem
  have lt := above g mem
  cases g with
  | delivered seq => exact absurd lt (Nat.lt_irrefl 3)
  | _ => rfl

/-- At most one round of `pump_tx` is suspended. -/
lemma pumps_le_one (h : Nests fs) : pumps fs = [] ∨ ∃ plen, .pumpSent plen ∈ fs ∧ pumps fs = [plen] := by
  induction fs with
  | nil => exact .inl rfl
  | cons f fs ih =>
    cases f with
    | pumpSent plen =>
      have rest : pumps fs = [] := h.pumps_nil rfl
      exact .inr ⟨plen, List.mem_cons_self, congrArg (plen :: ·) rest⟩
    | _ =>
      rcases ih h.of_cons with none | ⟨plen, mem, one⟩
      · exact .inl none
      · exact .inr ⟨plen, List.mem_cons_of_mem _ mem, one⟩

end Nests

/-- The active calls are those of one session, each made by the next, and their packets are not too
old. -/
structure Nested (w : System) (X : Host) : Prop where
  one : ∀ e ∈ w.stack, e.host = X ∧ w.assigned X.peer ≤ e.stamp + 2 ^ 30
  nests : Nests (framesOf X w.stack)

namespace Nested

variable {w : System} {e : Entry} {rest : List Entry} {X : Host}

/-- Without calls there is nothing to nest. -/
lemma nil (idle : w.stack = []) (X : Host) : Nested w X := by
  refine ⟨?_, ?_⟩
  · rw [idle]
    exact fun e mem => absurd mem List.not_mem_nil
  · rw [idle]
    exact List.Pairwise.nil

/-- Nested calls meet the guard. -/
lemma guarded (h : Nested w X) : w.Guarded := by
  intro e rest st
  obtain ⟨rfl, young⟩ := h.one e (st ▸ List.mem_cons_self)
  have nests := h.nests
  rw [framesOf_self st] at nests
  refine ⟨?_, ?_, fun _ _ _ _ => young⟩
  · rintro ⟨pump, _⟩
    rw [pump] at nests
    exact nests.pumps_nil rfl
  · intro deliver _
    rw [deliver] at nests
    exact nests.calls_nil

/-- A call that runs leaves the calls nested. -/
lemma exec (h : Nested w X) (st : w.stack = e :: rest) : Nested w.exec X := by
  obtain ⟨rfl, young⟩ := h.one e (st ▸ List.mem_cons_self)
  have nests := h.nests
  rw [framesOf_self st] at nests
  have r := w.exec_ran st
  refine ⟨?_, ?_⟩
  · intro e' mem
    rw [r.assigned_peer]
    rw [r.stack] at mem
    rcases List.mem_append.mp mem with mem | mem
    · obtain ⟨f, _, rfl⟩ := List.mem_map.mp mem
      exact ⟨rfl, young⟩
    · exact h.one e' (st ▸ List.mem_cons_of_mem e mem)
  · rw [r.own]
    exact nests.exec r.code

/-- One side at most has active calls. -/
lemma idle_peer (h : Nested w X) : framesOf X.peer w.stack = [] := by
  apply List.eq_nil_iff_forall_not_mem.mpr
  intro f mem
  obtain ⟨e, mem, host, _⟩ := mem_framesOf.mp mem
  exact X.peer_ne (host.symm.trans (h.one e mem).1)

/-- A call is made when none is active. -/
lemma single {f : Frame} {stamp : ℕ} (st : w.stack = [{ host := X, frame := f, stamp := stamp }])
    (young : w.assigned X.peer ≤ stamp + 2 ^ 30) : Nested w X := by
  refine ⟨?_, ?_⟩
  · rw [st]
    intro e mem
    obtain rfl := List.mem_singleton.mp mem
    exact ⟨rfl, young⟩
  · rw [framesOf_self st]
    exact List.pairwise_singleton _ _

end Nested

/-! ## Runs -/

section Runs

variable {p : Setup} {fresh : System → Copy → Prop} {w w' : System}

/-- One step over the network keeps the invariant. -/
lemma System.Net.inv (le : ∀ w c, fresh w c → w.Fresh c) (st : System.Net fresh w w') (h : Inv p w)
    (nested : ∃ X, Nested w X) : Inv p w' ∧ ∃ X, Nested w' X := by
  obtain ⟨X, nested⟩ := nested
  cases st with
  | call st =>
    refine ⟨h.local_step nested.guarded st, ?_⟩
    cases st with
    | exec ne =>
      obtain ⟨e, rest, st⟩ := List.exists_cons_of_ne_nil ne
      exact ⟨X, nested.exec st⟩
    | send Y data idle => exact ⟨Y, .single rfl (Nat.le_add_right _ _)⟩
    | tick Y idle => exact ⟨Y, .single rfl (Nat.le_add_right _ _)⟩
    | program Y ops tape idle => exact ⟨X, .nil (show (w.put Y _).stack = [] from idle) X⟩
  | @deliver c buf s idle mem ok arr =>
    obtain ⟨g, core, act⟩ := h
    have fit := (core.genuine c mem).length_le
    have inv := Inv.arrive ⟨g, core, act⟩ arr fit (c.stamp c.src)
      (.inr ⟨c, mem, c.src.peer_peer.symm, le w c ok, rfl, rfl⟩)
    rw [idle] at inv
    have young := le w c ok c.src
    refine ⟨inv, c.src.peer, Nested.exec (.single rfl ?_) rfl⟩
    rw [System.hand_assigned_peer, Host.peer_peer]
    exact young
  | @corrupt buf s Y bytes idle fit arr bad =>
    have inv := h.arrive arr fit (w.assigned Y.peer) (.inl bad)
    rw [idle] at inv
    refine ⟨inv, Y, Nested.exec (.single rfl ?_) rfl⟩
    rw [System.hand_assigned_peer]
    exact Nat.le_add_right _ _

/-- The invariant holds in every state of every run over the network. -/
lemma System.Net.steps_inv (le : ∀ w c, fresh w c → w.Fresh c)
    (run : Relation.ReflTransGen (System.Net fresh) (.fresh p) w) : Inv p w ∧ ∃ X, Nested w X := by
  induction run with
  | refl => exact ⟨.fresh p, .a, .nil rfl .a⟩
  | tail _ st ih => exact st.inv le ih.1 ih.2

end Runs

/-- The byte strings handed to the data callback of a receiver are a prefix of what its peer was given
to send. -/
lemma Receiver.prefix_sent {size n : ℕ} {s r : TcpLiteSession} {fs fs' : List Frame}
    (h : Receiver s.log.packets r fs) (sender : Sender size n s fs') :
    r.log.delivered.flatten <+: s.log.sent := by
  refine ⟨(((s.log.packets.map payloadOf).drop r.log.delivered.length).flatten
    ++ s.pendingTx.drop (s.txOff + (pumps fs').sum)), ?_⟩
  rw [← sender.chunks, ← List.append_assoc, ← List.flatten_append]
  nth_rewrite 1 [h.delivered]
  rw [List.take_append_drop]

/-- Stream safety. In every state of every run of two fresh sessions over a network that loses, repeats,
reorders, delays and corrupts datagrams, and delivers a copy only while neither side has assigned more
than `2 ^ 30` sequence numbers since it was transmitted: what a receiver's data callback was handed is a
prefix of what the sender was given to send, and `bytes_received_` is its length, not counting the packet
of a callback that has not returned. -/
theorem stream_safe (p : Setup) (w : System)
    (run : Relation.ReflTransGen (System.Net System.Fresh) (.fresh p) w) (X : Host) :
    (w.host X.peer).log.delivered.flatten <+: (w.host X).log.sent ∧
    (w.host X.peer).bytesReceived = BitVec.ofNat 64 ((w.host X.peer).log.delivered.take
      (returned (w.host X.peer) (framesOf X.peer w.stack))).flatten.length ∧
    (calls (framesOf X.peer w.stack) = [] →
      (w.host X.peer).bytesReceived = BitVec.ofNat 64 (w.host X.peer).log.delivered.flatten.length) := by
  obtain ⟨⟨g, core, _⟩, _⟩ := System.Net.steps_inv (fun _ _ h => h) run
  have receiver := core.receiver X.peer
  rw [Host.peer_peer] at receiver
  refine ⟨receiver.prefix_sent (core.sender X), receiver.counted, ?_⟩
  intro none
  have counted := receiver.counted
  rw [returned, none, List.length_nil, Nat.sub_zero, List.take_length] at counted
  exact counted

/-- Two sessions with four buffers each and nothing going on around them. -/
def Setup.small : Setup where
  size := fun _ => mtu
  count := fun _ => 4
  mem := fun _ _ => 0
  clock := fun _ => .unit
  rtoNs := fun _ => 0
  tape := fun _ => .silent
  fits := fun _ => le_refl _

/-- Host `a` has sent one byte. -/
def System.sentOne : System := (System.fresh .small).send false 20 .a [7]

/-- The packet has been delivered. -/
def System.deliveredOne : System := System.sentOne.deliver 20 0

/-- One byte is delivered. -/
theorem stream_safe_one_byte :
    (System.deliveredOne.host .b).log.delivered = [[7]] ∧
    (System.deliveredOne.host .b).log.delivered.flatten <+: (System.deliveredOne.host .a).log.sent := by
  have idle : System.sentOne.stack = [] := List.isEmpty_iff.mp (by decide +kernel)
  have young : ∀ c, System.sentOne.Fresh c := by
    have few : System.sentOne.assigned .a ≤ 1 ∧ System.sentOne.assigned .b ≤ 1 := by decide +kernel
    intro c X
    cases X with
    | a => exact few.1.trans (by omega)
    | b => exact few.2.trans (by omega)
  have run : Relation.ReflTransGen (System.Net System.Fresh) (.fresh .small) System.deliveredOne :=
    (System.send_net rfl 20 .a [7]).trans (System.deliver_net idle (fun c _ => young c) 20 0)
  have safe := stream_safe .small _ run .a
  rw [show Host.a.peer = .b from rfl] at safe
  exact ⟨by decide +kernel, safe.1⟩

end UxNet.TcpLite
