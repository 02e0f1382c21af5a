import UxNet.TcpLite.Receiver

/-!
# Two sessions

Two sessions with one stack of active calls, and every datagram ever transmitted. A datagram stays where
it is once transmitted, so that losing, repeating, reordering and delaying copies of it are all a matter
of which one is delivered when. It carries, as a stamp, how many sequence numbers each side had assigned
when it was transmitted.

`Local` is what the sessions and the program around them do by themselves. `Net` adds a network that
delivers datagrams between two calls and `Sync` a `transmit_` that hands the datagram to the peer at once,
inside the call that transmits it. An arriving datagram is copied to a buffer of the receiver's pool, and
`on_packet_received` starts on it in the same step.
-/

namespace UxNet.TcpLite

open TcpLiteSession

/-- The two sides. -/
inductive Host where
  | a
  | b
deriving DecidableEq, Repr

/-- The other side. -/
def Host.peer : Host → Host
  | .a => .b
  | .b => .a

/-- The peer of the peer. -/
@[simp] lemma Host.peer_peer (X : Host) : X.peer.peer = X := by
  cases X with
  | a => rfl
  | b => rfl

/-- No side is its own peer. -/
lemma Host.peer_ne (X : Host) : X.peer ≠ X := by
  cases X with
  | a => decide
  | b => decide

/-- There are two sides. -/
lemma Host.eq_or_peer (X Y : Host) : Y = X ∨ Y = X.peer := by
  cases X with
  | a =>
    cases Y with
    | a => exact .inl rfl
    | b => exact .inr rfl
  | b =>
    cases Y with
    | a => exact .inr rfl
    | b => exact .inl rfl

/-- A transmitted datagram, with the sequence numbers assigned so far on both sides. -/
structure Copy where
  src : Host
  kind : TxKind
  bytes : Bytes
  stamp : Host → ℕ

/-- An active call. The stamp is the number of sequence numbers the peer had assigned when the datagram
of an `on_packet_received` call was transmitted, or when another call was made. -/
structure Entry where
  host : Host
  frame : Frame
  stamp : ℕ

/-- Two sessions, their active calls, the innermost first, and what they have transmitted. -/
structure System where
  host : Host → TcpLiteSession
  stack : List Entry
  net : List Copy

/-- The rest of the program uses the pool; what the environment decides from now on is on `tape`. -/
def TcpLiteSession.program (ops : List CallerOp) (tape : Tape) (s : TcpLiteSession) : TcpLiteSession :=
  { s with pool := s.pool.callerOps ops, tape := tape }

/-- The active calls of one side. -/
def framesOf (X : Host) (st : List Entry) : List Frame :=
  (st.filter fun e => e.host = X).map (·.frame)

namespace System

/-- The sequence numbers a side has assigned. -/
def assigned (w : System) (X : Host) : ℕ := (w.host X).log.packets.length

/-- The packets of the peer a side has received in one piece. -/
def expected (w : System) (X : Host) : ℕ :=
  TcpLite.expected (w.host X) (framesOf X w.stack)

/-- The packets of the peer for which the data callback of a side has returned. -/
def returned (w : System) (X : Host) : ℕ :=
  TcpLite.returned (w.host X) (framesOf X w.stack)

/-- The call `e`, made over the calls `rest`, runs to the next point at which control rests; what it
transmits is put on the network. -/
def run (w : System) (e : Entry) (rest : List Entry) : System :=
  let s := w.host e.host
  let r := TcpLite.exec s e.frame
  let host := Function.update w.host e.host r.1
  { host := host
    stack := r.2.map (fun f => { host := e.host, frame := f, stamp := e.stamp }) ++ rest
    net := w.net ++ (r.1.log.wire.drop s.log.wire.length).map fun t =>
      { src := e.host, kind := t.kind, bytes := t.bytes
        stamp := fun X => (host X).log.packets.length } }

/-- The innermost call runs. -/
def exec (w : System) : System :=
  match w.stack with
  | [] => w
  | e :: rest => w.run e rest

/-- One side changes. -/
def put (w : System) (X : Host) (s : TcpLiteSession) : System :=
  { w with host := Function.update w.host X s }

/-- A buffer that a datagram was copied to is handed to a session, whose state is `s` by then. -/
def hand (w : System) (X : Host) (buf : ℕ) (s : TcpLiteSession) (stamp : ℕ) (rest : List Entry) :
    System :=
  { w.put X (s.handOver buf) with
    stack := { host := X, frame := .receive buf, stamp := stamp } :: rest }

/-- A step of the sessions' own code or of the program around them. -/
inductive Local : System → System → Prop where
  | exec {w} :
    w.stack ≠ [] →
    Local w w.exec
  | send {w} (X : Host) (data : Bytes) :
    w.stack = [] →
    Local w { w with stack := [{ host := X, frame := .sends [data], stamp := w.assigned X.peer }] }
  | tick {w} (X : Host) :
    w.stack = [] →
    Local w { w with stack := [{ host := X, frame := .tick, stamp := w.assigned X.peer }] }
  | program {w} (X : Host) (ops : List CallerOp) (tape : Tape) :
    w.stack = [] →
    Local w (w.put X ((w.host X).program ops tape))

/-- Neither side has assigned more than `2 ^ 30` sequence numbers since the copy was transmitted. -/
def Fresh (w : System) (c : Copy) : Prop := ∀ X, w.assigned X ≤ c.stamp X + 2 ^ 30

/-- A step with a network that delivers copies between two calls, while they are fresh. -/
inductive Net (fresh : System → Copy → Prop) : System → System → Prop where
  | call {w w'} :
    Local w w' →
    Net fresh w w'
  | deliver {w c buf s} :
    w.stack = [] →
    c ∈ w.net →
    fresh w c →
    (w.host c.src.peer).arrive c.bytes = some (buf, s) →
    Net fresh w (w.hand c.src.peer buf s (c.stamp c.src) []).exec
  | corrupt {w buf s} (X : Host) (bytes : Bytes) :
    w.stack = [] →
    bytes.length ≤ mtu →
    (w.host X).arrive bytes = some (buf, s) →
    (readChecked.run (s.pool.view buf)).2 = false →
    Net fresh w (w.hand X buf s (w.assigned X.peer) []).exec

/-- A step with a `transmit_` that drops the datagram (the call returns) or hands a copy of it to the
peer at once. -/
inductive Sync : System → System → Prop where
  | call {w w'} :
    Local w w' →
    Sync w w'
  | enter {w X stamp rest pre c buf s} :
    w.stack = { host := X, frame := .transmitting, stamp := stamp } :: rest →
    w.net = pre ++ [c] →
    (w.host X.peer).arrive c.bytes = some (buf, s) →
    Sync w (w.hand X.peer buf s (c.stamp X) rest).exec

/-- The next step of the active calls, with a `transmit_` that hands datagrams to the peer or drops
them. -/
def advance (deliver : Bool) (w : System) : System :=
  match w.stack with
  | [] => w
  | e :: rest =>
    match deliver, e.frame, w.net.getLast? with
    | true, .transmitting, some c =>
      match (w.host e.host.peer).arrive c.bytes with
      | some (buf, s) => (w.hand e.host.peer buf s (c.stamp e.host) rest).exec
      | none => w.exec
    | _, _, _ => w.exec

/-- Run the active calls, for at most `n` steps. -/
def settle (deliver : Bool) : ℕ → System → System
  | 0, w => w
  | n + 1, w => settle deliver n (w.advance deliver)

/-- `send` is called, and runs for at most `n` steps. -/
def send (deliver : Bool) (n : ℕ) (X : Host) (data : Bytes) (w : System) : System :=
  settle deliver n
    { w with stack := [{ host := X, frame := .sends [data], stamp := w.assigned X.peer }] }

/-- `tick` is called, and runs for at most `n` steps. -/
def tick (deliver : Bool) (n : ℕ) (X : Host) (w : System) : System :=
  settle deliver n { w with stack := [{ host := X, frame := .tick, stamp := w.assigned X.peer }] }

/-- The network delivers the datagram number `i`, and `on_packet_received` runs for at most `n` steps. -/
def deliver (n i : ℕ) (w : System) : System :=
  match w.net[i]? with
  | some c =>
    match (w.host c.src.peer).arrive c.bytes with
    | some (buf, s) => settle false n (w.hand c.src.peer buf s (c.stamp c.src) []).exec
    | none => w
  | none => w

end System

/-- A call on the stack is one of its side. -/
lemma framesOf_cons (X : Host) (e : Entry) (st : List Entry) :
    framesOf X (e :: st) = if e.host = X then e.frame :: framesOf X st else framesOf X st := by
  unfold framesOf
  rw [List.filter_cons]
  split
  · rename_i eq
    rw [if_pos (by simpa using eq)]
    rfl
  · rename_i ne
    rw [if_neg (by simpa using ne)]

/-- The calls of two stacks. -/
lemma framesOf_append (X : Host) (st st' : List Entry) :
    framesOf X (st ++ st') = framesOf X st ++ framesOf X st' := by
  simp [framesOf]

/-- Entries of one side. -/
lemma framesOf_map (X Y : Host) (stamp : ℕ) (fs : List Frame) :
    framesOf X (fs.map fun f => { host := Y, frame := f, stamp := stamp })
      = if Y = X then fs else [] := by
  induction fs with
  | nil => simp [framesOf]
  | cons f fs ih =>
    rw [List.map_cons, framesOf_cons, ih]
    split
    · rfl
    · rfl

/-- The calls of a side. -/
lemma mem_framesOf {X : Host} {f : Frame} {st : List Entry} :
    f ∈ framesOf X st ↔ ∃ e ∈ st, e.host = X ∧ e.frame = f := by
  simp [framesOf, and_assoc]

namespace System

/-- The side that was replaced. -/
lemma put_self (w : System) (X : Host) (s : TcpLiteSession) : (w.put X s).host X = s :=
  Function.update_self _ _ _

/-- The peer stays as it is. -/
lemma put_peer (w : System) (X : Host) (s : TcpLiteSession) :
    (w.put X s).host X.peer = w.host X.peer :=
  Function.update_of_ne X.peer_ne _ _

/-- A delivery assigns no number of the peer. -/
lemma hand_assigned_peer (w : System) (X : Host) (buf : ℕ) (s : TcpLiteSession) (stamp : ℕ)
    (rest : List Entry) : (w.hand X buf s stamp rest).assigned X.peer = w.assigned X.peer :=
  congrArg (fun t => t.log.packets.length) (w.put_peer X _)

end System

/-! ## Running a system -/

namespace System

variable {w : System}

/-- Running the calls to their end is a run. -/
lemma settle_steps {R : System → System → Prop} {d : Bool}
    (step : ∀ w : System, w.stack ≠ [] → R w (w.advance d)) (n : ℕ) (w : System) :
    Relation.ReflTransGen R w (w.settle d n) := by
  induction n generalizing w with
  | zero => exact .refl
  | succ n ih =>
    rw [settle]
    by_cases idle : w.stack = []
    · have stay : w.advance d = w := by
        unfold advance
        rw [idle]
      rw [stay]
      exact ih w
    · exact .head (step w idle) (ih _)

/-- Dropping every datagram is running the sessions alone. -/
lemma advance_local (w : System) (busy : w.stack ≠ []) : Local w (w.advance false) := by
  have eq : w.advance false = w.exec := by
    unfold advance
    split
    · rename_i idle
      exact absurd idle busy
    · rfl
  rw [eq]
  exact .exec busy

/-- A datagram that is not dropped is handed to the peer. -/
lemma advance_sync (d : Bool) (w : System) (busy : w.stack ≠ []) : Sync w (w.advance d) := by
  unfold advance
  split
  · rename_i idle
    exact absurd idle busy
  · rename_i e rest st
    split
    · rename_i c transmitting last
      have net := (List.dropLast_append_getLast? c last).symm
      split
      · rename_i buf s arr
        obtain ⟨X, f, stamp⟩ := e
        dsimp only at transmitting
        subst transmitting
        exact .enter st net arr
      · exact .call (.exec busy)
    · exact .call (.exec busy)

/-- Calls over the network, run to some point. -/
lemma send_net {fresh : System → Copy → Prop} (idle : w.stack = []) (n : ℕ) (X : Host) (data : Bytes) :
    Relation.ReflTransGen (Net fresh) w (w.send false n X data) :=
  .head (.call (.send X data idle)) (settle_steps (fun w busy => .call (advance_local w busy)) n _)

/-- A side sends. -/
lemma send_sync (idle : w.stack = []) (d : Bool) (n : ℕ) (X : Host) (data : Bytes) :
    Relation.ReflTransGen Sync w (w.send d n X data) :=
  .head (.call (.send X data idle)) (settle_steps (advance_sync d) n _)

/-- A side calls `tick`. -/
lemma tick_sync (idle : w.stack = []) (d : Bool) (n : ℕ) (X : Host) :
    Relation.ReflTransGen Sync w (w.tick d n X) :=
  .head (.call (.tick X idle)) (settle_steps (advance_sync d) n _)

/-- A copy is delivered. -/
lemma deliver_net {fresh : System → Copy → Prop} (idle : w.stack = [])
    (young : ∀ c ∈ w.net, fresh w c) (n i : ℕ) :
    Relation.ReflTransGen (Net fresh) w (w.deliver n i) := by
  unfold deliver
  split
  · rename_i c get
    split
    · rename_i buf s arr
      have mem := List.mem_of_getElem? get
      exact .head (.deliver idle mem (young c mem) arr)
        (settle_steps (fun w busy => .call (advance_local w busy)) n _)
    · exact .refl
  · exact .refl

end System

/-- What a step of the innermost call `e` does to a system, by what it does to its session. -/
structure Ran (w : System) (e : Entry) (rest : List Entry) (s' : TcpLiteSession) (new : List Frame)
    (w' : System) : Prop where
  code : Case (w.host e.host) e.frame s' new
  self : w'.host e.host = s'
  peer : w'.host e.host.peer = w.host e.host.peer
  stack : w'.stack = new.map (fun f => { host := e.host, frame := f, stamp := e.stamp }) ++ rest
  own : framesOf e.host w'.stack = new ++ framesOf e.host rest
  other : framesOf e.host.peer w'.stack = framesOf e.host.peer rest
  net : (s'.log.wire = (w.host e.host).log.wire ∧ w'.net = w.net) ∨
    ∃ c : Copy, w'.net = w.net ++ [c] ∧ c.src = e.host ∧ (∀ X, c.stamp X = w'.assigned X) ∧
      Sends (w.host e.host) e.frame c.kind c.bytes ∧ (∃ fs, new = .transmitting :: fs) ∧
      s'.log.wire = (w.host e.host).log.wire ++ [{ kind := c.kind, bytes := c.bytes }]

/-- The innermost call runs. -/
lemma System.exec_ran {w : System} {e : Entry} {rest : List Entry} (st : w.stack = e :: rest) :
    Ran w e rest (TcpLite.exec (w.host e.host) e.frame).1 (TcpLite.exec (w.host e.host) e.frame).2
      w.exec := by
  have code := exec_case (w.host e.host) e.frame
  have eq : w.exec = w.run e rest := by
    unfold System.exec
    rw [st]
  rw [eq]
  unfold System.run
  dsimp only
  generalize TcpLite.exec (w.host e.host) e.frame = r at code
  have self : Function.update w.host e.host r.1 e.host = r.1 := Function.update_self _ _ _
  have peer : Function.update w.host e.host r.1 e.host.peer = w.host e.host.peer :=
    Function.update_of_ne e.host.peer_ne _ _
  refine ⟨code, self, peer, rfl, ?_, ?_, ?_⟩
  · show framesOf e.host (_ ++ rest) = _
    rw [framesOf_append, framesOf_map, if_pos rfl]
  · show framesOf e.host.peer (_ ++ rest) = _
    rw [framesOf_append, framesOf_map, if_neg e.host.peer_ne.symm]
    rfl
  · rcases code.wire with same | ⟨kind, bytes, fs, sends, wire, head⟩
    · left
      refine ⟨same, ?_⟩
      show w.net ++ _ = w.net
      rw [same, List.drop_length, List.map_nil, List.append_nil]
    · right
      refine ⟨{ src := e.host, kind := kind, bytes := bytes, stamp := _ }, ?_, rfl, fun X => rfl, sends,
        ⟨fs, head⟩, wire⟩
      show w.net ++ _ = w.net ++ _
      rw [wire, List.drop_left, List.map_singleton]

/-- What two fresh sessions are made of. -/
structure Setup where
  size : Host → ℕ
  count : Host → ℕ
  mem : Host → ℕ → BitVec 8
  clock : Host → TscClock
  rtoNs : Host → BitVec 64
  tape : Host → Tape
  fits : ∀ X, mtu ≤ size X

/-- Two fresh sessions. -/
def System.fresh (p : Setup) : System where
  host := fun X => .new (.new (p.size X) (p.count X) (p.mem X)) (p.clock X) (p.rtoNs X) (p.tape X)
  stack := []
  net := []

end UxNet.TcpLite
