import UxNet.Capture.Live

/-!
# A program that polls the ring

`capture.cpp` and `bench_rx.cpp` have one loop: they call `receive`, do something with the frame where it
lies in the mapping, call `release`, and look at the clock in between. `Program` is what differs. The
kernel works on the other side of the mapping all the while.

`Program.Step` is the loop without the ring: the program is given the published frames one by one, in
order, and finds the number of those with `TP_STATUS_LOSING` where it asks for `frames_dropped()`. That
every run with the ring is such a run (`steps_refine`) is what the programs below rest on.
-/

namespace UxNet.Poll

open PacketRing (Arrival RxFrame)

/-- A frame as the program sees it: the bytes from `frame.data` on, `len` and `captured_len`. -/
structure Seen where
  view : ℕ → BitVec 8
  len : BitVec 32
  capturedLen : BitVec 32

/-- What a program does around `receive` and `release`; `other` has `frames_dropped()` at hand. -/
structure Program (Acc : Type) where
  polls : Acc → Prop
  miss : Acc → Acc
  take : Acc → Seen → Acc → Prop
  other : Acc → BitVec 64 → Acc → Prop

/-- The bytes of a slot from an offset on. -/
def viewOf (bytes : Bytes) : ℕ → BitVec 8 := fun i => bytes.getD i 0

/-- A published frame where it lies. -/
def seen (a : Arrival) : Seen where
  view := viewOf a.bytes
  len := a.len
  capturedLen := a.snaplen

/-- The frames with `TP_STATUS_LOSING`, as a counter of 64 bits. -/
def losing (frames : List Arrival) : BitVec 64 :=
  BitVec.ofNat 64 (frames.countP fun a => (PacketRing.tpStatusUser ||| a.flags) &&& PacketRing.tpStatusLosing ≠ 0)

variable {Acc : Type} {P : Program Acc} {frames : List Arrival} {n : ℕ}

/-- A step of the program alone, with the number of the frames it has been given. -/
inductive Program.Step (P : Program Acc) (frames : List Arrival) : ℕ × Acc → ℕ × Acc → Prop where
  | miss {i acc} :
    P.polls acc →
    Step P frames (i, acc) (i, P.miss acc)
  | take {i acc a acc'} :
    P.polls acc →
    frames[i]? = some a →
    P.take acc (seen a) acc' →
    Step P frames (i, acc) (i + 1, acc')
  | other {i acc acc'} :
    P.other acc (losing (frames.take i)) acc' →
    Step P frames (i, acc) (i, acc')

/-- Any number of steps. -/
abbrev Program.Steps (P : Program Acc) (frames : List Arrival) : ℕ × Acc → ℕ × Acc → Prop :=
  Relation.ReflTransGen (P.Step frames)

/-- Where the program is in an iteration: between frames, with a frame, done with a frame. -/
inductive Phase where
  | poll
  | took
  | handled
deriving DecidableEq, Repr

/-- The ring, with the kernel on its other side, and the program. -/
structure State (Acc : Type) (n : ℕ) where
  ring : PacketRing.State n
  acc : Acc
  phase : Phase

namespace State

/-- The kernel owns every slot. -/
def init [NeZero n] (slots : Fin n → PacketRing.Slot) (acc : Acc) : State Acc n where
  ring := .init slots
  acc := acc
  phase := .poll

/-- What the program sees of a frame. -/
def look (s : State Acc n) (frame : RxFrame) : Seen where
  view := viewOf (s.ring.mapped frame.data)
  len := frame.len
  capturedLen := frame.capturedLen

/-- A step of the kernel or of the program. The steps of the ring are its own; the program starts a call of
`receive` where it polls. -/
inductive Step (P : Program Acc) : State Acc n → State Acc n → Prop where
  | kernel {s a ring} :
    PacketRing.State.Kernel a s.ring ring →
    (∀ b ∈ a, Arrival.Fits b) →
    Step P s { s with ring := ring }
  | missed {s ring} :
    s.phase = .poll → P.polls s.acc →
    PacketRing.State.User .missed s.ring ring →
    Step P s { s with ring := ring, acc := P.miss s.acc }
  | reads {s ring} :
    s.phase = .poll → (s.ring.pc = .idle → P.polls s.acc) →
    PacketRing.State.User .reads s.ring ring →
    Step P s { s with ring := ring }
  | got {s frame ring} :
    s.phase = .poll →
    PacketRing.State.User (.got frame) s.ring ring →
    Step P s { s with ring := ring, phase := .took }
  | take {s frame acc} :
    s.phase = .took → s.ring.frame = some frame →
    P.take s.acc (s.look frame) acc →
    Step P s { s with acc := acc, phase := .handled }
  | gives {s ring} :
    s.phase = .handled →
    PacketRing.State.User .gives s.ring ring →
    Step P s { s with ring := ring }
  | moved {s ring} :
    s.phase = .handled →
    PacketRing.State.User .moved s.ring ring →
    Step P s { s with ring := ring, phase := .poll }
  | other {s acc} :
    s.phase = .poll → s.ring.pc = .idle →
    P.other s.acc s.ring.drops acc →
    Step P s { s with acc := acc }

/-- Any number of steps. -/
abbrev Steps (P : Program Acc) : State Acc n → State Acc n → Prop := Relation.ReflTransGen (Step P)

end State

/-! ## The run without the ring -/

/-- One more frame counts if it has `TP_STATUS_LOSING`. -/
lemma losing_concat (frames : List Arrival) (a : Arrival) : losing (frames ++ [a])
    = if (PacketRing.tpStatusUser ||| a.flags) &&& PacketRing.tpStatusLosing ≠ 0 then losing frames + 1
      else losing frames := by
  rw [losing, List.countP_append]
  split
  · rename_i bit
    rw [List.countP_singleton, if_pos (decide_eq_true bit), BitVec.ofNat_add]
    rfl
  · rename_i bit
    rw [List.countP_singleton, if_neg (by simpa using bit)]
    rfl

/-- The program is not given more frames than there are. -/
lemma Program.Steps.le {acc : Acc} {x : ℕ × Acc} (run : P.Steps frames (0, acc) x) :
    x.1 ≤ frames.length := by
  induction run with
  | refl => exact Nat.zero_le _
  | tail _ step ih =>
    cases step with
    | miss _ => exact ih
    | take _ get _ => exact (List.getElem?_eq_some_iff.mp get).1
    | other _ => exact ih

/-- Frames that are published later do not matter. -/
lemma Program.Steps.later {acc : Acc} {x : ℕ × Acc} (run : P.Steps frames (0, acc) x) (a : Arrival) :
    P.Steps (frames ++ [a]) (0, acc) x := by
  induction run with
  | refl => exact .refl
  | tail run step ih =>
    have le := Program.Steps.le run
    refine ih.tail ?_
    cases step with
    | miss polls => exact .miss polls
    | take polls get did => exact .take polls (Ring.getElem?_append_of_some get) did
    | other did =>
      refine .other ?_
      rwa [List.take_append_of_le_length le]

/-! ## The run with the ring -/

/-- The frames that the program was given and those that `drops_` has counted, at each place. -/
def State.Place (P : Program Acc) (s : State Acc n) (given counted : ℕ) : Prop :=
  match s.phase with
  | .poll => given = s.ring.released.length ∧ s.ring.frame = none ∧
    match s.ring.pc with
    | .idle => counted = s.ring.released.length
    | .readMac _ => counted = s.ring.released.length ∧ P.polls s.acc
    | .advance => False
    | _ => counted = s.ring.released.length + 1 ∧ P.polls s.acc
  | .took => given = s.ring.released.length ∧ counted = s.ring.released.length + 1 ∧
    s.ring.pc = .idle ∧ P.polls s.acc
  | .handled => (s.ring.pc = .idle ∧ given = s.ring.released.length + 1 ∧
      counted = s.ring.released.length + 1) ∨
    (s.ring.pc = .advance ∧ given = s.ring.released.length ∧ counted = s.ring.released.length)

variable [NeZero n]

/-- What holds between any two steps. -/
structure Inv (P : Program Acc) (start : Acc) (s : State Acc n) (given counted : ℕ) : Prop where
  ring : PacketRing.Inv s.ring
  fits : ∀ a ∈ s.ring.published, a.Fits
  place : s.Place P given counted
  run : P.Steps s.ring.published (0, start) (given, s.acc)
  drops : s.ring.drops = losing (s.ring.published.take counted)
  le : counted ≤ s.ring.published.length

namespace Inv

variable {s s' : State Acc n} {start : Acc} {given counted : ℕ}

/-- The program has been given nothing. -/
lemma init (P : Program Acc) (slots : Fin n → PacketRing.Slot) (start : Acc) :
    Inv P start (State.init slots start) 0 0 where
  ring := .init slots
  fits := nofun
  place := ⟨rfl, rfl, rfl⟩
  run := .refl
  drops := rfl
  le := le_rfl

/-- A frame that is published changes nothing for the program. -/
lemma publish (h : Inv P start s given counted) {a : Arrival} (fits : a.Fits)
    (free : (s.ring.slots s.ring.kernel).tpStatus = PacketRing.tpStatusKernel) :
    Inv P start { s with ring := s.ring.publish a } given counted where
  ring := h.ring.publish a free
  fits := PacketRing.fits_publish h.fits fits
  place := h.place
  run := Program.Steps.later h.run a
  drops := by
    show s.ring.drops = losing ((s.ring.published ++ [a]).take counted)
    rw [List.take_append_of_le_length h.le]
    exact h.drops
  le := by
    show counted ≤ (s.ring.published ++ [a]).length
    rw [List.length_append]
    exact Nat.le_add_right_of_le h.le

/-- The count of `drops_` goes up with a frame that has `TP_STATUS_LOSING`. -/
lemma counts (h : Inv P start s given counted) {a : Arrival} (get : s.ring.published[counted]? = some a) :
    (if a.slot.tpStatus &&& PacketRing.tpStatusLosing ≠ 0 then s.ring.drops + 1 else s.ring.drops)
      = losing (s.ring.published.take (counted + 1)) := by
  rw [List.take_add_one, get, Option.toList_some, losing_concat, h.drops]
  rfl

/-- The program sees the frame that was published. -/
lemma look (h : Inv P start s given counted) {frame : RxFrame} (held : s.ring.frame = some frame) :
    ∃ a, s.ring.published[s.ring.released.length]? = some a ∧ s.look frame = seen a := by
  obtain ⟨a, get, rfl⟩ := h.ring.frame frame held
  refine ⟨a, get, ?_⟩
  have fits := h.fits a (List.mem_of_getElem? get)
  rw [State.look, PacketRing.mapped_rx h.ring fits.mac le_rfl get]
  rfl

/-- `receive` goes on: it counts the frame where it looks at the status word it has loaded. -/
lemma reads (h : Inv P start s given counted) {ring : PacketRing.State n} (phase : s.phase = .poll)
    (polls : s.ring.pc = .idle → P.polls s.acc) (st : PacketRing.State.User .reads s.ring ring) :
    ∃ counted', Inv P start { s with ring := ring } given counted' := by
  have place := h.place
  have inv := h.ring.user_step st
  unfold State.Place at place
  cases st with
  | receive idle ready =>
    rw [phase, idle] at place
    refine ⟨counted, inv, h.fits, ?_, h.run, h.drops, h.le⟩
    unfold State.Place
    rw [phase]
    exact ⟨place.1, place.2.1, place.2.2, polls idle⟩
  | @readMac _ status here =>
    rw [phase, here] at place
    obtain ⟨rfl, none, rfl, polls⟩ := place
    obtain ⟨a, get, knows⟩ := h.ring.reading (by rw [here]; trivial)
    rw [here] at knows
    obtain rfl : status = a.slot.tpStatus := knows
    refine ⟨s.ring.released.length + 1, inv, h.fits, ?_, h.run, h.counts get,
      (List.getElem?_eq_some_iff.mp get).1⟩
    unfold State.Place
    rw [phase]
    exact ⟨rfl, none, rfl, polls⟩
  | readLen here =>
    rw [phase, here] at place
    refine ⟨counted, inv, h.fits, ?_, h.run, h.drops, h.le⟩
    unfold State.Place
    rw [phase]
    exact place

/-- Every step keeps the invariant. -/
lemma step (h : Inv P start s given counted) (st : State.Step P s s') :
    ∃ given' counted', Inv P start s' given' counted' := by
  have place := h.place
  unfold State.Place at place
  cases st with
  | kernel st fits =>
    cases st with
    | publish a free => exact ⟨_, _, h.publish (fits a rfl) free⟩
    | drop _ => exact ⟨_, _, h⟩
  | missed phase polls st =>
    cases st with
    | receiveFalse idle _ =>
      rw [phase, idle] at place
      refine ⟨given, counted, h.ring, h.fits, ?_, h.run.tail (.miss polls), h.drops, h.le⟩
      unfold State.Place
      rw [phase, idle]
      exact place
  | reads phase polls st => exact ⟨given, h.reads phase polls st⟩
  | got phase st =>
    have inv := h.ring.user_step st
    cases st with
    | readSnaplen here =>
      rw [phase, here] at place
      exact ⟨given, counted, inv, h.fits, ⟨place.1, place.2.2.1, rfl, place.2.2.2⟩, h.run, h.drops, h.le⟩
  | take phase held did =>
    rw [phase] at place
    obtain ⟨rfl, rfl, idle, polls⟩ := place
    obtain ⟨a, get, looks⟩ := h.look held
    rw [looks] at did
    exact ⟨_, _, h.ring, h.fits, .inl ⟨idle, rfl, rfl⟩, h.run.tail (.take polls get did), h.drops, h.le⟩
  | gives phase st =>
    have inv := h.ring.user_step st
    obtain ⟨idle, _, len, moving⟩ := st.gives
    rw [phase] at place
    obtain ⟨_, rfl, rfl⟩ := place.resolve_right fun moving => by simp [idle] at moving
    cases st with
    | release _ _ =>
      refine ⟨_, _, inv, h.fits, ?_, h.run, h.drops, h.le⟩
      unfold State.Place
      rw [phase]
      exact .inr ⟨moving, len.symm, len.symm⟩
  | moved phase st =>
    have inv := h.ring.user_step st
    cases st with
    | advance moving =>
      rw [phase] at place
      obtain ⟨_, rfl, rfl⟩ := place.resolve_left fun holding => by simp [moving] at holding
      exact ⟨_, _, inv, h.fits, ⟨rfl, (h.ring.moving moving).2, rfl⟩, h.run, h.drops, h.le⟩
  | other phase idle did =>
    rw [phase, idle] at place
    obtain ⟨rfl, none, rfl⟩ := place
    rw [h.drops] at did
    refine ⟨_, _, h.ring, h.fits, ?_, h.run.tail (.other did), h.drops, h.le⟩
    unfold State.Place
    rw [phase, idle]
    exact ⟨rfl, none, rfl⟩

end Inv

/-- Every run with the ring is one of the program alone over the frames that were published; between
frames, those it was given are those it has given back. -/
lemma steps_refine {slots : Fin n → PacketRing.Slot} {start : Acc} {s : State Acc n}
    (run : State.Steps P (.init slots start) s) :
    ∃ i, P.Steps s.ring.published (0, start) (i, s.acc) ∧
      (s.phase = .poll → i = s.ring.released.length) := by
  have inv : ∃ given counted, Inv P start s given counted := by
    induction run with
    | refl => exact ⟨0, 0, Inv.init P slots start⟩
    | tail _ step ih =>
      obtain ⟨given, counted, h⟩ := ih
      exact h.step step
  obtain ⟨given, counted, h⟩ := inv
  refine ⟨given, h.run, fun phase => ?_⟩
  have place := h.place
  unfold State.Place at place
  rw [phase] at place
  exact place.1

end UxNet.Poll
