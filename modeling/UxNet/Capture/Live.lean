import UxNet.Capture.Order
import UxNet.Ring.PacketRing

/-!
# From the kernel to the callbacks

`multiqueue_capture` as a whole: the kernel that fills the packet ring, the capture loop with each of its
accesses to the mapping, and the workers, in any interleaving. The capture loop copies a frame out of the
mapping after it has got a buffer, and gives the slot back after it has pushed the buffer; the kernel may
publish other frames all the while.

The frame that the capture loop carries in `Pipeline.lean` is history here: the copy reads the mapping.
That it finds the frame there (`bytesOf_rx`) makes each run one of the ring (`PacketRing.Inv`) and one of
the pipeline (`State.Steps` of `Capture`) at a time.
-/

namespace UxNet.PacketRing

/-- What the kernel writes lies in its slot. -/
structure Arrival.Fits (a : Arrival) : Prop where
  mac : a.mac.toNat < kFrameSize
  snaplen : a.snaplen.toNat ≤ a.bytes.length

/-- The captured part of a frame. -/
def Arrival.payload (a : Arrival) : Bytes := a.bytes.take a.snaplen.toNat

variable {n : ℕ}

/-- The bytes of the mapping from an offset on. -/
def State.mapped (s : State n) (offset : ℕ) : Bytes :=
  if h : offset / kFrameSize < n then
    (s.slots ⟨offset / kFrameSize, h⟩).bytes.drop
      (offset % kFrameSize - (s.slots ⟨offset / kFrameSize, h⟩).tpMac.toNat)
  else []

/-- What `frame.data` and `frame.captured_len` say is the frame. -/
def State.bytesOf (s : State n) (frame : RxFrame) : Bytes :=
  (s.mapped frame.data).take frame.capturedLen.toNat

/-- If the frame that the kernel publishes fits, all that is published fits. -/
lemma fits_publish {s : State n} {a : Arrival} (old : ∀ b ∈ s.published, b.Fits) (new : a.Fits) :
    ∀ b ∈ (s.publish a).published, b.Fits := by
  intro b mem
  rcases List.mem_append.mp mem with mem | mem
  · exact old b mem
  · rw [List.mem_singleton.mp mem]
    exact new

variable [NeZero n] {s : State n} {a : Arrival}

/-- A frame lies in the mapping until it is released. -/
lemma mapped_rx (h : Inv s) (inside : a.mac.toNat < kFrameSize) {i : ℕ} (le : s.released.length ≤ i)
    (get : s.published[i]? = some a) : s.mapped (a.rx n i).data = a.bytes := by
  have slot := h.slot le get
  have pos : 0 < kFrameSize := by decide
  have div : (frames (cell n i) + a.mac.toNat) / kFrameSize = (cell n i).val := by
    rw [frames, Nat.mul_comm, Nat.mul_add_div pos, Nat.div_eq_of_lt inside, Nat.add_zero]
  have mod : (frames (cell n i) + a.mac.toNat) % kFrameSize = a.mac.toNat := by
    rw [frames, Nat.mul_comm, Nat.mul_add_mod, Nat.mod_eq_of_lt inside]
  have here : (frames (cell n i) + a.mac.toNat) / kFrameSize < n := by
    rw [div]
    exact (cell n i).isLt
  have index : (⟨(frames (cell n i) + a.mac.toNat) / kFrameSize, here⟩ : Fin n) = cell n i := Fin.ext div
  show s.mapped (frames (cell n i) + a.mac.toNat) = _
  rw [State.mapped, dif_pos here, index, mod, slot]
  show a.bytes.drop (a.mac.toNat - a.mac.toNat) = _
  rw [Nat.sub_self, List.drop_zero]

/-- What the program finds at a frame that is not released is the frame as it was published. -/
lemma bytesOf_rx (h : Inv s) (fits : a.Fits) {i : ℕ} (le : s.released.length ≤ i)
    (get : s.published[i]? = some a) : s.bytesOf (a.rx n i) = a.payload := by
  rw [State.bytesOf, mapped_rx h fits.mac le get]
  rfl

end UxNet.PacketRing

namespace UxNet.Capture

open PacketRing (Arrival RxFrame)

/-- The capture loop is between `ring.receive` and `ring.release`, and not about to copy. -/
def Producer.Inside {p : Setup} : Producer p → Prop
  | .acquire _ | .push _ _ | .recordDrop _ _ | .release _ => True
  | _ => False

namespace Live

/-- The packet ring with the kernel on its other side, and the rest of the program. -/
structure State (p : Setup) (n : ℕ) where
  ring : PacketRing.State n
  cap : Capture.State p

variable {p : Setup} {n : ℕ}

namespace State

/-- The kernel owns every slot, and the threads are about to start. -/
def init (p : Setup) [NeZero n] (slots : Fin n → PacketRing.Slot) : State p n where
  ring := .init slots
  cap := .init p

/-- `ring.receive` has returned a frame. -/
def received (s : State p n) (frame : RxFrame) (ring : PacketRing.State n) : State p n where
  ring := ring
  cap := { s.cap with
    producer := .acquire (s.ring.bytesOf frame)
    taken := s.cap.taken ++ [s.ring.bytesOf frame] }

/-- A step of the kernel, of the capture loop or of a worker. The steps of the ring are its own
(`PacketRing.State.Kernel`, `PacketRing.State.User`); the capture loop says which of them it takes where. -/
inductive Step : State p n → State p n → Prop where
  | kernel {s a ring} :
    PacketRing.State.Kernel a s.ring ring →
    (∀ b ∈ a, Arrival.Fits b) →
    Step s { s with ring := ring }
  | stop {s} :
    s.cap.producer = .idle → s.ring.pc = .idle →
    Step s { s with cap := { s.cap with producer := .stopped, stop := true } }
  | missed {s ring} :
    s.cap.producer = .idle →
    PacketRing.State.User .missed s.ring ring →
    Step s { s with ring := ring }
  | reads {s ring} :
    s.cap.producer = .idle →
    PacketRing.State.User .reads s.ring ring →
    Step s { s with ring := ring }
  | got {s frame ring} :
    s.cap.producer = .idle →
    PacketRing.State.User (.got frame) s.ring ring →
    Step s (s.received frame ring)
  | handle {s cap} :
    s.cap.producer.Inside →
    Capture.State.Produce s.cap cap →
    Step s { s with cap := cap }
  | copy {s bytes buf frame} :
    s.cap.producer = .fill bytes buf → s.ring.frame = some frame →
    Step s { s with cap := s.cap.fill (s.ring.bytesOf frame) buf }
  | gives {s ring} :
    s.cap.producer = .ringRelease →
    PacketRing.State.User .gives s.ring ring →
    Step s { s with ring := ring }
  | moved {s ring} :
    s.cap.producer = .ringRelease →
    PacketRing.State.User .moved s.ring ring →
    Step s { ring := ring, cap := { s.cap with producer := .idle } }
  | work {s cap} (w : p.Queue) :
    Capture.State.Work w s.cap cap →
    Step s { s with cap := cap }

/-- Any number of steps. -/
abbrev Steps : State p n → State p n → Prop := Relation.ReflTransGen Step

/-- A frame is taken and not released. -/
structure Holding (s : State p n) : Prop where
  idle : s.ring.pc = .idle
  frame : s.ring.frame.isSome
  taken : s.cap.taken.length = s.ring.released.length + 1

/-- The frame at `current_frame_`. -/
def current (s : State p n) : Option Bytes :=
  s.ring.published[s.ring.released.length]?.map Arrival.payload

/-- Where the capture loop is, seen from both sides. -/
def Phase (s : State p n) : Prop :=
  match s.cap.producer with
  | .idle => s.ring.pc ≠ .advance ∧ s.cap.taken.length = s.ring.released.length
  | .stopped => s.ring.pc = .idle ∧ s.cap.taken.length = s.ring.released.length
  | .acquire frame => s.Holding ∧ s.current = some frame
  | .fill frame _ => s.Holding ∧ s.current = some frame
  | .ringRelease => s.Holding ∨ s.ring.pc = .advance ∧ s.cap.taken.length = s.ring.released.length
  | _ => s.Holding

/-- The phase is the same while neither side moves and the current frame stays. -/
lemma Phase.carry {s s' : State p n} (phase : s.Phase) (producer : s'.cap.producer = s.cap.producer)
    (taken : s'.cap.taken = s.cap.taken) (pc : s'.ring.pc = s.ring.pc) (frame : s'.ring.frame = s.ring.frame)
    (released : s'.ring.released = s.ring.released)
    (current : ∀ bytes, s.current = some bytes → s'.current = some bytes) : s'.Phase := by
  have holding : s.Holding → s'.Holding := fun held =>
    ⟨pc.trans held.idle, frame ▸ held.frame, by rw [taken, released]; exact held.taken⟩
  unfold State.Phase at phase ⊢
  rw [producer, taken, pc, released]
  cases here : s.cap.producer with
  | idle =>
    rw [here] at phase
    exact phase
  | stopped =>
    rw [here] at phase
    exact phase
  | acquire bytes =>
    rw [here] at phase
    exact phase.imp holding (current _)
  | fill bytes buf =>
    rw [here] at phase
    exact phase.imp holding (current _)
  | ringRelease =>
    rw [here] at phase
    exact phase.imp_left holding
  | _ =>
    rw [here] at phase
    exact holding phase

end State

variable [NeZero n]

/-- What holds between any two steps. -/
structure Inv (s : State p n) : Prop where
  ring : PacketRing.Inv s.ring
  cap : Capture.State.Steps (.init p) s.cap
  fits : ∀ a ∈ s.ring.published, a.Fits
  taken : s.cap.taken = (s.ring.published.take s.cap.taken.length).map Arrival.payload
  phase : s.Phase

namespace Inv

variable {s s' : State p n}

/-- Nothing has been published or taken. -/
lemma init (slots : Fin n → PacketRing.Slot) : Inv (State.init p slots) where
  ring := .init slots
  cap := .refl
  fits := nofun
  taken := rfl
  phase := ⟨nofun, rfl⟩

/-- What is taken was published. -/
lemma taken_le (h : Inv s) : s.cap.taken.length ≤ s.ring.published.length := by
  have len := congrArg List.length h.taken
  rw [List.length_map, List.length_take] at len
  omega

/-- Publishing a frame changes nothing for the capture loop. -/
lemma publish (h : Inv s) {a : Arrival} (fits : a.Fits)
    (free : (s.ring.slots s.ring.kernel).tpStatus = PacketRing.tpStatusKernel) :
    Inv { s with ring := s.ring.publish a } := by
  refine ⟨h.ring.publish a free, h.cap, PacketRing.fits_publish h.fits fits, ?_, ?_⟩
  · show s.cap.taken = ((s.ring.published ++ [a]).take s.cap.taken.length).map _
    rw [List.take_append_of_le_length h.taken_le]
    exact h.taken
  · refine h.phase.carry rfl rfl rfl rfl rfl ?_
    intro bytes here
    obtain ⟨b, get, rfl⟩ := Option.map_eq_some_iff.mp here
    exact Option.map_eq_some_iff.mpr ⟨b, Ring.getElem?_append_of_some get, rfl⟩

/-- The kernel publishes a frame or drops it. -/
lemma kernel (h : Inv s) {a : Option Arrival} {ring : PacketRing.State n}
    (st : PacketRing.State.Kernel a s.ring ring) (fits : ∀ b ∈ a, Arrival.Fits b) :
    Inv { s with ring := ring } := by
  cases st with
  | publish a free => exact h.publish (fits a rfl) free
  | drop _ => exact h

/-- `receive` goes on within the call. -/
lemma reads (h : Inv s) {ring : PacketRing.State n} (idle : s.cap.producer = .idle)
    (st : PacketRing.State.User .reads s.ring ring) : Inv { s with ring := ring } := by
  have phase := h.phase
  unfold State.Phase at phase
  rw [idle] at phase
  obtain ⟨published, released, still⟩ := st.reads
  refine ⟨h.ring.user_step st, h.cap, ?_, ?_, ?_⟩
  · rw [published]
    exact h.fits
  · rw [published]
    exact h.taken
  · unfold State.Phase
    rw [idle, released]
    exact ⟨still, phase.2⟩

/-- `receive` returns the frame at `current_frame_`. -/
lemma received (h : Inv s) {frame : RxFrame} {ring : PacketRing.State n} (idle : s.cap.producer = .idle)
    (st : PacketRing.State.User (.got frame) s.ring ring) : Inv (s.received frame ring) := by
  have phase := h.phase
  unfold State.Phase at phase
  rw [idle] at phase
  have count := phase.2
  obtain ⟨a, get, rfl⟩ := h.ring.got st
  obtain ⟨published, released, here, held⟩ := st.got
  have bytes := PacketRing.bytesOf_rx h.ring (h.fits a (List.mem_of_getElem? get)) le_rfl get
  unfold State.received
  rw [bytes]
  have len : (s.cap.taken ++ [a.payload]).length = s.ring.released.length + 1 := by
    rw [List.length_append, count]
    rfl
  refine ⟨h.ring.user_step st, h.cap.tail (.produce (.receive a.payload idle)), ?_, ?_, ?_⟩
  · rw [published]
    exact h.fits
  · show s.cap.taken ++ [a.payload] = (ring.published.take (s.cap.taken ++ [a.payload]).length).map _
    rw [published, len, List.take_add_one, List.map_append, get, ← count, ← h.taken]
    rfl
  · refine ⟨⟨here, by rw [held]; rfl, by rw [released]; exact len⟩, ?_⟩
    show ring.published[ring.released.length]?.map _ = _
    rw [published, released, get]
    rfl

/-- `release` hands the slot back. -/
lemma gives (h : Inv s) {ring : PacketRing.State n} (here : s.cap.producer = .ringRelease)
    (st : PacketRing.State.User .gives s.ring ring) : Inv { s with ring := ring } := by
  have phase := h.phase
  unfold State.Phase at phase
  rw [here] at phase
  obtain ⟨idle, published, released, moving⟩ := st.gives
  have holding := phase.resolve_right fun moving => by simp [idle] at moving
  refine ⟨h.ring.user_step st, h.cap, ?_, ?_, ?_⟩
  · rw [published]
    exact h.fits
  · rw [published]
    exact h.taken
  · unfold State.Phase
    rw [here, released]
    exact .inr ⟨moving, holding.taken⟩

/-- `release` returns. -/
lemma moved (h : Inv s) {ring : PacketRing.State n} (here : s.cap.producer = .ringRelease)
    (st : PacketRing.State.User .moved s.ring ring) :
    Inv { ring := ring, cap := { s.cap with producer := .idle } } := by
  have phase := h.phase
  unfold State.Phase at phase
  rw [here] at phase
  have inv := h.ring.user_step st
  cases st with
  | advance moving =>
    have count := phase.resolve_left fun holding => by
      have := holding.idle
      simp [moving] at this
    exact ⟨inv, h.cap.tail (.produce (.ringRelease here)), h.fits, h.taken, by simp, count.2⟩

/-- The capture loop handles a frame. -/
lemma handle (h : Inv s) {cap : Capture.State p} (inside : s.cap.producer.Inside)
    (st : Capture.State.Produce s.cap cap) : Inv { s with cap := cap } := by
  have phase := h.phase
  unfold State.Phase at phase
  have run := h.cap.tail (.produce st)
  cases st with
  | acquire here _ =>
    rw [here] at phase
    exact ⟨h.ring, run, h.fits, h.taken, ⟨phase.1.idle, phase.1.frame, phase.1.taken⟩, phase.2⟩
  | exhausted here _ =>
    rw [here] at phase
    exact ⟨h.ring, run, h.fits, h.taken, .inl ⟨phase.1.idle, phase.1.frame, phase.1.taken⟩⟩
  | push here _ =>
    rw [here] at phase
    exact ⟨h.ring, run, h.fits, h.taken, .inl ⟨phase.idle, phase.frame, phase.taken⟩⟩
  | full here _ =>
    rw [here] at phase
    exact ⟨h.ring, run, h.fits, h.taken, ⟨phase.idle, phase.frame, phase.taken⟩⟩
  | recordDrop here =>
    rw [here] at phase
    exact ⟨h.ring, run, h.fits, h.taken, ⟨phase.idle, phase.frame, phase.taken⟩⟩
  | release here =>
    rw [here] at phase
    exact ⟨h.ring, run, h.fits, h.taken, .inl ⟨phase.idle, phase.frame, phase.taken⟩⟩
  | receive _ here =>
    rw [here] at inside
    exact inside.elim
  | stop here =>
    rw [here] at inside
    exact inside.elim
  | fill here =>
    rw [here] at inside
    exact inside.elim
  | ringRelease here =>
    rw [here] at inside
    exact inside.elim

/-- The copy finds the frame that was received. -/
lemma copy (h : Inv s) {bytes : Bytes} {buf : ℕ} {frame : RxFrame}
    (here : s.cap.producer = .fill bytes buf) (held : s.ring.frame = some frame) :
    Inv { s with cap := s.cap.fill (s.ring.bytesOf frame) buf } := by
  have phase := h.phase
  unfold State.Phase at phase
  rw [here] at phase
  obtain ⟨a, get, rfl⟩ := h.ring.frame frame held
  have current := phase.2
  rw [State.current, get] at current
  obtain rfl : a.payload = bytes := Option.some.inj current
  rw [PacketRing.bytesOf_rx h.ring (h.fits a (List.mem_of_getElem? get)) le_rfl get]
  exact ⟨h.ring, h.cap.tail (.produce (.fill here)), h.fits, h.taken,
    ⟨phase.1.idle, phase.1.frame, phase.1.taken⟩⟩

/-- A worker leaves the capture loop alone. -/
lemma work (h : Inv s) {cap : Capture.State p} {w : p.Queue} (st : Capture.State.Work w s.cap cap) :
    Inv { s with cap := cap } := by
  obtain ⟨taken, producer⟩ : cap.taken = s.cap.taken ∧ cap.producer = s.cap.producer := by
    cases st with
    | _ => exact ⟨rfl, rfl⟩
  refine ⟨h.ring, h.cap.tail (.work w st), h.fits, ?_, ?_⟩
  · rw [taken]
    exact h.taken
  · exact h.phase.carry producer taken rfl rfl rfl fun _ => id

/-- Every step keeps the invariant. -/
lemma step (h : Inv s) (st : State.Step s s') : Inv s' := by
  cases st with
  | kernel st fits => exact h.kernel st fits
  | stop idle here =>
    have phase := h.phase
    unfold State.Phase at phase
    rw [idle] at phase
    exact ⟨h.ring, h.cap.tail (.produce (.stop idle)), h.fits, h.taken, here, phase.2⟩
  | missed _ st =>
    cases st with
    | receiveFalse _ _ => exact h
  | reads idle st => exact h.reads idle st
  | got idle st => exact h.received idle st
  | handle inside st => exact h.handle inside st
  | copy here held => exact h.copy here held
  | gives here st => exact h.gives here st
  | moved here st => exact h.moved here st
  | work w st => exact h.work st

/-- So does every run. -/
lemma steps {slots : Fin n → PacketRing.Slot} (run : State.Steps (State.init p slots) s) : Inv s := by
  induction run with
  | refl => exact init slots
  | tail _ st ih => exact ih.step st

/-- At most one frame is taken and not released. -/
lemma taken_bounds (h : Inv s) : s.ring.released.length ≤ s.cap.taken.length ∧
    s.cap.taken.length ≤ s.ring.released.length + 1 := by
  have phase := h.phase
  have holding : s.Holding → s.ring.released.length ≤ s.cap.taken.length ∧
      s.cap.taken.length ≤ s.ring.released.length + 1 := by
    intro held
    have := held.taken
    omega
  unfold State.Phase at phase
  cases here : s.cap.producer with
  | idle =>
    rw [here] at phase
    omega
  | stopped =>
    rw [here] at phase
    omega
  | acquire frame =>
    rw [here] at phase
    exact holding phase.1
  | fill frame buf =>
    rw [here] at phase
    exact holding phase.1
  | ringRelease =>
    rw [here] at phase
    rcases phase with held | moving
    · exact holding held
    · omega
  | _ =>
    rw [here] at phase
    exact holding phase

/-- Between frames every frame taken is released. -/
lemma taken_eq (h : Inv s) (rest : s.cap.producer = .idle ∨ s.cap.producer = .stopped) :
    s.cap.taken.length = s.ring.released.length := by
  have phase := h.phase
  unfold State.Phase at phase
  rcases rest with here | here
  · rw [here] at phase
    exact phase.2
  · rw [here] at phase
    exact phase.2

/-- What was pushed is the beginning of a frame that the kernel has published. -/
lemma pushed (h : Inv s) {q : p.Queue} {e : Entry} (mem : e ∈ s.cap.pushed q) :
    ∃ a, s.ring.published[e.arrival]? = some a ∧
      e.bytes = a.bytes.take (min p.capacity.toNat a.snaplen.toNat) := by
  obtain ⟨frame, get, bytes⟩ := ((Capture.Inv.steps h.cap).captured mem).frame
  rw [h.taken, List.getElem?_map] at get
  obtain ⟨a, got, rfl⟩ := Option.map_eq_some_iff.mp get
  refine ⟨a, ?_, ?_⟩
  · rw [List.getElem?_take] at got
    split at got
    · exact got
    · cases got
  · rw [bytes, Arrival.payload, List.take_take]

end Inv

end Live

/-- The capture program as a whole. In every run of the kernel, the capture loop and the workers: the frames
taken are the frames published, each once and in order, and at most one of them is not released yet; what a
worker passes to its callback is what the kernel has published, up to the captured length or the size of a
buffer, and in the order in which it was published; and between frames the frames published are those
processed, dropped for want of room in a queue or of a buffer, waiting in a queue, or waiting in the packet
ring. -/
theorem capture_end_to_end (p : Setup) {n : ℕ} [NeZero n] (slots : Fin n → PacketRing.Slot)
    (s : Live.State p n) (run : Live.State.Steps (.init p slots) s) :
    s.cap.taken = (s.ring.published.take s.cap.taken.length).map Arrival.payload ∧
    s.ring.released.length ≤ s.cap.taken.length ∧ s.cap.taken.length ≤ s.ring.released.length + 1 ∧
    (∀ q, s.cap.seen q <+: s.cap.pushed q ∧
      (s.cap.pushed q).Pairwise (fun e e' => e.arrival < e'.arrival) ∧
      ∀ e ∈ s.cap.pushed q, ∃ a, s.ring.published[e.arrival]? = some a ∧
        e.bytes = a.bytes.take (min p.capacity.toNat a.snaplen.toNat)) ∧
    ((s.cap.producer = .idle ∨ s.cap.producer = .stopped) →
      (∀ w, s.cap.workers w = .pop ∨ s.cap.workers w = .stopped) →
      BitVec.ofNat 64 s.ring.published.length
        = ∑ w, ((s.cap.stats w).packetsProcessed + (s.cap.stats w).packetsDropped)
          + s.cap.pool.totalExhausted + ∑ q, (s.cap.queues q).size
          + BitVec.ofNat 64 (s.ring.published.length - s.ring.released.length)) := by
  have h := Live.Inv.steps run
  have inv := Inv.steps h.cap
  refine ⟨h.taken, h.taken_bounds.1, h.taken_bounds.2, ?_, ?_⟩
  · exact fun q => ⟨inv.seen_prefix q, inv.sorted q, fun e mem => h.pushed mem⟩
  · intro producer workers
    rw [← inv.balanced producer workers, h.taken_eq producer, ← BitVec.ofNat_add]
    congr 1
    have := h.ring.bounds.1
    omega

/-- A frame on its way from the kernel to the callback. -/
theorem capture_one_frame : ∃ s : Live.State .small 1,
    Live.State.Steps (.init .small fun _ => ⟨0, 0, 0, 0, []⟩) s ∧
      (s.cap.seen 0).map (·.bytes) = [[1, 2]] ∧
      s.cap.taken = (s.ring.published.take s.cap.taken.length).map Arrival.payload := by
  have fits : Arrival.short.Fits := ⟨by decide, by decide⟩
  have run : Live.State.Steps (.init .small fun _ : Fin 1 => ⟨0, 0, 0, 0, []⟩) _ :=
    .head (.kernel (.publish .short rfl) fun _ eq => Option.some.inj eq ▸ fits) <|
    .head (.reads rfl (.receive rfl (by decide))) <|
    .head (.reads rfl (.readMac rfl)) <|
    .head (.reads rfl (.readLen rfl)) <|
    .head (.got rfl (.readSnaplen rfl)) <|
    .head (.handle trivial (.acquire rfl rfl)) <|
    .head (.copy rfl rfl) <|
    .head (.handle trivial (.push rfl rfl)) <|
    .head (.work 0 (.pop rfl rfl)) <|
    .head (.work 0 (.callback rfl)) .refl
  exact ⟨_, run, by decide, (capture_end_to_end .small _ _ run).1⟩

end UxNet.Capture
